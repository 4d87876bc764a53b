import TestMac.Lib.Commutes
import TestMac.Mac.OwnRows

/-!
# What a cell sees of its own

A cell with all rows forgotten that are not its own does what it does with them, as long as
the slot that it prepares leads to a row of its own.
-/

namespace TestMac

open Bytes Act

/-- Rows that nothing is known of. -/
def forgottenRows : TcRows where
  gL1DLTTIReq := ⟨fun _ _ => 0⟩
  gL1DlttiReqSize := ⟨fun _ => 0⟩
  gL1ULTTI := ⟨fun _ _ => 0⟩
  gL1UlttiReqSize := ⟨fun _ => 0⟩
  gL1TXDATAREQ := ⟨fun _ _ => 0⟩
  gL1TxdataReqSize := ⟨fun _ => 0⟩

/-- The cell with the rows that it has, without those behind them. -/
def Cell.ownPart (c : Cell) : Cell :=
  c.own.withRows (c.tables.toTcRows.put ownRows forgottenRows)

/-- A slot indication that schedules a slot leads to a row of the cell. -/
def Cell.SlotInRows (env : Env) (c : Cell) (slotInd : SlotIndication) : Prop :=
  c.Schedules →
    IsOwnRow (sfnWindow (preparedSlot env c slotInd).SFN) ((preparedSlot env c slotInd).Slot % 256)

instance (env : Env) (c : Cell) (slotInd : SlotIndication) :
    Decidable (c.SlotInRows env slotInd) := inferInstanceAs (Decidable (_ → _))

variable {env : Env} {c : Cell} {cells : Cells} {sfn slot p : ℕ}

theorem TcRows.SameOwn.put_eq {rows rows' : TcRows} (h : rows.SameOwn rows') :
    rows.put ownRows forgottenRows = rows'.put ownRows forgottenRows := by
  have hput : ∀ {α : Type} {table table' part : SlotTable α},
      (∀ k < ownRows, table.rows k = table'.rows k) →
      table.put ownRows part = table'.put ownRows part := by
    intro α table table' part hrows
    ext k
    simp only [SlotTable.put]
    split_ifs with hk
    · exact hrows k hk
    · rfl
  simp only [TcRows.put, TcRows.mk.injEq]
  exact ⟨hput h.dltti, hput h.dlttiSize, hput h.ultti, hput h.ulttiSize, hput h.txdata,
    hput h.txdataSize⟩

/-- A cell that leaves the rows behind its own alone leaves every other cell its part. -/
theorem ownPart_set_other {dev cell dev' cell' : ℕ} (hcell : cell < macMaxCellNum)
    (hcell' : cell' < macMaxCellNum) (hbehind : c.rowsBehind = (cells dev cell).rowsBehind)
    (hne : ¬ (dev' = dev ∧ cell' = cell)) :
    ((cells.set dev cell c) dev' cell').ownPart = (cells dev' cell').ownPart := by
  have hrows : ((cells.rows.put (firstRow dev cell) c.tables.toTcRows).behind
      (firstRow dev' cell')).SameOwn (cells.rows.behind (firstRow dev' cell')) :=
    TcRows.sameOwn_put hbehind (firstRow_disjoint hcell hcell' hne)
  have hown : ((cells.set dev cell c) dev' cell').own = (cells dev' cell').own :=
    cells_set_own hne
  rw [Cell.ownPart, Cell.ownPart, hown]
  exact congrArg _ hrows.put_eq

section Commutes

/-- A row of the cell is the same in its part. -/
theorem put_rows {α : Type} (table part : SlotTable α) (hp : p < ownRows) :
    (table.put ownRows part).rows p = table.rows p := if_pos hp

theorem put_set {α : Type} (table part : SlotTable α) (hp : p < ownRows) (v : α) :
    (table.put ownRows part).set p v = (table.set p v).put ownRows part := by
  ext k
  simp only [SlotTable.put, SlotTable.set]
  by_cases hk : k = p
  · rw [if_pos hk, if_pos (hk ▸ hp), if_pos hk]
  · rw [if_neg hk, if_neg hk]

theorem commutes_pcxx {α : Type} (answer : ℕ → α) : Commutes Cell.ownPart (pcxx answer) c := rfl

theorem commutes_setPhyState (state : MacStatus) :
    Commutes Cell.ownPart (setPhyState state) c := rfl

theorem commutes_setClock (f : SlotClock → SlotClock) :
    Commutes Cell.ownPart (setClock f) c := rfl

theorem commutes_logEvent (e : CellEvent) : Commutes Cell.ownPart (logEvent e) c := rfl

theorem commutes_allocL1CtrlMsgMem (size : ℕ) :
    Commutes Cell.ownPart (allocL1CtrlMsgMem env size) c := by
  refine (commutes_pcxx _).bind fun room _ _ => (Commutes.assert _).bind fun _ _ _ => ?_
  exact (Commutes.assert _).bind fun _ _ _ => Commutes.update rfl

theorem commutes_setL1CtrlMsgGrpHeader : Commutes Cell.ownPart (setL1CtrlMsgGrpHeader env) c := by
  refine (commutes_pcxx _).bind fun room _ _ => (Commutes.assert _).bind fun _ _ _ => ?_
  refine (Commutes.assert _).bind fun _ _ _ => Commutes.bind (Commutes.update rfl) fun _ _ _ => ?_
  exact (commutes_pcxx _).bind fun _ _ _ => Commutes.pure _

theorem commutes_appendL1Msg (msgId msgSize : ℕ) (body : List UInt8) (sfn slot msgType : ℕ) :
    Commutes Cell.ownPart (appendL1Msg env msgId msgSize body sfn slot msgType) c := by
  refine (Commutes.assert _).bind fun _ _ _ => (Commutes.assert _).bind fun _ _ _ => ?_
  refine (Commutes.assert _).bind fun _ _ _ => Commutes.bind (Commutes.update rfl) fun _ _ _ => ?_
  refine Commutes.bind (Commutes.read rfl) fun ctxt _ _ => (Commutes.assert _).bind fun _ _ _ => ?_
  refine (commutes_pcxx _).bind fun accepted _ _ => ?_
  exact (Commutes.when fun _ => commutes_logEvent _).bind fun _ _ _ => Commutes.update rfl

theorem commutes_l1MsgProc {body : CellM Unit} (h : ∀ c, Commutes Cell.ownPart body c) :
    Commutes Cell.ownPart (l1MsgProc env body) c := by
  refine (commutes_pcxx _).bind fun _ _ _ => Commutes.when fun _ => ?_
  refine commutes_setL1CtrlMsgGrpHeader.bind fun _ _ _ => (h _).bind fun _ _ _ => ?_
  exact (commutes_pcxx _).bind fun _ _ _ => Commutes.pure _

theorem commutes_sendHeaderOnly (msgId msgType : ℕ) :
    Commutes Cell.ownPart (sendHeaderOnly env msgId msgType) c :=
  commutes_l1MsgProc fun _ =>
    (commutes_allocL1CtrlMsgMem _).bind fun _ _ _ => commutes_appendL1Msg _ _ _ _ _ _

theorem commutes_sendPhyConfigReq : Commutes Cell.ownPart (sendPhyConfigReq env) c := by
  refine commutes_l1MsgProc fun _ => (commutes_allocL1CtrlMsgMem _).bind fun _ c₁ _ => ?_
  refine Commutes.read_bind rfl (Commutes.ite (fun _ => ?_) fun _ => ?_)
  · exact commutes_appendL1Msg _ _ _ _ _ _
  · exact commutes_appendL1Msg _ _ _ _ _ _

theorem commutes_useTable (u : TableUse) : Commutes Cell.ownPart (useTable u) c := rfl

theorem rowAt_bind {α : Type} (k : ℕ → CellM α) :
    (rowAt sfn slot >>= k) = useTable (.row sfn slot) >>= fun _ => k (rowIndex sfn slot) := rfl

/-- A request that is a row of the cell. -/
theorem commutes_sendTtiReq (r : TtiReq) (h : IsOwnRow (sfnWindow sfn) slot) :
    Commutes Cell.ownPart (r.send env sfn slot) c := by
  have hrow : ∀ c : Cell, (r.rows c.ownPart.tables).rows (rowIndex (sfnWindow sfn) slot) =
      (r.rows c.tables).rows (rowIndex (sfnWindow sfn) slot) := by
    intro c
    cases r <;> exact put_rows _ _ h
  have hsize : ∀ c : Cell, (r.sizes c.ownPart.tables).rows (rowIndex (sfnWindow sfn) slot) =
      (r.sizes c.tables).rows (rowIndex (sfnWindow sfn) slot) := by
    intro c
    cases r <;> exact put_rows _ _ h
  have hset : ∀ (row : Mem) (c : Cell), Commutes Cell.ownPart (setTables fun t =>
      r.withRows t ((r.rows t).set (rowIndex (sfnWindow sfn) slot) row)) c := by
    intro row c
    apply Commutes.update
    cases r <;> simp [Cell.ownPart, CellOwn.withRows, TcRows.put, TtiReq.withRows, TtiReq.rows,
      put_set _ _ h, Cell.own]
  simp only [TtiReq.send, rowAt_bind]
  refine (commutes_allocL1CtrlMsgMem _).bind fun _ _ _ => ?_
  refine (commutes_useTable _).bind fun _ c₁ _ => ?_
  refine Commutes.read_bind (by simp only [id, hrow, hsize]; rfl) ?_
  refine Commutes.ite (fun _ => ?_) fun _ => ?_
  · refine (hset _ _).bind fun _ _ _ => (commutes_useTable _).bind fun _ _ _ => ?_
    exact commutes_appendL1Msg _ _ _ _ _ _
  · exact (hset _ _).bind fun _ _ _ => commutes_appendL1Msg _ _ _ _ _ _

theorem commutes_txdataParams (hp : p < ownRows) (base : ℕ) :
    Commutes Cell.ownPart (txdataParams env p base) c := by
  have hrow : c.ownPart.tables.gL1TXDATAREQ.rows p = c.tables.gL1TXDATAREQ.rows p :=
    put_rows _ _ hp
  have hwalked : ∀ walk : TxWalk, (c.walked p walk).ownPart = c.ownPart.walked p walk := by
    intro walk
    simp only [Cell.walked, Cell.ownPart, CellOwn.withRows, TcRows.put, put_set _ _ hp, Cell.own]
    rfl
  refine Commutes.of_finishes (fun _ => finishes_txdataParams.trans (true_and _).symm.to_iff)
    (fun _ => finishes_txdataParams.trans (true_and _).symm.to_iff) Iff.rfl fun _ => ?_
  rw [hrow, hwalked]
  exact ⟨rfl, rfl⟩

/-- A TX_DATA request of a row of the cell. -/
theorem commutes_sendTxdataReq (h : IsOwnRow (sfnWindow sfn) slot) :
    Commutes Cell.ownPart (sendTxdataReq env sfn slot) c := by
  simp only [sendTxdataReq, rowAt_bind]
  refine (commutes_allocL1CtrlMsgMem _).bind fun _ _ _ => Commutes.read_bind rfl ?_
  refine (commutes_useTable _).bind fun _ _ _ => (commutes_txdataParams h _).bind fun _ _ _ => ?_
  exact commutes_appendL1Msg _ _ _ _ _ _

theorem commutes_macTtiTx (h : IsOwnRow (sfnWindow sfn) slot) :
    Commutes Cell.ownPart (macTtiTx env sfn slot) c := by
  refine commutes_l1MsgProc fun _ => ?_
  refine (Commutes.when fun _ => commutes_sendTtiReq .dl h).bind fun _ _ _ => ?_
  refine (Commutes.when fun _ => commutes_sendTtiReq .ul h).bind fun _ _ _ => ?_
  exact Commutes.when fun _ => commutes_sendTxdataReq h

theorem commutes_macSchedule (h : c.ctx.schState ≠ .schStop → IsOwnRow (sfnWindow sfn) slot) :
    Commutes Cell.ownPart (macSchedule env sfn slot) c := by
  refine Commutes.read_bind rfl (Commutes.ite (fun _ => Commutes.pure _) fun hrunning => ?_)
  exact (commutes_logEvent _).bind fun _ _ _ => commutes_macTtiTx (h hrunning)

/-- The end of a slot indication, for a slot that leads to a row of the cell. -/
theorem commutes_prepareSlot {slotInd : SlotIndication} (h : c.ctx.schState ≠ .schStop →
      IsOwnRow (sfnWindow (preparedSlot env c slotInd).SFN)
        ((preparedSlot env c slotInd).Slot % 256)) :
    Commutes Cell.ownPart (prepareSlot env slotInd) c := by
  have hshift : ∀ (shift scs : ℕ) (c : Cell),
      Commutes Cell.ownPart (gsfnShift env slotInd shift scs) c := by
    intro shift scs c
    refine (Commutes.assert _).bind fun _ _ _ => ?_
    exact Commutes.ite (fun _ => Commutes.pure _) fun _ => Commutes.pure _
  have hshifted : ∀ {shift scs : ℕ} {c c' : Cell} {gsfn : SlotIndication},
      gsfnShift env slotInd shift scs c = some (gsfn, c') →
        gsfn = shifted (gsfnMask env scs) slotInd shift ∧ c' = c := by
    intro shift scs c c' gsfn hrun
    have hall : Ensures (gsfnShift env slotInd shift scs) c fun gsfn c' =>
        gsfn = shifted (gsfnMask env scs) slotInd shift ∧ c' = c :=
      ensures_gsfnShift_shifted.mpr fun _ => ⟨rfl, rfl⟩
    exact hall gsfn c' hrun
  refine (commutes_setClock _).bind fun _ c₁ h₁ => Commutes.read_bind rfl ?_
  obtain ⟨-, rfl⟩ := Prod.mk.inj (Option.some.inj h₁)
  refine (hshift _ _ _).bind fun tx c₂ h₂ => ?_
  obtain ⟨rfl, rfl⟩ := hshifted h₂
  refine (hshift _ _ _).bind fun rx c₃ h₃ => ?_
  obtain ⟨rfl, rfl⟩ := hshifted h₃
  refine (hshift _ _ _).bind fun loc c₄ h₄ => ?_
  obtain ⟨rfl, rfl⟩ := hshifted h₄
  refine (commutes_setClock _).bind fun _ c₅ h₅ => ?_
  obtain ⟨-, rfl⟩ := Prod.mk.inj (Option.some.inj h₅)
  exact commutes_macSchedule h

/-- A slot indication whose slot leads to a row of the cell. -/
theorem commutes_macTxStartIndHandle {slotInd : SlotIndication} (h : c.SlotInRows env slotInd) :
    Commutes Cell.ownPart (macTxStartIndHandle env slotInd) c := by
  refine Commutes.read_bind rfl ?_
  refine Commutes.bind (Commutes.when fun _ => rfl) fun _ c₁ h₁ => ?_
  have hstarts : c.Starts c₁ :=
    ensures_start (g := pure) (Q := fun _ c₁ => c.Starts c₁) (fun _ h => ensures_pure.mpr h) () c₁
      (bind_of_eq_some h₁)
  refine Commutes.read_bind rfl (Commutes.ite (fun _ => Commutes.pure _) fun hactive => ?_)
  refine (commutes_setClock _).bind fun _ c₂ h₂ => ?_
  obtain ⟨-, rfl⟩ := Prod.mk.inj (Option.some.inj h₂)
  refine Commutes.ite (fun _ => ?_) fun hover => commutes_prepareSlot fun hrunning => ?_
  · refine (commutes_sendHeaderOnly _ _).bind fun _ _ _ => ?_
    exact Commutes.bind (Commutes.update rfl) fun _ _ _ => commutes_setClock _
  · have hprepared : ∀ clock, preparedSlot env { c₁ with clock := clock } slotInd =
        preparedSlot env c slotInd := fun _ => hstarts.preparedSlot_eq env slotInd
    rw [hprepared]
    exact h ((hstarts.schedules_iff (not_not.mp hactive) hover).mpr hrunning)

theorem commutes_macRevErrorIndication (messageId errorCode : ℕ) :
    Commutes Cell.ownPart (macRevErrorIndication messageId errorCode) c := by
  refine (commutes_logEvent _).bind fun _ _ _ => Commutes.ite (fun _ => ?_) fun _ => ?_
  · exact Commutes.ite (fun _ => commutes_setPhyState _) fun _ => commutes_setPhyState _
  · exact Commutes.ite (fun _ => commutes_setPhyState _) fun _ => Commutes.pure _

theorem commutes_macRevCfgResonse (errorCode : ℕ) :
    Commutes Cell.ownPart (macRevCfgResonse env errorCode) c := by
  refine (commutes_logEvent _).bind fun _ _ _ => ?_
  refine Commutes.ite (fun _ => ?_) fun _ => commutes_setPhyState _
  refine (commutes_setPhyState _).bind fun _ _ _ =>
    (commutes_sendHeaderOnly _ _).bind fun _ _ _ => ?_
  refine Commutes.bind (Commutes.read rfl) fun ctx _ _ => Commutes.when fun _ => ?_
  refine (commutes_setPhyState _).bind fun _ _ _ => Commutes.when fun _ => ?_
  exact commutes_macRevErrorIndication _ _

theorem commutes_macRevStopIndication : Commutes Cell.ownPart (macRevStopIndication env) c := by
  refine (commutes_logEvent _).bind fun _ _ _ => (commutes_setPhyState _).bind fun _ _ _ => ?_
  refine Commutes.bind (Commutes.read rfl) fun ctx _ _ => ?_
  refine Commutes.ite (fun _ => Commutes.pure _) fun _ => ?_
  refine commutes_sendPhyConfigReq.bind fun _ _ _ => (commutes_setPhyState _).bind fun _ _ _ => ?_
  exact Commutes.when fun _ => commutes_macRevCfgResonse _

end Commutes

end TestMac
