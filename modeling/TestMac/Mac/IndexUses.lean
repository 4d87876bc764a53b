import TestMac.Mac.Runs
import TestMac.Mac.SlotBounds

/-!
# The indices that a command is used as

A command carries a device, a cell, an SFN and a slot, and the receiver uses them as
subscripts of its tables. The subscripts recorded while the command is handled are compared
with the declared dimensions. With a driver that refuses nothing, a command is handled to its
end unless an assertion on its SFN or its slot fails.
-/

namespace TestMac

open Act

/-- A device and a cell are within the dimensions of `gMacCtx` and of the other tables by
device and cell. -/
def CellWithin (dc : ℕ × ℕ) : Prop := dc.1 < 4 ∧ dc.2 < 2

/-- The subscripts that a cell applies are within the declared dimensions. An address in a
table of sizes is taken with the cell in the place of the device, the frame in that of the
cell and the slot in that of the frame. -/
def TableUse.Within (dc : ℕ × ℕ) : TableUse → Prop
  | .row sfn slot => CellWithin dc ∧ sfn < 4 ∧ slot < 20
  | .size sfn slot => dc.2 < 4 ∧ sfn < 2 ∧ slot < 4
  | .data sfn slot => sfn < 4 ∧ slot < 20

/-- The devices and cells recorded in between are within the dimensions. -/
def CellUsesGrow (us us' : List (ℕ × ℕ)) : Prop := ∃ cs, us' = us ++ cs ∧ ∀ dc ∈ cs, CellWithin dc

/-- All subscripts recorded in between are within the dimensions. -/
structure UsesWithin (m m' : Mac) : Prop where
  cells : CellUsesGrow m.cellUses m'.cellUses
  rows (dev cell : ℕ) :
    UsesGrow (TableUse.Within (dev, cell)) (m.cells dev cell) (m'.cells dev cell)

/-- The files of a test case that are found are those of the first four slots of two frames. -/
def LoadFits (files : TcFiles) (t : TcTables) : Prop :=
  ∀ sfn < 4, ∀ slot < macGetSlotNumPerSfn
      (getCarrierConfig (loadConfig files t).gL1ConfigRequest t.gcurrentScs),
    HasFile files sfn slot → sfn < 2 ∧ slot < 4

variable {w : World} {env : Env} {files : TcFiles} {dev cell sfn slot : ℕ}

section Devices

variable {us us' us'' : List (ℕ × ℕ)}

theorem CellUsesGrow.refl (us : List (ℕ × ℕ)) : CellUsesGrow us us := ⟨[], by simp⟩

theorem CellUsesGrow.trans (h : CellUsesGrow us us') (h' : CellUsesGrow us' us'') :
    CellUsesGrow us us'' := by
  obtain ⟨cs, hcs, hwithin⟩ := h
  obtain ⟨cs', hcs', hwithin'⟩ := h'
  exact ⟨cs ++ cs', by rw [hcs', hcs, List.append_assoc],
    List.forall_mem_append.mpr ⟨hwithin, hwithin'⟩⟩

theorem CellUsesGrow.single {dc : ℕ × ℕ} (h : CellWithin dc) : CellUsesGrow us (us ++ [dc]) :=
  ⟨[dc], rfl, by simpa using h⟩

theorem cellUses_onCell {x : CellM Unit} (h : CellWithin (dev, cell)) :
    Within (fun m m' : Mac => CellUsesGrow m.cellUses m'.cellUses) (onCell dev cell x) := by
  intro m
  rw [onCell, ensures_lift]
  intro _ _ _
  exact .single h

theorem cellUses_forEach {x : ℕ → CellM Unit} {cells : List ℕ}
    (h : ∀ cell ∈ cells, CellWithin (dev, cell)) :
    Within (fun m m' : Mac => CellUsesGrow m.cellUses m'.cellUses)
      (forEach (fun cell => onCell dev cell (x cell)) cells) := by
  induction cells with
  | nil => exact Within.pure (fun m => .refl m.cellUses) ()
  | cons cell cells ih =>
    rw [List.forall_mem_cons] at h
    exact Within.bind (fun h h' => h.trans h') (cellUses_onCell h.1) fun _ => ih h.2

/-- A command for a device and a cell within the dimensions uses such devices and cells only,
and so does one for all cells of a device. -/
theorem cellUses_recv {msg : CtrlMsg} (h : CellWithin (msg.devIndex, msg.cellId)) {m : Mac}
    (hm : m.cellNum ≤ 2) :
    Ensures (appMgrMsgqHRecv w msg) m fun _ m' => CellUsesGrow m.cellUses m'.cellUses := by
  have honCell : ∀ (x : CellM Unit) (m : Mac), Ensures (do
      onCell msg.devIndex msg.cellId x
      pure (0 : ℤ)) m fun _ m' => CellUsesGrow m.cellUses m'.cellUses := by
    intro x m
    simp only [ensures_bind, ensures_pure]
    exact cellUses_onCell h m
  have honCells : ∀ (x : ℕ → CellM Unit), Ensures (onCells msg.devIndex x) m fun _ m' =>
      CellUsesGrow m.cellUses m'.cellUses := by
    intro x
    rw [onCells, ensures_bind, ensures_read]
    refine cellUses_forEach ?_ m
    intro cell hcell
    exact ⟨h.1, (List.mem_range.mp hcell).trans_le hm⟩
  unfold appMgrMsgqHRecv
  split_ifs
  · exact honCell _ m
  · exact honCell _ m
  · exact honCell _ m
  · exact honCell _ m
  · simp only [recvTxCase, ensures_bind, ensures_when, ensures_update, ensures_pure]
    exact ⟨fun _ => cellUses_onCell h _, fun _ => cellUses_onCell h _⟩
  · simp only [ensures_bind, ensures_pure]
    exact honCells _
  · simp only [ensures_bind, ensures_update, ensures_pure, onCells, ensures_read]
    refine cellUses_forEach ?_ _
    intro cell hcell
    exact ⟨h.1, (List.mem_range.mp hcell).trans_le hm⟩
  · rw [ensures_pure]
    exact .refl _

end Devices

section Loads

variable {t : TcTables} {c : Cell}

/-- Loading a test case and switching to it applies the subscripts of the load. -/
theorem txCase_uses :
    Ensures (txCase env files) c fun _ c' => c'.uses = c.uses ++ loadUses files c.tables := by
  rw [txCase, macTcLoad_eq, ensures_bind, ensures_update, ensures_bind, ensures_update]
  refine ((usesGrow_handling (P := fun _ => False)).switch _).mono ?_
  rintro _ c' ⟨us, huses, hus⟩
  have hnone : us = [] := List.eq_nil_iff_forall_not_mem.mpr hus
  rw [huses, hnone, List.append_nil]
  rfl

/-- The subscripts of a load are within the dimensions exactly when the files fit. -/
theorem loadUses_within_iff (hdc : CellWithin (dev, cell)) :
    (∀ u ∈ loadUses files t, u.Within (dev, cell)) ↔ LoadFits files t := by
  have hslotNum : loadSlotNum files t = macGetSlotNumPerSfn
      (getCarrierConfig (loadConfig files t).gL1ConfigRequest t.gcurrentScs) := by
    rw [loadSlotNum, loadConfig_clearTables_scs]
  simp only [mem_loadUses, hslotNum]
  constructor
  · intro h i hi j hj hfile
    have hsize := h (.size i j) (.inr ⟨i, hi, j, hj, hfile, .inr rfl⟩)
    exact hsize.2
  · rintro h u (⟨i, hi, j, hj, rfl⟩ | ⟨i, hi, j, hj, hfile, hu⟩)
    · exact ⟨hdc, hi, hj⟩
    · obtain ⟨hi', hj'⟩ := h i hi j hj hfile
      rcases hu with rfl | rfl
      · exact ⟨hdc, hi, by omega⟩
      · exact ⟨by have := hdc.2; omega, hi', hj'⟩

end Loads

/-- An input of the application stays within the dimensions and keeps the assertions: the slot
of a single request is one of a frame, or the files of a test case fit. -/
def CellInput.Fits (t : TcTables) : CellInput → Prop
  | .tcDlCase sfn slot => sfn % 65536 < 1024 ∧ slot % 65536 < 20
  | .tcUlCase sfn slot => sfn % 65536 < 1024 ∧ slot % 65536 < 20
  | .tcTxCase sfn slot => sfn % 65536 < 1024 ∧ slot % 65536 < 20
  | .txCase files => LoadFits files t
  | .slotIndication _ => False
  | _ => True

section CellInputs

variable {c : Cell} {i : CellInput} {t : TcTables}

/-- The slot that an input prepares is one of a frame. -/
theorem CellInput.Fits.prepared (h : i.Fits t) {g : SlotIndication}
    (hg : c.preparing env i = some g) : g.SFN < 1024 ∧ g.Slot < 20 := by
  cases i with
  | tcDlCase sfn slot | tcUlCase sfn slot | tcTxCase sfn slot =>
    obtain rfl := Option.some.inj hg
    exact h
  | slotIndication slotInd => exact h.elim
  | _ => exact absurd hg (by simp [Cell.preparing])

/-- Such an input applies subscripts within the dimensions. -/
theorem CellInput.Fits.usesGrow (h : i.Fits c.tables) (hdc : CellWithin (dev, cell)) :
    Ensures (cellAction env i) c fun _ c' => UsesGrow (TableUse.Within (dev, cell)) c c' := by
  by_cases hload : ∃ files, i = .txCase files
  · obtain ⟨files, rfl⟩ := hload
    refine txCase_uses.mono ?_
    intro _ c' huses
    exact ⟨loadUses files c.tables, huses, (loadUses_within_iff hdc).mpr h⟩
  · refine usesGrow_cellAction (fun files hi => hload ⟨files, hi⟩) ?_ ?_
    · intro g hg
      have hslot := (h.prepared hg).2
      exact ⟨hdc, sfnWindow_lt _, by omega⟩
    · intro g hg
      exact ⟨sfnWindow_lt _, (h.prepared hg).2⟩

end CellInputs

section Asserts

variable {c : Cell} {Q : Unit → Cell → Prop} (haccepts : Accepts env 4294967296)

include haccepts

theorem Accepts.finishes_alloc {size : ℕ} {f : Unit → CellM Unit} (hsize : size ≤ 4294967296)
    (h : ∀ room, 4294967296 ≤ room → Finishes (f ()) (c.allocated room) Q) :
    Finishes (allocL1CtrlMsgMem env size >>= f) c Q := by
  obtain ⟨room, halloc, hroom⟩ := haccepts.alloc c.calls
  rw [finishes_bind, finishes_allocL1CtrlMsgMem, halloc]
  exact ⟨rfl, hsize.trans hroom, h room hroom⟩

omit haccepts in
/-- Behind enough room, a message is appended unless an assertion fails. -/
theorem finishes_append {msgId msgSize msgType : ℕ} {body : List UInt8}
    (hroom : 4294967296 ≤ c.phyCtrlMsgCtxt.maxRemLen) (hsfn : sfn < 1024) (hslot : slot < 160)
    (htype : msgType < 254) :
    Finishes (appendL1Msg env msgId msgSize body sfn slot msgType) c fun _ _ => True := by
  rw [appendL1Msg, finishes_appendL1MsgToList]
  exact ⟨hsfn, hslot, htype, (Nat.mod_lt _ (by decide)).trans_le hroom, trivial⟩

theorem Accepts.total_l1MsgProc {body : CellM Unit} (h : Total body) :
    Total (l1MsgProc env body) := by
  intro c
  obtain ⟨room, halloc, hroom⟩ := haccepts.alloc c.called.calls
  rw [finishes_l1MsgProc (haccepts.start _), finishes_setL1CtrlMsgGrpHeader, halloc]
  exact ⟨rfl, Nat.lt_of_lt_of_le (by decide) hroom, (h _).mono fun _ _ _ => trivial⟩

theorem Accepts.total_sendHeaderOnly {msgId msgType : ℕ} (htype : msgType < 254) :
    Total (sendHeaderOnly env msgId msgType) :=
  haccepts.total_l1MsgProc fun _ => haccepts.finishes_alloc (by decide) fun _ hroom =>
    finishes_append hroom (by decide) (by decide) htype

theorem Accepts.total_sendPhyConfigReq : Total (sendPhyConfigReq env) := by
  refine haccepts.total_l1MsgProc fun _ => haccepts.finishes_alloc (by decide) fun room hroom => ?_
  rw [finishes_bind, finishes_read, finishes_ite]
  constructor
  · intro _
    exact finishes_append hroom (by decide) (by decide) (by decide)
  · intro _
    exact finishes_append hroom (by decide) (by decide) (by decide)

theorem Accepts.total_sendTtiReq (r : TtiReq) (hsfn : sfn < 1024) (hslot : slot < 160) :
    Total (r.send env sfn slot) := by
  have htype : r.msgType < 254 := by cases r <;> decide
  refine fun _ => haccepts.finishes_alloc (by decide) fun room hroom => ?_
  simp only [finishes_bind, finishes_rowAt, finishes_read, finishes_ite, setTables,
    finishes_update]
  constructor
  · intro _
    exact finishes_append hroom hsfn hslot htype
  · intro _
    exact finishes_append hroom hsfn hslot htype

theorem Accepts.total_sendTxdataReq (hsfn : sfn < 1024) (hslot : slot < 160) :
    Total (sendTxdataReq env sfn slot) := by
  refine fun _ => haccepts.finishes_alloc (by decide) fun room hroom => ?_
  simp only [finishes_bind, finishes_rowAt, finishes_read]
  exact finishes_txdataParams.mpr (finishes_append hroom hsfn hslot (by decide))

omit haccepts in
theorem total_macRevErrorIndication (messageId errorCode : ℕ) :
    Total (macRevErrorIndication messageId errorCode) :=
  Total.bind (Total.update _) fun _ => Total.ite (Total.ite (Total.update _) (Total.update _))
    (Total.ite (Total.update _) (Total.pure _))

theorem Accepts.total_macRevCfgResonse (errorCode : ℕ) :
    Total (macRevCfgResonse env errorCode) := by
  refine Total.bind (Total.update _) fun _ => Total.ite ?_ (Total.update _)
  refine Total.bind (Total.update _) fun _ => Total.bind ?_ fun _ => ?_
  · exact haccepts.total_sendHeaderOnly (by decide)
  · refine Total.bind (Total.read _) fun _ => Total.when ?_
    exact Total.bind (Total.update _) fun _ => Total.when (total_macRevErrorIndication _ _)

theorem Accepts.total_stopForSwitch : Total (stopForSwitch env) :=
  Total.bind (haccepts.total_sendHeaderOnly (by decide)) fun _ =>
    Total.bind (Total.read _) fun _ => Total.when (total_macRevErrorIndication _ _)

theorem Accepts.total_configForSwitch : Total (configForSwitch env) :=
  Total.bind haccepts.total_sendPhyConfigReq fun _ => Total.bind (Total.update _) fun _ =>
    Total.bind (Total.read _) fun _ => Total.when (haccepts.total_macRevCfgResonse _)

/-- With a driver that refuses nothing, such an input is handled to its end. -/
theorem Accepts.total_cellAction {i : CellInput} {t : TcTables} (h : i.Fits t) :
    Total (cellAction env i) := by
  have hslot : ∀ {slot : ℕ}, slot % 65536 < 20 → slot % 256 < 160 := by omega
  cases i with
  | tcConfigCase =>
    exact Total.bind (haccepts.total_sendHeaderOnly (by decide)) fun _ =>
      Total.bind haccepts.total_sendPhyConfigReq fun _ => Total.update _
  | tcDlCase sfn slot =>
    exact Total.bind (Total.update _) fun _ =>
      haccepts.total_l1MsgProc (haccepts.total_sendTtiReq .dl h.1 (hslot h.2))
  | tcUlCase sfn slot =>
    exact Total.bind (Total.update _) fun _ =>
      haccepts.total_l1MsgProc (haccepts.total_sendTtiReq .ul h.1 (hslot h.2))
  | tcTxCase sfn slot =>
    exact Total.bind (Total.update _) fun _ =>
      haccepts.total_l1MsgProc (haccepts.total_sendTxdataReq h.1 (hslot h.2))
  | txCase files =>
    rw [cellAction, txCase, macTcLoad_eq]
    refine Total.bind (Total.update _) fun _ => Total.bind (Total.update _) fun _ => ?_
    refine Total.bind (Total.read _) fun _ => Total.bind ?_ fun _ => Total.update _
    exact Total.ite haccepts.total_stopForSwitch haccepts.total_configForSwitch
  | tcStop =>
    exact Total.bind (haccepts.total_sendHeaderOnly (by decide)) fun _ => Total.update _
  | startTest =>
    refine Total.bind (Total.read _) fun _ => Total.bind ?_ fun _ => Total.update _
    refine Total.ite haccepts.total_stopForSwitch ?_
    exact Total.bind (haccepts.total_sendHeaderOnly (by decide)) fun _ =>
      haccepts.total_configForSwitch
  | cfgResponse errorCode => exact haccepts.total_macRevCfgResonse errorCode
  | errorIndication messageId errorCode => exact total_macRevErrorIndication messageId errorCode
  | stopIndication =>
    refine Total.bind (Total.update _) fun _ => Total.bind (Total.update _) fun _ => ?_
    refine Total.bind (Total.read _) fun _ => Total.ite (Total.pure _) ?_
    refine Total.bind haccepts.total_sendPhyConfigReq fun _ =>
    Total.bind (Total.update _) fun _ => ?_
    exact Total.when (haccepts.total_macRevCfgResonse _)
  | slotIndication slotInd => exact h.elim

end Asserts

section Received

variable {msg : CtrlMsg} {m : Mac}

/-- A command stays within the dimensions when its device and its cell do, and what it means
for the cell. -/
theorem usesWithin_recv (hcell : CellWithin (msg.devIndex, msg.cellId)) (hm : m.cellNum ≤ 2)
    (hfits : ∀ i, msg.addressed w msg.cellId = some i →
      i.Fits (m.cells msg.devIndex msg.cellId).tables) :
    Ensures (appMgrMsgqHRecv w msg) m fun _ m' => UsesWithin m m' := by
  intro r m' hrun
  refine ⟨cellUses_recv hcell hm r m' hrun, ?_⟩
  intro dev cell
  have hhandles := (msg.reaches_atCell m r m' hrun).cells dev cell
  cases hi : msg.atCell w m.cellNum dev cell with
  | none =>
    rw [hi] at hhandles
    exact .of_eq (own_uses hhandles)
  | some i =>
    rw [hi] at hhandles
    obtain ⟨hdc, hfit⟩ : CellWithin (dev, cell) ∧ i.Fits (m.cells dev cell).tables := by
      unfold CtrlMsg.atCell at hi
      split_ifs at hi with _ hloop _ hloop hsame
      · obtain rfl := Option.some.inj hi
        exact ⟨⟨hloop.1 ▸ hcell.1, hloop.2.trans_le hm⟩, trivial⟩
      · obtain rfl := Option.some.inj hi
        exact ⟨⟨hloop.1 ▸ hcell.1, hloop.2.trans_le hm⟩, trivial⟩
      · obtain ⟨rfl, rfl⟩ := hsame
        exact ⟨hcell, hfits i hi⟩
    exact hfit.usesGrow hdc () _ hhandles

/-- With drivers that refuse nothing it is handled to its end. -/
theorem total_recv (haccepts : ∀ dev cell, Accepts (w.env dev cell) 4294967296) {t : TcTables}
    (hfits : ∀ i, msg.addressed w msg.cellId = some i → i.Fits t) :
    Total (appMgrMsgqHRecv w msg) := by
  have honCell : ∀ {i : CellInput}, msg.addressed w msg.cellId = some i → Total (onCell
      msg.devIndex msg.cellId (cellAction (w.env msg.devIndex msg.cellId) i)) := fun hi =>
    Total.lift ((haccepts _ _).total_cellAction (hfits _ hi))
  have honCells : ∀ {i : CellInput}, i.Fits t →
      Total (onCells msg.devIndex fun cell => cellAction (w.env msg.devIndex cell) i) := fun hi =>
    Total.bind (Total.read _) fun _ => Total.forEach (fun _ =>
      Total.lift ((haccepts _ _).total_cellAction hi)) _
  have hthen : ∀ {x : Act Mac Unit} {r : ℤ}, Total x → Total (do x; pure r) := fun hx =>
    Total.bind hx fun _ => Total.pure _
  unfold appMgrMsgqHRecv
  split_ifs with h₁ h₂ h₃ h₄ h₅
  · exact hthen (honCell (i := .tcConfigCase) (by rw [CtrlMsg.addressed, if_pos h₁]))
  · exact hthen (honCell (i := .tcDlCase _ _) (by rw [CtrlMsg.addressed, if_neg h₁, if_pos h₂]))
  · exact hthen (honCell (i := .tcUlCase _ _) (by
      rw [CtrlMsg.addressed, if_neg h₁, if_neg h₂, if_pos h₃]))
  · exact hthen (honCell (i := .tcTxCase _ _) (by
      rw [CtrlMsg.addressed, if_neg h₁, if_neg h₂, if_neg h₃, if_pos h₄]))
  · refine hthen (Total.bind (Total.when (Total.update _)) fun _ =>
      Total.bind (Total.update _) fun _ => honCell (i := .txCase _) ?_)
    rw [CtrlMsg.addressed, if_neg h₁, if_neg h₂, if_neg h₃, if_neg h₄, if_pos h₅]
  · exact hthen (honCells (i := .tcStop) trivial)
  · exact Total.bind (Total.update _) fun _ => hthen (honCells (i := .startTest) trivial)
  · exact Total.pure _

end Received

/-- The number of cells stays within the cells of a device. -/
def KeepsCellNum (m m' : Mac) : Prop := m.cellNum ≤ 2 → m'.cellNum ≤ 2

theorem KeepsCellNum.refl (m : Mac) : KeepsCellNum m m := id

theorem KeepsCellNum.trans {m m' m'' : Mac} (h : KeepsCellNum m m') (h' : KeepsCellNum m' m'') :
    KeepsCellNum m m'' := fun hm => h' (h hm)

theorem keepsCellNum_bind {α β : Type} {x : Act Mac α} {f : α → Act Mac β}
    (hx : Within KeepsCellNum x) (hf : ∀ a, Within KeepsCellNum (f a)) :
    Within KeepsCellNum (x >>= f) :=
  Within.bind (R := KeepsCellNum) (fun h h' => h.trans h') hx hf

theorem keepsCellNum_onCell (x : CellM Unit) : Within KeepsCellNum (onCell dev cell x) := by
  intro m
  refine (ensures_onCell 0 0).mono ?_
  intro _ m' hm' hm
  rw [hm'.1]
  exact hm

theorem keepsCellNum_onCells (x : ℕ → CellM Unit) : Within KeepsCellNum (onCells dev x) := by
  have hloop : ∀ cells : List ℕ,
      Within KeepsCellNum (forEach (fun cell => onCell dev cell (x cell)) cells) := by
    intro cells
    induction cells with
    | nil => exact Within.pure KeepsCellNum.refl ()
    | cons cell cells ih =>
      exact keepsCellNum_bind (keepsCellNum_onCell _) fun _ => ih
  exact keepsCellNum_bind (Within.read KeepsCellNum.refl _) fun _ => hloop _

theorem keepsCellNum_recvTxCase (msg : CtrlMsg) : Within KeepsCellNum (recvTxCase w msg) := by
  intro m
  simp only [recvTxCase, ensures_bind, ensures_when, ensures_update]
  constructor
  · rintro ⟨-, hle⟩
    refine (keepsCellNum_onCell _ _).mono ?_
    intro _ m' hm' _
    exact hm' hle
  · intro _
    exact keepsCellNum_onCell _ _

theorem keepsCellNum_appMgrMsgqHRecv (msg : CtrlMsg) :
    Within KeepsCellNum (appMgrMsgqHRecv w msg) := by
  have hthen : ∀ {x : Act Mac Unit} {r : ℤ}, Within KeepsCellNum x →
      Within KeepsCellNum (do x; pure r) := fun hx =>
    keepsCellNum_bind hx fun _ => Within.pure KeepsCellNum.refl _
  unfold appMgrMsgqHRecv
  split_ifs
  · exact hthen (keepsCellNum_onCell _)
  · exact hthen (keepsCellNum_onCell _)
  · exact hthen (keepsCellNum_onCell _)
  · exact hthen (keepsCellNum_onCell _)
  · exact hthen (keepsCellNum_recvTxCase msg)
  · exact hthen (keepsCellNum_onCells _)
  · exact keepsCellNum_bind (Within.update fun m => id) fun _ =>
      hthen (keepsCellNum_onCells _)
  · exact Within.pure KeepsCellNum.refl _

/-- In every run, the loops over the cells of a device stay within the cells. -/
theorem run_cellNum_le {m m' : Mac} {is : List Input} (hrun : Steps (Handles w) m is m')
    (hm : m.cellNum ≤ 2) : m'.cellNum ≤ 2 := by
  induction hrun with
  | nil => exact hm
  | @cons m m₁ _ i _ hs _ ih =>
    refine ih ?_
    have hkeeps : Within KeepsCellNum (handle w i) := by
      cases i with
      | appMsg msg =>
        exact keepsCellNum_bind (keepsCellNum_appMgrMsgqHRecv msg) fun _ =>
          Within.pure KeepsCellNum.refl _
      | cfgResponse dev' cell' errorCode => exact keepsCellNum_onCell _
      | errorIndication dev' cell' messageId errorCode => exact keepsCellNum_onCell _
      | stopIndication dev' cell' => exact keepsCellNum_onCell _
      | slotIndication dev' cell' slotInd => exact keepsCellNum_onCell _
    exact hkeeps m () m₁ hs hm

end TestMac
