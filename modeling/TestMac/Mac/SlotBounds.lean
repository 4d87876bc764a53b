import TestMac.Mac.SlotRun
import TestMac.Mac.TableUses

/-!
# Which rows of the tables are used

Loading a test case goes through twenty slots of four frames to clear the tables, and
through the slots of the spacing it finds to fill them. A slot indication uses the row of
the slot two ahead. All of this stays within the twenty rows of a frame unless the
configuration selects one of the two wide spacings.
-/

namespace TestMac

open Bytes Act

variable {env : Env} {files : TcFiles} {t : TcTables}

/-- The configuration has its first grid that is not empty at one of the spacings of 60
and 120 kHz, or it has none and the cell is left with such a spacing. -/
def WideSpacing (configReq : Mem) (gcurrentScs : ℕ) : Prop :=
  let dlGridSize k := rd16 configReq (8 + 32 + 2 * k)
  dlGridSize 0 = 0 ∧ dlGridSize 1 = 0 ∧
    (dlGridSize 2 ≠ 0 ∨ dlGridSize 3 ≠ 0 ∨
      dlGridSize 4 = 0 ∧ (gcurrentScs = 60 ∨ gcurrentScs = 120))

theorem wideSpacing_iff {configReq : Mem} {gcurrentScs : ℕ} :
    WideSpacing configReq gcurrentScs ↔
      getCarrierConfig configReq gcurrentScs = 60 ∨
        getCarrierConfig configReq gcurrentScs = 120 := by
  simp only [WideSpacing, getCarrierConfig]
  split_ifs <;> simp_all

/-- A frame has more slots than the tables exactly with a wide spacing. -/
theorem macGetSlotNumPerSfn_le_iff {scs : ℕ} :
    macGetSlotNumPerSfn scs ≤ 20 ↔ ¬ (scs = 60 ∨ scs = 120) := by
  unfold macGetSlotNumPerSfn
  split_ifs <;> omega

theorem gsfnMask_eq {scs : ℕ} (h : 0 < macGetSlotNumPerSfn scs) :
    gsfnMask env scs = macGetSlotNumPerSfn scs := by
  unfold macGetSlotNumPerSfn at h ⊢
  unfold gsfnMask
  split_ifs at h ⊢
  all_goals first | rfl | omega

theorem clearTables_config (t : TcTables) :
    (clearTables t).gL1ConfigRequest = t.gL1ConfigRequest ∧
      (clearTables t).gL1ConfigReqSize = t.gL1ConfigReqSize ∧
      (clearTables t).gcurrentScs = t.gcurrentScs := by
  refine foldl_tables (P := fun t' => t'.gL1ConfigRequest = t.gL1ConfigRequest ∧
    t'.gL1ConfigReqSize = t.gL1ConfigReqSize ∧ t'.gcurrentScs = t.gcurrentScs) ?_ ⟨rfl, rfl, rfl⟩
  intro ij _ t' h
  exact h

/-- The files of the slots leave the configuration and the spacing alone. -/
theorem loadSlot_config (env : Env) (files : TcFiles) (t : TcTables) (i j : ℕ) :
    (loadSlot env files t i j).gL1ConfigRequest = t.gL1ConfigRequest ∧
      (loadSlot env files t i j).gL1ConfigReqSize = t.gL1ConfigReqSize ∧
      (loadSlot env files t i j).gcurrentScs = t.gcurrentScs := by
  unfold loadSlot
  cases files (.ultti i j) <;> cases files (.dltti i j) <;> cases files (.txdata i j) <;>
    exact ⟨rfl, rfl, rfl⟩

theorem loadTables_config (env : Env) (files : TcFiles) (t : TcTables) :
    (loadTables env files t).gL1ConfigRequest =
        (loadConfig files (clearTables t)).gL1ConfigRequest ∧
      (loadTables env files t).gL1ConfigReqSize =
        (loadConfig files (clearTables t)).gL1ConfigReqSize ∧
      (loadTables env files t).gcurrentScs = (loadConfig files (clearTables t)).gcurrentScs := by
  refine foldl_tables (P := fun t' =>
    t'.gL1ConfigRequest = (loadConfig files (clearTables t)).gL1ConfigRequest ∧
    t'.gL1ConfigReqSize = (loadConfig files (clearTables t)).gL1ConfigReqSize ∧
    t'.gcurrentScs = (loadConfig files (clearTables t)).gcurrentScs) ?_ ⟨rfl, rfl, rfl⟩
  intro ij _ t' h
  obtain ⟨hconfig, hsize, hscs⟩ := loadSlot_config env files t' ij.1 ij.2
  exact ⟨hconfig.trans h.1, hsize.trans h.2.1, hscs.trans h.2.2⟩

/-- The spacing found depends on the configuration file and on what was there before. -/
theorem loadConfig_clearTables_scs (files : TcFiles) (t : TcTables) :
    (loadConfig files (clearTables t)).gcurrentScs =
      getCarrierConfig (loadConfig files t).gL1ConfigRequest t.gcurrentScs := by
  obtain ⟨hconfig, -, hscs⟩ := clearTables_config t
  unfold loadConfig
  cases files .config with
  | none => simp only [hconfig, hscs]
  | some bytes => simp only [hconfig, hscs]

/-- The slot that is applied to a table. -/
def TableUse.slot : TableUse → ℕ
  | .row _ slot => slot
  | .size _ slot => slot
  | .data _ slot => slot

/-- What reaches a cell after a load: no test case and no command for a single request, and
slot indications for the slots of a frame. -/
def CellInput.InFrame (gcurrentScs : ℕ) : CellInput → Prop
  | .txCase _ => False
  | .tcDlCase _ _ => False
  | .tcUlCase _ _ => False
  | .tcTxCase _ _ => False
  | .slotIndication slotInd => slotInd.Slot < macGetSlotNumPerSfn gcurrentScs
  | _ => True

/-- A cell handles an input, and no assertion fails. -/
def CellStep (env : Env) (c : Cell) (i : CellInput) (c' : Cell) : Prop :=
  cellAction env i c = some ((), c')

/-- The configuration of a cell, with the spacing found in it. -/
structure CellConfig where
  gL1ConfigRequest : Mem
  gL1ConfigReqSize : ℕ
  gcurrentScs : ℕ

def TcTables.config (t : TcTables) : CellConfig where
  gL1ConfigRequest := t.gL1ConfigRequest
  gL1ConfigReqSize := t.gL1ConfigReqSize
  gcurrentScs := t.gcurrentScs

/-- The handlers leave the configuration alone. -/
theorem config_handling : Handling fun c c' => c'.tables.config = c.tables.config where
  sending _ :=
    { refl := fun _ => rfl
      trans := fun h h' => h'.trans h
      calls := fun _ _ => rfl
      ctxt := fun _ _ => rfl
      sent := fun _ _ _ _ => rfl }
  state _ _ := rfl
  schState _ _ := rfl
  clock _ _ := rfl
  event _ _ _ := rfl

theorem config_sendTtiReq (r : TtiReq) (sfn slot : ℕ) :
    Keeps (fun c => c.tables.config) (r.send env sfn slot) := by
  refine (config_handling.sending [_]).sendTtiReq (fun _ _ => rfl) (List.mem_singleton_self _) ?_
  intro c rows
  cases r with
  | dl => rfl
  | ul => rfl

/-- Every input but a load leaves the configuration alone. -/
theorem config_cellAction {i : CellInput} (hi : ∀ files, i ≠ .txCase files) :
    Keeps (fun c => c.tables.config) (cellAction env i) :=
  config_handling.cellAction hi (config_sendTtiReq .dl) (config_sendTtiReq .ul) fun _ _ =>
    (config_handling.sending [_]).sendTxdataReq (fun _ _ => rfl) (fun _ _ => rfl)
      (fun _ _ _ => rfl) (List.mem_singleton_self _)

theorem ten_le_slotNum {scs : ℕ} (h : 0 < macGetSlotNumPerSfn scs) :
    10 ≤ macGetSlotNumPerSfn scs := by
  unfold macGetSlotNumPerSfn at h ⊢
  split_ifs at h ⊢
  all_goals omega

/-- With a narrow spacing an input within the slots of a frame applies such slots only. -/
theorem uses_cellStep {c c' : Cell} {i : CellInput}
    (hnarrow : macGetSlotNumPerSfn c.tables.gcurrentScs ≤ 20)
    (hi : i.InFrame c.tables.gcurrentScs) (h : CellStep env c i c') :
    UsesGrow (fun u => u.slot < 20) c c' ∧ c'.tables.gcurrentScs = c.tables.gcurrentScs := by
  have hload : ∀ files, i ≠ .txCase files := by
    rintro files rfl
    exact hi
  have hprepared : ∀ g, c.preparing env i = some g → g.Slot < 20 := by
    intro g hg
    cases i with
    | tcDlCase sfn slot => exact hi.elim
    | tcUlCase sfn slot => exact hi.elim
    | tcTxCase sfn slot => exact hi.elim
    | slotIndication slotInd =>
      have hslot : slotInd.Slot < macGetSlotNumPerSfn c.tables.gcurrentScs := hi
      have hten := ten_le_slotNum (Nat.lt_of_le_of_lt (Nat.zero_le _) hslot)
      rw [Cell.preparing] at hg
      split_ifs at hg
      obtain rfl := Option.some.inj hg
      rw [preparedSlot, gsfnMask_eq (by omega : 0 < macGetSlotNumPerSfn c.tables.gcurrentScs)]
      exact (shifted_slot_lt hslot (by omega)).trans_le hnarrow
    | _ => exact absurd hg (by simp [Cell.preparing])
  refine ⟨?_, congrArg CellConfig.gcurrentScs (config_cellAction hload c () c' h)⟩
  refine usesGrow_cellAction hload ?_ ?_ () c' h
  · intro g hg
    have hslot := hprepared g hg
    show g.Slot % 256 < 20
    omega
  · exact hprepared

/-- A run after a load applies slots within a frame, when the spacing is narrow. -/
theorem uses_run {c c' : Cell} {is : List CellInput}
    (hnarrow : macGetSlotNumPerSfn c.tables.gcurrentScs ≤ 20)
    (hrun : Steps (CellStep env) c is c') (his : ∀ i ∈ is, i.InFrame c.tables.gcurrentScs) :
    UsesGrow (fun u => u.slot < 20) c c' := by
  induction hrun with
  | nil => exact .of_eq rfl
  | @cons c c₁ c' i is hs _ ih =>
    obtain ⟨huses, hscs⟩ := uses_cellStep hnarrow (his i (by simp)) hs
    rw [← hscs] at hnarrow his
    exact huses.trans (ih hnarrow fun i' hi' => his i' (List.mem_cons_of_mem i hi'))

/-- A load applies slots within a frame, when the spacing it finds is narrow. -/
theorem uses_macTcLoad {c c₁ : Cell} (hnarrow : loadSlotNum files c.tables ≤ 20)
    (h : macTcLoad env files c = some ((), c₁)) : UsesGrow (fun u => u.slot < 20) c c₁ := by
  rw [macTcLoad_eq] at h
  obtain rfl := (Prod.mk.inj (Option.some.inj h)).2
  refine ⟨loadUses files c.tables, rfl, ?_⟩
  intro u hu
  rcases mem_loadUses.mp hu with ⟨i, -, j, hj, rfl⟩ | ⟨i, -, j, hj, -, rfl | rfl⟩
  · exact hj
  · exact hj.trans_le hnarrow
  · exact hj.trans_le hnarrow

/-- A driver that accepts everything, for a cell that sends DL_TTI requests only. -/
def dlttiEnv : Env := { readyWorld.env 0 0 with macTxEnable := ⟨1, 0, 0⟩ }

/-- An active cell in RCT mode. -/
def dlttiCell (t : TcTables) : Cell :=
  let resting := restingCell .auto 0
  { resting with
    ctx := { resting.ctx with runMode := .rctMode, state := .phyActive, schState := .schNormal }
    tables := t }

/-- With a wide spacing a slot of a frame makes an active cell apply slot 20. -/
theorem finishes_slotIndication_wide {c : Cell} (hctx : c.ctx = (dlttiCell t).ctx)
    (hwide : 20 < macGetSlotNumPerSfn c.tables.gcurrentScs) :
    Finishes (slotIndication dlttiEnv ⟨0, 18⟩) c fun _ c' => .row 0 20 ∈ c'.uses := by
  have hmask : gsfnMask dlttiEnv c.tables.gcurrentScs =
      macGetSlotNumPerSfn c.tables.gcurrentScs := gsfnMask_eq (by omega)
  have hshifted : shifted (macGetSlotNumPerSfn c.tables.gcurrentScs) ⟨0, 18⟩ 2 = ⟨0, 20⟩ := by
    rw [shifted, if_pos (by dsimp only; omega)]
    rfl
  have hactive : c.ctx.state = .phyActive := by rw [hctx]; rfl
  have hendless : c.ctx.runttiPerTc = 0 := by rw [hctx]; rfl
  have hsch : c.ctx.schState = .schNormal := by rw [hctx]; rfl
  have hrct : c.ctx.runMode = .rctMode := by rw [hctx]; rfl
  rw [slotIndication, finishes_bind, finishes_macTxStartIndHandle hactive hendless,
    finishes_prepareSlot]
  dsimp only
  rw [hmask, hshifted]
  refine ⟨by omega, ?_⟩
  simp only [macSchedule, finishes_bind, finishes_read, finishes_ite, hsch, logEvent,
    finishes_update, macTtiTx, reduceCtorEq, not_false_eq_true, false_implies, true_implies,
    true_and]
  rw [finishes_l1MsgProc rfl]
  simp only [finishes_setL1CtrlMsgGrpHeader, finishes_bind, finishes_when, sendDlTTIReq_eq,
    TtiReq.send, finishes_allocL1CtrlMsgMem, finishes_rowAt, finishes_read, finishes_ite,
    setTables, finishes_update, appendL1Msg, finishes_appendL1MsgToList]
  simp [dlttiEnv, readyWorld, hrct, sizeofL1GeneralMsgHdr, Cell.lenWith, Cell.allocated,
    Cell.appended, setPhyState, sfnWindow, l1DlTtiRequest, TtiReq.msgType]

/-- Loading a test case and what happens afterwards apply the twenty slots of a frame
only, exactly when the configuration does not leave the cell with a wide spacing. -/
theorem macTcLoad_rows_iff (files : TcFiles) (t : TcTables) :
    (∀ (env : Env) (c c₁ c₂ : Cell) (is : List CellInput), c.tables = t →
      macTcLoad env files c = some ((), c₁) → Steps (CellStep env) c₁ is c₂ →
      (∀ i ∈ is, i.InFrame c₁.tables.gcurrentScs) →
      ∃ us, c₂.uses = c.uses ++ us ∧ ∀ u ∈ us, u.slot < 20) ↔
    ¬ WideSpacing (loadConfig files t).gL1ConfigRequest t.gcurrentScs := by
  rw [wideSpacing_iff, ← loadConfig_clearTables_scs, ← macGetSlotNumPerSfn_le_iff]
  constructor
  · intro hruns
    by_contra hwide
    obtain ⟨c₁, hload, hctx, hscs⟩ : ∃ c₁, macTcLoad dlttiEnv files (dlttiCell t) = some ((), c₁) ∧
        c₁.ctx = (dlttiCell t).ctx ∧
        c₁.tables.gcurrentScs = (loadConfig files (clearTables t)).gcurrentScs := by
      rw [macTcLoad_eq]
      exact ⟨_, rfl, rfl, (loadTables_config dlttiEnv files t).2.2⟩
    rw [← hscs, not_le] at hwide
    obtain ⟨⟨⟩, c₂, hstep, huse⟩ := finishes_slotIndication_wide hctx hwide
    have hframe : ∀ i ∈ [CellInput.slotIndication ⟨0, 18⟩], i.InFrame c₁.tables.gcurrentScs := by
      intro i hi
      rw [List.mem_singleton.mp hi, CellInput.InFrame]
      exact Nat.lt_trans (by decide) hwide
    have hrun : Steps (CellStep dlttiEnv) c₁ [.slotIndication ⟨0, 18⟩] c₂ := .single hstep
    obtain ⟨us, huses, hus⟩ := hruns dlttiEnv (dlttiCell t) c₁ c₂ _ rfl hload hrun hframe
    have hmem : .row 0 20 ∈ us := by
      rw [huses] at huse
      simpa [dlttiCell, restingCell] using huse
    exact absurd (hus _ hmem) (by decide)
  · intro hnarrow env c c₁ c₂ is hc hload hrun his
    subst hc
    have hscs : c₁.tables.gcurrentScs =
        (loadConfig files (clearTables c.tables)).gcurrentScs := by
      rw [macTcLoad_eq] at hload
      obtain rfl := (Prod.mk.inj (Option.some.inj hload)).2
      exact (loadTables_config env files c.tables).2.2
    refine (uses_macTcLoad hnarrow hload).trans (uses_run ?_ hrun his)
    rw [hscs]
    exact hnarrow

/-- A configuration file whose only grid is the one of 60 kHz. -/
def sixtyFile : List UInt8 := List.replicate 44 0 ++ [1, 0]

/-- With that file and one for its slot 39, the load writes a row that lies beyond the
twenty of the frame. -/
theorem macTcLoad_beyond_sixty :
    ∃ (files : TcFiles) (c c₁ : Cell), files .config = some sixtyFile ∧
      macTcLoad dlttiEnv files c = some ((), c₁) ∧ .row 0 39 ∈ c₁.uses ∧ .row 0 39 ∉ c.uses ∧
      c₁.tables.gL1DlttiReqSize.rows (rowIndex 0 39) = 16 ∧ rowIndex 0 39 = rowIndex 1 19 := by
  let files : TcFiles := fun file =>
    if file = .config then some sixtyFile
    else if file = .dltti 0 39 then some (List.replicate 16 0) else none
  refine ⟨files, restingCell .auto 0, (restingCell .auto 0).loaded dlttiEnv files, rfl, ?_, ?_, ?_⟩
  · rw [macTcLoad_eq]
    rfl
  · decide +kernel
  · decide +kernel

end TestMac
