import TestMac.Mac.LoadHistory
import TestMac.Mac.LoadSteps

/-!
# The spacing that a slot is shifted with

A slot indication shifts the slot with the spacing of the cell. The spacing is the one that
the last load with a grid in its configuration has selected, and zero before. It is one that
the shift knows exactly when there was such a load and it has not selected 240 kHz.
-/

namespace TestMac

open Bytes Act

/-- The spacings for which the shift of a slot sets its modulus. -/
def KnownScs (scs : ℕ) : Prop := scs = 15 ∨ scs = 30 ∨ scs = 60 ∨ scs = 120

/-- The spacing of the first grid of a configuration that is not empty. -/
def selectedScs (configReq : Mem) : Option ℕ :=
  let dlGridSize k := rd16 configReq (8 + 32 + 2 * k)
  if dlGridSize 0 ≠ 0 then some 15
  else if dlGridSize 1 ≠ 0 then some 30
  else if dlGridSize 2 ≠ 0 then some 60
  else if dlGridSize 3 ≠ 0 then some 120
  else if dlGridSize 4 ≠ 0 then some 240
  else none

/-- The configuration that a load holds: its own file, or the one held before. -/
def heldConfig (files : TcFiles) (configReq : Mem) : Mem :=
  match files .config with
  | none => configReq
  | some bytes => store configReq 0 (bytes.take (bytes.length % 4294967296))

/-- The configurations that some loads hold, one after the other. -/
def heldConfigs (configReq : Mem) : List TcFiles → List Mem
  | [] => []
  | files :: history =>
    heldConfig files configReq :: heldConfigs (heldConfig files configReq) history

/-- Some load has selected a grid, and the last one that has did not select 240 kHz. -/
def SelectsKnown (configReq : Mem) (history : List TcFiles) : Prop :=
  ∃ scs, ((heldConfigs configReq history).filterMap selectedScs).getLast? = some scs ∧ scs ≠ 240

/-- A slot indication is shifted: the cell is active, or becomes it, and its test case is not
over. -/
def Cell.CallsShift (c : Cell) : Prop :=
  c.control.started.state = .phyActive ∧ ¬ c.control.started.Over

instance (c : Cell) : Decidable c.CallsShift := inferInstanceAs (Decidable (_ ∧ _))

/-- The variable for the modulus, while it is not set, holds another number. -/
def Env.withMask (mask : ℕ) (env : Env) : Env := { env with unsetMask := mask }

/-- The shift of a slot is defined: its modulus has been set, so that nothing depends on what
the variable held before. -/
def ShiftDefined (env : Env) (scs : ℕ) : Prop :=
  KnownScs scs ∧ ∀ mask gsfn shift,
    gsfnShift (env.withMask mask) gsfn shift scs = gsfnShift env gsfn shift scs

variable {env : Env} {c : Cell} {scs : ℕ}

section Shift

theorem gsfnMask_withMask (h : KnownScs scs) (mask : ℕ) :
    gsfnMask (env.withMask mask) scs = gsfnMask env scs := by
  rcases h with rfl | rfl | rfl | rfl <;> rfl

/-- The shift is defined for the spacings it knows. -/
theorem shiftDefined_iff : ShiftDefined env scs ↔ KnownScs scs := by
  constructor
  · exact And.left
  · intro h
    refine ⟨h, fun mask gsfn shift => ?_⟩
    rw [gsfnShift, gsfnMask_withMask h, gsfnShift]

/-- For any other spacing the modulus is whatever the variable held. -/
theorem gsfnMask_unset (h : ¬ KnownScs scs) : gsfnMask env scs = env.unsetMask := by
  unfold gsfnMask
  split_ifs with h₁ h₂ h₃ h₄
  · exact absurd (.inl h₁) h
  · exact absurd (.inr (.inl h₂)) h
  · exact absurd (.inr (.inr (.inl h₃))) h
  · exact absurd (.inr (.inr (.inr h₄))) h
  · rfl

/-- The cell once it has been started. -/
def Cell.start (c : Cell) : Cell :=
  if c.ctx.state = .phyInit then
    { c with
      ctx := { c.ctx with state := .phyActive, schState := .schNormal }
      clock := { c.clock with gSystemTtiNum := 0, sMacLocalGSfn := ⟨0, 0⟩ } }
  else c

theorem start_control : c.start.control = c.control.started := by
  unfold Cell.start Control.started
  by_cases h : c.ctx.state = .phyInit
  · rw [if_pos h, if_pos (show c.control.state = .phyInit from h)]
    rfl
  · rw [if_neg h, if_neg (show ¬ c.control.state = .phyInit from h)]

/-- The cases of `macTxStartIndHandle` for a cell that has been started. -/
def startedHandle (env : Env) (slotInd : SlotIndication) (c : Cell) : CellM Unit :=
  if c.ctx.state ≠ .phyActive then pure ()
  else do
    setClock fun clock => { clock with sMacLocalGSfn := slotInd }
    if testCaseOver c.ctx.runttiPerTc c.clock.gSystemTtiNum then do
      sendPhyStopReq env
      setSchState .schStop
      setClock nextTti
    else prepareSlot env slotInd

theorem macTxStartIndHandle_eq (env : Env) (slotInd : SlotIndication) (c : Cell) :
    macTxStartIndHandle env slotInd c = startedHandle env slotInd c.start c.start := by
  have hstart : (when (c.ctx.state = .phyInit) do
      setPhyState .phyActive
      setSchState .schNormal
      setClock fun clock => { clock with gSystemTtiNum := 0, sMacLocalGSfn := ⟨0, 0⟩ }) c =
      some ((), c.start) := by
    unfold Cell.start when
    by_cases h : c.ctx.state = .phyInit
    · rw [if_pos h, if_pos h]
      rfl
    · rw [if_neg h, if_neg h]
      rfl
  exact bind_of_eq_some hstart

/-- `macTxStartIndHandle` shifts the slot in the cells that call for it. -/
theorem macTxStartIndHandle_shifts (slotInd : SlotIndication) (h : c.CallsShift) :
    macTxStartIndHandle env slotInd c = prepareSlot env slotInd
      { c.start with clock := { c.start.clock with sMacLocalGSfn := slotInd } } := by
  obtain ⟨hactive, hover⟩ := h
  rw [← start_control] at hactive hover
  have hstate : ¬ c.start.ctx.state ≠ .phyActive := not_not.mpr hactive
  have hcase : ¬ testCaseOver c.start.ctx.runttiPerTc c.start.clock.gSystemTtiNum := hover
  have hhandle : startedHandle env slotInd c.start = (do
      setClock fun clock => { clock with sMacLocalGSfn := slotInd }
      prepareSlot env slotInd) := by
    rw [startedHandle, if_neg hstate, if_neg hcase]
  rw [macTxStartIndHandle_eq, hhandle]
  exact bind_of_eq_some rfl

/-- In all other cells it does not depend on the modulus. -/
theorem macTxStartIndHandle_withMask (slotInd : SlotIndication) (mask : ℕ)
    (h : ¬ c.CallsShift) : macTxStartIndHandle (env.withMask mask) slotInd c =
      macTxStartIndHandle env slotInd c := by
  have hhandle : startedHandle (env.withMask mask) slotInd c.start =
      startedHandle env slotInd c.start := by
    rw [Cell.CallsShift, ← start_control, not_and_not_right] at h
    unfold startedHandle
    by_cases hstate : c.start.ctx.state = .phyActive
    · have hcase : testCaseOver c.start.ctx.runttiPerTc c.start.clock.gSystemTtiNum := h hstate
      rw [if_neg (not_not.mpr hstate), if_neg (not_not.mpr hstate), if_pos hcase, if_pos hcase]
      rfl
    · rw [if_pos hstate, if_pos hstate]
  rw [macTxStartIndHandle_eq, macTxStartIndHandle_eq, hhandle]

end Shift

section History

theorem getCarrierConfig_eq (configReq : Mem) (scs : ℕ) :
    getCarrierConfig configReq scs = (selectedScs configReq).getD scs := by
  unfold getCarrierConfig selectedScs
  dsimp only
  split_ifs <;> rfl

theorem selectedScs_eq_some {configReq : Mem} (h : selectedScs configReq = some scs) :
    KnownScs scs ∨ scs = 240 := by
  unfold selectedScs at h
  dsimp only at h
  unfold KnownScs
  split_ifs at h <;> simp_all

theorem loadConfig_config (files : TcFiles) (t : TcTables) :
    (loadConfig files t).gL1ConfigRequest = heldConfig files t.gL1ConfigRequest ∧
      (loadConfig files t).gcurrentScs =
        getCarrierConfig (heldConfig files t.gL1ConfigRequest) t.gcurrentScs := by
  unfold loadConfig heldConfig
  cases files .config <;> exact ⟨rfl, rfl⟩

/-- A load leaves the configuration that it holds and the spacing that this one selects. -/
theorem loadTables_selects (env : Env) (files : TcFiles) (t : TcTables) :
    (loadTables env files t).gL1ConfigRequest = heldConfig files t.gL1ConfigRequest ∧
      (loadTables env files t).gcurrentScs =
        (selectedScs (heldConfig files t.gL1ConfigRequest)).getD t.gcurrentScs := by
  obtain ⟨hconfig, -, hscs⟩ := loadTables_config env files t
  obtain ⟨hclearedConfig, -, hclearedScs⟩ := clearTables_config t
  obtain ⟨hheld, hselected⟩ := loadConfig_config files (clearTables t)
  rw [hconfig, hscs, hheld, hselected, hclearedConfig, hclearedScs, getCarrierConfig_eq]
  exact ⟨rfl, rfl⟩

/-- The spacing that some loads leave is the one that was selected last. -/
theorem loads_scs (env : Env) (history : List TcFiles) (t : TcTables) :
    (loads env history t).gcurrentScs =
      ((heldConfigs t.gL1ConfigRequest history).filterMap selectedScs).getLast?.getD
        t.gcurrentScs := by
  rw [← foldl_getD]
  induction history generalizing t with
  | nil => rfl
  | cons files history ih =>
    obtain ⟨hheld, hselected⟩ := loadTables_selects env files t
    rw [loads_cons, ih, hheld, hselected]
    rfl

/-- After some loads of a cell that had no spacing, its spacing is known exactly when the last
selection is. -/
theorem knownScs_loads_iff (env : Env) (history : List TcFiles) (t : TcTables)
    (h : t.gcurrentScs = 0) :
    KnownScs (loads env history t).gcurrentScs ↔ SelectsKnown t.gL1ConfigRequest history := by
  rw [loads_scs, h, SelectsKnown]
  cases hlast : ((heldConfigs t.gL1ConfigRequest history).filterMap selectedScs).getLast? with
  | none => simp [KnownScs]
  | some scs =>
    obtain ⟨configReq, -, hselected⟩ := List.mem_filterMap.mp (List.mem_of_getLast? hlast)
    rw [Option.getD_some]
    constructor
    · intro hknown
      refine ⟨scs, rfl, ?_⟩
      unfold KnownScs at hknown
      omega
    · rintro ⟨scs', hscs', hne⟩
      obtain rfl := Option.some.inj hscs'
      exact (selectedScs_eq_some hselected).resolve_right hne

end History

section Runs

variable {w : World} {dev cell : ℕ} {m m' : Mac}

/-- Whenever a slot indication of a cell is shifted, the shift is defined. -/
def StepShiftDefined (w : World) (dev cell : ℕ) (m : Mac) (i : Input) : Prop :=
  ∀ slotInd, i = .slotIndication dev cell slotInd → (m.cells dev cell).CallsShift →
    ShiftDefined (w.env dev cell) (m.cells dev cell).tables.gcurrentScs

/-- Whenever a slot indication of a cell is shifted, the loads before it have selected a
spacing that the shift knows. -/
def SelectedBefore (w : World) (dev cell : ℕ) (m : Mac) (is : List Input) : Prop :=
  ∀ js slotInd ks m₁, is = js ++ .slotIndication dev cell slotInd :: ks →
    Steps (Handles w) m js m₁ → (m₁.cells dev cell).CallsShift →
    SelectsKnown (m.cells dev cell).tables.gL1ConfigRequest (loadsOf w dev cell js)

/-- The spacing of a cell in a run that has started without one. -/
theorem knownScs_run_iff (h : (m.cells dev cell).tables.gcurrentScs = 0) {js : List Input}
    (hrun : Steps (Handles w) m js m') :
    KnownScs (m'.cells dev cell).tables.gcurrentScs ↔
      SelectsKnown (m.cells dev cell).tables.gL1ConfigRequest (loadsOf w dev cell js) := by
  have hscs := congrArg CellConfig.gcurrentScs (@run_config w dev cell m m' js hrun)
  rw [show (m'.cells dev cell).tables.gcurrentScs = _ from hscs]
  exact knownScs_loads_iff _ _ _ h

/-- In a run that starts without a spacing, the slots of a cell are shifted with a spacing that
the shift knows exactly when, before each of them, a load has selected a grid and the last one
that did has not selected 240 kHz. -/
theorem shift_defined_iff (w : World) (dev cell : ℕ) (m : Mac) (is : List Input)
    (h : (m.cells dev cell).tables.gcurrentScs = 0) :
    Steps.Meets (Handles w) (StepShiftDefined w dev cell) m is ↔
      SelectedBefore w dev cell m is := by
  constructor
  · intro hmeets js slotInd ks m₁ hsplit hpath hcalls
    have hdefined := hmeets js _ ks m₁ hsplit hpath slotInd rfl hcalls
    exact (knownScs_run_iff h hpath).mp (shiftDefined_iff.mp hdefined)
  · intro hselected js i ks m₁ hsplit hpath slotInd hi hcalls
    rw [hi] at hsplit
    exact shiftDefined_iff.mpr ((knownScs_run_iff h hpath).mpr
      (hselected js slotInd ks m₁ hsplit hpath hcalls))

end Runs

section Example

/-- A configuration file whose only grid is the one of 30 kHz. -/
def thirtyFile : List UInt8 := List.replicate 42 0 ++ [1, 0]

/-- Test cases with that configuration. -/
def thirtyWorld : World where
  env := readyWorld.env
  files _ _ file := if file = .config then some thirtyFile else none

/-- The command to load a test case for the first cell. -/
def loadFirst : Input := .appMsg ⟨appTxCase, 1, 1, 0, 0⟩

def firstSlot : Input := .slotIndication 0 0 ⟨0, 0⟩

theorem selectsKnown_thirty : SelectsKnown (fun _ => 0) [thirtyWorld.files 1 0] := by
  refine ⟨30, ?_, by decide⟩
  have hselected : selectedScs (store (fun _ => 0) 0
      (thirtyFile.take (thirtyFile.length % 4294967296))) = some 30 := by
    decide +kernel
  have hheld : heldConfigs (fun _ => 0) [thirtyWorld.files 1 0] =
      [store (fun _ => 0) 0 (thirtyFile.take (thirtyFile.length % 4294967296))] := rfl
  rw [hheld, List.filterMap_cons_some hselected]
  rfl

/-- Two slots after a load with 30 kHz. -/
theorem shift_defined_iff_thirty :
    ∃ m', Steps (Handles thirtyWorld) (restingMac .auto 0) [loadFirst, firstSlot, firstSlot] m' ∧
      Steps.Meets (Handles thirtyWorld) (StepShiftDefined thirtyWorld 0 0) (restingMac .auto 0)
        [loadFirst, firstSlot, firstSlot] := by
  have hruns : (runInputs thirtyWorld (fun _ _ => True) (restingMac .auto 0)
      [loadFirst, firstSlot, firstSlot]).isSome = true := by
    decide +kernel
  obtain ⟨m', hm'⟩ := Option.isSome_iff_exists.mp hruns
  refine ⟨m', (path_of_runInputs hm').1,
    (shift_defined_iff thirtyWorld 0 0 (restingMac .auto 0) _ rfl).mpr ?_⟩
  intro js slotInd ks m₁ hsplit _ _
  have hloads : loadsOf thirtyWorld 0 0 js = [thirtyWorld.files 1 0] := by
    match js with
    | [] => exact absurd (List.cons.inj hsplit).1 Input.noConfusion
    | [i] =>
      obtain ⟨rfl, -⟩ := List.cons.inj hsplit
      rfl
    | [i, j] =>
      obtain ⟨rfl, hrest⟩ := List.cons.inj hsplit
      obtain ⟨rfl, -⟩ := List.cons.inj hrest
      rfl
    | i :: j :: k :: ls =>
      have hlen := congrArg List.length hsplit
      simp at hlen
  rw [hloads]
  exact selectsKnown_thirty

/-- A slot indication that no load comes before makes the cell active, and the next one is
shifted without a spacing. -/
theorem shift_without_spacing : ∃ m₁, Handles readyWorld (restingMac .auto 0) firstSlot m₁ ∧
    (m₁.cells 0 0).CallsShift ∧ (m₁.cells 0 0).tables.gcurrentScs = 0 ∧
    ¬ Steps.Meets (Handles readyWorld) (StepShiftDefined readyWorld 0 0) (restingMac .auto 0)
      [firstSlot, firstSlot] := by
  have hseen : (handle readyWorld firstSlot (restingMac .auto 0)).map (fun r =>
      (decide (r.2.cells 0 0).CallsShift, (r.2.cells 0 0).tables.gcurrentScs)) =
      some (true, 0) := by
    decide +kernel
  obtain ⟨⟨⟨⟩, m₁⟩, hm₁, hstate⟩ := Option.map_eq_some_iff.mp hseen
  obtain ⟨hcalls, hscs⟩ := Prod.mk.inj hstate
  have hcallsShift : (m₁.cells 0 0).CallsShift := of_decide_eq_true hcalls
  have hzero : (m₁.cells 0 0).tables.gcurrentScs = 0 := hscs
  refine ⟨m₁, hm₁, hcallsShift, hzero, ?_⟩
  intro hmeets
  have hdefined := hmeets [firstSlot] firstSlot [] m₁ rfl (.cons hm₁ (.nil m₁)) ⟨0, 0⟩ rfl
    hcallsShift
  have hknown := hdefined.1
  rw [hzero] at hknown
  exact absurd hknown (by unfold KnownScs; decide)

end Example

end TestMac
