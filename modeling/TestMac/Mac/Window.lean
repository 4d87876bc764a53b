import TestMac.Mac.Spacing

/-!
# The slot-time-out window: `macCellSetScs`

The two thresholds that the ticks of a slot are compared with belong to the whole process.
Setting the spacing of any cell to 15 kHz doubles both of them, and nothing undoes it. The
window is a function of the spacing set last only as long as doubling has not changed it, or
nothing has been set since.
-/

namespace TestMac

open Bytes

/-- The thresholds `maxTimeOut` and `minTimeOut`, of type `uint64_t`. -/
structure SlotWindow where
  maxTimeOut : ℕ
  minTimeOut : ℕ
  maxTimeOut_lt : maxTimeOut < 2 ^ 64
  minTimeOut_lt : minTimeOut < 2 ^ 64
  deriving DecidableEq

/-- Both thresholds are doubled, as `macCellSetScs` does for 15 kHz. -/
def SlotWindow.doubled (window : SlotWindow) : SlotWindow where
  maxTimeOut := 2 * window.maxTimeOut % 2 ^ 64
  minTimeOut := 2 * window.minTimeOut % 2 ^ 64
  maxTimeOut_lt := Nat.mod_lt _ (by decide)
  minTimeOut_lt := Nat.mod_lt _ (by decide)

/-- The globals that `macCellSetScs` changes. -/
structure ScsState where
  gcurrentScs : ℕ → ℕ → ℕ
  window : SlotWindow

/-- The arguments of a call of `macCellSetScs`. -/
structure ScsCall where
  i : ℕ
  devIndex : ℕ
  cellId : ℕ
  deriving DecidableEq

/-- `macCellSetScs`. -/
def macCellSetScs (c : ScsCall) (s : ScsState) : ScsState where
  gcurrentScs := setEntry s.gcurrentScs c.devIndex c.cellId c.i
  window := if c.i = 15 then s.window.doubled else s.window

/-- After each of the calls the window is the one that belongs to the spacing just set. -/
def WindowFollows (windowOf : ℕ → SlotWindow) : List ScsCall → ScsState → Prop
  | [], _ => True
  | c :: cs, s =>
    (macCellSetScs c s).window = windowOf c.i ∧ WindowFollows windowOf cs (macCellSetScs c s)

/-- The window is a function of the spacing set last, and the first window belongs to every
spacing other than 15 kHz. -/
def FunctionOfScs (cs : List ScsCall) (s : ScsState) : Prop :=
  ∃ windowOf : ℕ → SlotWindow, (∀ scs, scs ≠ 15 → windowOf scs = s.window) ∧
    WindowFollows windowOf cs s

/-- Both thresholds are multiples of a number. -/
def SlotWindow.MultipleOf (n : ℕ) (window : SlotWindow) : Prop :=
  n ∣ window.maxTimeOut ∧ n ∣ window.minTimeOut

instance (n : ℕ) (window : SlotWindow) : Decidable (window.MultipleOf n) :=
  inferInstanceAs (Decidable (_ ∧ _))

/-- No call comes after one with 15 kHz, except that doubling the window changes nothing. -/
def NothingAfterDoubling (window : SlotWindow) (cs : List ScsCall) : Prop :=
  cs.Pairwise fun c c' => c.i = 15 → window.MultipleOf (if c'.i = 15 then 2 ^ 63 else 2 ^ 64)

variable {window window' : SlotWindow} {s : ScsState} {c : ScsCall} {cs : List ScsCall}
  {windowOf : ℕ → SlotWindow}

theorem SlotWindow.eq_iff : window = window' ↔
    window.maxTimeOut = window'.maxTimeOut ∧ window.minTimeOut = window'.minTimeOut := by
  obtain ⟨max, min, _, _⟩ := window
  obtain ⟨max', min', _, _⟩ := window'
  simp

/-- Doubling leaves the window when both thresholds are zero. -/
theorem SlotWindow.doubled_eq_iff : window.doubled = window ↔ window.MultipleOf (2 ^ 64) := by
  obtain ⟨max, min, hmax, hmin⟩ := window
  simp only [SlotWindow.eq_iff, SlotWindow.doubled, SlotWindow.MultipleOf]
  omega

/-- Doubling twice is doubling once when both thresholds are multiples of `2 ^ 63`. -/
theorem SlotWindow.doubled_doubled_iff :
    window.doubled.doubled = window.doubled ↔ window.MultipleOf (2 ^ 63) := by
  obtain ⟨max, min, hmax, hmin⟩ := window
  simp only [SlotWindow.eq_iff, SlotWindow.doubled, SlotWindow.MultipleOf]
  omega

/-- Once the window has been doubled, it follows the spacings exactly when nothing moves it
again and no call needs the first one. -/
theorem windowFollows_doubled_iff (hs : s.window = window.doubled)
    (h15 : windowOf 15 = window.doubled) (hother : ∀ scs, scs ≠ 15 → windowOf scs = window) :
    WindowFollows windowOf cs s ↔
      ∀ c ∈ cs, window.MultipleOf (if c.i = 15 then 2 ^ 63 else 2 ^ 64) := by
  induction cs generalizing s with
  | nil => simp [WindowFollows]
  | cons c cs ih =>
    rw [WindowFollows, List.forall_mem_cons, macCellSetScs, hs]
    by_cases hc : c.i = 15
    · rw [if_pos hc, if_pos hc, hc, h15, SlotWindow.doubled_doubled_iff]
      constructor
      · rintro ⟨hmult, hrest⟩
        exact ⟨hmult, (ih (SlotWindow.doubled_doubled_iff.mpr hmult)).mp hrest⟩
      · rintro ⟨hmult, hrest⟩
        exact ⟨hmult, (ih (SlotWindow.doubled_doubled_iff.mpr hmult)).mpr hrest⟩
    · rw [if_neg hc, if_neg hc, hother c.i hc, SlotWindow.doubled_eq_iff]
      constructor
      · rintro ⟨hmult, hrest⟩
        exact ⟨hmult, (ih rfl).mp hrest⟩
      · rintro ⟨hmult, hrest⟩
        exact ⟨hmult, (ih rfl).mpr hrest⟩

theorem nothingAfterDoubling_cons :
    NothingAfterDoubling window (c :: cs) ↔
      (c.i = 15 → ∀ c' ∈ cs, window.MultipleOf (if c'.i = 15 then 2 ^ 63 else 2 ^ 64)) ∧
        NothingAfterDoubling window cs := by
  rw [NothingAfterDoubling, List.pairwise_cons, ← NothingAfterDoubling]
  constructor
  · rintro ⟨hc, hcs⟩
    exact ⟨fun h15 c' hc' => hc c' hc' h15, hcs⟩
  · rintro ⟨hc, hcs⟩
    exact ⟨fun c' hc' h15 => hc h15 c' hc', hcs⟩

theorem nothingAfterDoubling_of_forall
    (h : ∀ c ∈ cs, window.MultipleOf (if c.i = 15 then 2 ^ 63 else 2 ^ 64)) :
    NothingAfterDoubling window cs :=
  List.pairwise_of_forall_mem_list fun _ _ c' hc' _ => h c' hc'

/-- The window before the first doubling. -/
theorem WindowFollows.nothingAfterDoubling (h : WindowFollows windowOf cs s)
    (hs : s.window = window) (hother : ∀ scs, scs ≠ 15 → windowOf scs = window) :
    NothingAfterDoubling window cs := by
  induction cs generalizing s with
  | nil => exact List.Pairwise.nil
  | cons c cs ih =>
    obtain ⟨hfirst, hrest⟩ := h
    rw [nothingAfterDoubling_cons]
    by_cases hc : c.i = 15
    · have hdoubled : (macCellSetScs c s).window = window.doubled := by
        rw [macCellSetScs, if_pos hc, hs]
      rw [hdoubled, hc] at hfirst
      have hall := (windowFollows_doubled_iff hdoubled hfirst.symm hother).mp hrest
      exact ⟨fun _ => hall, nothingAfterDoubling_of_forall hall⟩
    · have hkept : (macCellSetScs c s).window = window := by
        rw [macCellSetScs, if_neg hc, hs]
      exact ⟨fun h15 => absurd h15 hc, ih hrest hkept⟩

theorem windowFollows_of_nothingAfterDoubling (h : NothingAfterDoubling window cs)
    (hs : s.window = window) (h15 : windowOf 15 = window.doubled)
    (hother : ∀ scs, scs ≠ 15 → windowOf scs = window) : WindowFollows windowOf cs s := by
  induction cs generalizing s with
  | nil => trivial
  | cons c cs ih =>
    obtain ⟨hc15, hcs⟩ := nothingAfterDoubling_cons.mp h
    by_cases hc : c.i = 15
    · have hdoubled : (macCellSetScs c s).window = window.doubled := by
        rw [macCellSetScs, if_pos hc, hs]
      exact ⟨by rw [hdoubled, hc, h15],
        (windowFollows_doubled_iff hdoubled h15 hother).mpr (hc15 hc)⟩
    · have hkept : (macCellSetScs c s).window = window := by
        rw [macCellSetScs, if_neg hc, hs]
      exact ⟨by rw [hkept, hother c.i hc], ih hcs hkept⟩

/-- For any sequence of calls, on any cells and from any state, the window is a function of
the spacing set last, with the first window for all spacings but 15 kHz, exactly when no call
comes after one with 15 kHz. The only exceptions are windows that doubling does not change: a
later call with 15 kHz does no harm when both thresholds are multiples of `2 ^ 63`, and one
with another spacing when both are zero. -/
theorem functionOfScs_iff (cs : List ScsCall) (s : ScsState) :
    FunctionOfScs cs s ↔ NothingAfterDoubling s.window cs := by
  constructor
  · rintro ⟨windowOf, hother, hfollows⟩
    exact hfollows.nothingAfterDoubling rfl hother
  · intro h
    refine ⟨fun scs => if scs = 15 then s.window.doubled else s.window, ?_, ?_⟩
    · intro scs hscs
      exact if_neg hscs
    · exact windowFollows_of_nothingAfterDoubling h rfl (if_pos rfl) fun scs hscs => if_neg hscs

/-- The window that `macInit` gives on an ARM processor. -/
def armWindow : SlotWindow := ⟨15000, 5000, by decide, by decide⟩

/-- Setting 15 kHz for a cell twice moves the window twice, and setting 30 kHz afterwards does
not move it back. -/
theorem window_drifts :
    ¬ FunctionOfScs [⟨15, 0, 0⟩, ⟨15, 0, 0⟩] ⟨fun _ _ => 0, armWindow⟩ ∧
      ¬ FunctionOfScs [⟨15, 0, 0⟩, ⟨30, 0, 0⟩] ⟨fun _ _ => 0, armWindow⟩ := by
  constructor
  · rintro ⟨windowOf, -, hfirst, hsecond, -⟩
    have hsame : armWindow.doubled = armWindow.doubled.doubled := hfirst.trans hsecond.symm
    exact absurd hsame (by decide)
  · rintro ⟨windowOf, hother, -, hsecond, -⟩
    have hsame : armWindow.doubled = armWindow := hsecond.trans (hother 30 (by decide))
    exact absurd hsame (by decide)

section Loads

/-- The calls that some loads lead to, when the cells hold configurations: `getCarrierConfig`
sets the spacing of the first grid, if there is one. -/
def scsCalls (held : ℕ → ℕ → Mem) : List TcLoad → List ScsCall
  | [] => []
  | l :: ls =>
    let configReq := heldConfig l.files (held l.devIndex l.cellId)
    ((selectedScs configReq).map fun scs => ⟨scs, l.devIndex, l.cellId⟩).toList ++
      scsCalls (setEntry held l.devIndex l.cellId configReq) ls

/-- The state after some calls. -/
def setScs (cs : List ScsCall) (s : ScsState) : ScsState :=
  cs.foldl (fun s c => macCellSetScs c s) s

theorem setScs_append (cs' : List ScsCall) : setScs (cs ++ cs') s = setScs cs' (setScs cs s) :=
  List.foldl_append

/-- A call that is made or not. -/
theorem setScs_toList (scs : Option ℕ) (dev cell : ℕ) :
    (setScs (scs.map fun scs => ⟨scs, dev, cell⟩).toList s).gcurrentScs =
      setEntry s.gcurrentScs dev cell (scs.getD (s.gcurrentScs dev cell)) := by
  cases scs with
  | none =>
    funext dev' cell'
    by_cases h : dev' = dev ∧ cell' = cell
    · obtain ⟨rfl, rfl⟩ := h
      rw [setEntry_same]
      rfl
    · rw [setEntry_other h]
      rfl
  | some scs => rfl

/-- The calls that loads lead to leave each cell the spacing that its own loads leave it. -/
theorem gcurrentScs_scsCalls (env : Env) {dev cell : ℕ} {held : ℕ → ℕ → Mem} {ls : List TcLoad}
    {t : TcTables} (hheld : held dev cell = t.gL1ConfigRequest)
    (hscs : s.gcurrentScs dev cell = t.gcurrentScs) :
    (setScs (scsCalls held ls) s).gcurrentScs dev cell =
      (loads env (filesOf dev cell ls) t).gcurrentScs := by
  induction ls generalizing held s t with
  | nil => exact hscs
  | cons l ls ih =>
    rw [scsCalls, setScs_append, filesOf]
    by_cases hown : dev = l.devIndex ∧ cell = l.cellId
    · obtain ⟨rfl, rfl⟩ := hown
      obtain ⟨hconfig, hselected⟩ := loadTables_selects env l.files t
      rw [if_pos ⟨rfl, rfl⟩, loads_cons]
      apply ih
      · rw [setEntry_same, hheld, hconfig]
      · rw [setScs_toList, setEntry_same, hheld, hscs, hselected]
    · rw [if_neg hown]
      apply ih
      · rw [setEntry_other hown, hheld]
      · rw [setScs_toList, setEntry_other hown, hscs]

end Loads

end TestMac
