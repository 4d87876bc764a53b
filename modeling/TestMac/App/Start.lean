import TestMac.App.AppQueue
import TestMac.Lib.Numerals
import Mathlib.Data.List.Nodup

/-!
# The start of the program: `main.c`, `macInit`

The options of the command line set the number of cells of each device, and a thread is
started for each cell of a device that is there. A thread polls the ring of its own cell, so
that a cell without a thread is never served.
-/

namespace TestMac

open CString

/-- What `main` has from the options: fields of `sAppCfg`, and `g_cellNum`. -/
structure StartCfg where
  runtimePerTc : ℕ
  remoteTraceIp : List UInt8
  cellMask : ℕ
  cellNum : ℕ → ℕ

/-- An option found by `getopt_long`, with its argument. -/
inductive StartOption
  | slotNum (qArg : List UInt8)
  | portmask (qArg : List UInt8)
  | cellmask (qArg : List UInt8)
  | unknown

/-- The number that a whole argument spells, and 0 otherwise. -/
def wholeNumber (base : ℕ) (qArg : List UInt8) : ℕ :=
  let pm := strtoulIn base qArg
  if pm.1 = 0 ∨ pm.2 ≠ [] then 0 else pm.1

/-- The bits of a number as an `int` are those of a negative one. -/
def Negative (n : ℕ) : Prop := 0x80000000 ≤ n % 0x100000000

instance (n : ℕ) : Decidable (Negative n) := inferInstanceAs (Decidable (_ ≤ _))

/-- `testmac_slot_num`. -/
def testmacSlotNum (qArg : List UInt8) (cfg : StartCfg) : StartCfg × ℕ :=
  let pm := wholeNumber 0 qArg
  ({ cfg with runtimePerTc := pm % 0x100000000 }, pm)

/-- `testmac_parse_portmask`: the address is copied into 128 bytes. -/
def testmacParsePortmask (qArg : List UInt8) (cfg : StartCfg) : Option (StartCfg × ℕ) :=
  if qArg.length < 128 then some ({ cfg with remoteTraceIp := qArg }, 8) else none

/-- The loop of `testmac_parse_cellmask`, over the devices `i` to 3. -/
def cellNumLoop : ℕ → ℕ → ℕ → (ℕ → ℕ) → ℕ → ℕ
  | 0, _, _, cellNum => cellNum
  | n + 1, i, mask, cellNum =>
    cellNumLoop n (i + 1) (mask / 4) (Function.update cellNum i (mask % 4))

/-- `testmac_parse_cellmask`. -/
def testmacParseCellmask (qArg : List UInt8) (cfg : StartCfg) : StartCfg × ℕ :=
  let pm := wholeNumber 16 qArg
  let cellMask := pm % 0x100000000
  ({ cfg with
    cellMask
    cellNum := if cellMask ≠ 0 then cellNumLoop 4 0 cellMask cfg.cellNum else cfg.cellNum }, pm)

/-- One option: `none` if it is refused. -/
def startOption (cfg : StartCfg) : StartOption → Option StartCfg
  | .slotNum qArg =>
    let (cfg, retval) := testmacSlotNum qArg cfg
    if Negative retval then none else some cfg
  | .portmask qArg => (testmacParsePortmask qArg cfg).map Prod.fst
  | .cellmask qArg =>
    let (cfg, retval) := testmacParseCellmask qArg cfg
    if Negative retval then none else some cfg
  | .unknown => none

/-- `testmac_parse_args`. -/
def testmacParseArgs (cfg : StartCfg) (options : List StartOption) : Option StartCfg :=
  options.foldlM startOption cfg

/-- A call of `rte_eal_remote_launch`, for the thread of a cell. -/
structure Launch where
  dev : ℕ
  cell : ℕ
  cpuId : ℕ
  deriving DecidableEq

/-- The loop of `macInit`, over the devices `devs`. -/
def launchLoop (devMapPort : ℕ → ℤ) (cellNum cpuId : ℕ → ℕ) : List ℕ → ℕ → List Launch
  | [], _ => []
  | dev :: devs, cpuIndex =>
    if 0 ≤ devMapPort dev then
      ⟨dev, 0, cpuId cpuIndex⟩ ::
        if 1 < cellNum dev then
          ⟨dev, 1, cpuId (cpuIndex + 1)⟩ ::
            launchLoop devMapPort cellNum cpuId devs (cpuIndex + 2)
        else launchLoop devMapPort cellNum cpuId devs (cpuIndex + 1)
    else launchLoop devMapPort cellNum cpuId devs cpuIndex

/-- The threads that `macInit` starts. -/
def macInitLaunches (devMapPort : ℕ → ℤ) (cellNum cpuId : ℕ → ℕ) : List Launch :=
  launchLoop devMapPort cellNum cpuId (List.range 4) 0

variable {cfg cfg' : StartCfg} {options : List StartOption} {counts : ℕ → ℕ}
  {devMapPort : ℕ → ℤ} {cellNum cpuId : ℕ → ℕ} {mark : List UInt8}

/-- The mask of the numbers of cells of four devices. -/
def maskOf (counts : ℕ → ℕ) : ℕ := counts 0 + 4 * (counts 1 + 4 * (counts 2 + 4 * counts 3))

section Options

theorem wholeNumber_of_read {base n : ℕ} {qArg : List UInt8} (h : strtoulIn base qArg = (n, [])) :
    wholeNumber base qArg = n := by
  rw [wholeNumber, h]
  simp only [ne_eq, not_true, or_false]
  split_ifs with hzero
  · exact hzero.symm
  · rfl

/-- The loop takes the mask apart. -/
theorem cellNumLoop_maskOf (hcounts : ∀ dev < 4, counts dev < 4) {dev : ℕ} (hdev : dev < 4) :
    cellNumLoop 4 0 (maskOf counts) cellNum dev = counts dev := by
  have h0 := hcounts 0 (by decide)
  have h1 := hcounts 1 (by decide)
  have h2 := hcounts 2 (by decide)
  have h3 := hcounts 3 (by decide)
  simp only [cellNumLoop, maskOf, Function.update_apply, Nat.reduceAdd]
  obtain rfl | rfl | rfl | rfl : dev = 0 ∨ dev = 1 ∨ dev = 2 ∨ dev = 3 := by omega
  · rw [if_neg (by decide), if_neg (by decide), if_neg (by decide), if_pos rfl]
    omega
  · rw [if_neg (by decide), if_neg (by decide), if_pos rfl]
    omega
  · rw [if_neg (by decide), if_pos rfl]
    omega
  · rw [if_pos rfl]
    omega

/-- The mask in base sixteen sets the numbers of cells, whatever they were. -/
theorem startOption_cellmask (hmark : mark = [] ∨ ∃ c, mark = [48, c] ∧ tolower c = 120)
    (hcounts : ∀ dev < 4, counts dev < 4) (hmask : maskOf counts ≠ 0)
    (h : startOption cfg (.cellmask (mark ++ spell 16 (maskOf counts))) = some cfg') {dev : ℕ}
    (hdev : dev < 4) : cfg'.cellNum dev = counts dev := by
  have h0 := hcounts 0 (by decide)
  have h1 := hcounts 1 (by decide)
  have h2 := hcounts 2 (by decide)
  have h3 := hcounts 3 (by decide)
  have hsmall : maskOf counts < 256 := by
    rw [maskOf]
    omega
  have hread := wholeNumber_of_read (strtoulIn_hex hmark (by omega : maskOf counts ≤ _))
  have hmod : maskOf counts % 0x100000000 = maskOf counts := Nat.mod_eq_of_lt (by omega)
  simp only [startOption, testmacParseCellmask, hread, hmod, hmask, ne_eq, not_false_eq_true,
    if_true] at h
  split_ifs at h with hnegative
  cases h
  exact cellNumLoop_maskOf hcounts hdev

/-- Only the mask sets the numbers of cells. -/
theorem startOption_cellNum {option : StartOption} (hnot : ∀ qArg, option ≠ .cellmask qArg)
    (h : startOption cfg option = some cfg') : cfg'.cellNum = cfg.cellNum := by
  cases option with
  | slotNum qArg =>
    unfold startOption at h
    dsimp only at h
    split_ifs at h
    cases h
    rfl
  | portmask qArg =>
    simp only [startOption, testmacParsePortmask] at h
    split_ifs at h
    · cases h
      rfl
    · exact absurd h (by simp)
  | cellmask qArg => exact absurd rfl (hnot qArg)
  | unknown => exact absurd h (by simp [startOption])

theorem testmacParseArgs_cellNum (hnot : ∀ qArg, .cellmask qArg ∉ options)
    (h : testmacParseArgs cfg options = some cfg') : cfg'.cellNum = cfg.cellNum := by
  induction options generalizing cfg with
  | nil =>
    obtain rfl := Option.some.inj h
    rfl
  | cons option options ih =>
    obtain ⟨cfg₁, hfirst, hrest⟩ := Option.bind_eq_some_iff.mp h
    rw [ih (fun qArg hq => hnot qArg (List.mem_cons_of_mem _ hq)) hrest]
    refine startOption_cellNum (fun qArg hq => hnot qArg ?_) hfirst
    rw [hq]
    exact List.mem_cons_self

/-- The last mask counts. -/
theorem testmacParseArgs_mask {before after : List StartOption}
    (hmark : mark = [] ∨ ∃ c, mark = [48, c] ∧ tolower c = 120)
    (hcounts : ∀ dev < 4, counts dev < 4) (hmask : maskOf counts ≠ 0)
    (hlast : ∀ qArg, .cellmask qArg ∉ after)
    (h : testmacParseArgs cfg
      (before ++ .cellmask (mark ++ spell 16 (maskOf counts)) :: after) = some cfg')
    {dev : ℕ} (hdev : dev < 4) : cfg'.cellNum dev = counts dev := by
  rw [testmacParseArgs, List.foldlM_append] at h
  obtain ⟨cfg₁, -, h⟩ := Option.bind_eq_some_iff.mp h
  obtain ⟨cfg₂, hmasked, h⟩ := Option.bind_eq_some_iff.mp h
  rw [testmacParseArgs_cellNum hlast h]
  exact startOption_cellmask hmark hcounts hmask hmasked hdev

end Options

section Launches

variable {devs : List ℕ} {cpuIndex : ℕ}

/-- A thread is started for the first cell of each device that is there, and for the second
one where there are more. -/
theorem mem_launchLoop {dev cell : ℕ} :
    (∃ launch ∈ launchLoop devMapPort cellNum cpuId devs cpuIndex,
        launch.dev = dev ∧ launch.cell = cell) ↔
      dev ∈ devs ∧ 0 ≤ devMapPort dev ∧ (cell = 0 ∨ cell = 1 ∧ 1 < cellNum dev) := by
  induction devs generalizing cpuIndex with
  | nil => simp [launchLoop]
  | cons d devs ih =>
    rw [launchLoop]
    split_ifs with hport hmore
    · simp only [List.mem_cons, exists_eq_or_imp, ih]
      grind
    · simp only [List.mem_cons, exists_eq_or_imp, ih]
      grind
    · rw [ih, List.mem_cons]
      grind

/-- The cores are taken in order. -/
theorem map_cpuId_launchLoop :
    (launchLoop devMapPort cellNum cpuId devs cpuIndex).map Launch.cpuId =
      (List.range' cpuIndex (launchLoop devMapPort cellNum cpuId devs cpuIndex).length).map
        cpuId := by
  induction devs generalizing cpuIndex with
  | nil => rfl
  | cons d devs ih =>
    rw [launchLoop]
    split_ifs
    · simp [ih, List.range'_succ]
    · simp [ih, List.range'_succ]
    · exact ih

/-- No cell has two threads. -/
theorem nodup_launchLoop (hdevs : devs.Nodup) :
    ((launchLoop devMapPort cellNum cpuId devs cpuIndex).map fun launch =>
      (launch.dev, launch.cell)).Nodup := by
  induction devs generalizing cpuIndex with
  | nil => exact List.nodup_nil
  | cons d devs ih =>
    obtain ⟨hnew, hrest⟩ := List.nodup_cons.mp hdevs
    have hothers : ∀ cell cpuIndex, (d, cell) ∉
        (launchLoop devMapPort cellNum cpuId devs cpuIndex).map fun launch =>
          (launch.dev, launch.cell) := by
      intro cell cpuIndex hmem
      obtain ⟨launch, hlaunch, hcell⟩ := List.mem_map.mp hmem
      obtain ⟨hdev, -⟩ := mem_launchLoop.mp ⟨launch, hlaunch, rfl, rfl⟩
      exact hnew ((Prod.mk.inj hcell).1 ▸ hdev)
    rw [launchLoop]
    split_ifs
    · simp only [List.map_cons, List.nodup_cons, List.mem_cons, not_or]
      exact ⟨⟨by simp, hothers 0 _⟩, hothers 1 _, ih hrest⟩
    · simp only [List.map_cons, List.nodup_cons]
      exact ⟨hothers 0 _, ih hrest⟩
    · exact ih hrest

end Launches

section Served

variable {pBuf : ℕ → ℕ → ℕ} {w : World} {appCfg : AppCfg} {s s' : AppSys} {dev cell : ℕ}

/-- A ring that is not polled hands nothing over. -/
theorem handed_of_not_polled {es : List (AppEvent pBuf)}
    (hrun : Steps (AppStep w appCfg) s es s') (hes : .poll dev cell ∉ es) :
    s'.handed dev cell = s.handed dev cell := by
  induction hrun with
  | nil => rfl
  | @cons s s₁ s' e es hs _ ih =>
    rw [ih fun h => hes (List.mem_cons_of_mem e h)]
    cases e with
    | call c repMsg =>
      simp only [AppStep, appStep] at hs
      split_ifs at hs
      cases hp : c.posting appCfg <;> rw [hp] at hs <;> cases hs <;> rfl
    | poll dev' cell' =>
      simp only [AppStep, appStep] at hs
      split_ifs at hs
      cases hs
      have hother : ¬ (dev' = dev ∧ cell' = cell) := by
        rintro ⟨rfl, rfl⟩
        exact hes List.mem_cons_self
      exact setEntry_other fun h => hother ⟨h.1.symm, h.2.symm⟩
    | phy i =>
      obtain ⟨-, m, rfl⟩ := phy_keeps hs
      rfl

end Served

/-- When the last mask of the command line spells the numbers of cells, a thread with a core of
its own is started for the first cell of each device that is there, and for the second one
where the mask has two cells or more. In every run in which these threads poll, no other cell
is ever handed a command. -/
theorem cells_served_of_mask {before after : List StartOption} {pBuf : ℕ → ℕ → ℕ} {w : World}
    {appCfg : AppCfg} {s₀ s : AppSys} {es : List (AppEvent pBuf)}
    (hmark : mark = [] ∨ ∃ c, mark = [48, c] ∧ tolower c = 120)
    (hcounts : ∀ dev < 4, counts dev < 4) (hmask : maskOf counts ≠ 0)
    (hlast : ∀ qArg, .cellmask qArg ∉ after)
    (hparse : testmacParseArgs cfg
      (before ++ .cellmask (mark ++ spell 16 (maskOf counts)) :: after) = some cfg')
    (hcores : ∀ i < (macInitLaunches devMapPort cfg'.cellNum cpuId).length, ∀ j < i,
      cpuId i ≠ cpuId j)
    (hinit : s₀.Initial pBuf) (hrun : Steps (AppStep w appCfg) s₀ es s)
    (hpolls : ∀ dev cell, .poll dev cell ∈ es →
      ∃ launch ∈ macInitLaunches devMapPort cfg'.cellNum cpuId,
        launch.dev = dev ∧ launch.cell = cell) :
    (∀ dev cell, (∃ launch ∈ macInitLaunches devMapPort cfg'.cellNum cpuId,
        launch.dev = dev ∧ launch.cell = cell) ↔
      dev < 4 ∧ 0 ≤ devMapPort dev ∧ (cell = 0 ∨ cell = 1 ∧ 2 ≤ counts dev)) ∧
    ((macInitLaunches devMapPort cfg'.cellNum cpuId).map Launch.cpuId).Nodup ∧
    ((macInitLaunches devMapPort cfg'.cellNum cpuId).map fun launch =>
      (launch.dev, launch.cell)).Nodup ∧
    ∀ dev cell, s.handed dev cell ≠ [] →
      dev < 4 ∧ 0 ≤ devMapPort dev ∧ (cell = 0 ∨ cell = 1 ∧ 2 ≤ counts dev) := by
  have hcells : ∀ dev cell, (∃ launch ∈ macInitLaunches devMapPort cfg'.cellNum cpuId,
      launch.dev = dev ∧ launch.cell = cell) ↔
      dev < 4 ∧ 0 ≤ devMapPort dev ∧ (cell = 0 ∨ cell = 1 ∧ 2 ≤ counts dev) := by
    intro dev cell
    rw [macInitLaunches, mem_launchLoop, List.mem_range]
    refine and_congr_right fun hdev => ?_
    rw [testmacParseArgs_mask hmark hcounts hmask hlast hparse hdev]
    rfl
  refine ⟨hcells, ?_, nodup_launchLoop List.nodup_range, fun dev cell hhanded => ?_⟩
  · rw [macInitLaunches, map_cpuId_launchLoop, ← List.range_eq_range']
    refine (List.nodup_map_iff_inj_on List.nodup_range).mpr fun i hi j hj hij => ?_
    rw [List.mem_range] at hi hj
    rcases Nat.lt_trichotomy i j with hlt | heq | hlt
    · exact absurd hij.symm (hcores j hj i hlt)
    · exact heq
    · exact absurd hij (hcores i hi j hlt)
  · by_contra hnot
    refine hhanded ?_
    rw [handed_of_not_polled hrun, hinit.handed]
    intro hpoll
    exact hnot ((hcells dev cell).mp (hpolls dev cell hpoll))

/-- `-T 10 -C 0x9 -p 10.0.0.1` with two devices: one cell and two cells. -/
theorem cells_served_of_mask_nine : ∃ cfg' s,
    testmacParseArgs ⟨0, [], 0, fun _ => 1⟩ [.slotNum (literal "10"), .cellmask (literal "0x9"),
      .portmask (literal "10.0.0.1")] = some cfg' ∧
    Steps (AppStep readyWorld ⟨.manual, false⟩) bootedSys
      [.call (.appTcConfigCase 7 1 1) lowStack, .call (.appTcConfigCase 7 0 1) lowStack,
        .poll 0 0, .poll 1 1] s ∧
    (s.handed 1 1).length = 1 ∧ (s.posted 0 1).length = 1 ∧
    ∀ dev cell, s.handed dev cell ≠ [] → dev < 4 ∧ 0 ≤ (if dev < 2 then (dev : ℤ) else -1) ∧
      (cell = 0 ∨ cell = 1 ∧ 2 ≤ if dev = 0 then 1 else if dev = 1 then 2 else 0) := by
  have hparse : (testmacParseArgs ⟨0, [], 0, fun _ => 1⟩ [.slotNum (literal "10"),
      .cellmask (literal "0x9"), .portmask (literal "10.0.0.1")]).isSome = true := by
    decide +kernel
  obtain ⟨cfg', hcfg'⟩ := Option.isSome_iff_exists.mp hparse
  have hruns : (([.call (.appTcConfigCase 7 1 1) lowStack, .call (.appTcConfigCase 7 0 1) lowStack,
        .poll 0 0, .poll 1 1] : List (AppEvent storages)).foldlM
      (appStep readyWorld ⟨.manual, false⟩) bootedSys).map
      (fun s => ((s.handed 1 1).length, (s.posted 0 1).length)) = some (1, 1) := by
    decide +kernel
  obtain ⟨s, hs, hend⟩ := Option.map_eq_some_iff.mp hruns
  obtain ⟨hhanded, hposted⟩ := Prod.mk.inj hend
  let counts : ℕ → ℕ := fun dev => if dev = 0 then 1 else if dev = 1 then 2 else 0
  let devMapPort : ℕ → ℤ := fun dev => if dev < 2 then dev else -1
  have hmark : [48, 120] = ([] : List UInt8) ∨
      ∃ c : UInt8, [48, 120] = [48, c] ∧ tolower c = 120 := .inr ⟨120, rfl, by decide⟩
  have hcounts : ∀ dev < 4, counts dev < 4 := by decide
  have hmask : maskOf counts ≠ 0 := by decide
  have htext : literal "0x9" = [48, 120] ++ spell 16 (maskOf counts) := by decide
  have hlast : ∀ qArg, .cellmask qArg ∉ [StartOption.portmask (literal "10.0.0.1")] := by simp
  have hargs : testmacParseArgs ⟨0, [], 0, fun _ => 1⟩ ([.slotNum (literal "10")] ++
      .cellmask ([48, 120] ++ spell 16 (maskOf counts)) :: [.portmask (literal "10.0.0.1")]) =
      some cfg' := by
    rw [← htext]
    exact hcfg'
  have htwo : cfg'.cellNum 1 = 2 :=
    testmacParseArgs_mask hmark hcounts hmask hlast hargs (by decide : 1 < 4)
  obtain ⟨-, -, -, hserved⟩ := @cells_served_of_mask _ _ counts devMapPort (fun i => i + 1) _ _ _ _
    _ _ _ _ _ hmark hcounts hmask hlast hargs (by omega) bootedSys_initial (Steps.of_foldlM hs)
    fun dev cell hpoll => by
      rw [macInitLaunches, mem_launchLoop]
      obtain ⟨rfl, rfl⟩ | ⟨rfl, rfl⟩ : dev = 0 ∧ cell = 0 ∨ dev = 1 ∧ cell = 1 := by
        simpa using hpoll
      · exact ⟨by decide, by decide, .inl rfl⟩
      · exact ⟨by decide, by decide, .inr ⟨rfl, by rw [htwo]; decide⟩⟩
  exact ⟨cfg', s, hcfg', Steps.of_foldlM hs, hhanded, hposted, hserved⟩

end TestMac
