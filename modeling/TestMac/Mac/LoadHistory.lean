import TestMac.Mac.Runs
import TestMac.Mac.SlotBounds

/-!
# What the loads of a run leave behind

The configuration and the spacing of a cell are changed by loading a test case for it and by
nothing else. In every state of a run they are those that the loads of the cell so far, one
after the other, make of the first tables.
-/

namespace TestMac

open Bytes Act

/-- The tables after some test cases have been loaded, in order. -/
def loads (env : Env) (history : List TcFiles) (t : TcTables) : TcTables :=
  history.foldl (fun t files => loadTables env files t) t

/-- A test case that is loaded for a cell. -/
structure TcLoad where
  devIndex : ℕ
  cellId : ℕ
  files : TcFiles

/-- The test cases loaded for one cell, in order. -/
def filesOf (dev cell : ℕ) : List TcLoad → List TcFiles
  | [] => []
  | l :: ls =>
    if dev = l.devIndex ∧ cell = l.cellId then l.files :: filesOf dev cell ls
    else filesOf dev cell ls

/-- The files that an input loads for a cell. -/
def Input.loads (w : World) (dev cell : ℕ) (i : Input) : Option TcFiles :=
  match i.atCell w 0 dev cell with
  | some (.txCase files) => some files
  | _ => none

/-- The test cases that some inputs load for a cell, in order. -/
def loadsOf (w : World) (dev cell : ℕ) (is : List Input) : List TcFiles :=
  is.filterMap (Input.loads w dev cell)

variable {env env' : Env} {files : TcFiles} {history : List TcFiles} {t t' : TcTables} {w : World}
  {dev cell : ℕ}

/-- The last value found along a list, or the one there was before. -/
theorem foldl_getD {α β : Type} (f : α → Option β) (as : List α) (b : β) :
    as.foldl (fun b a => (f a).getD b) b = (as.filterMap f).getLast?.getD b := by
  induction as generalizing b with
  | nil => rfl
  | cons a as ih =>
    rw [List.foldl_cons, ih]
    cases ha : f a with
    | none => rw [List.filterMap_cons_none ha, Option.getD_none]
    | some b' => rw [List.filterMap_cons_some ha, List.getLast?_cons, Option.getD_some,
        Option.getD_some]

theorem loads_cons : loads env (files :: history) t = loads env history (loadTables env files t) :=
  rfl

theorem loads_snoc :
    loads env (history ++ [files]) t = loadTables env files (loads env history t) := by
  simp [loads]

/-- What a load makes of the configuration depends on the configuration alone. -/
theorem config_loadTables (h : t.config = t'.config) :
    (loadTables env files t).config = (loadTables env' files t').config := by
  have hsame : ∀ (env : Env) (t : TcTables),
      (loadTables env files t).config = (loadConfig files (clearTables t)).config := by
    intro env t
    obtain ⟨hconfig, hsize, hscs⟩ := loadTables_config env files t
    simp only [TcTables.config, hconfig, hsize, hscs]
  have hcleared : (clearTables t).config = (clearTables t').config := by
    obtain ⟨hconfig, hsize, hscs⟩ := clearTables_config t
    obtain ⟨hconfig', hsize', hscs'⟩ := clearTables_config t'
    simpa only [TcTables.config, hconfig, hsize, hscs, hconfig', hsize', hscs'] using h
  simp only [TcTables.config, CellConfig.mk.injEq] at hcleared
  obtain ⟨hconfig, hsize, hscs⟩ := hcleared
  rw [hsame, hsame, loadConfig, loadConfig]
  cases files .config with
  | none => simp only [TcTables.config, hconfig, hsize, hscs]
  | some bytes => simp only [TcTables.config, hconfig, hscs]

theorem config_loads (h : t.config = t'.config) :
    (loads env history t).config = (loads env history t').config := by
  induction history generalizing t t' with
  | nil => exact h
  | cons files history ih => exact ih (config_loadTables h)

/-- A load does to the configuration what `macTcLoad` does. -/
theorem config_txCase {c : Cell} :
    Ensures (cellAction env (.txCase files)) c fun _ c' =>
      c'.tables.config = (loadTables env files c.tables).config := by
  rw [cellAction, txCase, ensures_bind, macTcLoad_eq, ensures_update, ensures_bind, ensures_update]
  exact config_handling.switch _

/-- Which test case is loaded does not depend on the number of cells. -/
theorem Input.atCell_txCase_iff {i : Input} {n : ℕ} :
    i.atCell w n dev cell = some (.txCase files) ↔ i.loads w dev cell = some files := by
  have hzero : i.atCell w n dev cell = some (.txCase files) ↔
      i.atCell w 0 dev cell = some (.txCase files) := by
    cases i with
    | appMsg msg =>
      simp only [Input.atCell, CtrlMsg.atCell]
      split_ifs <;> simp
    | _ => rfl
  rw [hzero, Input.loads]
  cases i.atCell w 0 dev cell with
  | none => simp
  | some ci => cases ci <;> simp

/-- One input: a load of the cell is added to what was loaded before, any other input is
not. -/
theorem Handles.config {m m' : Mac} {i : Input} (h : Handles w m i m') :
    (m'.cells dev cell).tables.config =
      (TestMac.loads (w.env dev cell) (i.loads w dev cell).toList
        (m.cells dev cell).tables).config := by
  have hcell := h.atCell dev cell
  have hloads : ∀ files, i.atCell w m.cellNum dev cell = some (.txCase files) ↔
      i.loads w dev cell = some files := fun files => i.atCell_txCase_iff
  have hnone : (∀ files, i.atCell w m.cellNum dev cell ≠ some (.txCase files)) →
      i.loads w dev cell = none := fun hat =>
    Option.eq_none_iff_forall_ne_some.mpr fun files hfiles => hat files ((hloads files).mpr hfiles)
  cases hat : i.atCell w m.cellNum dev cell with
  | none =>
    rw [hat] at hcell
    rw [hnone (by simp [hat])]
    exact congrArg (fun own => (CellConfig.mk own.gL1ConfigRequest own.gL1ConfigReqSize
      own.gcurrentScs)) hcell
  | some ci =>
    rw [hat] at hcell
    by_cases htx : ∃ files, ci = .txCase files
    · obtain ⟨files, rfl⟩ := htx
      rw [(hloads files).mp hat]
      exact config_txCase () _ hcell
    · have hci : ∀ files, ci ≠ .txCase files := fun files hci => htx ⟨files, hci⟩
      rw [hnone fun files hfiles => hci files (Option.some.inj (hat.symm.trans hfiles))]
      exact config_cellAction hci _ () _ hcell

/-- In every state of a run a cell has the configuration that the loads of the run make of
its first tables. -/
theorem run_config {m m' : Mac} {is : List Input} (hrun : Steps (Handles w) m is m') :
    (m'.cells dev cell).tables.config =
      (loads (w.env dev cell) (loadsOf w dev cell is) (m.cells dev cell).tables).config := by
  induction hrun with
  | nil => rfl
  | @cons m m₁ m' i is hs _ ih =>
    have hsplit : loadsOf w dev cell (i :: is) =
        (i.loads w dev cell).toList ++ loadsOf w dev cell is := by
      cases hi : i.loads w dev cell with
      | none => simp [loadsOf, hi]
      | some files => simp [loadsOf, hi]
    rw [ih, hsplit, loads, loads, List.foldl_append]
    exact config_loads hs.config

end TestMac
