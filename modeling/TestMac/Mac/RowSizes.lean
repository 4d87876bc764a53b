import TestMac.Mac.LoadHistory
import TestMac.Mac.Loaded
import TestMac.Mac.OwnRows

/-!
# The sizes that loads record

The sizes recorded for the rows of all cells lie in one table. A load clears the sizes of the
rows of its cell, and then records the lengths of the files it finds, in order. With a wide
spacing a file may lead to the row of another slot, or of the next cell.
-/

namespace TestMac

open Bytes Act

/-- The file of a row, by the name that `macTcLoad` builds. -/
def TtiReq.tcFile (r : TtiReq) (sfn slot : ℕ) : TcFile :=
  match r with
  | dl => .dltti sfn slot
  | ul => .ultti sfn slot

/-- The table of sizes, for the rows of all cells. -/
def Cells.sizes (cells : Cells) (r : TtiReq) : SlotTable ℕ :=
  match r with
  | .dl => cells.rows.gL1DlttiReqSize
  | .ul => cells.rows.gL1UlttiReqSize

/-- The test case is loaded. -/
def TcLoad.apply (envs : ℕ → ℕ → Env) (l : TcLoad) (cells : Cells) : Cells :=
  cells.set l.devIndex l.cellId
    ((cells l.devIndex l.cellId).loaded (envs l.devIndex l.cellId) l.files)

/-- The cells after some test cases have been loaded, in order. -/
def loadCells (envs : ℕ → ℕ → Env) (history : List TcLoad) (cells : Cells) : Cells :=
  history.foldl (fun cells l => l.apply envs cells) cells

/-- The file that a load reads last for the row at a place behind the first row of its cell,
given the slots that it goes through. -/
def TcFiles.readFor (files : TcFiles) (r : TtiReq) (slots p : ℕ) : Option (List UInt8) :=
  ((frameSlots 4 slots).filterMap fun ij =>
    if rowIndex ij.1 ij.2 = p then files (r.tcFile ij.1 ij.2) else none).getLast?

/-- The file whose length stands at a place of the table of sizes after a load, given the one
before: a row of the cell is cleared first. -/
def TcLoad.fileFor (l : TcLoad) (cells : Cells) (r : TtiReq) (p : ℕ)
    (file : Option (List UInt8)) : Option (List UInt8) :=
  let first := firstRow l.devIndex l.cellId
  if p < first then file
  else
    (l.files.readFor r (loadSlotNum l.files (cells l.devIndex l.cellId).tables) (p - first)).or
      (if p - first < ownRows then none else file)

/-- The file whose length stands at a place of the table of sizes after some loads. -/
def fileFor (envs : ℕ → ℕ → Env) (r : TtiReq) (p : ℕ) :
    List TcLoad → Cells → Option (List UInt8) → Option (List UInt8)
  | [], _, file => file
  | l :: history, cells, file =>
    fileFor envs r p history (l.apply envs cells) (l.fileFor cells r p file)

/-- The size recorded for a file, if there is one. -/
def recordedSize : Option (List UInt8) → ℕ
  | none => 0
  | some bytes => bytes.length % 4294967296

variable {env : Env} {envs : ℕ → ℕ → Env} {files : TcFiles} {t t' : TcTables}
  {cells cells' : Cells} {dev cell p : ℕ} {l : TcLoad} {r : TtiReq} {w : World}

theorem sizes_cell (cells : Cells) (r : TtiReq) (dev cell : ℕ) :
    r.sizes (cells dev cell).tables = (cells.sizes r).behind (firstRow dev cell) := by
  cases r <;> rfl

theorem sizes_set (cells : Cells) (r : TtiReq) (dev cell : ℕ) (c : Cell) :
    (cells.set dev cell c).sizes r =
      (cells.sizes r).put (firstRow dev cell) (r.sizes c.tables) := by
  cases r <;> rfl

theorem recordedSize_lt (file : Option (List UInt8)) : recordedSize file < 4294967296 := by
  have hpos : 0 < 4294967296 := by decide
  cases file with
  | none => exact hpos
  | some bytes => exact Nat.mod_lt _ hpos

section Load

theorem clearSlot_sizes (t : TcTables) (q : ℕ) :
    (r.sizes (clearSlot t q)).rows p = if p = q then 0 else (r.sizes t).rows p := by
  cases r <;> rfl

/-- Clearing reaches the rows of the cell, and no others. -/
theorem clearTables_sizes (t : TcTables) :
    (r.sizes (clearTables t)).rows p = if p < ownRows then 0 else (r.sizes t).rows p := by
  split_ifs with hp
  · have hlead : rowIndex (p / 20) (p % 20) = p := Nat.div_add_mod p 20
    have hmem : (p / 20, p % 20) ∈ frameSlots 4 20 := by
      unfold ownRows at hp
      exact mem_frameSlots.mpr ⟨by dsimp only; omega, Nat.mod_lt p (by decide)⟩
    refine foldl_establishes (Q := fun _ => True) (P := fun t' => (r.sizes t').rows p = 0) _
      (fun _ _ _ _ => trivial) ?_ ?_ hmem trivial
    · intro kl _ t' ht'
      rw [clearSlot_sizes, ht', ite_self]
    · intro t' _
      rw [clearSlot_sizes, if_pos hlead.symm]
  · refine foldl_tables (P := fun t' => (r.sizes t').rows p = (r.sizes t).rows p) ?_ rfl
    intro ij hij t' ht'
    obtain ⟨hi, hj⟩ := mem_frameSlots.mp hij
    have hne : p ≠ rowIndex ij.1 ij.2 := by
      unfold ownRows at hp
      unfold rowIndex
      omega
    rw [clearSlot_sizes, if_neg hne, ht']

theorem loadConfig_sizes (files : TcFiles) (t : TcTables) :
    r.sizes (loadConfig files t) = r.sizes t := by
  unfold loadConfig
  cases files .config <;> cases r <;> rfl

theorem loadSlot_sizes (env : Env) (files : TcFiles) (t : TcTables) (sfn slot : ℕ) :
    (r.sizes (loadSlot env files t sfn slot)).rows p =
      ((if rowIndex sfn slot = p then files (r.tcFile sfn slot) else none).map
        fun bytes => bytes.length % 4294967296).getD ((r.sizes t).rows p) := by
  have hset : ∀ (table : SlotTable ℕ) (v : ℕ), (table.set (rowIndex sfn slot) v).rows p =
      if rowIndex sfn slot = p then v else table.rows p := by
    intro table v
    simp only [SlotTable.set, eq_comm]
  unfold loadSlot
  cases r <;> cases hul : files (.ultti sfn slot) <;> cases hdl : files (.dltti sfn slot) <;>
    cases files (.txdata sfn slot) <;>
    simp only [TtiReq.sizes, TtiReq.tcFile, loadUltti, loadDltti, loadTxdata, hset, hul, hdl] <;>
    split_ifs <;> rfl

/-- The size that a load records for a row is that of the last file read for it. Without one
it is zero for a row of the cell, and what it was before for a row behind them. -/
theorem loadTables_sizes (env : Env) (files : TcFiles) (t : TcTables) :
    (r.sizes (loadTables env files t)).rows p =
      ((files.readFor r (loadSlotNum files t) p).map
        fun bytes => bytes.length % 4294967296).getD
          (if p < ownRows then 0 else (r.sizes t).rows p) := by
  have hloop : ∀ (rows : List (ℕ × ℕ)) (t : TcTables),
      (r.sizes (rows.foldl (fun t ij => loadSlot env files t ij.1 ij.2) t)).rows p =
        rows.foldl (fun size ij => ((if rowIndex ij.1 ij.2 = p then
          files (r.tcFile ij.1 ij.2) else none).map
            fun bytes => bytes.length % 4294967296).getD size) ((r.sizes t).rows p) := by
    intro rows
    induction rows with
    | nil => exact fun _ => rfl
    | cons ij rows ih =>
      intro t
      rw [List.foldl_cons, ih, loadSlot_sizes, List.foldl_cons]
  rw [loadTables, hloop, foldl_getD, loadConfig_sizes, clearTables_sizes, TcFiles.readFor,
    loadSlotNum, ← List.getLast?_map, List.map_filterMap]

/-- A load leaves at a place of the table of sizes the length of the file that it leaves
there. -/
theorem apply_sizes {file : Option (List UInt8)} (h : (cells.sizes r).rows p = recordedSize file) :
    ((l.apply envs cells).sizes r).rows p = recordedSize (l.fileFor cells r p file) := by
  rw [TcLoad.apply, sizes_set, SlotTable.put, TcLoad.fileFor]
  dsimp only
  split_ifs with hfirst hown
  · exact h
  · rw [Cell.loaded, loadTables_sizes, if_pos hown]
    cases l.files.readFor r (loadSlotNum l.files (cells l.devIndex l.cellId).tables)
      (p - firstRow l.devIndex l.cellId) <;> rfl
  · have hplace : firstRow l.devIndex l.cellId + (p - firstRow l.devIndex l.cellId) = p := by omega
    have hsize : (r.sizes (cells l.devIndex l.cellId).tables).rows
        (p - firstRow l.devIndex l.cellId) = recordedSize file := by
      rw [sizes_cell, ← h]
      exact congrArg (cells.sizes r).rows hplace
    rw [Cell.loaded, loadTables_sizes, if_neg hown, hsize]
    cases l.files.readFor r (loadSlotNum l.files (cells l.devIndex l.cellId).tables)
      (p - firstRow l.devIndex l.cellId) <;> rfl

end Load

/-- The sizes recorded after some loads are the lengths of the files read for them last. -/
theorem loadCells_sizes (history : List TcLoad) {file : Option (List UInt8)}
    (h : (cells.sizes r).rows p = recordedSize file) :
    ((loadCells envs history cells).sizes r).rows p =
      recordedSize (fileFor envs r p history cells file) := by
  induction history generalizing cells file with
  | nil => exact h
  | cons l history ih => exact ih (apply_sizes h)

section Runs

/-- The cells have the same configurations, and the same sizes are recorded for their rows. -/
structure SameLoads (cells cells' : Cells) : Prop where
  config : ∀ dev cell, (cells dev cell).tables.config = (cells' dev cell).tables.config
  sizes : ∀ r, cells.sizes r = cells'.sizes r

theorem SameLoads.refl (cells : Cells) : SameLoads cells cells := ⟨fun _ _ => rfl, fun _ => rfl⟩

theorem SameLoads.trans {cells'' : Cells} (h : SameLoads cells cells')
    (h' : SameLoads cells' cells'') : SameLoads cells cells'' :=
  ⟨fun dev cell => (h.config dev cell).trans (h'.config dev cell),
    fun r => (h.sizes r).trans (h'.sizes r)⟩

/-- The slots that a load goes through depend on the configuration. -/
theorem loadSlotNum_congr (env : Env) (h : t.config = t'.config) :
    loadSlotNum files t = loadSlotNum files t' := by
  have hloaded : (loadTables env files t).config = (loadTables env files t').config :=
    config_loadTables h
  have hscs := fun t => (loadTables_config env files t).2.2
  rw [loadSlotNum, loadSlotNum, ← hscs, ← hscs]
  exact congrArg macGetSlotNumPerSfn (congrArg CellConfig.gcurrentScs hloaded)

theorem loadTables_sizes_congr {env' : Env} (hconfig : t.config = t'.config)
    (hsizes : r.sizes t = r.sizes t') :
    r.sizes (loadTables env files t) = r.sizes (loadTables env' files t') := by
  ext p
  rw [loadTables_sizes, loadTables_sizes, loadSlotNum_congr env hconfig, hsizes]

theorem config_set {c : Cell} {dev' cell' : ℕ} :
    ((cells.set dev cell c) dev' cell').tables.config =
      if dev' = dev ∧ cell' = cell then c.tables.config else (cells dev' cell').tables.config := by
  split_ifs with hcell
  · obtain ⟨rfl, rfl⟩ := hcell
    rw [cells_set_same]
  · exact congrArg (fun own => (CellConfig.mk own.gL1ConfigRequest own.gL1ConfigReqSize
      own.gcurrentScs)) (cells_set_own hcell)

/-- What a load does to configurations and sizes depends on them alone. -/
theorem SameLoads.apply (h : SameLoads cells cells') :
    SameLoads (l.apply envs cells) (l.apply envs cells') where
  config dev cell := by
    rw [TcLoad.apply, TcLoad.apply, config_set, config_set]
    split_ifs
    · exact config_loadTables (h.config _ _)
    · exact h.config dev cell
  sizes r := by
    have hcell : r.sizes (cells l.devIndex l.cellId).tables =
        r.sizes (cells' l.devIndex l.cellId).tables := by
      rw [sizes_cell, sizes_cell, h.sizes]
    rw [TcLoad.apply, TcLoad.apply, sizes_set, sizes_set, h.sizes]
    exact congrArg _ (loadTables_sizes_congr (h.config _ _) hcell)

theorem SameLoads.loadCells (h : SameLoads cells cells') (history : List TcLoad) :
    SameLoads (loadCells envs history cells) (loadCells envs history cells') := by
  induction history generalizing cells cells' with
  | nil => exact h
  | cons l history ih => exact ih h.apply

/-- The load that an input is. -/
def Input.load (w : World) : Input → Option TcLoad
  | .appMsg msg =>
    if msg.msgId = appTxCase then
      some ⟨msg.devIndex, msg.cellId, w.files (msg.para0 % 65536) msg.cellId⟩
    else none
  | _ => none

/-- The handlers leave the recorded sizes alone. -/
theorem sizes_handling (r : TtiReq) :
    Handling fun c c' => r.sizes c'.tables = r.sizes c.tables where
  sending _ :=
    { refl := fun _ => rfl
      trans := fun h h' => h'.trans h
      calls := fun _ _ => rfl
      ctxt := fun _ _ => rfl
      sent := fun _ _ _ _ => rfl }
  state _ _ := rfl
  schState _ _ := rfl
  clock _ _ := rfl
  event _ _ _ := rfl

theorem sizes_sendTtiReq (r r' : TtiReq) (sfn slot : ℕ) :
    Keeps (fun c => r.sizes c.tables) (r'.send env sfn slot) := by
  refine ((sizes_handling r).sending [_]).sendTtiReq ?_ (List.mem_singleton_self _) ?_
  · exact fun _ _ => rfl
  · intro c rows
    cases r <;> cases r' <;> rfl

theorem sizes_cellAction {i : CellInput} (hi : ∀ files, i ≠ .txCase files) (r : TtiReq) :
    Keeps (fun c => r.sizes c.tables) (cellAction env i) := by
  refine (sizes_handling r).cellAction hi (sizes_sendTtiReq r .dl) (sizes_sendTtiReq r .ul) ?_
  intro sfn slot
  refine ((sizes_handling r).sending [_]).sendTxdataReq (fun _ _ => rfl) ?_ ?_
    (List.mem_singleton_self _)
  · intro c table
    cases r <;> rfl
  · exact fun _ _ _ => rfl

theorem sizes_txCase (r : TtiReq) {c : Cell} :
    Ensures (cellAction env (.txCase files)) c fun _ c' =>
      r.sizes c'.tables = r.sizes (loadTables env files c.tables) := by
  rw [cellAction, txCase, ensures_bind, macTcLoad_eq, ensures_update, ensures_bind, ensures_update]
  exact (sizes_handling r).switch _

/-- A load reaches its cell, and no other. -/
theorem Input.atCell_load {i : Input} {n : ℕ} (h : i.load w = some l) : i.atCell w n dev cell =
    if dev = l.devIndex ∧ cell = l.cellId then some (.txCase l.files) else none := by
  cases i with
  | appMsg msg =>
    rw [Input.load] at h
    split_ifs at h with hload
    obtain rfl := Option.some.inj h
    have hi : msg.addressed w msg.cellId =
        some (.txCase (w.files (msg.para0 % 65536) msg.cellId)) := by
      simp [CtrlMsg.addressed, hload, appTxCase, appTcConfigCase, appTcDlCase, appTcUlCase,
        appTcTxCase]
    rw [Input.atCell, CtrlMsg.atCell_of_addressed n hi]
    exact if_congr (and_congr eq_comm eq_comm) rfl rfl
  | _ => cases h

/-- Any other input loads nothing. -/
theorem Input.atCell_ne_txCase {i : Input} {n : ℕ} (h : i.load w = none) :
    i.atCell w n dev cell ≠ some (.txCase files) := by
  cases i with
  | appMsg msg =>
    rw [Input.load] at h
    split_ifs at h with hload
    simp only [Input.atCell, CtrlMsg.atCell, CtrlMsg.addressed, if_neg hload]
    split_ifs <;> simp
  | _ =>
    simp only [Input.atCell]
    split_ifs <;> simp

/-- The configurations after one input are those that its load makes. -/
theorem Handles.configs {m m' : Mac} {i : Input} (h : Handles w m i m') (dev cell : ℕ) :
    (m'.cells dev cell).tables.config =
      ((loadCells w.env (i.load w).toList m.cells) dev cell).tables.config := by
  rw [h.config]
  cases hload : i.load w with
  | none =>
    have hnone : i.loads w dev cell = none :=
      Option.eq_none_iff_forall_ne_some.mpr fun files hfiles =>
        Input.atCell_ne_txCase hload (Input.atCell_txCase_iff (n := 0).mpr hfiles)
    rw [hnone]
    rfl
  | some l =>
    have hset : loadCells w.env (some l).toList m.cells = l.apply w.env m.cells := rfl
    rw [hset, TcLoad.apply, config_set, Input.loads, Input.atCell_load hload]
    split_ifs with hcell
    · obtain ⟨rfl, rfl⟩ := hcell
      rfl
    · rfl

/-- The table of sizes is replaced from the first row of a cell on by what that cell sees. -/
theorem Reaches.sizes {reach : ℕ → ℕ → Option CellInput} {m m' : Mac}
    (h : Reaches w reach m m') (r : TtiReq) : m'.cells.sizes r = m.cells.sizes r ∨
      ∃ dev cell, reach dev cell ≠ none ∧ m'.cells.sizes r =
        (m.cells.sizes r).put (firstRow dev cell) (r.sizes (m'.cells dev cell).tables) := by
  rcases h.rows with hrows | ⟨dev, cell, hreach, hrows⟩
  · exact .inl (by cases r <;> simp only [Cells.sizes, hrows])
  · refine .inr ⟨dev, cell, hreach, ?_⟩
    cases r <;> simp only [Cells.sizes, hrows, TcRows.put] <;> rfl

/-- The sizes after one input are those that its load records. -/
theorem Handles.sizes {m m' : Mac} {i : Input} (h : Handles w m i m') (r : TtiReq) :
    m'.cells.sizes r = (loadCells w.env (i.load w).toList m.cells).sizes r := by
  have hcell := h.atCell
  cases hload : i.load w with
  | none =>
    rcases h.reaches.sizes r with hsizes | ⟨dev, cell, hreach, hsizes⟩
    · exact hsizes
    · obtain ⟨ci, hci⟩ := Option.ne_none_iff_exists'.mp hreach
      have htx : ∀ files, ci ≠ .txCase files := by
        rintro files rfl
        exact Input.atCell_ne_txCase hload hci
      specialize hcell dev cell
      rw [hci] at hcell
      have hkept : r.sizes (m'.cells dev cell).tables = r.sizes (m.cells dev cell).tables :=
        sizes_cellAction htx r _ _ _ hcell
      rw [hsizes, hkept, sizes_cell, SlotTable.behind_put]
      rfl
  | some l =>
    have hset : (loadCells w.env (some l).toList m.cells).sizes r =
        (m.cells.sizes r).put (firstRow l.devIndex l.cellId)
          (r.sizes (m'.cells l.devIndex l.cellId).tables) := by
      specialize hcell l.devIndex l.cellId
      rw [Input.atCell_load hload, if_pos ⟨rfl, rfl⟩] at hcell
      rw [sizes_txCase r _ _ hcell]
      exact sizes_set _ r _ _ _
    rw [hset]
    rcases h.reaches.sizes r with hsizes | ⟨dev, cell, hreach, hsizes⟩
    · rw [sizes_cell, hsizes, SlotTable.behind_put]
    · rw [Input.atCell_load hload, ne_eq, ite_eq_right_iff, Classical.not_imp] at hreach
      obtain ⟨rfl, rfl⟩ := hreach.1
      exact hsizes

/-- In every state of a run the configurations and the recorded sizes are those that the
loads of the run make. -/
theorem run_sameLoads {m m' : Mac} {is : List Input} (hrun : Steps (Handles w) m is m') :
    SameLoads m'.cells (loadCells w.env (is.filterMap (Input.load w)) m.cells) := by
  induction hrun with
  | nil => exact .refl _
  | @cons m m₁ m' i is hs _ ih =>
    have hsplit : (i :: is).filterMap (Input.load w) =
        (i.load w).toList ++ is.filterMap (Input.load w) := by
      cases hi : i.load w <;> simp [hi]
    rw [hsplit, TestMac.loadCells, List.foldl_append]
    exact ih.trans (SameLoads.loadCells ⟨hs.configs, hs.sizes⟩ _)

end Runs

end TestMac
