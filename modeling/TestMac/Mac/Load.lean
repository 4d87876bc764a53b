import TestMac.Mac.Transmit

/-!
# Loading a test case: `macTcLoad`

The tables of a cell are cleared, then the files that exist are copied over the
entries. The number of slots is taken from the configuration that the tables hold
after the configuration file, if there is one, has been copied.
-/

namespace TestMac

open Bytes Act

/-- The files of a test case for one cell, by the name that `macTcLoad` builds. -/
inductive TcFile
  | config
  | ultti (sfn slot : ℕ)
  | dltti (sfn slot : ℕ)
  | txdata (sfn slot : ℕ)
  deriving DecidableEq

/-- The files that exist, with their contents. -/
abbrev TcFiles := TcFile → Option (List UInt8)

/-- `clearDltti`, for the row at a place. -/
def clearDltti (t : TcTables) (p : ℕ) : TcTables :=
  { t with
    gL1DLTTIReq := t.gL1DLTTIReq.set p (store (wr16 (t.gL1DLTTIReq.rows p) 4 0) 7 [0])
    gL1DlttiReqSize := t.gL1DlttiReqSize.set p 0 }

/-- `clearTxdata`, for the row at a place. -/
def clearTxdata (t : TcTables) (p : ℕ) : TcTables :=
  { t with
    gL1TXDATAREQ := t.gL1TXDATAREQ.set p (wr16 (t.gL1TXDATAREQ.rows p) 4 0)
    gL1TxdataReqSize := t.gL1TxdataReqSize.set p 0 }

/-- `clearUltti`, for the row at a place. -/
def clearUltti (t : TcTables) (p : ℕ) : TcTables :=
  { t with
    gL1ULTTI := t.gL1ULTTI.set p (store (wr16 (t.gL1ULTTI.rows p) 4 0) 7 [0])
    gL1UlttiReqSize := t.gL1UlttiReqSize.set p 0 }

/-- The three of them. -/
def clearSlot (t : TcTables) (p : ℕ) : TcTables := clearUltti (clearTxdata (clearDltti t p) p) p

/-- The frames and slots of two nested loops, in order. -/
def frameSlots (sfns slots : ℕ) : List (ℕ × ℕ) :=
  (List.range sfns).flatMap fun i => (List.range slots).map fun j => (i, j)

/-- The first loop of `macTcLoad`. -/
def clearTables (t : TcTables) : TcTables :=
  (frameSlots 4 20).foldl (fun t ij => clearSlot t (rowIndex ij.1 ij.2)) t

/-- `getCarrierConfig` with `macCellSetScs`: the spacing of the first grid that is
not empty. With none, the spacing stays as it is. -/
def getCarrierConfig (configReq : Mem) (gcurrentScs : ℕ) : ℕ :=
  let dlGridSize k := rd16 configReq (8 + 32 + 2 * k)
  if dlGridSize 0 ≠ 0 then 15
  else if dlGridSize 1 ≠ 0 then 30
  else if dlGridSize 2 ≠ 0 then 60
  else if dlGridSize 3 ≠ 0 then 120
  else if dlGridSize 4 ≠ 0 then 240
  else gcurrentScs

/-- `macGetSlotNumPerSfn`. -/
def macGetSlotNumPerSfn (gcurrentScs : ℕ) : ℕ :=
  if gcurrentScs = 15 then 10
  else if gcurrentScs = 30 then 20
  else if gcurrentScs = 60 then 40
  else if gcurrentScs = 120 then 80
  else 0

/-- The configuration file, when there is one, and the spacing found afterwards. -/
def loadConfig (files : TcFiles) (t : TcTables) : TcTables :=
  let t := match files .config with
    | none => t
    | some bytes =>
      let size := bytes.length % 4294967296
      { t with gL1ConfigReqSize := size
               gL1ConfigRequest := store t.gL1ConfigRequest 0 (bytes.take size) }
  { t with gcurrentScs := getCarrierConfig t.gL1ConfigRequest t.gcurrentScs }

/-- A UL_TTI file, for the row at a place. -/
def loadUltti (env : Env) (t : TcTables) (sfn slot p : ℕ) (bytes : List UInt8) : TcTables :=
  { t with
    gL1UlttiReqSize := t.gL1UlttiReqSize.set p (bytes.length % 4294967296)
    gL1ULTTI := t.gL1ULTTI.set p
      (store (t.gL1ULTTI.rows p) 0
        (bytes.take (env.fread fapiUlTtiRequest sfn slot bytes.length))) }

/-- A DL_TTI file, for the row at a place. -/
def loadDltti (env : Env) (t : TcTables) (sfn slot p : ℕ) (bytes : List UInt8) : TcTables :=
  { t with
    gL1DlttiReqSize := t.gL1DlttiReqSize.set p (bytes.length % 4294967296)
    gL1DLTTIReq := t.gL1DLTTIReq.set p
      (store (t.gL1DLTTIReq.rows p) 0
        (bytes.take (env.fread fapiDlTtiRequest sfn slot bytes.length))) }

/-- A TX_DATA file, for the row at a place. -/
def loadTxdata (env : Env) (t : TcTables) (sfn slot p : ℕ) (bytes : List UInt8) : TcTables :=
  { t with
    gL1TxdataReqSize := t.gL1TxdataReqSize.set p (bytes.length % 4294967296)
    gL1TXDATAREQ := t.gL1TXDATAREQ.set p
      (store (t.gL1TXDATAREQ.rows p) 0
        (bytes.take (env.fread fapiTxDataRequest sfn slot bytes.length))) }

/-- The files of one slot, those that exist. -/
def loadSlot (env : Env) (files : TcFiles) (t : TcTables) (sfn slot : ℕ) : TcTables :=
  let p := rowIndex sfn slot
  let t := match files (.ultti sfn slot) with
    | none => t
    | some bytes => loadUltti env t sfn slot p bytes
  let t := match files (.dltti sfn slot) with
    | none => t
    | some bytes => loadDltti env t sfn slot p bytes
  match files (.txdata sfn slot) with
    | none => t
    | some bytes => loadTxdata env t sfn slot p bytes

/-- What `macTcLoad` makes of the tables. -/
def loadTables (env : Env) (files : TcFiles) (t : TcTables) : TcTables :=
  let t := loadConfig files (clearTables t)
  (frameSlots 4 (macGetSlotNumPerSfn t.gcurrentScs)).foldl
    (fun t ij => loadSlot env files t ij.1 ij.2) t

/-- A file is opened and read into the row of a slot. The number of bytes asked for is
not the size of the file but the address of a row of the table of sizes, found with the
subscript of the device left out. -/
def readFile (load : TcTables → ℕ → ℕ → ℕ → List UInt8 → TcTables) (sfn slot : ℕ) :
    Option (List UInt8) → CellM Unit
  | none => pure ()
  | some bytes => do
    let p ← rowAt sfn slot
    useTable (.size sfn slot)
    setTables fun t => load t sfn slot p bytes

/-- The rows of a slot are cleared. -/
def clearRow (ij : ℕ × ℕ) : CellM Unit := do
  let p ← rowAt ij.1 ij.2
  setTables fun t => clearSlot t p

/-- The files of a slot are read. -/
def readFiles (env : Env) (files : TcFiles) (ij : ℕ × ℕ) : CellM Unit := do
  readFile (loadUltti env) ij.1 ij.2 (files (.ultti ij.1 ij.2))
  readFile (loadDltti env) ij.1 ij.2 (files (.dltti ij.1 ij.2))
  readFile (loadTxdata env) ij.1 ij.2 (files (.txdata ij.1 ij.2))

/-- `macTcLoad`. -/
def macTcLoad (env : Env) (files : TcFiles) : CellM Unit := do
  forEach clearRow (frameSlots 4 20)
  setTables (loadConfig files)
  let scs ← read fun c => c.tables.gcurrentScs
  forEach (readFiles env files) (frameSlots 4 (macGetSlotNumPerSfn scs))

/-- The subscripts of a slot that is read. -/
def fileUses (files : TcFiles) (sfn slot : ℕ) : List TableUse :=
  [files (.ultti sfn slot), files (.dltti sfn slot), files (.txdata sfn slot)].flatMap fun file =>
    if file.isSome = true then [.row sfn slot, .size sfn slot] else []

/-- The subscripts of a load. -/
def loadUses (files : TcFiles) (t : TcTables) : List TableUse :=
  (frameSlots 4 20).map (fun ij => .row ij.1 ij.2) ++
    (frameSlots 4 (macGetSlotNumPerSfn (loadConfig files (clearTables t)).gcurrentScs)).flatMap
      fun ij => fileUses files ij.1 ij.2

/-- A load of a cell, with the subscripts it applies. -/
def Cell.loaded (env : Env) (files : TcFiles) (c : Cell) : Cell :=
  { c with tables := loadTables env files c.tables, uses := c.uses ++ loadUses files c.tables }

/-- A property of the tables that every step of a loop keeps. -/
theorem foldl_tables {step : TcTables → ℕ × ℕ → TcTables} {P : TcTables → Prop}
    {t : TcTables} {rows : List (ℕ × ℕ)} (hstep : ∀ ij ∈ rows, ∀ t, P t → P (step t ij))
    (ht : P t) : P (rows.foldl step t) := by
  induction rows generalizing t with
  | nil => exact ht
  | cons ij rows ih =>
    exact ih (fun kl hkl => hstep kl (List.mem_cons_of_mem ij hkl)) (hstep ij (by simp) t ht)

/-- Changes of the tables, each with the subscripts it applies. -/
theorem forEach_tables {step : ℕ × ℕ → CellM Unit} (f : TcTables → ℕ × ℕ → TcTables)
    (us : ℕ × ℕ → List TableUse)
    (h : ∀ ij c, step ij c = some ((), { c with
      tables := f c.tables ij, uses := c.uses ++ us ij }))
    (rows : List (ℕ × ℕ)) (c : Cell) :
    forEach step rows c = some ((), { c with
      tables := rows.foldl f c.tables, uses := c.uses ++ rows.flatMap us }) := by
  induction rows generalizing c with
  | nil => simp [forEach, pure]
  | cons ij rows ih =>
    rw [forEach, bind_of_eq_some (h ij c), ih]
    simp

theorem clearRow_eq (ij : ℕ × ℕ) (c : Cell) :
    clearRow ij c = some ((), { c with
      tables := clearSlot c.tables (rowIndex ij.1 ij.2)
      uses := c.uses ++ [.row ij.1 ij.2] }) := rfl

theorem readFiles_eq (env : Env) (files : TcFiles) (ij : ℕ × ℕ) (c : Cell) :
    readFiles env files ij c = some ((), { c with
      tables := loadSlot env files c.tables ij.1 ij.2
      uses := c.uses ++ fileUses files ij.1 ij.2 }) := by
  unfold readFiles loadSlot fileUses
  cases files (.ultti ij.1 ij.2) <;> cases files (.dltti ij.1 ij.2) <;>
    cases files (.txdata ij.1 ij.2) <;>
    simp [readFile, rowAt, useTable, setTables, Bind.bind, update, pure]

/-- `macTcLoad` comes to its end, with what it makes of the tables. -/
theorem macTcLoad_eq (env : Env) (files : TcFiles) :
    macTcLoad env files = update (Cell.loaded env files) := by
  funext c
  have hclear := forEach_tables (fun t ij => clearSlot t (rowIndex ij.1 ij.2))
    (fun ij => [.row ij.1 ij.2]) clearRow_eq (frameSlots 4 20) c
  have hread := forEach_tables (fun t ij => loadSlot env files t ij.1 ij.2)
    (fun ij => fileUses files ij.1 ij.2) (readFiles_eq env files)
  rw [macTcLoad, bind_of_eq_some hclear]
  refine (hread _ _).trans ?_
  simp [Cell.loaded, loadUses, loadTables, clearTables, List.map_eq_flatMap, update]

end TestMac
