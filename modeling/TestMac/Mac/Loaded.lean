import TestMac.Mac.SlotBounds

/-!
# What `macTcLoad` leaves in the tables

The size of a DL_TTI or UL_TTI row is the one of its file, or zero without a file, and
the row holds the file. A TX_DATA row holds its file, and without one whatever it held
before: the clearing does not reach the number of PDUs that the sender reads.
-/

namespace TestMac

open Bytes

variable {env : Env} {files : TcFiles} {t : TcTables} {i j : ℕ}

/-- The item that `fread` is asked for is not filled by any file, and the library brings
every file into its row as a whole. -/
def Env.ReadsWhole (env : Env) (files : TcFiles) : Prop :=
  ∀ i j bytes,
    (files (.ultti i j) = some bytes →
      bytes.length ≤ env.fread fapiUlTtiRequest i j bytes.length) ∧
    (files (.dltti i j) = some bytes →
      bytes.length ≤ env.fread fapiDlTtiRequest i j bytes.length) ∧
    (files (.txdata i j) = some bytes →
      bytes.length ≤ env.fread fapiTxDataRequest i j bytes.length)

/-- A row and its size are the ones of a file. Without a file the size is zero. -/
def RowHolds (file : Option (List UInt8)) (size : ℕ) (row : Mem) : Prop :=
  match file with
  | none => size = 0
  | some bytes => size = bytes.length % 4294967296 ∧ Holds row 0 bytes

/-- The rows of a slot hold their files. -/
structure SlotLoaded (files : TcFiles) (t : TcTables) (i j : ℕ) : Prop where
  ultti : RowHolds (files (.ultti i j)) (t.gL1UlttiReqSize i j) (t.gL1ULTTI i j)
  dltti : RowHolds (files (.dltti i j)) (t.gL1DlttiReqSize i j) (t.gL1DLTTIReq i j)
  txdata : ∀ bytes, files (.txdata i j) = some bytes → Holds (t.gL1TXDATAREQ i j) 0 bytes

/-- The sizes of the rows of a slot are zero where there is no file. -/
structure SlotCleared (files : TcFiles) (t : TcTables) (i j : ℕ) : Prop where
  ultti : files (.ultti i j) = none → t.gL1UlttiReqSize i j = 0
  dltti : files (.dltti i j) = none → t.gL1DlttiReqSize i j = 0

/-- What a step of a loop establishes, and all steps keep, holds at the end. `Q` is what
the step needs. -/
theorem foldl_establishes {step : TcTables → ℕ × ℕ → TcTables} {P Q : TcTables → Prop}
    (ij : ℕ × ℕ) {rows : List (ℕ × ℕ)} (hQ : ∀ kl ∈ rows, ∀ t, Q t → Q (step t kl))
    (hP : ∀ kl ∈ rows, ∀ t, P t → P (step t kl)) (hset : ∀ t, Q t → P (step t ij))
    (hmem : ij ∈ rows) (ht : Q t) : P (rows.foldl step t) := by
  induction rows generalizing t with
  | nil => simp at hmem
  | cons kl rows ih =>
    have hQ' := fun kl' h => hQ kl' (List.mem_cons_of_mem kl h)
    have hP' := fun kl' h => hP kl' (List.mem_cons_of_mem kl h)
    rw [List.foldl_cons]
    rcases List.mem_cons.mp hmem with rfl | hmem
    · exact foldl_tables hP' (hset t ht)
    · exact ih hQ' hP' hmem (hQ kl (by simp) t ht)

theorem holds_store (m : Mem) (bytes : List UInt8) : Holds (store m 0 bytes) 0 bytes :=
  slice_store_self m 0 bytes

theorem SlotLoaded.cleared (h : SlotLoaded files t i j) : SlotCleared files t i j where
  ultti := by
    intro hnone
    have hrow := h.ultti
    rw [hnone] at hrow
    exact hrow
  dltti := by
    intro hnone
    have hrow := h.dltti
    rw [hnone] at hrow
    exact hrow

/-- The files of a slot leave the rows of other slots alone. -/
theorem loadSlot_other (env : Env) (files : TcFiles) (t : TcTables) {k l : ℕ}
    (hj : j < 20) (hl : l < 20) (h : ¬ (i = k ∧ j = l)) :
    (loadSlot env files t k l).gL1UlttiReqSize i j = t.gL1UlttiReqSize i j ∧
      (loadSlot env files t k l).gL1ULTTI i j = t.gL1ULTTI i j ∧
      (loadSlot env files t k l).gL1DlttiReqSize i j = t.gL1DlttiReqSize i j ∧
      (loadSlot env files t k l).gL1DLTTIReq i j = t.gL1DLTTIReq i j ∧
      (loadSlot env files t k l).gL1TXDATAREQ i j = t.gL1TXDATAREQ i j := by
  have hne : rowIndex i j ≠ rowIndex k l := rowIndex_ne hl hj h
  unfold loadSlot
  cases files (.ultti k l) <;> cases files (.dltti k l) <;> cases files (.txdata k l) <;>
    simp [loadUltti, loadDltti, loadTxdata, SlotTable.set_other hne]

/-- The files of a slot are copied over its rows. -/
theorem slotLoaded_loadSlot (hreads : env.ReadsWhole files) (h : SlotCleared files t i j) :
    SlotLoaded files (loadSlot env files t i j) i j := by
  have hread := hreads i j
  constructor
  · cases hfile : files (.ultti i j) with
    | none =>
      rw [RowHolds, ← h.ultti hfile]
      unfold loadSlot
      rw [hfile]
      cases files (.dltti i j) <;> cases files (.txdata i j) <;> rfl
    | some bytes =>
      have htake := List.take_of_length_le ((hread bytes).1 hfile)
      have hsize : (loadSlot env files t i j).gL1UlttiReqSize i j = bytes.length % 4294967296 := by
        unfold loadSlot
        rw [hfile]
        cases files (.dltti i j) <;> cases files (.txdata i j) <;> exact SlotTable.set_same _
      have hrow : (loadSlot env files t i j).gL1ULTTI i j =
          store (t.gL1ULTTI i j) 0 (bytes.take (env.fread fapiUlTtiRequest i j bytes.length)) := by
        unfold loadSlot
        rw [hfile]
        cases files (.dltti i j) <;> cases files (.txdata i j) <;> exact SlotTable.set_same _
      rw [RowHolds, hsize, hrow, htake]
      exact ⟨rfl, holds_store _ bytes⟩
  · cases hfile : files (.dltti i j) with
    | none =>
      rw [RowHolds, ← h.dltti hfile]
      unfold loadSlot
      rw [hfile]
      cases files (.ultti i j) <;> cases files (.txdata i j) <;> rfl
    | some bytes =>
      have htake := List.take_of_length_le ((hread bytes).2.1 hfile)
      have hsize : (loadSlot env files t i j).gL1DlttiReqSize i j = bytes.length % 4294967296 := by
        unfold loadSlot
        rw [hfile]
        cases files (.ultti i j) <;> cases files (.txdata i j) <;> exact SlotTable.set_same _
      have hrow : (loadSlot env files t i j).gL1DLTTIReq i j = store (t.gL1DLTTIReq i j) 0
          (bytes.take (env.fread fapiDlTtiRequest i j bytes.length)) := by
        unfold loadSlot
        rw [hfile]
        cases files (.ultti i j) <;> cases files (.txdata i j) <;> exact SlotTable.set_same _
      rw [RowHolds, hsize, hrow, htake]
      exact ⟨rfl, holds_store _ bytes⟩
  · intro bytes hfile
    have htake := List.take_of_length_le ((hread bytes).2.2 hfile)
    have hrow : (loadSlot env files t i j).gL1TXDATAREQ i j = store (t.gL1TXDATAREQ i j) 0
        (bytes.take (env.fread fapiTxDataRequest i j bytes.length)) := by
      unfold loadSlot
      rw [hfile]
      cases files (.ultti i j) <;> cases files (.dltti i j) <;> exact SlotTable.set_same _
    rw [hrow, htake]
    exact holds_store _ bytes

/-- A slot stays cleared, and loaded, when the files of any slot are read. -/
theorem SlotCleared.loadSlot (hreads : env.ReadsWhole files)
    (hj : j < 20) (h : SlotCleared files t i j) (k : ℕ) {l : ℕ} (hl : l < 20) :
    SlotCleared files (loadSlot env files t k l) i j := by
  by_cases hsame : i = k ∧ j = l
  · obtain ⟨rfl, rfl⟩ := hsame
    exact (slotLoaded_loadSlot hreads h).cleared
  · obtain ⟨hulSize, -, hdlSize, -, -⟩ := loadSlot_other env files t hj hl hsame
    exact ⟨fun hnone => hulSize.trans (h.ultti hnone), fun hnone => hdlSize.trans (h.dltti hnone)⟩

theorem SlotLoaded.loadSlot (hreads : env.ReadsWhole files) (hj : j < 20)
    (h : SlotLoaded files t i j) (k : ℕ) {l : ℕ} (hl : l < 20) :
    SlotLoaded files (loadSlot env files t k l) i j := by
  by_cases hsame : i = k ∧ j = l
  · obtain ⟨rfl, rfl⟩ := hsame
    exact slotLoaded_loadSlot hreads h.cleared
  · obtain ⟨hulSize, hul, hdlSize, hdl, htx⟩ :=
      loadSlot_other env files t hj hl hsame
    refine ⟨?_, ?_, ?_⟩
    · rw [hulSize, hul]
      exact h.ultti
    · rw [hdlSize, hdl]
      exact h.dltti
    · rw [htx]
      exact h.txdata

end TestMac
