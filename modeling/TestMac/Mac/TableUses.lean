import TestMac.Mac.Handling
import TestMac.Mac.Load
import TestMac.Mac.TxRow

/-!
# Which subscripts are applied

A cell records the subscripts it applies to the tables by frame and slot. What it has
recorded only grows; an input adds those of the slot it prepares, and loading a test case
those of the rows it clears and of the files it finds.
-/

namespace TestMac

open Bytes Act

variable {P : TableUse → Prop} {env : Env} {sfn slot : ℕ}

/-- The subscripts applied in between all satisfy `P`. -/
def UsesGrow (P : TableUse → Prop) (c c' : Cell) : Prop :=
  ∃ us, c'.uses = c.uses ++ us ∧ ∀ u ∈ us, P u

theorem UsesGrow.of_eq {c c' : Cell} (h : c'.uses = c.uses) : UsesGrow P c c' :=
  ⟨[], by rw [h, List.append_nil], by simp⟩

theorem UsesGrow.trans {c c' c'' : Cell} (h : UsesGrow P c c') (h' : UsesGrow P c' c'') :
    UsesGrow P c c'' := by
  obtain ⟨us, huses, hus⟩ := h
  obtain ⟨us', huses', hus'⟩ := h'
  refine ⟨us ++ us', by rw [huses', huses, List.append_assoc], ?_⟩
  intro u hu
  rcases List.mem_append.mp hu with hu | hu
  · exact hus u hu
  · exact hus' u hu

theorem usesGrow_handling : Handling (UsesGrow P) where
  sending _ :=
    { refl := fun _ => .of_eq rfl
      trans := fun h h' => h.trans h'
      calls := fun _ _ => .of_eq rfl
      ctxt := fun _ _ => .of_eq rfl
      sent := fun _ _ _ _ => .of_eq rfl }
  state _ _ := .of_eq rfl
  schState _ _ := .of_eq rfl
  clock _ _ := .of_eq rfl
  event _ _ _ := .of_eq rfl

theorem usesGrow_used {us : List TableUse} (h : ∀ u ∈ us, P u) (c : Cell) :
    UsesGrow P c (c.used us) := ⟨us, rfl, h⟩

/-- In load mode a walk applies the subscripts of the data for the slot in the register. -/
theorem usesGrow_walked {c : Cell}
    (h : P (.data (sfnWindow c.clock.gL2TxGSfn.SFN) c.clock.gL2TxGSfn.Slot)) (p : ℕ)
    (walk : TxWalk) : UsesGrow P c (c.walked p walk) := by
  refine ⟨_, rfl, ?_⟩
  intro u hu
  obtain ⟨-, -, hu⟩ := List.mem_flatMap.mp hu
  unfold Cell.payloadUses at hu
  cases hmode : c.ctx.pdschMode with
  | autoMode => simp [hmode] at hu
  | loadMode =>
    simp only [hmode, List.mem_singleton] at hu
    rwa [hu]

theorem usesGrow_rowAt (h : P (.row sfn slot)) : Within (UsesGrow P) (rowAt sfn slot) := by
  intro c
  rw [ensures_rowAt]
  exact usesGrow_used (by simpa using h) c

/-- A request that is a row applies the subscripts of the row. -/
theorem usesGrow_sendTtiReq {r : TtiReq} (h : P (.row (sfnWindow sfn) slot)) :
    Within (UsesGrow P) (r.send env sfn slot) := by
  have hR := usesGrow_handling (P := P)
  have hS := hR.sending [r.msgId]
  have hid : r.msgId ∈ [r.msgId] := List.mem_singleton_self _
  refine hR.bind (hS.allocL1CtrlMsgMem _) fun _ => hR.bind (usesGrow_rowAt h) fun p => ?_
  refine hR.bind (hR.read _) fun c => Within.ite ?_ ?_
  · refine hR.bind (Within.update fun c => .of_eq rfl) fun _ => ?_
    exact hR.bind (usesGrow_rowAt h) fun q => hS.appendL1Msg hid
  · exact hR.bind (Within.update fun c => .of_eq rfl) fun _ => hS.appendL1Msg hid

/-- A TX_DATA request applies those of its row, and in load mode those of the data for the
slot in the register. -/
theorem usesGrow_sendTxdataReq (h : P (.row (sfnWindow sfn) slot)) {c : Cell}
    (hdata : P (.data (sfnWindow c.clock.gL2TxGSfn.SFN) c.clock.gL2TxGSfn.Slot)) :
    Ensures (sendTxdataReq env sfn slot) c fun _ c' => UsesGrow P c c' := by
  have hS := (usesGrow_handling (P := P)).sending [fapiTxDataRequest]
  simp only [sendTxdataReq, ensures_bind, ensures_allocL1CtrlMsgMem, ensures_rowAt, ensures_read,
    id]
  intro _ _
  refine Finishes.ensures (finishes_txdataParams.mpr ?_)
  refine Ensures.mono (hS.appendL1Msg (List.mem_singleton_self _) _) ?_
  intro _ c' happended
  have hrow : ∀ room, UsesGrow P c ((c.allocated room).used [.row (sfnWindow sfn) slot]) :=
    fun room => usesGrow_used (by simpa using h) (c.allocated room)
  refine (hrow _).trans (UsesGrow.trans (usesGrow_walked ?_ _ _) happended)
  exact hdata

/-- An input that loads no test case applies the subscripts of the slot it prepares. -/
theorem usesGrow_cellAction {c : Cell} {i : CellInput} (hi : ∀ files, i ≠ .txCase files)
    (hrow : ∀ g, c.preparing env i = some g → P (.row (sfnWindow g.SFN) (g.Slot % 256)))
    (hdata : ∀ g, c.preparing env i = some g → P (.data (sfnWindow g.SFN) g.Slot)) :
    Ensures (cellAction env i) c fun _ c' => UsesGrow P c c' := by
  refine usesGrow_handling.ensures_cellAction hi ?_ ?_ ?_
  · intro g hg
    exact usesGrow_sendTtiReq (r := .dl) (hrow g hg)
  · intro g hg
    exact usesGrow_sendTtiReq (r := .ul) (hrow g hg)
  · intro g hg c₁ hgsfn
    refine usesGrow_sendTxdataReq (hrow g hg) ?_
    rw [hgsfn]
    exact hdata g hg

theorem mem_frameSlots {sfns slots : ℕ} {ij : ℕ × ℕ} :
    ij ∈ frameSlots sfns slots ↔ ij.1 < sfns ∧ ij.2 < slots := by
  obtain ⟨i, j⟩ := ij
  simp only [frameSlots, List.mem_flatMap, List.mem_map, List.mem_range, Prod.mk.injEq]
  constructor
  · rintro ⟨i', hi, j', hj, rfl, rfl⟩
    exact ⟨hi, hj⟩
  · rintro ⟨hi, hj⟩
    exact ⟨i, hi, j, hj, rfl, rfl⟩

/-- A file of a slot exists. -/
def HasFile (files : TcFiles) (sfn slot : ℕ) : Prop :=
  (files (.ultti sfn slot)).isSome ∨ (files (.dltti sfn slot)).isSome ∨
    (files (.txdata sfn slot)).isSome

theorem mem_fileUses {files : TcFiles} {u : TableUse} :
    u ∈ fileUses files sfn slot ↔
      HasFile files sfn slot ∧ (u = .row sfn slot ∨ u = .size sfn slot) := by
  simp only [fileUses, HasFile, List.flatMap_cons, List.flatMap_nil, List.mem_append]
  split_ifs <;> simp_all

/-- The slots that `macTcLoad` goes through in the files. -/
def loadSlotNum (files : TcFiles) (t : TcTables) : ℕ :=
  macGetSlotNumPerSfn (loadConfig files (clearTables t)).gcurrentScs

theorem mem_loadUses {files : TcFiles} {t : TcTables} {u : TableUse} :
    u ∈ loadUses files t ↔
      (∃ i < 4, ∃ j < 20, u = .row i j) ∨
      ∃ i < 4, ∃ j < loadSlotNum files t, HasFile files i j ∧ (u = .row i j ∨ u = .size i j) := by
  simp only [loadUses, List.mem_append, List.mem_map, List.mem_flatMap, mem_fileUses,
    mem_frameSlots, Prod.exists, loadSlotNum]
  constructor
  · rintro (⟨i, j, ⟨hi, hj⟩, rfl⟩ | ⟨i, j, ⟨hi, hj⟩, hfile⟩)
    · exact .inl ⟨i, hi, j, hj, rfl⟩
    · exact .inr ⟨i, hi, j, hj, hfile⟩
  · rintro (⟨i, hi, j, hj, rfl⟩ | ⟨i, hi, j, hj, hfile⟩)
    · exact .inl ⟨i, j, ⟨hi, hj⟩, rfl⟩
    · exact .inr ⟨i, j, ⟨hi, hj⟩, hfile⟩

end TestMac
