import TestMac.Mac.Generator
import TestMac.Mac.Runs

/-!
# Consecutive slot indications

Every indication of a run prepares the slot two ahead of it, and the next indication
the slot behind that one. The frames of the tables follow the frame numbers because
four divides 1024.
-/

namespace TestMac

open Bytes Act

variable {env : Env} {c : Cell} {room n : ℕ}

/-- An active cell in generator mode whose rows fit into the room of the driver, with
`n` slots in a frame. -/
structure Ready (room n : ℕ) (c : Cell) : Prop where
  active : c.ctx.state = .phyActive
  scheduling : c.ctx.schState ≠ .schStop
  endless : c.ctx.runttiPerTc = 0
  generator : c.ctx.runMode = .fapiGenerator
  spacing : c.tables.gcurrentScs = 15 ∧ n = 10 ∨ c.tables.gcurrentScs = 30 ∧ n = 20
  fits : ∀ i < 4, ∀ j < n, RowFits room c.tables i j

/-- What stays of the tables from slot to slot. -/
structure Tables.Kept (t t' : TcTables) : Prop where
  dlSize : t'.gL1DlttiReqSize = t.gL1DlttiReqSize
  ulSize : t'.gL1UlttiReqSize = t.gL1UlttiReqSize
  scs : t'.gcurrentScs = t.gcurrentScs
  dlRow : ∀ i j a, a < 8 ∨ 12 ≤ a → t'.gL1DLTTIReq i j a = t.gL1DLTTIReq i j a
  ulRow : ∀ i j a, a < 8 ∨ 12 ≤ a → t'.gL1ULTTI i j a = t.gL1ULTTI i j a
  txLength : ∀ i j, txLength (t.gL1TXDATAREQ i j) < 4294967296 →
    txLength (t'.gL1TXDATAREQ i j) = txLength (t.gL1TXDATAREQ i j)

theorem Ready.mask (h : Ready room n c) : gsfnMask env c.tables.gcurrentScs = n := by
  rcases h.spacing with ⟨hscs, hn⟩ | ⟨hscs, hn⟩
  · simp [gsfnMask, hscs, hn]
  · simp [gsfnMask, hscs, hn]

theorem Ready.slots (h : Ready room n c) : n = 10 ∨ n = 20 := by
  rcases h.spacing with ⟨-, hn⟩ | ⟨-, hn⟩
  · exact .inl hn
  · exact .inr hn

theorem slotTables_kept {gsfn : SlotIndication} : Tables.Kept c.tables (slotTables env c gsfn) where
  dlSize := rfl
  ulSize := rfl
  scs := rfl
  dlRow := by
    intro i j a ha
    simp only [slotTables, SlotTable.set_row]
    split_ifs with h
    · rw [stamp_of_not_mem ha, SlotTable.row, SlotTable.row, h]
    · rfl
  ulRow := by
    intro i j a ha
    simp only [slotTables, SlotTable.set_row]
    split_ifs with h
    · rw [stamp_of_not_mem ha, SlotTable.row, SlotTable.row, h]
    · rfl
  txLength := by
    intro i j hlen
    simp only [slotTables, SlotTable.set_row]
    split_ifs with h
    · rw [SlotTable.row, h] at hlen ⊢
      exact (txWalk_spec hlen).2.2
    · rfl

theorem Tables.Kept.rowFits {t t' : TcTables} (h : Tables.Kept t t') (hroom : room ≤ 4294967296)
    {i j : ℕ} (hfits : RowFits room t i j) : RowFits room t' i j := by
  obtain ⟨hdl, hul, htx⟩ := hfits
  refine ⟨?_, ?_, ?_⟩
  · rw [h.dlSize]
    exact hdl
  · rw [h.ulSize]
    exact hul
  · rw [h.txLength i j (htx.trans_le hroom)]
    exact htx

theorem Tables.Kept.refl (t : TcTables) : Tables.Kept t t where
  dlSize := rfl
  ulSize := rfl
  scs := rfl
  dlRow := fun _ _ _ _ => rfl
  ulRow := fun _ _ _ _ => rfl
  txLength := fun _ _ _ => rfl

theorem Tables.Kept.trans {t t' t'' : TcTables} (h : Tables.Kept t t') (h' : Tables.Kept t' t'') :
    Tables.Kept t t'' where
  dlSize := h'.dlSize.trans h.dlSize
  ulSize := h'.ulSize.trans h.ulSize
  scs := h'.scs.trans h.scs
  dlRow := fun i j a ha => (h'.dlRow i j a ha).trans (h.dlRow i j a ha)
  ulRow := fun i j a ha => (h'.ulRow i j a ha).trans (h.ulRow i j a ha)
  txLength := by
    intro i j hlen
    rw [h'.txLength i j (by rw [h.txLength i j hlen]; exact hlen), h.txLength i j hlen]

/-- An active cell that runs a test case without an end prepares every slot. -/
theorem finishes_macTxStartIndHandle (hactive : c.ctx.state = .phyActive)
    (hendless : c.ctx.runttiPerTc = 0) {slotInd : SlotIndication} {Q : Unit → Cell → Prop} :
    Finishes (macTxStartIndHandle env slotInd) c Q ↔
      Finishes (prepareSlot env slotInd)
        { c with clock := { c.clock with sMacLocalGSfn := slotInd } } Q := by
  have hrun : ∀ n, ¬ testCaseOver c.ctx.runttiPerTc n := fun _ hover => hover.1 hendless
  simp only [macTxStartIndHandle, finishes_bind, finishes_read, finishes_when, id, hactive,
    reduceCtorEq, finishes_ite, hrun, setClock, finishes_update, ne_eq, not_true_eq_false,
    not_false_eq_true, false_implies, true_implies, true_and]

/-- One slot indication serves the slot two ahead. -/
theorem Accepts.finishes_slotIndication (haccepts : Accepts env room) (henabled : env.Enabled)
    (hroom : room ≤ 4294967296) (hmin : 32 < room) (hready : Ready room n c) (a : ℕ) :
    Finishes (slotIndication env (slotAt n a)) c fun _ c' =>
      Ready room n c' ∧ Tables.Kept c.tables c'.tables ∧
      c'.log = c.log ++ slotSends env c (slotAt n (a + 2)) := by
  have hslots := hready.slots
  have hshifted : shifted n (slotAt n a) 2 = slotAt n (a + 2) :=
    shifted_slotAt (by omega) (by omega) a
  have hslot : (slotAt n (a + 2)).Slot < n := slotAt_slot_lt (by omega) _
  have hsfn := slotAt_sfn_lt n (a + 2)
  have hbyte : (slotAt n (a + 2)).Slot % 256 = (slotAt n (a + 2)).Slot :=
    Nat.mod_eq_of_lt (by omega)
  rw [slotIndication, finishes_bind, finishes_macTxStartIndHandle hready.active hready.endless,
    finishes_prepareSlot]
  simp only [hready.mask, hshifted, hbyte, setPhyState, finishes_update]
  refine ⟨by omega, ?_⟩
  have hfits := hready.fits ((slotAt n (a + 2)).SFN % 4) (Nat.mod_lt _ (by decide)) _ hslot
  set c₁ : Cell := { c with
    clock := SlotClock.prepared n (slotAt n a)
      { c.clock with sMacLocalGSfn := slotAt n a } } with hc₁
  have hgen₁ : c₁.ctx.runMode = .fapiGenerator := hready.generator
  refine (haccepts.finishes_macSchedule henabled hroom hmin hsfn (by omega) hgen₁
    hready.scheduling ?_ ?_ ?_ hfits).mono ?_
  · exact hshifted
  · simp [hc₁, SlotClock.prepared, hshifted]
  · simp [hc₁, SlotClock.prepared, hshifted, hbyte]
  · rintro _ c' ⟨hctx, -, htables, hlog⟩
    have hkept : Tables.Kept c.tables c'.tables := by
      rw [htables]
      exact slotTables_kept
    refine ⟨⟨rfl, ?_, ?_, ?_, ?_, ?_⟩, hkept, hlog⟩
    · rw [hctx]
      exact hready.scheduling
    · rw [hctx]
      exact hready.endless
    · rw [hctx]
      exact hready.generator
    · rw [hkept.scs]
      exact hready.spacing
    · intro i hi j hj
      exact hkept.rowFits hroom (hready.fits i hi j hj)

/-- The slot behind a slot: the next of its frame, or the first of the next frame. -/
def nextSlot (n : ℕ) (gsfn : SlotIndication) : SlotIndication :=
  if gsfn.Slot + 1 < n then ⟨gsfn.SFN, gsfn.Slot + 1⟩ else ⟨(gsfn.SFN + 1) % 1024, 0⟩

/-- The slots that are indicated one after the other. -/
def indicated (n : ℕ) (start : SlotIndication) : ℕ → SlotIndication
  | 0 => start
  | k + 1 => nextSlot n (indicated n start k)

/-- The handling of the first indications. -/
def slotRun (env : Env) (n : ℕ) (start : SlotIndication) : ℕ → CellM Unit
  | 0 => pure ()
  | k + 1 => do
    slotRun env n start k
    slotIndication env (indicated n start k)

theorem nextSlot_slotAt (hn : 1 < n) (hbound : n ≤ 65536) (a : ℕ) :
    nextSlot n (slotAt n a) = slotAt n (a + 1) := by
  have hlt := slotAt_slot_lt (by omega : 0 < n) a
  rw [← shifted_slotAt hbound hn a, shifted, nextSlot, Nat.add_comm 1]
  split_ifs with hframe
  · rw [Nat.mod_eq_of_lt (by omega : (slotAt n a).Slot + 1 < 65536)]
  · have hlast : (slotAt n a).Slot + 1 - n = 0 := by omega
    rw [hlast]

/-- The indications count through the slots of all frames. -/
theorem indicated_eq {start : SlotIndication} (hn : 1 < n) (hbound : n ≤ 65536)
    (hSFN : start.SFN < 1024) (hSlot : start.Slot < n) (k : ℕ) :
    indicated n start k = slotAt n (start.index n + k) := by
  induction k with
  | zero => exact (slotAt_index hSFN hSlot).symm
  | succ k ih => rw [indicated, ih, nextSlot_slotAt hn hbound, Nat.add_assoc]

/-- Every indication finds a ready cell, and the tables as they were loaded but for
what the slots served before have written. -/
theorem Accepts.finishes_slotRun (haccepts : Accepts env room) (henabled : env.Enabled)
    (hroom : room ≤ 4294967296) (hmin : 32 < room) (hready : Ready room n c)
    {start : SlotIndication} (hSFN : start.SFN < 1024) (hSlot : start.Slot < n) (k : ℕ) :
    Finishes (slotRun env n start k) c fun _ c' =>
      Ready room n c' ∧ Tables.Kept c.tables c'.tables := by
  have hslots := hready.slots
  induction k with
  | zero => exact finishes_pure.mpr ⟨hready, Tables.Kept.refl c.tables⟩
  | succ k ih =>
    rw [slotRun, finishes_bind]
    refine ih.mono ?_
    rintro _ c₁ ⟨hready₁, hkept₁⟩
    rw [indicated_eq (by omega) (by omega) hSFN hSlot]
    refine (haccepts.finishes_slotIndication henabled hroom hmin hready₁ _).mono ?_
    rintro _ c₂ ⟨hready₂, hkept₂, -⟩
    exact ⟨hready₂, hkept₁.trans hkept₂⟩

/-- A request carries a slot: it stands behind the general header of the message. -/
def CarriesSlot (gsfn : SlotIndication) (bytes : List UInt8) : Prop :=
  (bytes.drop 8).take 4 = leBytes 2 gsfn.SFN ++ leBytes 2 gsfn.Slot

theorem drop_l1Message {msgId msgSize : ℕ} {body : List UInt8} :
    (l1Message msgId msgSize body).drop 8 = body :=
  List.drop_left' (by simp)

/-- The message of a row carries its slot exactly when it is long enough for it. -/
theorem carriesSlot_rowMessage {msgId size : ℕ} {row : Mem} {gsfn : SlotIndication} :
    CarriesSlot gsfn (rowMessage msgId row size gsfn.SFN gsfn.Slot) ↔ 12 ≤ size := by
  rw [CarriesSlot, rowMessage, List.drop_take, drop_l1Message, List.take_take]
  constructor
  · intro hcarries
    have hlength := congrArg List.length hcarries
    simp only [List.length_take, slice_length, List.length_append, leBytes_length] at hlength
    omega
  · intro hsize
    have hfour : min 4 (size - 8) = 4 := by omega
    have hslice := slice_drop_take (stamp row 8 gsfn.SFN gsfn.Slot) 8 size 0 4 (by omega)
    rw [hfour, ← slice_stamp]
    exact hslice

theorem carriesSlot_txMessage {src : PayloadSource} {row : Mem} {calls : ℕ}
    {gsfn : SlotIndication} : CarriesSlot gsfn (txMessage src row gsfn.SFN gsfn.Slot calls) := by
  have hslice := slice_drop_take (stamp row 8 gsfn.SFN gsfn.Slot) 8 offsetofPdus 0 4 (by decide)
  rw [CarriesSlot, txMessage, drop_l1Message,
    List.take_append_of_le_length (by simp [offsetofPdus]), ← slice_stamp]
  exact hslice

/-- A slot is served: its three requests are sent from its rows, in order, and carry it. -/
def SlotServed (env : Env) (gsfn : SlotIndication) (c c' : Cell) : Prop :=
  c'.log = c.log ++ slotSends env c gsfn ∧ CarriesSlot gsfn (dlttiOf c gsfn) ∧
    CarriesSlot gsfn (ulttiOf c gsfn) ∧ CarriesSlot gsfn (txdataOf env c gsfn)

/-- The files of the DL_TTI and UL_TTI rows of a slot hold at least the slot. -/
def RowsHoldSlot (t : TcTables) (gsfn : SlotIndication) : Prop :=
  12 ≤ t.gL1DlttiReqSize (gsfn.SFN % 4) gsfn.Slot ∧ 12 ≤ t.gL1UlttiReqSize (gsfn.SFN % 4) gsfn.Slot

/-- Consecutive indications serve consecutive slots, two ahead of them, and every request
carries its slot exactly when the rows of the DL_TTI and UL_TTI tables are not shorter
than that. A row without a file gives an empty message. -/
theorem slots_served_iff (haccepts : Accepts env room) (henabled : env.Enabled)
    (hroom : room ≤ 4294967296) (hmin : 32 < room) (hready : Ready room n c)
    {start : SlotIndication} (hSFN : start.SFN < 1024) (hSlot : start.Slot < n) (indications : ℕ) :
    (∀ k < indications, ∃ cₖ c', slotRun env n start k c = some ((), cₖ) ∧
      Tables.Kept c.tables cₖ.tables ∧
      slotIndication env (indicated n start k) cₖ = some ((), c') ∧
      SlotServed env (slotAt n ((start.index n + 2 + k) % (1024 * n))) cₖ c') ↔
    ∀ k < indications,
      RowsHoldSlot c.tables (slotAt n ((start.index n + 2 + k) % (1024 * n))) := by
  have hslots := hready.slots
  have hcarries : ∀ {cₖ : Cell} {gsfn : SlotIndication}, Tables.Kept c.tables cₖ.tables →
      (CarriesSlot gsfn (dlttiOf cₖ gsfn) ∧ CarriesSlot gsfn (ulttiOf cₖ gsfn) ↔
        RowsHoldSlot c.tables gsfn) := by
    intro cₖ gsfn hkept
    rw [dlttiOf, ulttiOf, carriesSlot_rowMessage, carriesSlot_rowMessage, hkept.dlSize,
      hkept.ulSize, RowsHoldSlot]
  constructor
  · intro hserved k hk
    obtain ⟨cₖ, c', -, hkept, -, -, hdl, hul, -⟩ := hserved k hk
    exact (hcarries hkept).mp ⟨hdl, hul⟩
  · intro hrows k hk
    obtain ⟨⟨⟩, cₖ, hrun, hreadyₖ, hkept⟩ :=
      haccepts.finishes_slotRun henabled hroom hmin hready hSFN hSlot k
    obtain ⟨⟨⟩, c', hstep, -, -, hlog⟩ :=
      haccepts.finishes_slotIndication henabled hroom hmin hreadyₖ (start.index n + k)
    obtain ⟨hdl, hul⟩ := (hcarries hkept).mpr (hrows k hk)
    have hslot : start.index n + k + 2 = start.index n + 2 + k := by omega
    refine ⟨cₖ, c', hrun, hkept, ?_, ?_, hdl, hul, carriesSlot_txMessage⟩
    · rw [indicated_eq (by omega) (by omega) hSFN hSlot]
      exact hstep
    · rw [slotAt_mod, ← hslot]
      exact hlog

/-- An active cell whose rows hold nothing but zeros, with messages of one size. -/
def generatingCell (size : ℕ) : Cell :=
  let resting := restingCell .auto 0
  { resting with
    ctx := { resting.ctx with state := .phyActive, schState := .schNormal }
    tables := { resting.tables with
      gL1DlttiReqSize := ⟨fun _ => size⟩
      gL1UlttiReqSize := ⟨fun _ => size⟩
      gcurrentScs := 30 } }

theorem readyWorld_accepts : Accepts (readyWorld.env 0 0) 262144 where
  start _ := rfl
  alloc _ := ⟨262144, rfl, le_rfl⟩
  send _ := rfl

theorem readyWorld_enabled : (readyWorld.env 0 0).Enabled := ⟨rfl, rfl, rfl⟩

theorem generatingCell_ready {size : ℕ} (hsize : size < 262144) :
    Ready 262144 20 (generatingCell size) where
  active := rfl
  scheduling := by simp [generatingCell]
  endless := rfl
  generator := rfl
  spacing := .inr ⟨rfl, rfl⟩
  fits := fun _ _ _ _ => ⟨hsize, hsize, (by decide : txLength (fun _ => 0) < 262144)⟩

theorem slots_served_iff_twelve : Ready 262144 20 (generatingCell 12) ∧ ∀ k < 100000, ∃ cₖ c',
    slotRun (readyWorld.env 0 0) 20 ⟨1023, 19⟩ k (generatingCell 12) = some ((), cₖ) ∧
    Tables.Kept (generatingCell 12).tables cₖ.tables ∧
    slotIndication (readyWorld.env 0 0) (indicated 20 ⟨1023, 19⟩ k) cₖ = some ((), c') ∧
    SlotServed (readyWorld.env 0 0) (slotAt 20 ((20479 + 2 + k) % (1024 * 20))) cₖ c' := by
  have hready : Ready 262144 20 (generatingCell 12) := generatingCell_ready (by decide)
  refine ⟨hready, (slots_served_iff readyWorld_accepts readyWorld_enabled (by decide) (by decide)
    hready (by decide) (by decide) 100000).mpr ?_⟩
  intro k hk
  exact ⟨le_rfl, le_rfl⟩

/-- With no file for a slot its DL_TTI request has no bytes, and no slot in them. -/
theorem empty_row_sends_nothing : ∃ c',
    slotIndication (readyWorld.env 0 0) ⟨0, 0⟩ (generatingCell 0) = some ((), c') ∧
      .sent fapiDlTtiRequest [] ∈ c'.log ∧ ¬ CarriesSlot ⟨0, 2⟩ [] := by
  obtain ⟨⟨⟩, c', hstep, -, -, hlog⟩ :=
    readyWorld_accepts.finishes_slotIndication readyWorld_enabled (by decide) (by decide)
      (generatingCell_ready (by decide : 0 < 262144)) 0
  refine ⟨c', hstep, ?_, by simp [CarriesSlot, leBytes]⟩
  have hempty : dlttiOf (generatingCell 0) (slotAt 20 (0 + 2)) = [] := rfl
  rw [hlog, slotSends, hempty]
  simp

end TestMac
