import TestMac.Mac.Handlers

/-!
# Slots and rows of the tables

A slot indication prepares the slot two ahead. Slots are counted through frames and
system frame numbers in mixed radix; the shift of `gsfnShift` is the addition of
these numbers. The rows of the tables are the slots of four frames, with room for
twenty slots in each: too few for the two wide spacings.
-/

namespace TestMac

open Bytes Act

/-- The slot that `gsfnShift` finds, for the slots of a frame. -/
def shifted (mask : ℕ) (gsfn : SlotIndication) (shift : ℕ) : SlotIndication :=
  if shift + gsfn.Slot < mask then ⟨gsfn.SFN, (gsfn.Slot + shift) % 65536⟩
  else ⟨(gsfn.SFN + 1) % 1024, (gsfn.Slot + shift - mask) % 65536⟩

/-- The slot of a number of slots counted from the first one. -/
def slotAt (n a : ℕ) : SlotIndication := ⟨a / n % 1024, a % n⟩

/-- The number of a slot. -/
def SlotIndication.index (n : ℕ) (gsfn : SlotIndication) : ℕ := gsfn.SFN * n + gsfn.Slot

theorem slotAt_index {n : ℕ} {gsfn : SlotIndication} (hSFN : gsfn.SFN < 1024)
    (hSlot : gsfn.Slot < n) : slotAt n (gsfn.index n) = gsfn := by
  have hn : 0 < n := by omega
  have hdiv : (gsfn.SFN * n + gsfn.Slot) / n = gsfn.SFN := by
    rw [Nat.mul_comm, Nat.mul_add_div hn, Nat.div_eq_of_lt hSlot, Nat.add_zero]
  have hmod : (gsfn.SFN * n + gsfn.Slot) % n = gsfn.Slot := by
    rw [Nat.mul_comm, Nat.mul_add_mod, Nat.mod_eq_of_lt hSlot]
  rw [slotAt, SlotIndication.index, hdiv, hmod, Nat.mod_eq_of_lt hSFN]

/-- Slots are numbered modulo the slots of all frames. -/
theorem slotAt_mod (n a : ℕ) : slotAt n (a % (1024 * n)) = slotAt n a := by
  rw [slotAt, slotAt, Nat.mul_comm, Nat.mod_mul_right_div_self, Nat.mod_mod,
    Nat.mod_mod_of_dvd a (Nat.dvd_mul_right n 1024)]

theorem slotAt_slot_lt {n : ℕ} (hn : 0 < n) (a : ℕ) : (slotAt n a).Slot < n := Nat.mod_lt a hn

theorem slotAt_sfn_lt (n a : ℕ) : (slotAt n a).SFN < 1024 := Nat.mod_lt _ (by decide)

/-- Shifting a slot adds to its number, across the ends of frames and of the frame numbers. -/
theorem shifted_slotAt {n shift : ℕ} (hn : n ≤ 65536) (hshift : shift < n) (a : ℕ) :
    shifted n (slotAt n a) shift = slotAt n (a + shift) := by
  have hpos : 0 < n := by omega
  have hlt := Nat.mod_lt a hpos
  have ha := Nat.div_add_mod a n
  by_cases hframe : shift + (slotAt n a).Slot < n
  · rw [shifted, if_pos hframe]
    simp only [slotAt] at hframe ⊢
    have hsum : a + shift = n * (a / n) + (a % n + shift) := by omega
    rw [hsum, Nat.mul_add_div hpos, Nat.mul_add_mod,
      Nat.div_eq_of_lt (by omega : a % n + shift < n),
      Nat.mod_eq_of_lt (by omega : a % n + shift < 65536),
      Nat.mod_eq_of_lt (by omega : a % n + shift < n), Nat.add_zero]
  · -- the end of the frame is passed once
    rw [shifted, if_neg hframe]
    simp only [slotAt] at hframe ⊢
    have hsum : a + shift = n * (a / n + 1) + (a % n + shift - n) := by
      rw [Nat.mul_succ]
      omega
    rw [hsum, Nat.mul_add_div hpos, Nat.mul_add_mod,
      Nat.div_eq_of_lt (by omega : a % n + shift - n < n),
      Nat.mod_eq_of_lt (by omega : a % n + shift - n < 65536),
      Nat.mod_eq_of_lt (by omega : a % n + shift - n < n), Nat.add_zero, Nat.mod_add_mod]

/-- A shift by less than a frame leads to a slot of a frame. -/
theorem shifted_slot_lt {n shift : ℕ} {gsfn : SlotIndication} (hslot : gsfn.Slot < n)
    (hshift : shift < n) : (shifted n gsfn shift).Slot < n := by
  unfold shifted
  split_ifs with h
  · exact (Nat.mod_le _ _).trans_lt (by omega)
  · exact (Nat.mod_le _ _).trans_lt (by omega)

variable {env : Env} {c : Cell}

theorem ensures_gsfnShift_shifted {gsfn : SlotIndication} {shift scs : ℕ}
    {Q : SlotIndication → Cell → Prop} :
    Ensures (gsfnShift env gsfn shift scs) c Q ↔
      (shift < gsfnMask env scs → Q (shifted (gsfnMask env scs) gsfn shift) c) := by
  simp only [gsfnShift, ensures_bind, ensures_assert, ensures_ite, ensures_pure, shifted]
  by_cases h : shift + gsfn.Slot < gsfnMask env scs
  · simp [h]
  · simp [h]

theorem finishes_gsfnShift {gsfn : SlotIndication} {shift scs : ℕ}
    {Q : SlotIndication → Cell → Prop} :
    Finishes (gsfnShift env gsfn shift scs) c Q ↔
      shift < gsfnMask env scs ∧ Q (shifted (gsfnMask env scs) gsfn shift) c := by
  simp only [gsfnShift, finishes_bind, finishes_assert, finishes_ite, finishes_pure, shifted]
  by_cases h : shift + gsfn.Slot < gsfnMask env scs
  · simp [h]
  · simp [h]

/-- The slot that an indication prepares in a cell. -/
def preparedSlot (env : Env) (c : Cell) (slotInd : SlotIndication) : SlotIndication :=
  shifted (gsfnMask env c.tables.gcurrentScs) slotInd 2

/-- The registers of a cell for a slot that is prepared. -/
def SlotClock.prepared (mask : ℕ) (slotInd : SlotIndication) (clock : SlotClock) : SlotClock :=
  let tx := shifted mask slotInd 2
  { nextTti clock with
    gL2TxGSfn := tx
    gL2RxGSfn := tx
    sMacLocalGSfn := shifted mask slotInd 1
    gMacTxRfn := tx.SFN
    gMacTxSlot := tx.Slot % 256
    gMacRxRfn := tx.SFN
    gMacRxSlot := tx.Slot % 256 }

/-- What `prepareSlot` does is `macSchedule`, when the registers have been set. -/
theorem ensures_prepareSlot_of {Q : Unit → Cell → Prop} {slotInd : SlotIndication}
    (h : Ensures (macSchedule env (preparedSlot env c slotInd).SFN
        ((preparedSlot env c slotInd).Slot % 256))
      { c with clock := c.clock.prepared (gsfnMask env c.tables.gcurrentScs) slotInd } Q) :
    Ensures (prepareSlot env slotInd) c Q := by
  rw [prepareSlot, ensures_bind, setClock, ensures_update, ensures_bind, ensures_read, ensures_bind,
    ensures_gsfnShift_shifted]
  intro _
  rw [ensures_bind, ensures_gsfnShift_shifted]
  intro _
  rw [ensures_bind, ensures_gsfnShift_shifted]
  intro _
  rw [ensures_bind, setClock, ensures_update]
  exact h

/-- Everything a slot indication does to the tables is done by one call of `macSchedule`,
for the slot two ahead and with the registers set to it. -/
theorem finishes_prepareSlot {slotInd : SlotIndication} {Q : Unit → Cell → Prop} :
    Finishes (prepareSlot env slotInd) c Q ↔
      2 < gsfnMask env c.tables.gcurrentScs ∧
      Finishes (macSchedule env (shifted (gsfnMask env c.tables.gcurrentScs) slotInd 2).SFN
          ((shifted (gsfnMask env c.tables.gcurrentScs) slotInd 2).Slot % 256))
        { c with clock := c.clock.prepared (gsfnMask env c.tables.gcurrentScs) slotInd } Q := by
  simp only [prepareSlot, setClock, finishes_bind, finishes_update, finishes_read,
    finishes_gsfnShift]
  constructor
  · rintro ⟨hmask, -, -, hrun⟩
    exact ⟨hmask, hrun⟩
  · rintro ⟨hmask, hrun⟩
    exact ⟨hmask, hmask, by omega, hrun⟩

end TestMac
