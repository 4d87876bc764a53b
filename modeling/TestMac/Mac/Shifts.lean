import Mathlib.Data.Nat.ModEq
import TestMac.Mac.Spacing

/-!
# Shifts of a slot, one after the other

A shift below the number of slots of a frame adds to the number of the slot, modulo the
slots of all frames. So do any number of them: what they come to is known from their sum.
-/

namespace TestMac

open Act

variable {env : Env} {c : Cell} {n scs shift : ℕ} {gsfn : SlotIndication} {shifts : List ℕ}

/-- `gsfnShift` for some shifts, one after the other. -/
def gsfnShifts (env : Env) (scs : ℕ) : SlotIndication → List ℕ → CellM SlotIndication
  | gsfn, [] => pure gsfn
  | gsfn, shift :: shifts => do
    let rtv ← gsfnShift env gsfn shift scs
    gsfnShifts env scs rtv shifts

theorem index_slotAt (n a : ℕ) : (slotAt n a).index n = a % (1024 * n) := by
  rw [SlotIndication.index, slotAt, Nat.mul_comm 1024, Nat.mod_mul, Nat.add_comm, Nat.mul_comm n]

theorem slotAt_congr {a b : ℕ} (h : a ≡ b [MOD 1024 * n]) : slotAt n a = slotAt n b := by
  rw [← slotAt_mod n a, h, slotAt_mod]

/-- A shift below the modulus passes the assertion. -/
theorem gsfnShift_eq (h : shift < gsfnMask env scs) :
    gsfnShift env gsfn shift scs c = some (shifted (gsfnMask env scs) gsfn shift, c) := by
  have hfinishes : Finishes (gsfnShift env gsfn shift scs) c fun rtv c' =>
      rtv = shifted (gsfnMask env scs) gsfn shift ∧ c' = c :=
    finishes_gsfnShift.mpr ⟨h, rfl, rfl⟩
  obtain ⟨rtv, c', hrun, rfl, rfl⟩ := hfinishes
  exact hrun

/-- The shifts add up. -/
theorem gsfnShifts_slotAt (hmask : gsfnMask env scs = n) (hn : n ≤ 65536)
    (hshifts : ∀ shift ∈ shifts, shift < n) (a : ℕ) :
    gsfnShifts env scs (slotAt n a) shifts c = some (slotAt n (a + shifts.sum), c) := by
  induction shifts generalizing a with
  | nil => rfl
  | cons shift shifts ih =>
    have hshift : shift < n := hshifts shift List.mem_cons_self
    have hfirst : gsfnShift env (slotAt n a) shift scs c = some (slotAt n (a + shift), c) := by
      rw [gsfnShift_eq (hmask ▸ hshift), hmask, shifted_slotAt hn hshift]
    rw [gsfnShifts, bind_of_eq_some hfirst,
      ih (fun s hs => hshifts s (List.mem_cons_of_mem shift hs)), List.sum_cons, Nat.add_assoc]

theorem macGetSlotNumPerSfn_bounds (h : KnownScs scs) :
    0 < macGetSlotNumPerSfn scs ∧ macGetSlotNumPerSfn scs ≤ 65536 := by
  rcases h with rfl | rfl | rfl | rfl <;> decide

/-- From a slot of its frames. -/
theorem gsfnShifts_eq (hscs : KnownScs scs) (hSFN : gsfn.SFN < 1024)
    (hSlot : gsfn.Slot < macGetSlotNumPerSfn scs)
    (hshifts : ∀ shift ∈ shifts, shift < macGetSlotNumPerSfn scs) :
    gsfnShifts env scs gsfn shifts c =
      some (slotAt (macGetSlotNumPerSfn scs)
        (gsfn.index (macGetSlotNumPerSfn scs) + shifts.sum), c) := by
  obtain ⟨hpos, hle⟩ := macGetSlotNumPerSfn_bounds hscs
  have hrun : gsfnShifts env scs (slotAt (macGetSlotNumPerSfn scs)
      (gsfn.index (macGetSlotNumPerSfn scs))) shifts c = _ :=
    gsfnShifts_slotAt (gsfnMask_eq hpos) hle hshifts _
  rwa [slotAt_index hSFN hSlot] at hrun

/-- With `n` slots in a frame, shifts below `n` lead to the slot whose number is that of the
first one and their sum, modulo `1024 * n`. Nothing but the sum matters: not the order of the
shifts, and a single shift by the sum does the same. -/
theorem gsfnShifts_add_up (hscs : KnownScs scs) (hSFN : gsfn.SFN < 1024)
    (hSlot : gsfn.Slot < macGetSlotNumPerSfn scs)
    (hshifts : ∀ shift ∈ shifts, shift < macGetSlotNumPerSfn scs) :
    (∃ rtv, gsfnShifts env scs gsfn shifts c = some (rtv, c) ∧
      rtv.SFN < 1024 ∧ rtv.Slot < macGetSlotNumPerSfn scs ∧
      rtv.index (macGetSlotNumPerSfn scs) =
        (gsfn.index (macGetSlotNumPerSfn scs) + shifts.sum) %
          (1024 * macGetSlotNumPerSfn scs)) ∧
    (∀ shifts', (∀ shift ∈ shifts', shift < macGetSlotNumPerSfn scs) →
      shifts'.sum ≡ shifts.sum [MOD 1024 * macGetSlotNumPerSfn scs] →
      gsfnShifts env scs gsfn shifts' c = gsfnShifts env scs gsfn shifts c) ∧
    (∀ shifts', shifts'.Perm shifts →
      gsfnShifts env scs gsfn shifts' c = gsfnShifts env scs gsfn shifts c) ∧
    (∀ shift < macGetSlotNumPerSfn scs,
      shift ≡ shifts.sum [MOD 1024 * macGetSlotNumPerSfn scs] →
      gsfnShift env gsfn shift scs c = gsfnShifts env scs gsfn shifts c) := by
  set n := macGetSlotNumPerSfn scs
  obtain ⟨hpos, -⟩ := macGetSlotNumPerSfn_bounds hscs
  have hsum : ∀ shifts', (∀ shift ∈ shifts', shift < n) →
      shifts'.sum ≡ shifts.sum [MOD 1024 * n] →
      gsfnShifts env scs gsfn shifts' c = gsfnShifts env scs gsfn shifts c := by
    intro shifts' hshifts' hsame
    rw [gsfnShifts_eq hscs hSFN hSlot hshifts', gsfnShifts_eq hscs hSFN hSlot hshifts,
      slotAt_congr (hsame.add_left _)]
  refine ⟨⟨_, gsfnShifts_eq hscs hSFN hSlot hshifts, slotAt_sfn_lt _ _, slotAt_slot_lt hpos _,
    index_slotAt _ _⟩, hsum, ?_, ?_⟩
  · intro shifts' hperm
    apply hsum shifts'
    · intro shift hmem
      exact hshifts shift (hperm.mem_iff.mp hmem)
    · rw [hperm.sum_nat]
  · intro shift hlt hsame
    have hone := hsum [shift] (by simpa using hlt) (by simpa using hsame)
    rw [← hone, gsfnShifts, bind_of_eq_some (gsfnShift_eq (gsfnMask_eq hpos ▸ hlt))]
    exact gsfnShift_eq (gsfnMask_eq hpos ▸ hlt)

/-- From the last slot of all frames. -/
theorem gsfnShifts_add_up_last :
    ∃ rtv, gsfnShifts (readyWorld.env 0 0) 30 ⟨1023, 19⟩ [19, 2] (restingCell .auto 0) =
      some (rtv, restingCell .auto 0) ∧ rtv.SFN < 1024 ∧ rtv.Slot < 20 ∧ rtv.index 20 = 20 :=
  (gsfnShifts_add_up (.inr (.inl rfl)) (by decide) (by decide) (by decide)).1

end TestMac
