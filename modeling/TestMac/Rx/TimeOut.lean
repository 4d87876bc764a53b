import TestMac.Mac.Window
import TestMac.Rx.Isolation

/-!
# The slot time-out of `fapiMsgDec`

Each slot indication is compared with the one before it in ticks of the clock. The
difference of the readings passes through `abs`, whose parameter and result are of type
`int`, so that what is compared is the distance of the elapsed ticks from the nearest
multiple of `2 ^ 32`.
-/

namespace TestMac

/-- A number of 64 bits as an `int`. -/
def int32 (x : ℕ) : ℤ := (x : ℤ).bmod (4294967296)

/-- `abs`. The least `int` has no positive counterpart and is left as it is. -/
def abs32 (x : ℤ) : ℤ := if x < 0 then (-x).bmod (4294967296) else x

/-- An `int` as a number of type `uint64_t`. -/
def toUint64 (x : ℤ) : ℕ := (x % 18446744073709551616).toNat

/-- `rdtsc_diff`, from two readings of the clock. -/
def rdtscDiff (timestamp timestampEnd : ℕ) : ℕ :=
  let ticks := (timestampEnd + 18446744073709551616 - timestamp) % 18446744073709551616
  toUint64 (abs32 (int32 ticks))

/-- Ticks outside the window. -/
def SlotWindow.Out (window : SlotWindow) (ticks : ℕ) : Prop :=
  window.maxTimeOut < ticks ∨ ticks < window.minTimeOut

instance (window : SlotWindow) (ticks : ℕ) : Decidable (window.Out ticks) :=
  inferInstanceAs (Decidable (_ ∨ _))

/-- A slot indication: the thresholds in force, and what the clock reads. The first reading
is taken only when there is no timestamp. -/
structure SlotTick where
  window : SlotWindow
  timestamp : ℕ
  timestampEnd : ℕ

/-- The timestamp that the indication is compared with; 0 stands for none. -/
def SlotTick.since (e : SlotTick) (timestamp : ℕ) : ℕ :=
  if timestamp = 0 then e.timestamp else timestamp

/-- A slot time-out is reported. -/
def SlotTick.timesOut (e : SlotTick) (timestamp : ℕ) : Bool :=
  e.window.Out (rdtscDiff (e.since timestamp) e.timestampEnd)

/-- The slot indications of all cells, and for each of them whether `fapiMsgDec` reports a
time-out. The timestamps are static. -/
def slotTimeOuts (timestamp : ℕ → ℕ → ℕ) : List (Channel × SlotTick) → List (Channel × Bool)
  | [] => []
  | (ch, e) :: es =>
    (ch, e.timesOut (timestamp ch.devIndex ch.cellId)) ::
      slotTimeOuts (setEntry timestamp ch.devIndex ch.cellId e.timestampEnd) es

/-- What belongs to one channel. -/
def ofChannel {α : Type} (ch : Channel) (xs : List (Channel × α)) : List α :=
  xs.filterMap fun x => if x.1 = ch then some x.2 else none

/-- The reports for the slot indications of one cell with a timestamp. -/
def reportsFrom (timestamp : ℕ) : List SlotTick → List Bool
  | [] => []
  | e :: es => e.timesOut timestamp :: reportsFrom e.timestampEnd es

/-- The reports that the elapsed ticks call for, when the previous indication has come at a
reading of the clock. -/
def elapsedReports (previous : ℕ) : List SlotTick → List Bool
  | [] => []
  | e :: es => decide (e.window.Out (e.timestampEnd - previous)) :: elapsedReports e.timestampEnd es

/-- The distance of ticks from the nearest multiple of `2 ^ 32`. -/
def nearest (ticks : ℕ) : ℕ := min (ticks % 4294967296) (4294967296 - ticks % 4294967296)

/-- Ticks behind `abs`. Halfway between two multiples of `2 ^ 32` they come to `2 ^ 64 - 2 ^ 31`. -/
def folded (ticks : ℕ) : ℕ :=
  if ticks % 4294967296 = 2147483648 then 18446744071562067968 else nearest ticks

/-- The elapsed ticks are judged wrongly: they exceed the window, and their distance from the
nearest multiple of `2 ^ 32` lies in it, or they lie in the window, and the distance below it.
Halfway between two multiples the distance is not what they come to. -/
def SlotWindow.Misjudges (window : SlotWindow) (ticks : ℕ) : Prop :=
  if ticks % 4294967296 = 2147483648 then
    (window.minTimeOut ≤ ticks ∧ ticks ≤ window.maxTimeOut ∧
      window.maxTimeOut < 18446744071562067968) ∨
    (ticks < window.minTimeOut ∧ window.minTimeOut ≤ 18446744071562067968 ∧
      18446744071562067968 ≤ window.maxTimeOut)
  else
    (window.maxTimeOut < ticks ∧ window.minTimeOut ≤ nearest ticks ∧
      nearest ticks ≤ window.maxTimeOut) ∨
    (window.minTimeOut ≤ ticks ∧ ticks ≤ window.maxTimeOut ∧ nearest ticks < window.minTimeOut)

/-- No indication but the first is judged wrongly. Behind one at the reading 0, which stands for
none, the ticks are those from the beginning of the indication itself. -/
def NoneMisjudged (previous : ℕ) : List SlotTick → Prop
  | [] => True
  | e :: es =>
    (if previous = 0 then
        (e.window.Out (folded (e.timestampEnd - e.timestamp)) ↔ e.window.Out e.timestampEnd)
      else ¬ e.window.Misjudges (e.timestampEnd - previous)) ∧
      NoneMisjudged e.timestampEnd es

variable {window : SlotWindow} {timestamp timestampEnd ticks previous : ℕ} {ch : Channel}

/-- A number modulo `2 ^ 32`, as an `int`. -/
theorem bmod_eq (x : ℤ) : x.bmod 4294967296 =
    if x % 4294967296 < 2147483648 then x % 4294967296 else x % 4294967296 - 4294967296 :=
  Int.bmod_def ..

theorem int32_eq (x : ℕ) : int32 x =
    if (x : ℤ) % 4294967296 < 2147483648 then (x : ℤ) % 4294967296
    else (x : ℤ) % 4294967296 - 4294967296 :=
  bmod_eq x

/-- For numbers in the range of `int`. -/
theorem abs32_eq {x : ℤ} (hlow : -2147483648 ≤ x) (hhigh : x < 2147483648) :
    abs32 x = if x = -2147483648 then x else x.natAbs := by
  rw [abs32, bmod_eq]
  split_ifs <;> omega

/-- What `rdtsc_diff` comes to. -/
theorem rdtscDiff_eq (h : timestamp ≤ timestampEnd) (hlt : timestampEnd < 18446744073709551616) :
    rdtscDiff timestamp timestampEnd = folded (timestampEnd - timestamp) := by
  have hticks : (timestampEnd + 18446744073709551616 - timestamp) % 18446744073709551616 =
      timestampEnd - timestamp := by
    omega
  simp only [rdtscDiff, hticks]
  generalize timestampEnd - timestamp = ticks
  have hint := int32_eq ticks
  have hlow : -2147483648 ≤ int32 ticks := by
    split_ifs at hint <;> omega
  have hhigh : int32 ticks < 2147483648 := by
    split_ifs at hint <;> omega
  rw [abs32_eq hlow hhigh, toUint64, folded, nearest]
  generalize int32 ticks = x at hint hlow hhigh
  split_ifs at hint ⊢ <;> omega

theorem nearest_le (ticks : ℕ) : nearest ticks ≤ ticks := by
  unfold nearest
  omega

/-- The comparison goes wrong exactly for the ticks that are misjudged. -/
theorem out_folded_iff (hlt : ticks < 18446744073709551616) :
    (window.Out (folded ticks) ↔ window.Out ticks) ↔ ¬ window.Misjudges ticks := by
  have hnearest := nearest_le ticks
  unfold folded SlotWindow.Out SlotWindow.Misjudges
  split_ifs
  · omega
  · omega

/-- With thresholds below `2 ^ 31` the ticks that are misjudged are those that come close to a
multiple of `2 ^ 32`, other than zero, in the way the ticks of a slot are to come close to zero. -/
theorem misjudges_iff_of_lt (h : window.maxTimeOut < 2147483648) :
    window.Misjudges ticks ↔ 2147483648 ≤ ticks ∧ window.minTimeOut ≤ nearest ticks ∧
      nearest ticks ≤ window.maxTimeOut := by
  unfold SlotWindow.Misjudges nearest
  split_ifs
  · omega
  · omega

theorem ofChannel_own {α : Type} {x : α} {xs : List (Channel × α)} :
    ofChannel ch ((ch, x) :: xs) = x :: ofChannel ch xs := by
  simp [ofChannel]

theorem ofChannel_other {α : Type} {ch' : Channel} {x : α} {xs : List (Channel × α)}
    (h : ch' ≠ ch) : ofChannel ch ((ch', x) :: xs) = ofChannel ch xs := by
  simp [ofChannel, h]

/-- The reports for a cell are those for its own indications. -/
theorem ofChannel_slotTimeOuts (timestamp : ℕ → ℕ → ℕ) (es : List (Channel × SlotTick)) :
    ofChannel ch (slotTimeOuts timestamp es) =
      reportsFrom (timestamp ch.devIndex ch.cellId) (ofChannel ch es) := by
  induction es generalizing timestamp with
  | nil => rfl
  | cons x es ih =>
    obtain ⟨ch', e⟩ := x
    rw [slotTimeOuts]
    by_cases hown : ch' = ch
    · obtain rfl := hown
      rw [ofChannel_own, ofChannel_own, reportsFrom, ih, setEntry_same]
    · have hentry : ¬ ((ch.devIndex : ℕ) = ch'.devIndex ∧ (ch.cellId : ℕ) = ch'.cellId) :=
        channel_ne (Ne.symm hown)
      rw [ofChannel_other hown, ofChannel_other hown, ih, setEntry_other hentry]

/-- The readings of the clock do not decrease and have 64 bits. -/
structure Clocked (es : List SlotTick) : Prop where
  nondecreasing : (es.map (·.timestampEnd)).Pairwise (· ≤ ·)
  reading : ∀ e ∈ es, e.timestamp ≤ e.timestampEnd
  lt : ∀ e ∈ es, e.timestampEnd < 18446744073709551616

theorem Clocked.tail {e : SlotTick} {es : List SlotTick} (h : Clocked (e :: es)) :
    Clocked es where
  nondecreasing := (List.pairwise_cons.mp h.nondecreasing).2
  reading e' he' := h.reading e' (List.mem_cons_of_mem e he')
  lt e' he' := h.lt e' (List.mem_cons_of_mem e he')

/-- An indication behind one at some reading. -/
theorem SlotTick.timesOut_eq_iff {e : SlotTick} (hreading : e.timestamp ≤ e.timestampEnd)
    (h : previous ≤ e.timestampEnd) (hlt : e.timestampEnd < 18446744073709551616) :
    e.timesOut previous = decide (e.window.Out (e.timestampEnd - previous)) ↔
      if previous = 0 then
        (e.window.Out (folded (e.timestampEnd - e.timestamp)) ↔ e.window.Out e.timestampEnd)
      else ¬ e.window.Misjudges (e.timestampEnd - previous) := by
  rw [SlotTick.timesOut, SlotTick.since, decide_eq_decide]
  by_cases hnone : previous = 0
  · rw [if_pos hnone, if_pos hnone, hnone, Nat.sub_zero, rdtscDiff_eq hreading hlt]
  · rw [if_neg hnone, if_neg hnone, rdtscDiff_eq h hlt]
    exact out_folded_iff (by omega)

/-- The reports behind an indication. -/
theorem reportsFrom_eq_iff {e : SlotTick} {es : List SlotTick} (hclock : Clocked (e :: es)) :
    reportsFrom e.timestampEnd es = elapsedReports e.timestampEnd es ↔
      NoneMisjudged e.timestampEnd es := by
  induction es generalizing e with
  | nil => simp [reportsFrom, elapsedReports, NoneMisjudged]
  | cons e' es ih =>
    have hle : e.timestampEnd ≤ e'.timestampEnd :=
      (List.pairwise_cons.mp hclock.nondecreasing).1 _ List.mem_cons_self
    have hreading := hclock.tail.reading e' List.mem_cons_self
    have hlt := hclock.tail.lt e' List.mem_cons_self
    rw [reportsFrom, elapsedReports, NoneMisjudged, List.cons.injEq,
      SlotTick.timesOut_eq_iff hreading hle hlt, ih hclock.tail]

/-- Among slot indications of all cells, a time-out is reported for exactly those indications
of a cell, behind its first, whose ticks since the one before lie outside the window, if and
only if none of them is misjudged. -/
theorem slotTimeOuts_exact_iff (ch : Channel) (es : List (Channel × SlotTick)) {first : SlotTick}
    {later : List SlotTick} (hown : ofChannel ch es = first :: later)
    (hclock : Clocked (first :: later)) :
    (ofChannel ch (slotTimeOuts (fun _ _ => 0) es)).tail =
        elapsedReports first.timestampEnd later ↔
      NoneMisjudged first.timestampEnd later := by
  rw [ofChannel_slotTimeOuts, hown, reportsFrom, List.tail_cons]
  exact reportsFrom_eq_iff hclock

/-- Two slot indications of a cell, so many ticks apart. -/
def twoTicks (ch : Channel) (ticks : ℕ) : List (Channel × SlotTick) :=
  [(ch, ⟨armWindow, 1000, 1000⟩), (ch, ⟨armWindow, 1000 + ticks, 1000 + ticks⟩)]

theorem slotTimeOuts_exact_iff_slot :
    (ofChannel ⟨0, 0⟩ (slotTimeOuts (fun _ _ => 0) (twoTicks ⟨0, 0⟩ 10000))).tail = [false] := by
  have hown : ofChannel ⟨0, 0⟩ (twoTicks ⟨0, 0⟩ 10000) =
      [⟨armWindow, 1000, 1000⟩, ⟨armWindow, 11000, 11000⟩] := rfl
  have hnone : NoneMisjudged 1000 [⟨armWindow, 11000, 11000⟩] := by
    constructor
    · rw [if_neg (by decide), misjudges_iff_of_lt (by decide)]
      decide
    · trivial
  exact (slotTimeOuts_exact_iff ⟨0, 0⟩ _ hown ⟨by decide, by decide, by decide⟩).mpr hnone

/-- After `2 ^ 32` ticks and those of one slot no time-out is reported. -/
theorem longGap_not_reported :
    ofChannel ⟨0, 0⟩ (twoTicks ⟨0, 0⟩ 4294977296) =
        [⟨armWindow, 1000, 1000⟩, ⟨armWindow, 4294978296, 4294978296⟩] ∧
      (ofChannel ⟨0, 0⟩ (slotTimeOuts (fun _ _ => 0) (twoTicks ⟨0, 0⟩ 4294977296))).tail =
        [false] ∧
      elapsedReports 1000 [⟨armWindow, 4294978296, 4294978296⟩] = [true] := by
  refine ⟨rfl, ?_, ?_⟩
  · decide +kernel
  · decide +kernel

end TestMac
