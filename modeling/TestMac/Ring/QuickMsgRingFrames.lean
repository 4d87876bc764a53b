import TestMac.Lib.FramedRing
import TestMac.Ring.QuickMsgRing

/-!
# Messages in the storage of `quickMsgRing.c`

The storage is read as cells of four bytes. A message occupies its length word
and its payload; a length word equal to the ring size marks an unused tail.
The placement of one message by `QuickMsgRingGetBufBulk` is a frame between the
position of `in` and the next position, and touches nothing else.
-/

namespace TestMac.QuickMsgRing

open Bytes Framing

/-- A delivered message: its length in words and its bytes. -/
structure Msg where
  msgLen : ℕ
  payload : List UInt8
  deriving DecidableEq

/-- The message a producer announces as `wordCount` bytes and fills from its
start: zero-padded to whole words. -/
def packed (wordCount : ℕ) (data : List UInt8) : Msg where
  msgLen := tmpWordCnt wordCount
  payload := data ++ List.replicate (4 * tmpWordCnt wordCount - data.length) 0

/-- The message behind the word index and the length that a consumer holds. -/
def readMsg (buf : Mem) (held : ℕ × ℕ) : Msg where
  msgLen := held.2
  payload := slice buf (4 * held.1) (4 * held.2)

/-- The four bytes of a word of the storage. -/
def cells (buf : Mem) (i : ℕ) : List UInt8 := slice buf (4 * i) 4

variable {buf : Mem} {r : QuickMsgRing} {n o i x w : ℕ} {m : Msg}

theorem word_eq (buf : Mem) (i : ℕ) : word buf i = leValue (cells buf i) := rfl

/-- The number of words holds the number of bytes, with less than a word of padding. -/
theorem tmpWordCnt_eq (wordCount : ℕ) : tmpWordCnt wordCount = (wordCount + 3) / 4 := by
  unfold tmpWordCnt
  split <;> split <;> omega

/-- Consecutive cells are a slice of the storage. -/
theorem flatMap_cells (buf : Mem) (i w : ℕ) :
    (List.range w).flatMap (fun k => cells buf (i + k)) = slice buf (4 * i) (4 * w) := by
  induction w with
  | zero => rfl
  | succ w ih =>
    rw [List.range_succ, List.flatMap_append, ih, Nat.mul_succ, slice_add]
    simp [cells, Nat.mul_add]

/-- The representation of messages in a ring of `n` words. -/
def framing (n : ℕ) : Framing (List UInt8) Msg where
  Here c p m len := leValue (c p) = m.msgLen ∧ m.msgLen < n ∧ len = m.msgLen + reservLen ∧
    m.payload = (List.range m.msgLen).flatMap fun k => c (p + reservLen + k)
  Skip c p := leValue (c p) = n
  here_pos := by
    rintro c p m len ⟨-, -, rfl, -⟩
    exact Nat.succ_pos _
  here_len := by
    rintro c p m len len' ⟨-, -, rfl, -⟩ ⟨-, -, rfl, -⟩
    rfl
  here_congr := by
    rintro c c' p m len hc ⟨hlen, hlt, rfl, hpay⟩
    refine ⟨by rw [← hc p le_rfl (by simp [reservLen]), hlen], hlt, rfl, ?_⟩
    rw [hpay]
    refine List.flatMap_congr fun k hk => hc _ (by simp [Nat.add_assoc]) ?_
    have := List.mem_range.mp hk
    omega
  skip_congr := by
    intro c c' p hc h
    rwa [← hc]

/-- A message lies at a word index when reading it there gives it. -/
theorem here_iff {p len : ℕ} : (framing n).Here (cells buf) p m len ↔
    word buf p = m.msgLen ∧ m.msgLen < n ∧ len = m.msgLen + reservLen ∧
      m = readMsg buf (p + reservLen, m.msgLen) := by
  have hpay : (m.payload = (List.range m.msgLen).flatMap fun k => cells buf (p + reservLen + k)) ↔
      m = readMsg buf (p + reservLen, m.msgLen) := by
    rw [flatMap_cells]
    cases m
    simp [readMsg]
  rw [← hpay]
  rfl

/-- A write inside an interval of words leaves the other words unchanged. -/
theorem cells_store {data : List UInt8} {a p : ℕ} (ha : 4 * x ≤ a)
    (hlen : a + data.length ≤ 4 * (x + w)) (hp : p < x ∨ x + w ≤ p) :
    cells (store buf a data) p = cells buf p :=
  slice_store_disjoint (by omega)

/-- Setting a word leaves the other words unchanged. -/
theorem cells_setWord {p v : ℕ} (hp : p ≠ x) : cells (setWord buf x v) p = cells buf p :=
  cells_store (w := 1) le_rfl (by rw [leBytes_length]; omega) (by omega)

theorem word_setWord {v : ℕ} (hv : v < 4294967296) : word (setWord buf x v) x = v :=
  rd32_wr32 hv

/-- Reserving a message leaves the words around it unchanged. -/
theorem cells_reserve {p : ℕ} (hp : p < x ∨ x + (w + reservLen) ≤ p) :
    cells (reserve buf x w) p = cells buf p := by
  have hres : reservLen = 1 := rfl
  rw [reserve, zero, cells_store (x := x + reservLen) (w := w) le_rfl (by simp; omega)
    (by omega), cells_setWord (by omega)]

/-- A reserved message is present and all zeros. -/
theorem here_reserve {wordCount : ℕ} (hw : tmpWordCnt wordCount < n) (hn : n < 4294967296) :
    (framing n).Here (cells (reserve buf x (tmpWordCnt wordCount))) x (packed wordCount [])
      (tmpWordCnt wordCount + reservLen) := by
  have hres : reservLen = 1 := rfl
  refine here_iff.mpr ⟨?_, hw, rfl, ?_⟩
  · have hkeep : cells (reserve buf x (tmpWordCnt wordCount)) x =
        cells (setWord buf x (tmpWordCnt wordCount)) x :=
      cells_store (x := x + reservLen) (w := tmpWordCnt wordCount) le_rfl (by simp; omega)
        (by omega)
    rw [word_eq, hkeep, ← word_eq, word_setWord (by omega)]
    rfl
  · simp [packed, readMsg, reserve, slice_zero]

/-- Composing a message in its buffer keeps its extent and changes only its words. -/
theorem here_fill {p len off : ℕ} {data : List UInt8} (h : (framing n).Here (cells buf) p m len)
    (hfit : off + data.length ≤ 4 * m.msgLen) :
    (∀ x, x < p ∨ p + len ≤ x →
      cells buf x = cells (store buf (4 * (p + reservLen) + off) data) x) ∧
    (framing n).Here (cells (store buf (4 * (p + reservLen) + off) data)) p
      { m with payload := overwrite m.payload off data } len := by
  obtain ⟨hword, hlt, rfl, hm⟩ := here_iff.mp h
  have hres : reservLen = 1 := rfl
  have hother : ∀ x, x < p + reservLen ∨ p + reservLen + m.msgLen ≤ x →
      cells buf x = cells (store buf (4 * (p + reservLen) + off) data) x :=
    fun x hx => (cells_store (by omega) (by omega) hx).symm
  refine ⟨fun x hx => hother x (by omega), here_iff.mpr ⟨?_, hlt, rfl, ?_⟩⟩
  · rw [word_eq, ← hother p (by omega), ← word_eq, hword]
  · rw [hm]
    simp [readMsg, slice_store_within hfit]

/-- The words a message is not allowed to use, from the positions of `in` and `out`. -/
theorem unused_eq (hsize : r.size = n) (hout : r.outIdx = o % n) (hle : o ≤ i) (hlt : i < o + n)
    (hempty : i = o → r.emptyFlag = true) : r.unused (i % n) = n - (i - o) := by
  have hi := Nat.mod_lt i (show 0 < n by omega)
  have ho := Nat.mod_lt o (show 0 < n by omega)
  unfold unused
  rw [hsize, hout]
  rcases lap_cases hle hlt with ⟨hidx, heq⟩ | ⟨hidx, heq⟩
  · by_cases hio : i = o
    · simp [hio, hempty hio]
    · rw [if_pos (by omega), if_neg (by omega), if_neg (by omega)]
      omega
  · rw [if_neg (by omega), if_pos hidx, if_neg (by omega)]
    omega

/-- A placed message is a frame at the position of `in`. It ends less than one
lap after `out` and nothing outside the frame changes. -/
theorem getBufStep_spec {wordCount idx tmpIn : ℕ} {buf' : Mem} (hsize : r.size = n)
    (hn : n < 4294967296) (hout : r.outIdx = o % n) (hle : o ≤ i) (hlt : i < o + n)
    (hempty : i = o → r.emptyFlag = true)
    (h : r.getBufStep buf (i % n) wordCount = some (idx, buf', tmpIn)) :
    ∃ p j, (framing n).FrameAt n (cells buf') i p (packed wordCount []) j ∧
      idx = p + reservLen ∧ j < o + n ∧ tmpIn = j % n ∧
      AgreeOff n (cells buf) (cells buf') i j := by
  have hunused := unused_eq hsize hout hle hlt hempty
  have hi := Nat.mod_lt i (show 0 < n by omega)
  have hlap := nextLap_eq i (show 0 < n by omega)
  have hres : reservLen = 1 := rfl
  simp only [getBufStep, hunused, hsize, hout] at h
  set w := tmpWordCnt wordCount with hw
  by_cases hroom : n - (i - o) ≤ w + reservLen
  · simp [hroom] at h
  have hfits : i + (w + reservLen) < o + n := by omega
  have hhere : ∀ {buf : Mem} {x : ℕ}, (framing n).Here (cells (reserve buf x w)) x
      (packed wordCount []) (w + reservLen) := here_reserve (by omega) hn
  -- the message follows the position of `in` without reaching the end of the storage
  have hplace (hfit : i % n + (w + reservLen) ≤ n) :
      (framing n).FrameAt n (cells (reserve buf (i % n) w)) i (i % n) (packed wordCount [])
        (i + (w + reservLen)) ∧
      AgreeOff n (cells buf) (cells (reserve buf (i % n) w)) i (i + (w + reservLen)) :=
    ⟨.here hhere hfit, .of_interval rfl hfit fun p hp => (cells_reserve hp).symm⟩
  rw [if_neg hroom] at h
  rcases lap_cases hle hlt with ⟨hidx, heq⟩ | ⟨hidx, heq⟩
  · rw [if_pos hidx] at h
    by_cases htop : n - i % n ≥ w + reservLen
    · simp only [if_pos htop, Option.some.injEq, Prod.mk.injEq] at h
      obtain ⟨rfl, rfl, rfl⟩ := h
      obtain ⟨hframe, hagree⟩ := hplace (by omega)
      exact ⟨_, _, hframe, rfl, hfits, by rw [Nat.add_assoc, Nat.mod_add_mod], hagree⟩
    · rw [if_neg htop] at h
      by_cases hrewind : n - (i - o) ≥ n - i % n + w + 3 * reservLen
      · simp only [if_pos hrewind, Option.some.injEq, Prod.mk.injEq] at h
        obtain ⟨rfl, rfl, rfl⟩ := h
        have hholder : AgreeOff n (cells buf) (cells (setWord buf (i % n) n)) i (i + 1) :=
          .of_interval rfl (by omega) fun p hp => (cells_setWord (by omega)).symm
        have hmsg : AgreeOff n (cells (setWord buf (i % n) n))
            (cells (reserve (setWord buf (i % n) n) 0 w)) (nextLap n i)
              (nextLap n i + (w + reservLen)) :=
          .of_interval (nextLap_mod i) (by omega) fun p hp => (cells_reserve hp).symm
        refine ⟨0, nextLap n i + (w + reservLen), .skip ?_ hhere (by omega), rfl, by omega, ?_,
          (hholder.mono le_rfl (by omega)).trans (hmsg.mono (by omega) le_rfl)⟩
        · change leValue (cells _ (i % n)) = n
          rw [cells_reserve (by omega), ← word_eq, word_setWord hn]
        · rw [Nat.add_mod (nextLap n i), nextLap_mod, Nat.zero_add, Nat.mod_mod, Nat.add_comm]
      · rw [if_neg hrewind] at h
        simp at h
  · rw [if_neg (by omega), if_pos ⟨by omega, by omega⟩, if_neg (by omega)] at h
    simp only [Option.some.injEq, Prod.mk.injEq] at h
    obtain ⟨rfl, rfl, rfl⟩ := h
    obtain ⟨hframe, hagree⟩ := hplace (by omega)
    exact ⟨_, _, hframe, rfl, hfits,
      by rw [add_mod_of_lt (by omega)]; omega, hagree⟩

/-- The loop of `QuickMsgRingGetBufBulk` places messages end to end, as long as
asked for, and touches nothing that is in use. -/
theorem getBufLoop_spec (hsize : r.size = n) (hn : n < 4294967296) (hout : r.outIdx = o % n)
    (lens : List ℕ) (buf : Mem) (hle : o ≤ i) (hlt : i < o + n)
    (hempty : i = o → r.emptyFlag = true) :
    ∃ ys j buf', r.getBufLoop buf (i % n) lens =
        (ys.map fun y => y.1 + reservLen, buf', j % n) ∧
      (framing n).Placed n (cells buf') i ys j ∧ j < o + n ∧
      AgreeOff n (cells buf) (cells buf') i (o + n) ∧
      (ys.map fun y => y.1 + reservLen).zip (lens.map fun w => packed w []) =
        ys.map fun y => (y.1 + reservLen, y.2) := by
  induction lens generalizing buf i with
  | nil => exact ⟨[], i, buf, rfl, .nil i, hlt, .refl _, rfl⟩
  | cons len lens ih =>
    cases hstep : r.getBufStep buf (i % n) len with
    | none =>
      refine ⟨[], i, buf, ?_, .nil i, hlt, .refl _, rfl⟩
      rw [getBufLoop]
      simp only [hstep, List.map_nil]
    | some placed =>
      obtain ⟨idx, buf₁, k⟩ := placed
      obtain ⟨p, a, hframe, rfl, ha, rfl, hagree⟩ :=
        getBufStep_spec hsize hn hout hle hlt hempty hstep
      have hia := hframe.lt (show 0 < n by omega)
      obtain ⟨ys, j, buf', heq, hplaced, hj, hrest, hlens⟩ :=
        ih buf₁ (by omega) ha fun hao => absurd hao (by omega)
      refine ⟨(p, packed len []) :: ys, j, buf', ?_, .cons ?_ hplaced, hj, ?_, ?_⟩
      · rw [getBufLoop]
        simp only [hstep, heq, List.map_cons]
      · exact hframe.congr (show 0 < n by omega) fun x hix hxa =>
          hrest.eq_of_before hxa (by omega)
      · exact (hagree.mono le_rfl ha.le).trans (hrest.mono hia.le le_rfl)
      · simp [hlens]

/-- The receiving loop looks for a message where its frame has it, and goes on to
the end of the frame. -/
theorem frame_read {a b p : ℕ} (hpos : 0 < n) (hsize : r.size = n) (hn : n < 4294967296)
    (hframe : (framing n).FrameAt n (cells r.buf) a p m b) :
    (if word r.buf (a % n) = r.size then 0 else a % n) = p ∧ word r.buf p = m.msgLen ∧
      (p + (m.msgLen + reservLen)) % 4294967296 % r.size = b % n := by
  obtain ⟨s, len, -, -, -, hfit, hhere⟩ := hframe.start hpos
  obtain ⟨hword, hlt, rfl, -⟩ := here_iff.mp hhere
  refine ⟨?_, hword, ?_⟩
  · -- the holder is recognised exactly when the message was rewound
    rw [hsize]
    cases hframe with
    | here hhere' _ =>
      have hword' := (here_iff.mp hhere').1
      rw [if_neg (by omega)]
    | skip hskip _ _ => exact if_pos hskip
  · rw [hframe.mod_end hpos hhere, hsize, Nat.mod_eq_of_lt (show _ < 4294967296 by omega)]

/-- One round of the receiving loop at a frame finds its message and moves to
its end. -/
theorem beginRecvLoop_frame {a b p k : ℕ} (hpos : 0 < n) (hsize : r.size = n)
    (hn : n < 4294967296) (hframe : (framing n).FrameAt n (cells r.buf) a p m b)
    (hgo : ¬ (a % n = r.inIdx ∧ r.emptyFlag = true)) :
    r.beginRecvLoop (k + 1) (a % n) =
      ((p + reservLen, m.msgLen) :: (r.beginRecvLoop k (b % n)).1,
        (r.beginRecvLoop k (b % n)).2) := by
  obtain ⟨hstart, hword, hnext⟩ := frame_read hpos hsize hn hframe
  rw [beginRecvLoop, if_neg hgo]
  simp only [hstart, hword, hnext]

end TestMac.QuickMsgRing
