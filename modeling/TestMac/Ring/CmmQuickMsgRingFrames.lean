import Mathlib.Data.Nat.Bitwise
import TestMac.Lib.FramedRing
import TestMac.Ring.CmmQuickMsgRing

/-!
# Records in the storage of `cmmQuickMsgRing.c`

The counters of the ring are the low 32 bits of positions that never wrap. Read
this way, the records handed out by `QuickMsgRingPrePutMsgBurst` are frames laid
end to end behind `in`, and `QuickMsgRingPreGetMsgBurst` walks the frames from
`out`, stepping over the records that fill an unused tail.
-/

namespace TestMac.CmmQuickMsgRing

open Bytes Framing

/-- The representation of records in a ring of `n` words. -/
def framing (n : ℕ) : Framing UInt64 (List UInt64) where
  Here c p m len := m = slice c p len ∧ (wordCount (c p)).toNat = len ∧ 0 < len
  Skip c p := msgType (c p) = msgIdDummy ∧ (wordCount (c p)).toNat = n - p
  here_pos h := h.2.2
  here_len h h' := h.2.1.symm.trans h'.2.1
  here_congr := by
    rintro c c' p m len hc ⟨rfl, hlen, hpos⟩
    exact ⟨slice_eq_iff.mpr hc, by rw [← hc p le_rfl (by omega), hlen], hpos⟩
  skip_congr := by
    intro c c' p hc h
    rwa [← hc]

/-- The type of a record, in its first word. -/
def recordType (m : List UInt64) : UInt16 := msgType (m.headD 0)

/-- The geometry of a ring: its size is a power of two, and `out` is a position. -/
structure Shape (n : ℕ) (r : CmmQuickMsgRing) (o : ℕ) : Prop where
  pow : ∃ k, k ≤ 28 ∧ n = 2 ^ k
  size_eq : r.size.toNat = n
  mask_eq : r.mask = r.size - 1
  out_eq : r.outCnt = UInt32.ofNat o

variable {n o i j p : ℕ} {r : CmmQuickMsgRing} {buf buf' : ℕ → UInt64} {m : List UInt64}

theorem Shape.pos (h : Shape n r o) : 0 < n := by
  obtain ⟨k, -, rfl⟩ := h.pow
  exact Nat.two_pow_pos k

theorem Shape.le (h : Shape n r o) : n ≤ 268435456 := by
  obtain ⟨k, hk, rfl⟩ := h.pow
  exact Nat.pow_le_pow_right (by omega) hk

/-- Two positions less than `2 ^ 32` apart have different counters. -/
theorem ofNat_ne {a b : ℕ} (hab : a < b) (hlt : b < a + 4294967296) :
    UInt32.ofNat a ≠ UInt32.ofNat b := by
  intro h
  have hmod := congrArg UInt32.toNat h
  simp only [UInt32.toNat_ofNat'] at hmod
  exact index_ne_of_window hab hlt hmod

/-- The masked counter is the index of its position. -/
theorem Shape.index (h : Shape n r o) (a : ℕ) : (UInt32.ofNat a &&& r.mask).toNat = a % n := by
  have hpos := h.pos
  have hle := h.le
  have hmask : r.mask.toNat = n - 1 := by
    rw [h.mask_eq, UInt32.toNat_sub_of_le _ _ (UInt32.le_iff_toNat_le.mpr (by
      rw [h.size_eq]; exact hpos)), h.size_eq]
    rfl
  obtain ⟨k, hk, rfl⟩ := h.pow
  rw [UInt32.toNat_and, UInt32.toNat_ofNat', hmask, Nat.and_two_pow_sub_one_eq_mod]
  exact Nat.mod_mod_of_dvd a (Nat.pow_dvd_pow 2 (by omega))

/-- `unused` of `QuickMsgRingPrePutMsgBurst`, from the positions. -/
theorem Shape.unused (h : Shape n r o) (hoj : o ≤ j) (hjo : j ≤ o + n) :
    (r.size - UInt32.ofNat j + r.outCnt).toNat = n - (j - o) := by
  have hle := h.le
  have hsize := h.size_eq
  rw [h.out_eq, UInt32.toNat_add, UInt32.toNat_sub, UInt32.toNat_ofNat', UInt32.toNat_ofNat', hsize]
  omega

/-- `topUnused` of `QuickMsgRingPrePutMsgBurst`: the words up to the end of the storage. -/
theorem Shape.topUnused (h : Shape n r o) (a : ℕ) :
    (r.size - (UInt32.ofNat a &&& r.mask)).toNat = n - a % n := by
  have hlt := Nat.mod_lt a h.pos
  rw [UInt32.toNat_sub_of_le _ _ (UInt32.le_iff_toNat_le.mpr (by
    rw [h.index, h.size_eq]; exact hlt.le)), h.index, h.size_eq]

/-- A first word as the producer finds it: the word count and type zero. -/
theorem wordCount_toUInt64 (c : UInt16) : wordCount c.toUInt64 = c := by
  simp [wordCount]

/-- The filler of an unused tail. -/
theorem holder_spec {t : UInt32} (h : t.toNat < 65536) :
    msgType (msgIdDummy.toUInt32 <<< 16 ||| t).toUInt64 = msgIdDummy ∧
      (wordCount (msgIdDummy.toUInt32 <<< 16 ||| t).toUInt64).toNat = t.toNat := by
  have hholder : (msgIdDummy.toUInt32 <<< 16 ||| t) = t := by
    apply UInt32.toNat_inj.mp
    simp [msgIdDummy]
  rw [hholder]
  constructor
  · apply UInt16.toNat_inj.mp
    simp only [msgType, msgIdDummy, UInt64.toNat_toUInt16, UInt64.toNat_shiftRight,
      UInt32.toNat_toUInt64]
    simp [Nat.shiftRight_eq_div_pow]
    omega
  · simp only [wordCount, UInt64.toNat_toUInt16, UInt32.toNat_toUInt64]
    omega

/-- A record lies at a word index when reading it there gives it. -/
theorem readRecord_of_here {len : ℕ} (h : (framing n).Here buf p m len) :
    readRecord buf p = m := by
  obtain ⟨rfl, hlen, -⟩ := h
  rw [readRecord, hlen]

/-- The records placed between two positions are found by reading at their indices. -/
theorem readRecord_of_placed {xs : List (ℕ × List UInt64)} {a b : ℕ} (hn : 0 < n)
    (h : (framing n).Placed n buf a xs b) :
    (xs.map Prod.fst).map (readRecord buf) = xs.map Prod.snd := by
  induction h with
  | nil => rfl
  | cons hs _ ih =>
    obtain ⟨_, _, -, -, -, -, hhere⟩ := hs.start hn
    rw [List.map_cons, List.map_cons, List.map_cons, ih, readRecord_of_here hhere]

/-- A record is as long as its first word says. -/
theorem length_readRecord {c : UInt16} (hp : buf p = c.toUInt64) :
    (readRecord buf p).length = c.toNat := by
  rw [readRecord, hp, wordCount_toUInt64, slice_length]

theorem toNat_pos {c : UInt16} (hc : c ≠ 0) : 0 < c.toNat := by
  rw [Nat.pos_iff_ne_zero]
  exact fun hzero => hc (UInt16.toNat_inj.mp hzero)

/-- A record just handed out: its first word holds the word count. -/
theorem here_prePut {c : UInt16} (hc : c ≠ 0) (hp : buf p = c.toUInt64) :
    (framing n).Here buf p (readRecord buf p) c.toNat := by
  refine ⟨?_, ?_, toNat_pos hc⟩
  · rw [readRecord, hp, wordCount_toUInt64]
  · rw [hp, wordCount_toUInt64]

theorem store_singleton_self (buf : ℕ → UInt64) (p : ℕ) (w : UInt64) : store buf p [w] p = w := by
  simp [store]

theorem store_singleton_ne {x : ℕ} {w : UInt64} (h : x ≠ p) : store buf p [w] x = buf x :=
  store_of_not_mem (by simp; omega)

/-- A record handed out is a frame at the position `tmpIn` stands for. It ends
at most one lap after `out` and nothing outside the frame changes. -/
theorem prePutStep_spec {c : UInt16} {idx : ℕ} {tmpIn : UInt32} (h : Shape n r o) (hoj : o ≤ j)
    (hjo : j ≤ o + n) (hc : c ≠ 0)
    (hstep : r.prePutStep buf (UInt32.ofNat j) c = some (idx, buf', tmpIn)) :
    ∃ b, (framing n).FrameAt n buf' j idx (readRecord buf' idx) b ∧ b ≤ o + n ∧
      tmpIn = UInt32.ofNat b ∧ AgreeOff n buf buf' j b ∧
      (readRecord buf' idx).length = c.toNat := by
  have hn := h.pos
  have hle := h.le
  have hj := Nat.mod_lt j hn
  have hlap := nextLap_eq j hn
  have hc16 := c.toNat_lt
  have hcpos := toNat_pos hc
  have htop := h.topUnused j
  simp only [prePutStep, UInt32.lt_iff_toNat_lt, ge_iff_le, UInt32.le_iff_toNat_le,
    h.unused hoj hjo, htop, UInt16.toNat_toUInt32, h.index] at hstep
  by_cases hroom : n - (j - o) < c.toNat
  · simp [hroom] at hstep
  rw [if_neg hroom] at hstep
  by_cases hfits : c.toNat ≤ n - j % n
  · -- the record follows the position without reaching the end of the storage
    simp only [if_pos hfits, Option.some.injEq, Prod.mk.injEq] at hstep
    obtain ⟨rfl, rfl, rfl⟩ := hstep
    have hagree : AgreeOff n buf (store buf (j % n) [c.toUInt64]) j (j + c.toNat) :=
      .of_interval rfl (by omega) fun x hx => (store_singleton_ne (by omega)).symm
    refine ⟨j + c.toNat, .here (here_prePut hc (store_singleton_self _ _ _)) (by omega), by omega,
      ?_, hagree, length_readRecord (store_singleton_self _ _ _)⟩
    rw [UInt32.ofNat_add, UInt32.ofNat_uInt16ToNat]
  · -- the holder in the tail, then the record at the top of the storage
    have hsum : (r.size - (UInt32.ofNat j &&& r.mask) + c.toUInt32).toNat =
      n - j % n + c.toNat := by
      rw [UInt32.toNat_add, htop, UInt16.toNat_toUInt32]
      omega
    rw [if_neg hfits, hsum] at hstep
    by_cases hrewind : n - j % n + c.toNat ≤ n - (j - o)
    swap
    · simp [hrewind] at hstep
    simp only [if_pos hrewind, Option.some.injEq, Prod.mk.injEq] at hstep
    obtain ⟨rfl, rfl, rfl⟩ := hstep
    obtain ⟨hdummy, hcount⟩ := holder_spec (t := r.size - (UInt32.ofNat j &&& r.mask)) (by omega)
    set holder := (msgIdDummy.toUInt32 <<< 16 |||
      (r.size - (UInt32.ofNat j &&& r.mask))).toUInt64
    have hagree₁ : AgreeOff n buf (store buf (j % n) [holder]) j (j + 1) :=
      .of_interval rfl (by omega) fun x hx => (store_singleton_ne (by omega)).symm
    have hagree₂ : AgreeOff n (store buf (j % n) [holder])
        (store (store buf (j % n) [holder]) 0 [c.toUInt64]) (nextLap n j) (nextLap n j + c.toNat) :=
      .of_interval (nextLap_mod j) (by omega) fun x hx => (store_singleton_ne (by omega)).symm
    have hfiller : (framing n).Skip
      (store (store buf (j % n) [holder]) 0 [c.toUInt64]) (j % n) := by
      change msgType _ = _ ∧ (wordCount _).toNat = _
      rw [store_singleton_ne (by omega), store_singleton_self]
      exact ⟨hdummy, hcount.trans htop⟩
    refine ⟨nextLap n j + c.toNat,
      .skip hfiller (here_prePut hc (store_singleton_self _ _ _)) (by omega), by omega, ?_,
      (hagree₁.mono le_rfl (by omega)).trans (hagree₂.mono (by omega) le_rfl),
      length_readRecord (store_singleton_self _ _ _)⟩
    apply UInt32.toNat_inj.mp
    rw [UInt32.toNat_add, hsum, UInt32.toNat_ofNat', UInt32.toNat_ofNat', hlap]
    omega

/-- The records of a burst are frames laid end to end from the position of `in`,
as long as asked for. -/
theorem prePutLoop_spec (buf : ℕ → UInt64) {cs : List UInt16} (h : Shape n r o)
    (hcs : ∀ c ∈ cs, c ≠ 0) (hoj : o ≤ j) (hjo : j ≤ o + n) :
    ∃ msgs buf' b, r.prePutLoop buf (UInt32.ofNat j) cs = (msgs, buf', UInt32.ofNat b) ∧
      (framing n).Placed n buf' j (msgs.map fun p => (p, readRecord buf' p)) b ∧ b ≤ o + n ∧
      AgreeOff n buf buf' j b ∧
      msgs.map (fun p => (readRecord buf' p).length) = (cs.map UInt16.toNat).take msgs.length := by
  induction cs generalizing buf j with
  | nil => exact ⟨[], buf, j, rfl, .nil j, hjo, .refl buf, rfl⟩
  | cons c cs ih =>
    rw [prePutLoop]
    cases hstep : r.prePutStep buf (UInt32.ofNat j) c with
    | none => exact ⟨[], buf, j, rfl, .nil j, hjo, .refl buf, rfl⟩
    | some placed =>
      obtain ⟨p, buf₁, tmpIn⟩ := placed
      obtain ⟨b₁, hframe, hb₁, rfl, hagree₁, hlen⟩ :=
        prePutStep_spec h hoj hjo (hcs c (by simp)) hstep
      have hjb := hframe.lt h.pos
      obtain ⟨msgs, buf', b, heq, hplaced, hb, hagree, hlens⟩ :=
        ih buf₁ (fun c hc => hcs c (by simp [hc])) (by omega) hb₁
      have hbb := placed_le h.pos hplaced
      -- the later records do not reach back into this one
      have hkeep : (framing n).FrameAt n buf' j p (readRecord buf₁ p) b₁ :=
        hframe.congr h.pos fun x _ hxb => hagree.eq_of_before hxb (by omega)
      obtain ⟨_, _, -, -, -, -, hhere⟩ := hkeep.start h.pos
      rw [← readRecord_of_here hhere] at hkeep hlen
      exact ⟨p :: msgs, buf', b, by simp [heq], .cons hkeep hplaced, hb,
        (hagree₁.mono le_rfl hbb).trans (hagree.mono hjb.le le_rfl), by simp [hlen, hlens]⟩

/-- A round of `QuickMsgRingPreGetMsgBurst` that finds a record. -/
theorem preGetLoop_here {fuel max len : ℕ} (h : Shape n r o)
    (hhere : (framing n).Here r.buf (j % n) m len) (htyped : recordType m ≠ msgIdDummy)
    (hne : UInt32.ofNat j ≠ r.inCnt) :
    r.preGetLoop (fuel + 1) (max + 1) (UInt32.ofNat j) =
      (r.preGetLoop fuel max (UInt32.ofNat (j + len))).map
        fun (msgs, last) => (j % n :: msgs, last) := by
  have hhead : msgType (r.buf (j % n)) ≠ msgIdDummy := by
    obtain ⟨rfl, -, hpos⟩ := hhere
    obtain ⟨k, rfl⟩ := Nat.exists_eq_add_of_lt hpos
    simpa [recordType, slice, List.range_succ_eq_map] using htyped
  simp only [preGetLoop, if_neg hne, h.index, if_neg hhead]
  rw [← hhere.2.1, UInt32.ofNat_add, UInt32.ofNat_uInt16ToNat]

/-- A round of `QuickMsgRingPreGetMsgBurst` that steps over a filler. -/
theorem preGetLoop_skip {fuel max : ℕ} (h : Shape n r o)
    (hskip : (framing n).Skip r.buf (j % n)) (hne : UInt32.ofNat j ≠ r.inCnt) :
    r.preGetLoop (fuel + 1) (max + 1) (UInt32.ofNat j) =
      r.preGetLoop fuel (max + 1) (UInt32.ofNat (nextLap n j)) := by
  simp only [preGetLoop, if_neg hne, h.index, if_pos hskip.1]
  rw [nextLap_eq j h.pos, ← hskip.2, UInt32.ofNat_add, UInt32.ofNat_uInt16ToNat]

/-- `QuickMsgRingPreGetMsgBurst` ends after at most two rounds for each record
asked for, and finds the first records of the queue. -/
theorem preGetLoop_spec (fuel max : ℕ) {a i : ℕ} {q : List (List UInt64)} (h : Shape n r o)
    (hin : r.inCnt = UInt32.ofNat i) (hia : i ≤ a + n)
    (hqueue : (framing n).Queue n r.buf a q i) (htyped : ∀ m ∈ q, recordType m ≠ msgIdDummy)
    (hfuel : 2 * max < fuel) :
    ∃ xs q' b, r.preGetLoop fuel max (UInt32.ofNat a) =
        some (xs.map Prod.fst, UInt32.ofNat b) ∧
      xs.map Prod.snd = q.take max ∧ q = xs.map Prod.snd ++ q' ∧
      (framing n).Placed n r.buf a xs b ∧ (framing n).Queue n r.buf b q' i := by
  have hle := h.le
  induction max generalizing a q fuel with
  | zero =>
    obtain ⟨fuel, rfl⟩ := Nat.exists_eq_add_of_lt hfuel
    exact ⟨[], q, a, rfl, rfl, rfl, .nil a, hqueue⟩
  | succ max ih =>
    obtain ⟨fuel, rfl⟩ := Nat.exists_eq_add_of_lt hfuel
    cases q with
    | nil =>
      obtain rfl := hqueue.eq_of_nil
      refine ⟨[], [], a, ?_, rfl, rfl, .nil a, hqueue⟩
      rw [preGetLoop, if_pos hin.symm]
      rfl
    | cons m q =>
      obtain ⟨b, ⟨p, hframe⟩, hrest⟩ := hqueue.cons_inv
      have hab := hframe.lt h.pos
      have hbi := queue_le h.pos hrest
      have hne : ∀ {x : ℕ}, a ≤ x → x < i → UInt32.ofNat x ≠ r.inCnt := fun hax hxi => by
        rw [hin]
        exact ofNat_ne hxi (by omega)
      have htm := htyped m (by simp)
      have htail : ∀ {f : ℕ}, 2 * max < f → ∃ xs q' b',
          (r.preGetLoop f max (UInt32.ofNat b)).map
              (fun (msgs, last) => (p :: msgs, last)) =
            some (((p, m) :: xs).map Prod.fst, UInt32.ofNat b') ∧
          ((p, m) :: xs).map Prod.snd = (m :: q).take (max + 1) ∧
          m :: q = ((p, m) :: xs).map Prod.snd ++ q' ∧
          (framing n).Placed n r.buf a ((p, m) :: xs) b' ∧
          (framing n).Queue n r.buf b' q' i := fun hf => by
        obtain ⟨xs, q', b', heq, htake, hsplit, hplaced, hqueue'⟩ :=
          ih _ (by omega) hrest (fun m hm => htyped m (by simp [hm])) hf
        exact ⟨xs, q', b', by simp [heq], by simp [htake], by simp [← hsplit],
          .cons hframe hplaced, hqueue'⟩
      cases hframe with
      | here hhere hfit =>
        obtain ⟨xs, q', b', heq, hxs⟩ := htail (f := 2 * (max + 1) + fuel) (by omega)
        refine ⟨_, q', b', ?_, hxs⟩
        rw [preGetLoop_here h hhere htm (hne le_rfl (by omega)), heq]
      | skip hskip hhere hfit =>
        have hlap := nextLap_eq a h.pos
        have hlt := Nat.mod_lt a h.pos
        have hpos := (framing n).here_pos hhere
        obtain ⟨xs, q', b', heq, hxs⟩ := htail (f := 2 * max + 1 + fuel) (by omega)
        refine ⟨_, q', b', ?_, hxs⟩
        rw [preGetLoop_skip h hskip (hne le_rfl (by omega)),
          show 2 * (max + 1) + fuel = 2 * max + 1 + fuel + 1 by omega,
          preGetLoop_here h (by rwa [nextLap_mod]) htm (hne (by omega) (by omega)), nextLap_mod,
          heq]

end TestMac.CmmQuickMsgRing
