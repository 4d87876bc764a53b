import TestMac.Lib.Fifo
import TestMac.Ring.CmmQuickMsgRingFrames

/-!
# The power-of-two ring is a bounded queue

One producer and one consumer call the ring in any order and for any length of
time. Their observations are those of a first-in first-out queue of records,
the counters never differ by more than the ring size, and the receiving loop
always ends.
-/

namespace TestMac.CmmQuickMsgRing

open Bytes Framing

/-- A call of the producer or of the consumer. -/
inductive Call
  /-- `QuickMsgRingPrePutMsgBurst`. -/
  | prePutMsgBurst (wordCount : List UInt16)
  /-- The producer writes a word of the `k`-th record handed out. -/
  | fill (k off : ℕ) (w : UInt64)
  /-- `QuickMsgRingPutMsgComplete`. -/
  | putMsgComplete
  /-- `QuickMsgRingPutOneMsg`; the callback writes the record `data` and returns `ret`. -/
  | putOneMsg (msgWordSz : UInt16) (ret : ℤ) (data : List UInt64)
  /-- `QuickMsgRingPreGetMsgBurst`. -/
  | preGetMsgBurst (maxMsgCount : ℕ)
  /-- `QuickMsgRingGetMsgComplete`. -/
  | getMsgComplete
  /-- `QuickMsgRingGetOneMsg` with a callback that returns `pFunc`. -/
  | getOneMsg (pFunc : List UInt64 → ℤ)

/-- The ring with what its two users hold. -/
structure Sys where
  ring : CmmQuickMsgRing
  /-- The records handed out by a burst that is not completed, as composed so far. -/
  resv : Option (List (ℕ × List UInt64))
  /-- The result of a `QuickMsgRingPreGetMsgBurst` that is not completed. -/
  recv : Option (List ℕ)
  /-- A receiving loop did not end. -/
  hung : Bool

/-- The ring before the first call. -/
def Sys.init (r : CmmQuickMsgRing) : Sys := { ring := r, resv := none, recv := none, hung := false }

/-- The word count in the first word of a record is its length. -/
def KeepsCount (m : List UInt64) : Prop := (wordCount (m.headD 0)).toNat = m.length

instance (m : List UInt64) : Decidable (KeepsCount m) := inferInstanceAs (Decidable (_ = _))

/-- Enough rounds for `maxMsgCount` records and a filler in front of each. -/
def rounds (maxMsgCount : ℕ) : ℕ := 2 * maxMsgCount + 1

/-- One call and what it shows. A producer keeps the word counts of the records
it was handed, gives every record it commits a type, and asks for records of at
least one word; a call that its user may not make at this point changes nothing. -/
def step (s : Sys) : Call → Sys × List (Fifo.Event (List UInt64))
  | .prePutMsgBurst wordCount =>
    if 0 ∉ wordCount then
      let (r, msgs) := s.ring.prePutMsgBurst wordCount
      ({ s with ring := r, resv := some (msgs.map fun p => (p, readRecord r.buf p)) }, [])
    else (s, [])
  | .fill k off w =>
    match s.resv with
    | none => (s, [])
    | some xs =>
      match xs[k]? with
      | none => (s, [])
      | some (p, m) =>
        if off < m.length ∧ KeepsCount (overwrite m off [w]) then
          ({ s with
              ring := { s.ring with buf := store s.ring.buf (p + off) [w] }
              resv := some (xs.set k (p, overwrite m off [w])) }, [])
        else (s, [])
  | .putMsgComplete =>
    match s.resv with
    | none => (s, [])
    | some xs =>
      if ∀ x ∈ xs, recordType x.2 ≠ msgIdDummy then
        ({ s with ring := s.ring.putMsgComplete, resv := none }, [.enq (xs.map Prod.snd)])
      else (s, [])
  | .putOneMsg msgWordSz ret data =>
    if msgWordSz ≠ 0 ∧ data.length = msgWordSz.toNat ∧
        (ret = 0 → KeepsCount data ∧ recordType data ≠ msgIdDummy) then
      let (r, res) := s.ring.putOneMsg msgWordSz (ret, data)
      ({ s with ring := r, resv := none }, if res = 0 then [.enq [data]] else [])
    else (s, [])
  | .preGetMsgBurst maxMsgCount =>
    match s.ring.preGetMsgBurst (rounds maxMsgCount) maxMsgCount with
    | none => ({ s with hung := true }, [])
    | some (r, msgs) =>
      ({ s with ring := r, recv := some msgs },
        [.front maxMsgCount (msgs.map (readRecord r.buf))])
  | .getMsgComplete =>
    match s.recv with
    | none => (s, [])
    | some msgs =>
      ({ s with ring := s.ring.getMsgComplete, recv := none },
        [.deq (msgs.map (readRecord s.ring.buf))])
  | .getOneMsg pFunc =>
    match s.ring.getOneMsg (rounds 1) (fun m _ => (pFunc m, some m)) none with
    | none => ({ s with hung := true }, [])
    | some (r, ret, seen) =>
      ({ s with ring := r, recv := none },
        .front 1 seen.toList :: if ret = 0 then [.deq seen.toList] else [])

/-- The records handed out are frames laid end to end behind `in`. -/
def Reserved (n : ℕ) (r : CmmQuickMsgRing) (o i : ℕ) : Option (List (ℕ × List UInt64)) → Prop
  | none => True
  | some xs => ∃ j, (framing n).Placed n r.buf i xs j ∧ j ≤ o + n ∧ r.nextIn = UInt32.ofNat j

/-- The records found are the first of the queue and `nextOut` is behind them. -/
def Received (n : ℕ) (r : CmmQuickMsgRing) (o i : ℕ) (q : List (List UInt64)) :
    Option (List ℕ) → Prop
  | none => True
  | some msgs => ∃ xs q' a, msgs = xs.map Prod.fst ∧ q = xs.map Prod.snd ++ q' ∧
      (framing n).Placed n r.buf o xs a ∧ (framing n).Queue n r.buf a q' i ∧
      r.nextOut = UInt32.ofNat a

/-- The ring holds the queue `q` between the positions `o` of `out` and `i` of `in`. -/
structure Holds (n : ℕ) (r : CmmQuickMsgRing) (q : List (List UInt64)) (o i : ℕ) : Prop
    extends Shape n r o where
  in_eq : r.inCnt = UInt32.ofNat i
  le_size : i ≤ o + n
  queue : (framing n).Queue n r.buf o q i
  typed : ∀ m ∈ q, recordType m ≠ msgIdDummy

/-- The system represents the queue `q`. -/
def Rep (n : ℕ) (s : Sys) (q : List (List UInt64)) : Prop :=
  s.hung = false ∧ ∃ o i, Holds n s.ring q o i ∧ Reserved n s.ring o i s.resv ∧
    Received n s.ring o i q s.recv

/-- A state and the observations on the way to it, as a queue `q` permits them. -/
def Permitted (n : ℕ) (q : List (List UInt64))
    (out : Sys × List (Fifo.Event (List UInt64))) : Prop :=
  ∃ q', Fifo.Accepts q out.2 q' ∧ Rep n out.1 q'

section Producer

variable {n o i : ℕ} {r r' : CmmQuickMsgRing} {q : List (List UInt64)}

/-- The producer changes the storage at most behind the position of `in` and
within one lap of `out`, and moves only `nextIn`. -/
structure Writes (n o i : ℕ) (r r' : CmmQuickMsgRing) : Prop where
  buf : AgreeOff n r.buf r'.buf i (o + n)
  size : r'.size = r.size
  mask : r'.mask = r.mask
  nextOut : r'.nextOut = r.nextOut
  inCnt : r'.inCnt = r.inCnt
  outCnt : r'.outCnt = r.outCnt

theorem Writes.refl (n o i : ℕ) (r : CmmQuickMsgRing) : Writes n o i r r :=
  ⟨.refl _, rfl, rfl, rfl, rfl, rfl⟩

theorem Holds.write (h : Holds n r q o i) (hw : Writes n o i r r') : Holds n r' q o i where
  pow := h.pow
  size_eq := by rw [hw.size, h.size_eq]
  mask_eq := by rw [hw.mask, hw.size, h.mask_eq]
  out_eq := hw.outCnt.trans h.out_eq
  in_eq := hw.inCnt.trans h.in_eq
  le_size := h.le_size
  queue := queue_of_agreeOff h.pos h.queue hw.buf
  typed := h.typed

/-- What the producer writes does not reach the records found by the consumer. -/
theorem Received.write {recv : Option (List ℕ)} (h : Holds n r q o i)
    (hrecv : Received n r o i q recv) (hw : Writes n o i r r') : Received n r' o i q recv := by
  rcases recv with _ | msgs
  · trivial
  · obtain ⟨xs, q', a, hmsgs, hq, hplaced, hqueue, hnext⟩ := hrecv
    have hoa := placed_le h.pos hplaced
    have hai := queue_le h.pos hqueue
    have hkeep : ∀ x, o ≤ x → x < i → r.buf (x % n) = r'.buf (x % n) :=
      fun x hox hxi => hw.buf.eq_of_before hxi (by omega)
    exact ⟨xs, q', a, hmsgs, hq,
      placed_congr h.pos (fun x hox hxa => hkeep x hox (by omega)) hplaced,
      queue_congr h.pos (fun x hax hxi => hkeep x (by omega) hxi) hqueue, hw.nextOut.trans hnext⟩

/-- `QuickMsgRingPrePutMsgBurst` hands out frames behind `in`, as long as asked for. -/
theorem prePutMsgBurst_spec (cs : List UInt16) (h : Holds n r q o i) (hcs : ∀ c ∈ cs, c ≠ 0) :
    ∃ r' msgs, r.prePutMsgBurst cs = (r', msgs) ∧ Writes n o i r r' ∧
      Reserved n r' o i (some (msgs.map fun p => (p, readRecord r'.buf p))) ∧
      msgs.map (fun p => (readRecord r'.buf p).length) =
        (cs.map UInt16.toNat).take msgs.length := by
  obtain ⟨msgs, buf', b, heq, hplaced, hb, hagree, hlens⟩ :=
    prePutLoop_spec r.buf h.toShape hcs (queue_le h.pos h.queue) h.le_size
  refine ⟨{ r with buf := buf', nextIn := UInt32.ofNat b }, msgs, ?_,
    ⟨hagree.mono le_rfl hb, rfl, rfl, rfl, rfl, rfl⟩, ⟨b, hplaced, hb, rfl⟩, hlens⟩
  rw [prePutMsgBurst, h.in_eq, heq]

/-- A record handed out is found at its index. -/
theorem Reserved.content {xs : List (ℕ × List UInt64)} {k p : ℕ} {m : List UInt64}
    (h : Holds n r q o i) (hresv : Reserved n r o i (some xs)) (hk : xs[k]? = some (p, m)) :
    slice r.buf p m.length = m := by
  obtain ⟨j, hplaced, -⟩ := hresv
  obtain ⟨len, rfl, -⟩ := placed_here h.pos hplaced (List.mem_of_getElem? hk)
  simp

/-- A record handed out may be rewritten as long as its word count is kept. -/
theorem Reserved.rewrite {xs : List (ℕ × List UInt64)} {k p : ℕ} {m m' : List UInt64}
    (buf' : ℕ → UInt64) (h : Holds n r q o i) (hresv : Reserved n r o i (some xs))
    (hk : xs[k]? = some (p, m)) (hlen : m'.length = m.length) (hcount : KeepsCount m')
    (hout : ∀ x, x < p ∨ p + m.length ≤ x → r.buf x = buf' x)
    (hin : slice buf' p m.length = m') :
    Writes n o i r { r with buf := buf' } ∧
      Reserved n { r with buf := buf' } o i (some (xs.set k (p, m'))) := by
  obtain ⟨j, hplaced, hj, hnext⟩ := hresv
  have hoi := queue_le h.pos h.queue
  obtain ⟨hplaced', hagree⟩ := placed_rewrite h.pos buf' m' hplaced (by omega) hk
    fun len hhere => by
      obtain ⟨rfl, -, hpos⟩ := hhere
      simp only [slice_length] at hlen hin hout
      refine ⟨hout, hin.symm, ?_, hpos⟩
      rw [← hlen, ← hcount, ← hin]
      obtain ⟨d, rfl⟩ := Nat.exists_eq_add_of_lt hpos
      simp [slice, List.range_succ_eq_map]
  exact ⟨⟨hagree.mono le_rfl hj, rfl, rfl, rfl, rfl, rfl⟩, j, hplaced', hj, hnext⟩

/-- Whatever a callback does to the record it was handed stays behind `in`. -/
theorem Reserved.scribble {p : ℕ} {m data : List UInt64} (h : Holds n r q o i)
    (hresv : Reserved n r o i (some [(p, m)])) (hlen : data.length = m.length) :
    Writes n o i r { r with buf := store r.buf p data } := by
  obtain ⟨j, hplaced, hj, -⟩ := hresv
  obtain ⟨b, hframe, hnil⟩ := hplaced.cons_inv
  obtain rfl := hnil.eq_of_nil
  obtain ⟨_, len, -, -, -, -, hhere⟩ := hframe.start h.pos
  have hm : m.length = len := by
    obtain ⟨hm, -⟩ := hhere
    simpa using congrArg List.length hm
  refine ⟨AgreeOff.mono ?_ le_rfl hj, rfl, rfl, rfl, rfl, rfl⟩
  exact hframe.agreeOff h.pos hhere fun x hx => (store_of_not_mem (by omega)).symm

/-- Committing the records appends them to the queue. -/
theorem Reserved.commit {xs : List (ℕ × List UInt64)} {recv : Option (List ℕ)}
    (h : Holds n r q o i) (hresv : Reserved n r o i (some xs))
    (htyped : ∀ x ∈ xs, recordType x.2 ≠ msgIdDummy) (hrecv : Received n r o i q recv) :
    ∃ j, Holds n r.putMsgComplete (q ++ xs.map Prod.snd) o j ∧
      Received n r.putMsgComplete o j (q ++ xs.map Prod.snd) recv := by
  obtain ⟨j, hplaced, hj, hnext⟩ := hresv
  refine ⟨j, ?_, ?_⟩
  · exact { h with
      in_eq := hnext
      le_size := hj
      queue := h.queue.trans (placed_queue hplaced)
      typed := by
        intro m hm
        rcases List.mem_append.mp hm with hq | hxs
        · exact h.typed m hq
        · obtain ⟨x, hx, rfl⟩ := List.mem_map.mp hxs
          exact htyped x hx }
  · rcases recv with _ | msgs
    · trivial
    · obtain ⟨ys, q', a, hmsgs, rfl, hfound, hqueue, hout⟩ := hrecv
      exact ⟨ys, q' ++ xs.map Prod.snd, a, hmsgs, by rw [List.append_assoc], hfound,
        hqueue.trans (placed_queue hplaced), hout⟩

end Producer

section Consumer

variable {n o i : ℕ} {r r' : CmmQuickMsgRing} {q : List (List UInt64)}

/-- `QuickMsgRingPreGetMsgBurst` ends and finds the first records of the queue. -/
theorem preGetMsgBurst_spec (h : Holds n r q o i) (max : ℕ) :
    ∃ k msgs, r.preGetMsgBurst (rounds max) max = some ({ r with nextOut := k }, msgs) ∧
      msgs.map (readRecord r.buf) = q.take max ∧
      Received n { r with nextOut := k } o i q (some msgs) := by
  obtain ⟨xs, q', b, heq, htake, hq, hplaced, hqueue⟩ :=
    preGetLoop_spec (rounds max) max h.toShape h.in_eq h.le_size h.queue h.typed
      (Nat.lt_succ_self _)
  refine ⟨UInt32.ofNat b, xs.map Prod.fst, ?_, ?_, xs, q', b, rfl, hq, hplaced, hqueue, rfl⟩
  · rw [preGetMsgBurst, h.out_eq, heq]
    rfl
  · rw [← htake]
    exact readRecord_of_placed h.pos hplaced

/-- `QuickMsgRingGetMsgComplete` removes the records found. -/
theorem Received.complete {msgs : List ℕ} (h : Holds n r q o i)
    (hrecv : Received n r o i q (some msgs)) :
    ∃ q' a, q = msgs.map (readRecord r.buf) ++ q' ∧ o ≤ a ∧ Holds n r.getMsgComplete q' a i := by
  obtain ⟨xs, q', a, rfl, rfl, hplaced, hqueue, hnext⟩ := hrecv
  have hoa := placed_le h.pos hplaced
  have hle := h.le_size
  refine ⟨q', a, by rw [readRecord_of_placed h.pos hplaced], hoa, ?_⟩
  exact { h with
    out_eq := hnext
    le_size := by omega
    queue := hqueue
    typed := fun m hm => h.typed m (by simp [hm]) }

/-- Records handed out survive the consumer's progress. -/
theorem Reserved.mono {o' : ℕ} {resv : Option (List (ℕ × List UInt64))}
    (hresv : Reserved n r o i resv) (hbuf : r'.buf = r.buf) (hnext : r'.nextIn = r.nextIn)
    (hle : o ≤ o') : Reserved n r' o' i resv := by
  rcases resv with _ | xs
  · trivial
  · obtain ⟨j, hplaced, hj, hk⟩ := hresv
    exact ⟨j, hbuf ▸ hplaced, by omega, hnext.trans hk⟩

end Consumer

section Runs

variable {n : ℕ} {s : Sys} {q : List (List UInt64)}

theorem permitted_prePutMsgBurst (hrep : Rep n s q) (cs : List UInt16) :
    Permitted n q (step s (.prePutMsgBurst cs)) := by
  simp only [step]
  by_cases hcs : 0 ∉ cs
  · obtain ⟨hhung, o, i, h, -, hrecv⟩ := hrep
    have hwords : ∀ c ∈ cs, c ≠ 0 := fun c hc hzero => hcs (hzero ▸ hc)
    obtain ⟨r', msgs, heq, hw, hresv, -⟩ := prePutMsgBurst_spec cs h hwords
    rw [if_pos hcs, heq]
    exact ⟨q, .nil q, hhung, o, i, h.write hw, hresv, hrecv.write h hw⟩
  · rw [if_neg hcs]
    exact ⟨q, .nil q, hrep⟩

theorem permitted_fill (hrep : Rep n s q) (k off : ℕ) (w : UInt64) :
    Permitted n q (step s (.fill k off w)) := by
  have hstay : Permitted n q (s, []) := ⟨q, .nil q, hrep⟩
  obtain ⟨ring, resv, recv, hung⟩ := s
  rcases resv with _ | xs
  · exact hstay
  simp only [step]
  cases hk : xs[k]? with
  | none => exact hstay
  | some x =>
    obtain ⟨p, m⟩ := x
    by_cases hkeep : off < m.length ∧ KeepsCount (overwrite m off [w])
    swap
    · simpa only [if_neg hkeep] using hstay
    obtain ⟨hhung, o, i, h, hresv, hrecv⟩ := hrep
    obtain ⟨hoff, hcount⟩ := hkeep
    have hm : slice ring.buf p m.length = m := hresv.content h hk
    have hlen : (overwrite m off [w]).length = m.length := length_overwrite (by simpa) m rfl
    obtain ⟨hw, hresv'⟩ := hresv.rewrite (store ring.buf (p + off) [w]) h hk hlen hcount
      (fun x hx => (store_of_not_mem (by simp only [List.length_singleton]; omega)).symm)
      (by rw [slice_store_within (by simpa), hm])
    simp only [if_pos (And.intro hoff hcount)]
    exact ⟨q, .nil q, hhung, o, i, h.write hw, hresv', hrecv.write h hw⟩

theorem permitted_putMsgComplete (hrep : Rep n s q) :
    Permitted n q (step s .putMsgComplete) := by
  have hstay : Permitted n q (s, []) := ⟨q, .nil q, hrep⟩
  obtain ⟨ring, resv, recv, hung⟩ := s
  rcases resv with _ | xs
  · exact hstay
  simp only [step]
  by_cases htyped : ∀ x ∈ xs, recordType x.2 ≠ msgIdDummy
  · obtain ⟨hhung, o, i, h, hresv, hrecv⟩ := hrep
    obtain ⟨j, h', hrecv'⟩ := hresv.commit h htyped hrecv
    rw [if_pos htyped]
    exact ⟨_, .single (.enq q _), hhung, o, j, h', trivial, hrecv'⟩
  · simpa only [if_neg htyped] using hstay

/-- The record of a successful callback is committed, that of a failing one is not. -/
theorem permitted_putOneMsg (hrep : Rep n s q) (msgWordSz : UInt16) (ret : ℤ)
    (data : List UInt64) : Permitted n q (step s (.putOneMsg msgWordSz ret data)) := by
  simp only [step]
  by_cases hok : msgWordSz ≠ 0 ∧ data.length = msgWordSz.toNat ∧
      (ret = 0 → KeepsCount data ∧ recordType data ≠ msgIdDummy)
  swap
  · rw [if_neg hok]
    exact ⟨q, .nil q, hrep⟩
  obtain ⟨hhung, o, i, h, -, hrecv⟩ := hrep
  rw [if_pos hok]
  obtain ⟨hsz, hlen, htyped⟩ := hok
  obtain ⟨r', msgs, heq, hw, hresv, hlens⟩ :=
    prePutMsgBurst_spec [msgWordSz] h (by simpa using hsz)
  have h' := h.write hw
  have hrecv' := hrecv.write h hw
  have hone : msgs.length ≤ 1 := by
    have := congrArg List.length hlens
    simp only [List.length_map, List.length_take, List.length_singleton] at this
    omega
  simp only [putOneMsg, prePutOneMsg, heq]
  match msgs, hone with
  | [], _ => exact ⟨q, .nil q, hhung, o, i, h', trivial, hrecv'⟩
  | [p], _ =>
    have hm : (readRecord r'.buf p).length = msgWordSz.toNat := by simpa using hlens
    by_cases hret : ret = 0
    · obtain ⟨hcount, htype⟩ := htyped hret
      obtain ⟨hw', hresv'⟩ := hresv.rewrite (k := 0) (store r'.buf p data) h' rfl
        (hlen.trans hm.symm) hcount (fun x hx => (store_of_not_mem (by omega)).symm)
        (slice_store_eq (hlen.trans hm.symm))
      obtain ⟨j, h'', hrecv''⟩ := hresv'.commit (h'.write hw') (by simpa using htype)
        (hrecv'.write h' hw')
      simp only [hret, ne_eq, not_true_eq_false, if_false, if_true]
      exact ⟨_, .single (.enq q _), hhung, o, j, h'', trivial, hrecv''⟩
    · have hw' := hresv.scribble h' (hlen.trans hm.symm)
      simp only [ne_eq, hret, not_false_eq_true, if_true, if_false]
      exact ⟨q, .nil q, hhung, o, i, h'.write hw', trivial, hrecv'.write h' hw'⟩

theorem permitted_preGetMsgBurst (hrep : Rep n s q) (max : ℕ) :
    Permitted n q (step s (.preGetMsgBurst max)) := by
  obtain ⟨hhung, o, i, h, hresv, -⟩ := hrep
  obtain ⟨k, msgs, heq, hmsgs, hrecv⟩ := preGetMsgBurst_spec h max
  simp only [step, heq, hmsgs]
  exact ⟨q, .single (.front q max), hhung, o, i, { h with }, hresv.mono rfl rfl le_rfl, hrecv⟩

theorem permitted_getMsgComplete (hrep : Rep n s q) :
    Permitted n q (step s .getMsgComplete) := by
  obtain ⟨ring, resv, recv, hung⟩ := s
  rcases recv with _ | msgs
  · exact ⟨q, .nil q, hrep⟩
  · obtain ⟨hhung, o, i, h, hresv, hrecv⟩ := hrep
    obtain ⟨q', a, rfl, hoa, h'⟩ := hrecv.complete h
    exact ⟨q', .single (.deq _ q'), hhung, a, i, h', hresv.mono rfl rfl hoa, trivial⟩

/-- The callback sees the first record, which is removed when it returns `0`. -/
theorem permitted_getOneMsg (hrep : Rep n s q) (pFunc : List UInt64 → ℤ) :
    Permitted n q (step s (.getOneMsg pFunc)) := by
  obtain ⟨hhung, o, i, h, hresv, -⟩ := hrep
  obtain ⟨k, msgs, heq, hmsgs, hrecv⟩ := preGetMsgBurst_spec h 1
  have h' : Holds n { s.ring with nextOut := k } q o i := { h with }
  have hfront : Fifo.Step q (.front 1 (msgs.map (readRecord s.ring.buf))) q := hmsgs ▸ .front q 1
  have hone : msgs.length ≤ 1 := by
    have := congrArg List.length hmsgs
    simp only [List.length_map, List.length_take] at this
    omega
  simp only [step, getOneMsg, heq]
  match msgs, hone with
  | [], _ =>
    exact ⟨q, .cons hfront (.single (.deq [] q)), hhung, o, i, h', hresv.mono rfl rfl le_rfl,
      trivial⟩
  | [p], _ =>
    by_cases hret : pFunc (readRecord s.ring.buf p) = 0
    · obtain ⟨q', a, rfl, hoa, h''⟩ := hrecv.complete h'
      simp only [hret, ne_eq, not_true_eq_false, if_false, if_true]
      exact ⟨q', .cons hfront (.single (.deq _ q')), hhung, a, i, h'', hresv.mono rfl rfl hoa,
        trivial⟩
    · simp only [ne_eq, hret, not_false_eq_true, if_true, if_false]
      exact ⟨q, .single hfront, hhung, o, i, h', hresv.mono rfl rfl le_rfl, trivial⟩

/-- Every call is answered as a queue would answer it. -/
theorem step_permitted {c : Call} (hrep : Rep n s q) : Permitted n q (step s c) := by
  cases c with
  | prePutMsgBurst cs => exact permitted_prePutMsgBurst hrep cs
  | fill k off w => exact permitted_fill hrep k off w
  | putMsgComplete => exact permitted_putMsgComplete hrep
  | putOneMsg msgWordSz ret data => exact permitted_putOneMsg hrep msgWordSz ret data
  | preGetMsgBurst max => exact permitted_preGetMsgBurst hrep max
  | getMsgComplete => exact permitted_getMsgComplete hrep
  | getOneMsg pFunc => exact permitted_getOneMsg hrep pFunc

/-- `isPowerOf2` holds of the powers of two. -/
theorem isPowerOf2_spec {c : UInt32} (h : isPowerOf2 c = true) : ∃ k, c.toNat = 2 ^ k := by
  simp only [isPowerOf2, Bool.and_eq_true, bne_iff_ne, ne_eq, beq_iff_eq] at h
  obtain ⟨hne, hand⟩ := h
  have hpos : c.toNat ≠ 0 := fun hzero => hne (UInt32.toNat_inj.mp hzero)
  apply (Nat.and_sub_one_eq_zero_iff_isPowerOfTwo hpos).mp
  have hnat := congrArg UInt32.toNat hand
  rwa [UInt32.toNat_and, UInt32.toNat_sub_of_le _ _ (UInt32.le_iff_toNat_le.mpr (by
    simp only [UInt32.toNat_one]; omega))] at hnat

/-- An initialised ring represents the empty queue. -/
theorem rep_init {buf : ℕ → UInt64} {c : UInt32} {r : CmmQuickMsgRing}
    (hinit : quickMsgRingInit buf c = some r) : Rep c.toNat (.init r) [] := by
  unfold quickMsgRingInit at hinit
  split at hinit
  · rename_i hassert
    obtain rfl := Option.some.inj hinit
    obtain ⟨k, hk⟩ := isPowerOf2_spec hassert.2
    have hbits := congrArg UInt32.toNat hassert.1
    simp only [UInt32.toNat_shiftRight, hk] at hbits
    have hk28 : k ≤ 28 := by
      by_contra hlarge
      have hdiv := Nat.div_eq_zero_iff.mp (Nat.shiftRight_eq_div_pow (2 ^ k) 29 ▸ hbits)
      have := Nat.pow_le_pow_right (show 0 < 2 by omega) (show 29 ≤ k by omega)
      omega
    refine ⟨rfl, 0, 0, ?_, trivial, trivial⟩
    exact
      { pow := ⟨k, hk28, hk⟩
        size_eq := rfl
        mask_eq := rfl
        out_eq := rfl
        in_eq := rfl
        le_size := Nat.zero_le _
        queue := .nil 0
        typed := by simp }
  · simp at hinit

/-- The number of committed words not released never exceeds the ring size. -/
theorem used_le_size {o i : ℕ} {r : CmmQuickMsgRing} (h : Holds n r q o i) :
    quickMsgRingUsed r ≤ r.size := by
  have hle := h.le
  have hi := h.le_size
  have ho := queue_le h.pos h.queue
  rw [UInt32.le_iff_toNat_le, quickMsgRingUsed, h.in_eq, h.out_eq, h.size_eq, UInt32.toNat_sub,
    UInt32.toNat_ofNat', UInt32.toNat_ofNat']
  omega

/-- Whatever calls are made, what the producer and the consumer observe is what
a first-in first-out queue of records shows, `in` is at most the ring size ahead
of `out`, and no receiving loop runs on for ever. -/
theorem cmmQuickMsgRing_refines_fifo {buf : ℕ → UInt64} {size : UInt32} {r : CmmQuickMsgRing}
    (hinit : quickMsgRingInit buf size = some r) (calls : List Call) :
    (∃ pending, Fifo.Accepts [] (Runs.run step (.init r) calls).2 pending ∧
      (Runs.run step (.init r) calls).2.flatMap Fifo.Event.enqueued =
        (Runs.run step (.init r) calls).2.flatMap Fifo.Event.dequeued ++ pending) ∧
      quickMsgRingUsed (Runs.run step (.init r) calls).1.ring ≤
        (Runs.run step (.init r) calls).1.ring.size ∧
      (Runs.run step (.init r) calls).1.hung = false := by
  have hmeets : Runs.Meets step (fun _ _ => True) (.init r) calls :=
    Runs.meets_of_forall (fun _ _ _ => trivial) _
  obtain ⟨pending, haccepts, hhung, o, i, h, -⟩ :=
    Runs.simulates (fun hrep _ => step_permitted hrep) (rep_init hinit) hmeets
  exact ⟨⟨pending, haccepts, by simpa using Fifo.Accepts.conserves haccepts⟩, used_le_size h, hhung⟩

/-- In a ring of four words a record of three words follows a filler to index
zero once the first record is released. -/
theorem cmmQuickMsgRing_refines_fifo_four_words :
    ∃ pending, Fifo.Accepts ([] : List (List UInt64))
      [.enq [[0x10003, 7, 8]], .front 1 [[0x10003, 7, 8]], .deq [[0x10003, 7, 8]],
        .enq [[0x20003, 9, 10]], .front 2 [[0x20003, 9, 10]]] pending := by
  let r : CmmQuickMsgRing :=
    { size := 4, mask := 3, nextIn := 0, nextOut := 0, inCnt := 0, outCnt := 0, buf := fun _ => 0 }
  let calls : List Call :=
    [.putOneMsg 3 0 [0x10003, 7, 8], .getOneMsg (fun _ => 0), .prePutMsgBurst [3],
      .fill 0 0 0x20003, .fill 0 1 9, .fill 0 2 10, .putMsgComplete, .preGetMsgBurst 2]
  have hinit : quickMsgRingInit (fun _ => 0) 4 = some r := rfl
  have hevents : (Runs.run step (.init r) calls).2 =
      [.enq [[0x10003, 7, 8]], .front 1 [[0x10003, 7, 8]], .deq [[0x10003, 7, 8]],
        .enq [[0x20003, 9, 10]], .front 2 [[0x20003, 9, 10]]] := by
    decide +kernel
  obtain ⟨⟨pending, haccepts, -⟩, -⟩ := cmmQuickMsgRing_refines_fifo hinit calls
  rw [hevents] at haccepts
  exact ⟨pending, haccepts⟩

end Runs

end TestMac.CmmQuickMsgRing
