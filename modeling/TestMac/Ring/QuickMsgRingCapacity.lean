import TestMac.Ring.QuickMsgRingFifo

/-!
# How much the message ring takes

A message that does not fit behind `in` leaves the tail of the storage unused, so a
ring takes less than its size. The tail is always shorter than the message that did
not fit there, and there is one of them at most. When no message has more than `L`
words with its length, a ring of `L * (k + 3)` words therefore takes another one as
long as `k` are pending.
-/

namespace TestMac.QuickMsgRing

open Bytes Framing

/-- A frame ends where its cells say. -/
theorem frame_end_unique {n a p p' b b' : ℕ} {c : ℕ → List UInt8} {m m' : Msg}
    (h : (framing n).FrameAt n c a p m b) (h' : (framing n).FrameAt n c a p' m' b') : b = b' := by
  cases h with
  | here hh _ =>
    obtain ⟨hword, hlt, rfl, -⟩ := hh
    cases h' with
    | here hh' _ =>
      obtain ⟨hword', -, rfl, -⟩ := hh'
      rw [← hword, ← hword']
    | skip hs' _ _ =>
      have hmark : leValue (c (a % n)) = n := hs'
      omega
  | skip hs hh _ =>
    have hmark : leValue (c (a % n)) = n := hs
    obtain ⟨hword, -, rfl, -⟩ := hh
    cases h' with
    | here hh' _ =>
      obtain ⟨hword', hlt', -, -⟩ := hh'
      omega
    | skip _ hh' _ =>
      obtain ⟨hword', -, rfl, -⟩ := hh'
      rw [← hword, ← hword']

section Reservations

variable {pBuf n L o i idx : ℕ} {r : QuickMsgRing} {q : List Msg} {m : Msg}

/-- A message handed out lies right behind `in`, unless the tail is too short for it. -/
theorem getBufStep_idx {buf buf' : Mem} {tmpIn wordCount k : ℕ}
    (h : r.getBufStep buf tmpIn wordCount = some (idx, buf', k)) :
    idx = tmpIn + reservLen ∨ r.size - tmpIn < tmpWordCnt wordCount + reservLen := by
  simp only [getBufStep] at h
  split_ifs at h with hroom hbehind htop hrewind hfront hend
  · exact .inl (Prod.mk.inj (Option.some.inj h)).1.symm
  · exact .inr (by omega)
  · exact .inl (Prod.mk.inj (Option.some.inj h)).1.symm
  · exact .inl (Prod.mk.inj (Option.some.inj h)).1.symm

/-- A message is refused only when there is no room for it, not even with the words
that a short tail costs. -/
theorem getBufStep_none {buf : Mem} {wordCount : ℕ} (h : Holds pBuf n r q o i)
    (hstep : r.getBufStep buf r.inIdx wordCount = none) :
    n ≤ (i - o) + 2 * (tmpWordCnt wordCount + reservLen) := by
  have hle := queue_le h.pos h.queue
  have hunused := unused_eq h.size_eq h.out_eq hle h.lt_lap h.empty
  have hres : reservLen = 1 := rfl
  rw [h.in_eq] at hstep
  simp only [getBufStep, hunused, h.size_eq] at hstep
  split_ifs at hstep with hroom hbehind htop hrewind hfront
  · omega
  · omega
  · exact absurd hstep (by omega)

/-- The reserved message takes at most `L` words with its length, and leaves no tail of
`L` words unused. -/
def Compact (n L i : ℕ) : Option (ℕ × Msg) → Prop
  | none => True
  | some (idx, m) =>
    m.msgLen + reservLen ≤ L ∧ (idx = i % n + reservLen ∨ n - i % n < L)

theorem getBuf_compact (h : Holds pBuf n r q o i) {wordCount : ℕ}
    (hw : tmpWordCnt wordCount + reservLen ≤ L) :
    Compact n L i ((r.getBuf wordCount).2.map fun idx => (idx, packed wordCount [])) ∧
      ((r.getBuf wordCount).2 = none → n ≤ (i - o) + 2 * L) := by
  simp only [getBuf, getBufBulk, getBufLoop]
  cases hstep : r.getBufStep r.buf r.inIdx wordCount with
  | none =>
    refine ⟨trivial, fun _ => ?_⟩
    have := getBufStep_none h hstep
    omega
  | some placed =>
    obtain ⟨idx, buf, k⟩ := placed
    refine ⟨⟨hw, ?_⟩, fun hnone => by simp at hnone⟩
    have hidx := getBufStep_idx hstep
    rw [h.in_eq, h.size_eq] at hidx
    exact hidx.imp id fun htail => by omega

/-- The frame of a compact reservation is tight. -/
theorem Compact.tight (hpos : 0 < n) {p j : ℕ} (hcompact : Compact n L i (some (idx, m)))
    (hframe : (framing n).FrameAt n (cells r.buf) i p m j) (hidx : idx = p + reservLen)
    (hj : j < i + n) : Tight n L i j := by
  obtain ⟨hlen, hplace⟩ := hcompact
  have hlap := nextLap_eq i hpos
  cases hframe with
  | here hh _ =>
    obtain ⟨-, -, rfl, -⟩ := hh
    exact .inl (by omega)
  | skip _ hh _ =>
    obtain ⟨-, -, rfl, -⟩ := hh
    rcases hplace with hsame | htail
    · omega
    · exact .inr ⟨htail, by omega, by omega⟩

end Reservations

/-- The representation of a queue by messages that lie tightly. -/
def TightRep (pBuf n L : ℕ) (s : Sys) (q : List Msg) : Prop :=
  ∃ o i, Holds pBuf n s.ring q o i ∧ Reserved n s.ring o i s.resv ∧
    Received n s.ring o i q s.recv ∧ (framing n).TightQueue n L (cells s.ring.buf) o q i ∧
    Compact n L i s.resv

/-- A call that asks for at most `L` words, the length included. -/
def Call.AtMost (L : ℕ) : Call → Prop
  | .sendMsg _ data => tmpWordCnt data.length + reservLen ≤ L
  | .getBuf wordCount => tmpWordCnt wordCount + reservLen ≤ L
  | .sendMsgWithPackFunc msgWordSz _ _ => tmpWordCnt msgWordSz + reservLen ≤ L
  | _ => True

section Tight

variable {pBuf n L o i idx : ℕ} {r : QuickMsgRing} {q : List Msg} {m : Msg}

/-- The committed message lies tightly behind the others. -/
theorem commit_tight {recv : Option (Option (ℕ × ℕ))} (h : Holds pBuf n r q o i)
    (hresv : Reserved n r o i (some (idx, m))) (hcompact : Compact n L i (some (idx, m)))
    (hrecv : Received n r o i q recv) (htight : (framing n).TightQueue n L (cells r.buf) o q i) :
    ∃ j, Holds pBuf n { r with inIdx := r.nextIn } (q ++ [m]) o j ∧
      Received n { r with inIdx := r.nextIn } o j (q ++ [m]) recv ∧
      (framing n).TightQueue n L (cells r.buf) o (q ++ [m]) j := by
  obtain ⟨j, h', hrecv'⟩ := hresv.commit h hrecv
  obtain ⟨p, j', hframe, hidx, hj', hnext⟩ := hresv
  have hle := queue_le h.pos h.queue
  have hlt := hframe.lt h.pos
  have hsame : j = j' := by
    refine eq_of_index (queue_le h.pos h'.queue) h'.lt_lap (by omega) hj' ?_
    rw [← hnext, ← h'.in_eq]
  subst hsame
  exact ⟨j, h', hrecv', htight.snoc ⟨⟨p, hframe⟩, hcompact.tight h.pos hframe hidx (by omega)⟩⟩

/-- The messages behind the one removed lie as tightly as before. -/
theorem complete_tight {got : Option (ℕ × ℕ)} (h : Holds pBuf n r q o i)
    (hrecv : Received n r o i q (some got))
    (htight : (framing n).TightQueue n L (cells r.buf) o q i) :
    ∃ q' o', q = got.toList.map (readMsg r.buf) ++ q' ∧ o ≤ o' ∧
      Holds pBuf n r.recvMsgComplete q' o' i ∧
      (framing n).TightQueue n L (cells r.buf) o' q' i := by
  obtain ⟨q', o', hq, hle, h'⟩ := hrecv.complete h
  have hlap := h.lt_lap
  have hle' := queue_le h.pos h'.queue
  refine ⟨q', o', hq, hle, h', ?_⟩
  rcases got with _ | held
  · have hsame : o' = o := by
      refine eq_of_index (n := n) hle (by omega) le_rfl (by have := h.pos; omega) ?_
      rw [← h'.out_eq, ← h.out_eq]
      exact hrecv
    rw [hsame]
    simpa [hq] using htight
  · obtain ⟨p, m, a, q'', rfl, hframe, hqueue, -, hnext⟩ := hrecv
    obtain ⟨a', ⟨⟨p', hframe'⟩, -⟩, htight'⟩ := htight.cons_inv
    have hrest : q'' = q' := (List.cons.inj hq).2
    have hend : o' = a := by
      have haa := hframe.lt h.pos
      have hai := queue_le h.pos hqueue
      refine eq_of_index (n := n) hle (by omega) haa.le (by omega) ?_
      rw [← h'.out_eq, ← hnext]
      rfl
    rw [hend, ← hrest, frame_end_unique hframe hframe']
    exact htight'

variable {s : Sys}

/-- A state and the observations on the way to it, as a queue of tight messages permits
them. -/
def TightlyPermitted (pBuf n L : ℕ) (q : List Msg) (out : Sys × List (Fifo.Event Msg)) : Prop :=
  ∃ q', Fifo.Accepts q out.2 q' ∧ TightRep pBuf n L out.1 q'

theorem tight_getBuf (hn : n < 4294967296) (hrep : TightRep pBuf n L s q) {wordCount : ℕ}
    (hw : tmpWordCnt wordCount + reservLen ≤ L) :
    TightlyPermitted pBuf n L q (step s (.getBuf wordCount)) := by
  obtain ⟨o, i, h, -, hrecv, htight, -⟩ := hrep
  obtain ⟨r', msg, heq, hw', hresv⟩ := getBuf_spec h hn wordCount
  have hcompact := (getBuf_compact h hw).1
  simp only [step, heq] at hcompact ⊢
  exact ⟨q, .nil q, o, i, h.write hw', hresv, hrecv.write h hw',
    tightQueue_of_agreeOff h.pos htight hw'.buf, hcompact⟩

theorem tight_sendMsg (hn : n < 4294967296) (hrep : TightRep pBuf n L s q) {pMsg : ℕ}
    {data : List UInt8} (hext : (Call.sendMsg pMsg data).External pBuf n)
    (hend : (Call.sendMsg pMsg data).OffEnd pBuf n)
    (hw : tmpWordCnt data.length + reservLen ≤ L) :
    TightlyPermitted pBuf n L q (step s (.sendMsg pMsg data)) := by
  obtain ⟨o, i, h, -, hrecv, htight, -⟩ := hrep
  have hcopy : pMsg ≠ 0 ∧ (pMsg < s.ring.pBuf ∨ pMsg > s.ring.pBuf + 4 * s.ring.size) := by
    simp only [Call.External, Call.OffEnd] at hext hend
    rw [h.pBuf_eq, h.size_eq]
    omega
  obtain ⟨r', msg, heq, hw', hresv⟩ := getBuf_spec h hn data.length
  have hcompact := (getBuf_compact h hw).1
  have h' := h.write hw'
  have hrecv' := hrecv.write h hw'
  have htight' := tightQueue_of_agreeOff h.pos htight hw'.buf
  simp only [step, sendMsg, if_pos hcopy, heq] at hcompact ⊢
  rcases msg with _ | idx
  · exact ⟨q, .nil q, o, i, h', trivial, hrecv', htight', trivial⟩
  · have hfit : data.length ≤ 4 * tmpWordCnt data.length := by
      rw [tmpWordCnt_eq]
      omega
    obtain ⟨hw'', hpacked⟩ := hresv.pack h' hfit
    obtain ⟨j, h'', hrecv'', htight''⟩ := commit_tight (h'.write hw'') hpacked hcompact
      (hrecv'.write h' hw'') (tightQueue_of_agreeOff h'.pos htight' hw''.buf)
    exact ⟨_, .single (.enq q _), o, j, h'', trivial, hrecv'', htight'', trivial⟩

theorem tight_fill (hrep : TightRep pBuf n L s q) (off : ℕ) (data : List UInt8) :
    TightlyPermitted pBuf n L q (step s (.fill off data)) := by
  obtain ⟨ring, resv, recv⟩ := s
  rcases resv with _ | ⟨idx, m⟩
  · exact ⟨q, .nil q, hrep⟩
  obtain ⟨o, i, h, hresv, hrecv, htight, hcompact⟩ := hrep
  simp only [step]
  by_cases hfit : off + data.length ≤ 4 * m.msgLen
  · rw [if_pos hfit]
    obtain ⟨hw, hfilled⟩ := hresv.fill off h hfit
    exact ⟨q, .nil q, o, i, h.write hw, hfilled, hrecv.write h hw,
      tightQueue_of_agreeOff h.pos htight hw.buf, hcompact⟩
  · rw [if_neg hfit]
    exact ⟨q, .nil q, o, i, h, hresv, hrecv, htight, hcompact⟩

theorem tight_sendReserved (hrep : TightRep pBuf n L s q) :
    TightlyPermitted pBuf n L q (step s .sendReserved) := by
  obtain ⟨ring, resv, recv⟩ := s
  rcases resv with _ | ⟨idx, m⟩
  · exact ⟨q, .nil q, hrep⟩
  obtain ⟨o, i, h, hresv, hrecv, htight, hcompact⟩ := hrep
  obtain ⟨j, h', hrecv', htight'⟩ := commit_tight h hresv hcompact hrecv htight
  simp only [step, sendMsg_reserved h hresv]
  exact ⟨_, .single (.enq q _), o, j, h', trivial, hrecv', htight', trivial⟩

theorem tight_sendMsgWithPackFunc (hn : n < 4294967296) (hrep : TightRep pBuf n L s q)
    {msgWordSz : ℕ} (hw : tmpWordCnt msgWordSz + reservLen ≤ L) (ret : ℤ) (data : List UInt8) :
    TightlyPermitted pBuf n L q (step s (.sendMsgWithPackFunc msgWordSz ret data)) := by
  simp only [step]
  by_cases hfit : data.length ≤ 4 * tmpWordCnt msgWordSz
  swap
  · rw [if_neg hfit]
    exact ⟨q, .nil q, hrep⟩
  obtain ⟨o, i, h, -, hrecv, htight, -⟩ := hrep
  obtain ⟨r', msg, heq, hw', hresv⟩ := getBuf_spec h hn msgWordSz
  have hcompact := (getBuf_compact h hw).1
  have h' := h.write hw'
  have hrecv' := hrecv.write h hw'
  have htight' := tightQueue_of_agreeOff h.pos htight hw'.buf
  simp only [if_pos hfit, sendMsgWithPackFunc, heq] at hcompact ⊢
  rcases msg with _ | idx
  · exact ⟨q, .nil q, o, i, h', trivial, hrecv', htight', trivial⟩
  obtain ⟨hw'', hpacked⟩ := hresv.pack h' hfit
  have htight'' := tightQueue_of_agreeOff h'.pos htight' hw''.buf
  by_cases hret : ret = 0
  · simp only [hret, ne_eq, not_true_eq_false, if_false, if_true,
      sendMsg_reserved (h'.write hw'') hpacked]
    obtain ⟨j, h'', hrecv'', hcommitted⟩ := commit_tight (h'.write hw'') hpacked hcompact
      (hrecv'.write h' hw'') htight''
    exact ⟨_, .single (.enq q _), o, j, h'', trivial, hrecv'', hcommitted, trivial⟩
  · simp only [ne_eq, hret, not_false_eq_true, if_true, if_false]
    exact ⟨q, .nil q, o, i, h'.write hw'', trivial, hrecv'.write h' hw'', htight'', trivial⟩

theorem tight_beginRecvMsg (hn : n < 4294967296) (hrep : TightRep pBuf n L s q) :
    TightlyPermitted pBuf n L q (step s .beginRecvMsg) := by
  obtain ⟨o, i, h, hresv, -, htight, hcompact⟩ := hrep
  obtain ⟨got, k, heq, hgot, hrecv⟩ := beginRecvMsg_spec h hn
  simp only [step, heq, hgot]
  exact ⟨q, .single (.front q 1), o, i, { h with }, hresv.mono rfl rfl le_rfl, hrecv, htight,
    hcompact⟩

theorem tight_look (hrep : TightRep pBuf n L s q) :
    TightlyPermitted pBuf n L q (step s .look) := by
  obtain ⟨ring, resv, recv⟩ := s
  rcases recv with _ | _ | held
  · exact ⟨q, .nil q, hrep⟩
  · exact ⟨q, .nil q, hrep⟩
  · obtain ⟨o, i, h, hresv, hrecv, htight⟩ := hrep
    obtain ⟨q', rfl⟩ := hrecv.read h
    exact ⟨_, .single (.front _ 1), o, i, h, hresv, hrecv, htight⟩

theorem tight_recvMsgComplete (hrep : TightRep pBuf n L s q) :
    TightlyPermitted pBuf n L q (step s .recvMsgComplete) := by
  obtain ⟨ring, resv, recv⟩ := s
  rcases recv with _ | got
  · exact ⟨q, .nil q, hrep⟩
  · obtain ⟨o, i, h, hresv, hrecv, htight, hcompact⟩ := hrep
    obtain ⟨q', o', rfl, hle, h', htight'⟩ := complete_tight h hrecv htight
    exact ⟨q', .single (.deq _ q'), o', i, h', hresv.mono rfl rfl hle, trivial, htight', hcompact⟩

theorem tight_recvMsgWithUnpackFunc (hn : n < 4294967296) (hrep : TightRep pBuf n L s q)
    (pFunc : List UInt8 → ℕ → ℤ) :
    TightlyPermitted pBuf n L q (step s (.recvMsgWithUnpackFunc pFunc)) := by
  obtain ⟨o, i, h, hresv, -, htight, hcompact⟩ := hrep
  obtain ⟨got, k, heq, hgot, hrecv⟩ := beginRecvMsg_spec h hn
  have h' : Holds pBuf n { s.ring with nextOut := k } q o i := { h with }
  have hfront : Fifo.Step q (.front 1 (got.toList.map (readMsg s.ring.buf))) q := hgot ▸ .front q 1
  simp only [step, recvMsgWithUnpackFunc, heq]
  rcases got with _ | ⟨idx, msgLen⟩
  · exact ⟨q, .cons hfront (.single (.deq [] q)), o, i, h', hresv.mono rfl rfl le_rfl, trivial,
      htight, hcompact⟩
  by_cases hret : pFunc (slice s.ring.buf (4 * idx) (4 * msgLen)) msgLen = 0
  · obtain ⟨q', o', rfl, hle, h'', htight'⟩ := complete_tight h' hrecv htight
    simp only [hret, ne_eq, not_true_eq_false, if_false, if_true]
    exact ⟨q', .cons hfront (.single (.deq _ q')), o', i, h'', hresv.mono rfl rfl hle, trivial,
      htight', hcompact⟩
  · simp only [ne_eq, hret, not_false_eq_true, if_true, if_false]
    exact ⟨q, .single hfront, o, i, h', hresv.mono rfl rfl le_rfl, trivial, htight, hcompact⟩

/-- Every call keeps the messages tight. -/
theorem step_tight (hn : n < 4294967296) {c : Call} (hrep : TightRep pBuf n L s q)
    (hok : c.External pBuf n ∧ c.OffEnd pBuf n ∧ c.AtMost L) :
    TightlyPermitted pBuf n L q (step s c) := by
  obtain ⟨hext, hend, hmost⟩ := hok
  cases c with
  | sendMsg pMsg data => exact tight_sendMsg hn hrep hext hend hmost
  | getBuf wordCount => exact tight_getBuf hn hrep hmost
  | fill off data => exact tight_fill hrep off data
  | sendReserved => exact tight_sendReserved hrep
  | sendMsgWithPackFunc msgWordSz ret data => exact tight_sendMsgWithPackFunc hn hrep hmost ret data
  | beginRecvMsg => exact tight_beginRecvMsg hn hrep
  | look => exact tight_look hrep
  | recvMsgComplete => exact tight_recvMsgComplete hrep
  | recvMsgWithUnpackFunc pFunc => exact tight_recvMsgWithUnpackFunc hn hrep pFunc

theorem tightRep_init {size : ℕ} {r : QuickMsgRing}
    (hinit : initQuickMsgRing pBuf size = some r) : TightRep pBuf (size / 4) L (.init r) [] := by
  obtain ⟨o, i, h, hresv, hrecv⟩ := rep_init hinit
  have hio : o = i := h.queue.eq_of_nil
  exact ⟨o, i, h, hresv, hrecv, hio ▸ .nil o, trivial⟩

/-- A ring with few messages takes another one. -/
theorem getBuf_of_tight (hrep : TightRep pBuf n L s q) {wordCount : ℕ}
    (hw : tmpWordCnt wordCount + reservLen ≤ L) (hroom : L * (q.length + 3) ≤ n) :
    (s.ring.getBuf wordCount).2.isSome := by
  obtain ⟨o, i, h, -, -, htight, -⟩ := hrep
  have hle := queue_le h.pos h.queue
  have hspan := tightQueue_span h.pos htight h.lt_lap
  have hres : reservLen = 1 := rfl
  rw [Nat.mul_add] at hroom
  by_contra hnone
  have hfull := (getBuf_compact h hw).2 (Option.not_isSome_iff_eq_none.mp hnone)
  omega

end Tight

/-- In every run of the ring whose messages have at most `L` words with their lengths,
a message of this size is not refused as long as the messages sent and not yet removed,
and three more, fit the ring. -/
theorem getBuf_of_few {pBuf size L wordCount : ℕ} {r : QuickMsgRing} (calls : List Call)
    (hsize : size < 2 ^ 29) (hinit : initQuickMsgRing pBuf size = some r)
    (hcalls : ∀ c ∈ calls, c.External pBuf (size / 4) ∧ c.OffEnd pBuf (size / 4) ∧ c.AtMost L)
    (hw : (wordCount + 3) / 4 + 1 ≤ L)
    (hroom : L * (((Runs.run step (.init r) calls).2.flatMap Fifo.Event.enqueued).length -
      ((Runs.run step (.init r) calls).2.flatMap Fifo.Event.dequeued).length + 3) ≤ size / 4) :
    ((Runs.run step (.init r) calls).1.ring.getBuf wordCount).2.isSome := by
  have hmeets : Runs.Meets step
      (fun _ c => c.External pBuf (size / 4) ∧ c.OffEnd pBuf (size / 4) ∧ c.AtMost L)
      (.init r) calls := Runs.meets_of_forall (fun _ c hc => hcalls c hc) _
  obtain ⟨pending, haccepts, hrep⟩ := Runs.simulates
    (fun hrep hok => step_tight (L := L) (by omega) hrep hok) (tightRep_init hinit) hmeets
  have hconserves := Fifo.Accepts.conserves haccepts
  rw [List.nil_append] at hconserves
  rw [hconserves, List.length_append, Nat.add_sub_cancel_left] at hroom
  exact getBuf_of_tight hrep (by rw [tmpWordCnt_eq]; exact hw) hroom

/-- A ring of sixteen words takes a second message of two words in every state with one
pending, here after the first has wrapped around. -/
theorem getBuf_of_few_sixteen_words :
    ∃ r, initQuickMsgRing 1000 64 = some r ∧
      ((Runs.run step (.init r) [.sendMsg 2000 [1, 2, 3, 4, 5], .sendMsg 2000 [1, 2, 3, 4, 5],
        .recvMsgWithUnpackFunc fun _ _ => 0]).1.ring.getBuf 8).2.isSome := by
  have hinit : initQuickMsgRing 1000 64 = some _ := rfl
  exact ⟨_, hinit, getBuf_of_few (L := 3) _ (by decide) hinit
    (by simp [Call.External, Call.OffEnd, Call.AtMost, tmpWordCnt_eq, reservLen]) (by decide)
    (by decide +kernel)⟩

end TestMac.QuickMsgRing
