import TestMac.Ring.QuickMsgRingBulk

/-!
# Reserving a batch, and the room of an empty ring

`QuickMsgRingGetBufBulk` works on an index of its own and may go back to the top
of the storage within a batch. It hands out what single calls hand out one after
the other. Both placements need a contiguous run of words, so a message for which
the whole ring has room may still be refused where `in` and `out` stand.
-/

namespace TestMac.QuickMsgRing

open Bytes Framing

/-- `QuickMsgRingSendMsg` of the first buffer handed out, or of the null pointer. -/
def commitBulk (out : QuickMsgRing × List ℕ) : QuickMsgRing :=
  (out.1.sendMsg (out.2.head?.elim 0 fun i => out.1.pBuf + 4 * i) []).1

/-- `QuickMsgRingGetBuf` and `QuickMsgRingSendMsg` for one length after the other, until
a buffer is refused. -/
def sendSingles : QuickMsgRing → List ℕ → QuickMsgRing × List ℕ
  | r, [] => (r, [])
  | r, wordCount :: rest =>
    match r.getBuf wordCount with
    | (r', none) => (r', [])
    | (r', some i) =>
      let (r'', msgs) := sendSingles (r'.sendMsg (r'.pBuf + 4 * i) []).1 rest
      (r'', i :: msgs)

/-- The words of a message, its length word included, from its buffer and its length. -/
def Extent (msg : ℕ × ℕ) (x : ℕ) : Prop := msg.1 ≤ x + reservLen ∧ x < msg.1 + msg.2

/-- The buffers of a batch, each with the number of words reserved for it. -/
def batch (r : QuickMsgRing) (lens : List ℕ) : List (ℕ × ℕ) :=
  (r.getBufBulk lens).2.zip (lens.map tmpWordCnt)

/-- The four indices stay inside the storage. -/
structure InRange (n : ℕ) (r : QuickMsgRing) : Prop where
  size_eq : r.size = n
  in_lt : r.inIdx < n
  out_lt : r.outIdx < n
  nextIn_lt : r.nextIn < n
  nextOut_lt : r.nextOut < n

section Indices

variable {n : ℕ} {r r' : QuickMsgRing}

/-- A placed message starts inside the storage, and so does the next one. -/
theorem getBufStep_lt {buf buf' : Mem} {tmpIn tmpIn' wordCount idx : ℕ} (hin : tmpIn < r.size)
    (hout : r.outIdx < r.size)
    (h : r.getBufStep buf tmpIn wordCount = some (idx, buf', tmpIn')) :
    idx ≤ r.size ∧ tmpIn' < r.size := by
  have hres : reservLen = 1 := rfl
  have hpos : 0 < r.size := by omega
  unfold getBufStep at h
  by_cases hroom : r.unused tmpIn ≤ tmpWordCnt wordCount + reservLen
  · simp [hroom] at h
  rw [if_neg hroom] at h
  by_cases htail : tmpIn ≥ r.outIdx
  · rw [if_pos htail] at h
    by_cases htop : r.size - tmpIn ≥ tmpWordCnt wordCount + reservLen
    · simp only [if_pos htop, Option.some.injEq, Prod.mk.injEq] at h
      obtain ⟨rfl, -, rfl⟩ := h
      exact ⟨by omega, Nat.mod_lt _ hpos⟩
    · rw [if_neg htop] at h
      split at h
      · simp only [Option.some.injEq, Prod.mk.injEq] at h
        obtain ⟨rfl, -, rfl⟩ := h
        exact ⟨by omega, Nat.mod_lt _ hpos⟩
      · simp at h
  · have hunused : r.unused tmpIn = r.outIdx - tmpIn := by
      unfold unused
      rw [if_neg (by omega), if_pos (by omega), if_neg (by omega)]
      omega
    rw [if_neg htail] at h
    split at h
    · simp only [Option.some.injEq, Prod.mk.injEq] at h
      obtain ⟨rfl, -, rfl⟩ := h
      refine ⟨by omega, ?_⟩
      split <;> omega
    · simp at h

/-- The loop of `QuickMsgRingGetBufBulk` stays inside the storage. -/
theorem getBufLoop_lt (hout : r.outIdx < r.size) (lens : List ℕ) (buf : Mem) {tmpIn : ℕ}
    (hin : tmpIn < r.size) : (r.getBufLoop buf tmpIn lens).2.2 < r.size := by
  induction lens generalizing buf tmpIn with
  | nil => exact hin
  | cons len lens ih =>
    rw [getBufLoop]
    cases hstep : r.getBufStep buf tmpIn len with
    | none => exact hin
    | some placed => exact ih _ (getBufStep_lt hin hout hstep).2

/-- The loop of `QuickMsgRingBeginRecvMsgBulk` stays inside the storage, whatever it reads. -/
theorem beginRecvLoop_lt (max : ℕ) {tmpOut : ℕ} (hout : tmpOut < r.size) :
    (r.beginRecvLoop max tmpOut).2 < r.size := by
  induction max generalizing tmpOut with
  | zero => exact hout
  | succ max ih =>
    rw [beginRecvLoop]
    split
    · exact hout
    · exact ih (Nat.mod_lt _ (by omega))

theorem InRange.getBufBulk (h : InRange n r) (lens : List ℕ) : InRange n (r.getBufBulk lens).1 := by
  have hout := h.out_lt
  have hin := h.in_lt
  have hlt := getBufLoop_lt (by rw [h.size_eq]; exact hout) lens r.buf
    (show r.inIdx < r.size by rw [h.size_eq]; exact hin)
  rw [h.size_eq] at hlt
  exact { h with nextIn_lt := hlt }

theorem InRange.getBuf (h : InRange n r) (wordCount : ℕ) : InRange n (r.getBuf wordCount).1 :=
  h.getBufBulk [wordCount]

theorem InRange.sendMsg (h : InRange n r) (pMsg : ℕ) (data : List UInt8) :
    InRange n (r.sendMsg pMsg data).1 := by
  unfold QuickMsgRing.sendMsg
  split
  · have hget := h.getBuf data.length
    cases hg : r.getBuf data.length with
    | mk r' msg =>
      rw [hg] at hget
      cases msg with
      | none => exact hget
      | some i => exact { hget with in_lt := hget.nextIn_lt }
  · exact { h with in_lt := h.nextIn_lt }

theorem InRange.sendMsgWithPackFunc (h : InRange n r) (msgWordSz : ℕ) (pFunc : ℤ × List UInt8) :
    InRange n (r.sendMsgWithPackFunc msgWordSz pFunc).1 := by
  unfold QuickMsgRing.sendMsgWithPackFunc
  have hget := h.getBuf msgWordSz
  cases hg : r.getBuf msgWordSz with
  | mk r' msg =>
    rw [hg] at hget
    cases msg with
    | none => exact hget
    | some i =>
      have hfilled : InRange n { r' with buf := store r'.buf (4 * i) pFunc.2 } := { hget with }
      dsimp only
      split
      · exact hfilled
      · exact hfilled.sendMsg _ _

theorem InRange.beginRecvMsgBulk (h : InRange n r) (max : ℕ) :
    InRange n (r.beginRecvMsgBulk max).1 := by
  have hout := h.out_lt
  have hlt := beginRecvLoop_lt max (show r.outIdx < r.size by rw [h.size_eq]; exact hout)
  rw [h.size_eq] at hlt
  exact { h with nextOut_lt := hlt }

theorem InRange.recvMsgComplete (h : InRange n r) : InRange n r.recvMsgComplete :=
  { h with out_lt := h.nextOut_lt }

theorem InRange.recvMsgWithUnpackFunc {σ : Type} (h : InRange n r)
    (pFunc : List UInt8 → ℕ → σ → ℤ × σ) (s : σ) :
    InRange n (r.recvMsgWithUnpackFunc pFunc s).1 := by
  unfold QuickMsgRing.recvMsgWithUnpackFunc
  have hbegin : InRange n r.beginRecvMsg.1 := h.beginRecvMsgBulk 1
  cases hb : r.beginRecvMsg with
  | mk r' msg =>
    rw [hb] at hbegin
    cases msg with
    | none => exact hbegin
    | some held =>
      dsimp only
      split
      · exact hbegin
      · exact hbegin.recvMsgComplete

/-- Every call keeps the indices inside the storage, also after a receiving loop
that went beyond `in`. -/
theorem inRange_step {s : Bulk.Sys} (h : InRange n s.ring) (c : Bulk.Call) :
    InRange n (Bulk.step s c).ring := by
  cases c with
  | sendMsg pMsg data =>
    simp only [Bulk.step]
    split
    · split
      · exact h.sendMsg pMsg data
      · exact h.sendMsg pMsg data
    · exact h.sendMsg pMsg data
  | getBufBulk wordCount => exact h.getBufBulk wordCount
  | fill k off data =>
    simp only [Bulk.step]
    split
    · exact h
    · split
      · exact { h with }
      · exact h
  | sendMsgWithPackFunc msgWordSz ret data =>
    simp only [Bulk.step]
    split
    · split
      · exact h.sendMsgWithPackFunc msgWordSz (ret, data)
      · exact h.sendMsgWithPackFunc msgWordSz (ret, data)
    · exact h
  | beginRecvMsgBulk max => exact h.beginRecvMsgBulk max
  | recvMsgComplete => exact h.recvMsgComplete
  | recvMsgWithUnpackFunc pFunc =>
    simp only [Bulk.step]
    split
    · exact h.recvMsgWithUnpackFunc _ _
    · exact h.recvMsgWithUnpackFunc _ _

/-- The indices of an initialised ring. -/
theorem inRange_init {pBuf size : ℕ} (hinit : initQuickMsgRing pBuf size = some r) :
    InRange (size / 4) r := by
  unfold initQuickMsgRing at hinit
  split at hinit
  · simp at hinit
  · obtain rfl := Option.some.inj hinit
    have hpos : 0 < size / 4 := by omega
    exact ⟨rfl, hpos, hpos, hpos, hpos⟩

/-- The indices as positions, when the ring is not taken for full. -/
theorem InRange.positions (h : InRange n r) (hempty : r.inIdx = r.outIdx → r.emptyFlag = true) :
    ∃ o i, r.outIdx = o % n ∧ r.inIdx = i % n ∧ o ≤ i ∧ i < o + n ∧
      (i = o → r.emptyFlag = true) := by
  have hin := h.in_lt
  have hout := h.out_lt
  by_cases hle : r.outIdx ≤ r.inIdx
  · exact ⟨r.outIdx, r.inIdx, (Nat.mod_eq_of_lt hout).symm, (Nat.mod_eq_of_lt hin).symm, hle,
      by omega, hempty⟩
  · refine ⟨r.outIdx, r.inIdx + n, (Nat.mod_eq_of_lt hout).symm, ?_, by omega, by omega, ?_⟩
    · rw [Nat.add_mod_right, Nat.mod_eq_of_lt hin]
    · omega

/-- A ring that is taken for full hands out nothing. -/
theorem getBufLoop_full (hsame : r.inIdx = r.outIdx) (hflag : r.emptyFlag = false) (buf : Mem)
    (lens : List ℕ) : r.getBufLoop buf r.inIdx lens = ([], buf, r.inIdx) := by
  have hunused : r.unused r.inIdx = 0 := by simp [unused, hsame, hflag]
  cases lens with
  | nil => rfl
  | cons len lens => simp [getBufLoop, getBufStep, hunused]

end Indices

section Batch

variable {pBuf n : ℕ} {r r' : QuickMsgRing}

theorem getBufStep_congr (hsize : r'.size = r.size) (hout : r'.outIdx = r.outIdx)
    (hflag : r'.emptyFlag = r.emptyFlag) : r'.getBufStep = r.getBufStep := by
  cases r
  cases r'
  dsimp only at hsize hout hflag
  subst hsize hout hflag
  rfl

theorem getBufLoop_congr (hsize : r'.size = r.size) (hout : r'.outIdx = r.outIdx)
    (hflag : r'.emptyFlag = r.emptyFlag) (lens : List ℕ) (buf : Mem) (tmpIn : ℕ) :
    r'.getBufLoop buf tmpIn lens = r.getBufLoop buf tmpIn lens := by
  induction lens generalizing buf tmpIn with
  | nil => rfl
  | cons len lens ih => simp only [getBufLoop, getBufStep_congr hsize hout hflag, ih]

/-- A buffer that starts inside the storage is not copied. -/
theorem sendMsg_inside {i : ℕ} (hi : i ≤ r.size) (data : List UInt8) :
    r.sendMsg (r.pBuf + 4 * i) data = ({ r with inIdx := r.nextIn }, success) := by
  rw [sendMsg, if_neg (by omega)]

/-- Single calls go through the same indices and the same storage as the loop over
the batch, and leave `in` where it ends. -/
theorem sendSingles_eq (lens : List ℕ) (hin : r.inIdx < r.size) (hout : r.outIdx < r.size) :
    (sendSingles r lens).2 = (r.getBufLoop r.buf r.inIdx lens).1 ∧
      (sendSingles r lens).1.buf = (r.getBufLoop r.buf r.inIdx lens).2.1 ∧
      (sendSingles r lens).1.inIdx = (r.getBufLoop r.buf r.inIdx lens).2.2 := by
  induction lens generalizing r with
  | nil => exact ⟨rfl, rfl, rfl⟩
  | cons len lens ih =>
    cases hstep : r.getBufStep r.buf r.inIdx len with
    | none =>
      simp only [sendSingles, getBuf, getBufBulk, getBufLoop, hstep, List.head?_nil, and_self]
    | some placed =>
      obtain ⟨idx, buf, tmpIn⟩ := placed
      obtain ⟨hidx, htmp⟩ := getBufStep_lt hin hout hstep
      -- the ring after the message was reserved and committed by itself
      let r₁ : QuickMsgRing := { r with buf := buf, nextIn := tmpIn, inIdx := tmpIn }
      have hget : r.getBuf len = ({ r with buf := buf, nextIn := tmpIn }, some idx) := by
        simp only [getBuf, getBufBulk, getBufLoop, hstep, List.head?_cons]
      have hsend : ({ r with buf := buf, nextIn := tmpIn } : QuickMsgRing).sendMsg
          (r.pBuf + 4 * idx) [] = (r₁, success) :=
        sendMsg_inside (r := { r with buf := buf, nextIn := tmpIn }) hidx []
      have hrest := ih (r := r₁) htmp hout
      have hloop : r₁.getBufLoop r₁.buf r₁.inIdx lens = r.getBufLoop r₁.buf r₁.inIdx lens := by
        apply getBufLoop_congr <;> rfl
      rw [hloop] at hrest
      simp only [sendSingles, hget, hsend, getBufLoop, hstep]
      exact ⟨congrArg _ hrest.1, hrest.2⟩

/-- Committing a batch moves `in` to where its loop ended. -/
theorem commitBulk_eq (lens : List ℕ) (hin : r.inIdx < r.size) (hout : r.outIdx < r.size) :
    (commitBulk (r.getBufBulk lens)).buf = (r.getBufLoop r.buf r.inIdx lens).2.1 ∧
      (commitBulk (r.getBufBulk lens)).inIdx = (r.getBufLoop r.buf r.inIdx lens).2.2 := by
  have hhead : ∀ i ∈ (r.getBufLoop r.buf r.inIdx lens).1.head?, i ≤ r.size := by
    intro i hi
    cases lens with
    | nil => simp [getBufLoop] at hi
    | cons len lens =>
      cases hstep : r.getBufStep r.buf r.inIdx len with
      | none => simp [getBufLoop, hstep] at hi
      | some placed =>
        simp only [getBufLoop, hstep, List.head?_cons, Option.mem_some_iff] at hi
        rw [← hi]
        exact (getBufStep_lt hin hout hstep).1
  simp only [commitBulk, getBufBulk]
  cases hfirst : (r.getBufLoop r.buf r.inIdx lens).1.head? with
  | none => exact ⟨rfl, rfl⟩
  | some i =>
    have hi := hhead i hfirst
    rw [Option.elim_some, sendMsg_inside (r := { r with
      buf := (r.getBufLoop r.buf r.inIdx lens).2.1
      nextIn := (r.getBufLoop r.buf r.inIdx lens).2.2 }) hi]
    exact ⟨rfl, rfl⟩

/-- The words of a message placed in the storage are the words of its frame. -/
theorem extent_iff {buf : Mem} {p len x : ℕ} {m : Msg}
    (hhere : (framing n).Here (cells buf) p m len) :
    Extent (p + reservLen, m.msgLen) x ↔ p ≤ x ∧ x < p + len := by
  obtain ⟨-, -, rfl, -⟩ := here_iff.mp hhere
  simp only [Extent]
  omega

/-- The buffers of a batch have no word in common, with each other or with what lies
between `out` and `in`. -/
theorem InRange.batch_disjoint (h : InRange n r) (hn : n < 4294967296) (lens : List ℕ) :
    (r.batch lens).Pairwise (fun msg msg' => ∀ x, Extent msg x → ¬ Extent msg' x) ∧
      ∀ msg ∈ r.batch lens, ∀ x, Extent msg x → x < n ∧ ¬ r.Committed x := by
  have hpos : 0 < n := by
    have := h.in_lt
    omega
  by_cases hfull : r.inIdx = r.outIdx ∧ r.emptyFlag = false
  · have hnone : r.batch lens = [] := by
      simp only [batch, QuickMsgRing.getBufBulk, getBufLoop_full hfull.1 hfull.2, List.zip_nil_left]
    simp [hnone]
  · have hempty : r.inIdx = r.outIdx → r.emptyFlag = true := by
      intro hsame
      simpa [hsame] using hfull
    obtain ⟨o, i, hout, hin, hoi, hlap, hflag⟩ := h.positions hempty
    obtain ⟨ys, j, buf', heq, hplaced, hj, -, hzip⟩ :=
      getBufLoop_spec h.size_eq hn hout lens r.buf hoi hlap hflag
    have hbatch : r.batch lens = ys.map fun y => (y.1 + reservLen, y.2.msgLen) := by
      have hlens : lens.map tmpWordCnt = (lens.map fun w => packed w []).map Msg.msgLen := by
        rw [List.map_map]
        rfl
      simp only [batch, QuickMsgRing.getBufBulk, hin, heq]
      rw [hlens, List.zip_map_right, hzip, List.map_map]
      rfl
    rw [hbatch]
    constructor
    · rw [List.pairwise_map]
      refine (placed_pairwise hpos hplaced (by omega)).imp_of_mem ?_
      rintro ⟨p, m⟩ ⟨p', m'⟩ hy hy' hdisjoint x hx hx'
      obtain ⟨len, hhere⟩ := placed_here hpos hplaced hy
      obtain ⟨len', hhere'⟩ := placed_here hpos hplaced hy'
      obtain ⟨hpx, hxl⟩ := (extent_iff hhere).mp hx
      obtain ⟨hpx', hxl'⟩ := (extent_iff hhere').mp hx'
      exact hdisjoint hhere hhere' hpx hxl hpx' hxl'
    · intro msg hmsg x hx
      obtain ⟨⟨p, m⟩, hy, rfl⟩ := List.mem_map.mp hmsg
      obtain ⟨len, hhere⟩ := placed_here hpos hplaced hy
      obtain ⟨hpx, hxl⟩ := (extent_iff hhere).mp hx
      obtain ⟨y, hiy, hyj, rfl⟩ := placed_position hpos hplaced hy hhere hpx hxl
      refine ⟨Nat.mod_lt _ hpos, ?_⟩
      rw [Committed, h.size_eq, hout, hin, lap_distance (by omega) (by omega),
        lap_distance hoi hlap]
      omega

/-- What a receive finds lies between `out` and `in`. -/
theorem committed_of_received {o i : ℕ} {q : List Msg} {held : List (ℕ × ℕ)}
    (h : Holds pBuf n r q o i) (hrecv : Bulk.Received n r o i q held) :
    ∀ msg ∈ held, ∀ x, Extent msg x → r.Committed x := by
  obtain ⟨xs, q', a, hplaced, hqueue, -, rfl, -⟩ := hrecv
  intro msg hmsg x hx
  have hai := queue_le h.pos hqueue
  obtain ⟨⟨p, m⟩, hy, rfl⟩ := List.mem_map.mp hmsg
  obtain ⟨len, hhere⟩ := placed_here h.pos hplaced hy
  obtain ⟨hpx, hxl⟩ := (extent_iff hhere).mp hx
  obtain ⟨y, hoy, hya, rfl⟩ := placed_position h.pos hplaced hy hhere hpx hxl
  exact Bulk.committed_of_between h hoy (by omega)

/-- In every state reached, a batch hands out the buffers that single calls hand out,
up to the first refusal, and committing it leaves the same storage and the same `in`.
Its buffers have no word in common with each other or with what lies between `out` and
`in`, where every pending message is. -/
theorem getBufBulk_like_singles {size : ℕ} (hsize : size < 2 ^ 29)
    (hinit : initQuickMsgRing pBuf size = some r) {s : Bulk.Sys}
    (hs : Runs.Reachable Bulk.step (fun _ _ => True) (.init r) s) (lens : List ℕ) :
    (s.ring.getBufBulk lens).2 = (sendSingles s.ring lens).2 ∧
      (commitBulk (s.ring.getBufBulk lens)).buf = (sendSingles s.ring lens).1.buf ∧
      (commitBulk (s.ring.getBufBulk lens)).inIdx = (sendSingles s.ring lens).1.inIdx ∧
      (s.ring.batch lens).Pairwise (fun msg msg' => ∀ x, Extent msg x → ¬ Extent msg' x) ∧
      (∀ msg ∈ s.ring.batch lens, ∀ x, Extent msg x → x < size / 4 ∧ ¬ s.ring.Committed x) ∧
      (Runs.Reachable Bulk.step Bulk.StopsAtIn (.init r) s →
        (s.ring.beginRecvMsgBulk s.pending.length).2.map (readMsg s.ring.buf) = s.pending ∧
        ∀ msg ∈ s.ring.batch lens, ∀ msg' ∈ (s.ring.beginRecvMsgBulk s.pending.length).2,
          ∀ x, Extent msg x → ¬ Extent msg' x) := by
  have hn : size / 4 < 4294967296 := by omega
  have hrange : InRange (size / 4) s.ring := by
    apply hs.invariant _ (inRange_init hinit)
    exact fun h _ => inRange_step h _
  have hin : s.ring.inIdx < s.ring.size := by
    rw [hrange.size_eq]
    exact hrange.in_lt
  have hout : s.ring.outIdx < s.ring.size := by
    rw [hrange.size_eq]
    exact hrange.out_lt
  obtain ⟨hmsgs, hbuf, hidx⟩ := sendSingles_eq lens hin hout
  obtain ⟨hbuf', hidx'⟩ := commitBulk_eq lens hin hout
  obtain ⟨hpairwise, hfree⟩ := hrange.batch_disjoint hn lens
  refine ⟨hmsgs.symm, hbuf'.trans hbuf.symm, hidx'.trans hidx.symm, hpairwise, hfree, ?_⟩
  intro hstops
  obtain ⟨o, i, h, -, -⟩ := hstops.invariant (Bulk.rep_step hn) (Bulk.rep_init hinit)
  obtain ⟨k, msgs, heq, hlen, hrecv⟩ :=
    Bulk.beginRecvMsgBulk_spec h hn s.pending.length (.inr le_rfl)
  have hnext : Holds pBuf (size / 4) { s.ring with nextOut := k } s.pending o i := { h with }
  have hcontent := hrecv.content h.pos
  rw [hlen, Nat.min_self, List.take_length] at hcontent
  rw [heq]
  refine ⟨hcontent, fun msg hmsg msg' hmsg' x hx hx' => ?_⟩
  exact (hfree msg hmsg x hx).2 (committed_of_received hnext hrecv msg' hmsg' x hx')

/-- A batch of three in a ring of eight words that has room for two. -/
theorem getBufBulk_like_singles_eight_words :
    (Bulk.oneByOne.ring.getBufBulk [4, 1, 4]).2 = (sendSingles Bulk.oneByOne.ring [4, 1, 4]).2 ∧
      (Bulk.oneByOne.ring.batch [4, 1, 4]).Pairwise
        (fun msg msg' => ∀ x, Extent msg x → ¬ Extent msg' x) := by
  obtain ⟨hmsgs, -, -, hpairwise, -⟩ := getBufBulk_like_singles (by decide)
    (Option.some_get rfl).symm (Bulk.reachable_oneByOne.mono fun _ => trivial) [4, 1, 4]
  exact ⟨hmsgs, hpairwise⟩

end Batch

section Room

variable {pBuf n : ℕ} {r : QuickMsgRing} {s : Bulk.Sys}

/-- A receive finds nothing exactly when the indices meet and `emptyFlag` is set. -/
theorem beginRecvMsg_none_iff :
    r.beginRecvMsg.2 = none ↔ r.outIdx = r.inIdx ∧ r.emptyFlag = true := by
  simp only [beginRecvMsg, beginRecvMsgBulk, beginRecvLoop]
  by_cases hstop : r.outIdx = r.inIdx ∧ r.emptyFlag = true
  · simp [hstop]
  · rw [if_neg hstop]
    simpa using hstop

/-- An empty ring accepts a message exactly when it has more words than the message
needs, and room for it behind `in` or, with two words to spare, in front of `in`. -/
theorem getBuf_isSome_iff (h : InRange n r) (hsame : r.outIdx = r.inIdx)
    (hflag : r.emptyFlag = true) (wordCount : ℕ) :
    (r.getBuf wordCount).2.isSome ↔ tmpWordCnt wordCount + 1 < n ∧
      (tmpWordCnt wordCount + 1 ≤ n - r.inIdx ∨ tmpWordCnt wordCount + 3 ≤ r.inIdx) := by
  have hres : reservLen = 1 := rfl
  have hin := h.in_lt
  have hunused : r.unused r.inIdx = n := by simp [unused, hsame, hflag, h.size_eq]
  simp only [getBuf, getBufBulk, getBufLoop, getBufStep, hunused, h.size_eq, hsame, hres]
  by_cases hroom : n ≤ tmpWordCnt wordCount + 1
  · simp [hroom]
  by_cases hbehind : n - r.inIdx ≥ tmpWordCnt wordCount + 1
  · simp [hroom, hbehind]
    omega
  by_cases hfront : n ≥ n - r.inIdx + tmpWordCnt wordCount + 3 * 1
  · simp [hroom, hbehind, hfront]
    omega
  · simp [hroom, hbehind, hfront]
    omega

/-- When nothing is pending the indices meet and `emptyFlag` is set. -/
theorem rep_pending_nil (hrep : Bulk.Rep pBuf n s) :
    s.pending = [] ↔ s.ring.outIdx = s.ring.inIdx ∧ s.ring.emptyFlag = true := by
  obtain ⟨o, i, h, -, -⟩ := hrep
  have hoi := queue_le h.pos h.queue
  have hlap := h.lt_lap
  rw [queue_eq_nil_iff h.pos h.queue]
  constructor
  · rintro rfl
    exact ⟨h.out_eq.trans h.in_eq.symm, h.empty rfl⟩
  · rintro ⟨hsame, -⟩
    by_contra hne
    rw [h.out_eq, h.in_eq] at hsame
    exact index_ne_of_window (by omega) hlap hsame

theorem inRange_of_rep (hrep : Bulk.Rep pBuf n s) : InRange n s.ring := by
  obtain ⟨o, i, h, ⟨ys, j, -, -, -, hnextIn⟩, xs, q', a, -, -, -, -, hnextOut⟩ := hrep
  refine ⟨h.size_eq, ?_, ?_, ?_, ?_⟩
  · exact h.in_eq ▸ Nat.mod_lt i h.pos
  · exact h.out_eq ▸ Nat.mod_lt o h.pos
  · exact hnextIn ▸ Nat.mod_lt j h.pos
  · exact hnextOut ▸ Nat.mod_lt a h.pos

/-- Reserving a buffer leaves `in` where it is. -/
theorem inIdx_of_getBuf {wordCount : ℕ} {res : Option ℕ}
    (hmsg : (r.getBuf wordCount).2 = res) :
    ∃ r', r.getBuf wordCount = (r', res) ∧ r'.inIdx = r.inIdx := ⟨_, Prod.ext rfl hmsg, rfl⟩

/-- Receiving leaves `in` where it is. -/
theorem recvMsgWithUnpackFunc_inIdx {σ : Type} (pFunc : List UInt8 → ℕ → σ → ℤ × σ) (x : σ) :
    (r.recvMsgWithUnpackFunc pFunc x).1.inIdx = r.inIdx := by
  have hkeep : r.beginRecvMsg.1.inIdx = r.inIdx := rfl
  unfold recvMsgWithUnpackFunc
  cases hbegin : r.beginRecvMsg with
  | mk r' msg =>
    rw [hbegin] at hkeep
    cases msg with
    | none => exact hkeep
    | some held =>
      dsimp only
      split
      · exact hkeep
      · exact hkeep

/-- A call that commits no message leaves `in` where it is. -/
theorem inIdx_of_pending_nil (hrep : Bulk.Rep pBuf n s) (c : Bulk.Call)
    (hquiet : (Bulk.step s c).pending = []) : (Bulk.step s c).ring.inIdx = s.ring.inIdx := by
  cases c with
  | sendMsg pMsg data =>
    by_cases hcopy : pMsg ≠ 0 ∧ (pMsg < s.ring.pBuf ∨ pMsg > s.ring.pBuf + 4 * s.ring.size)
    · simp only [Bulk.step, if_pos hcopy, sendMsg] at hquiet ⊢
      cases hmsg : (s.ring.getBuf data.length).2 with
      | none =>
        obtain ⟨r', hget, hin⟩ := inIdx_of_getBuf hmsg
        rw [hget]
        exact hin
      | some i =>
        obtain ⟨r', hget, -⟩ := inIdx_of_getBuf hmsg
        rw [hget] at hquiet
        simp [Bulk.Sys.commit] at hquiet
    · simp only [Bulk.step, if_neg hcopy, sendMsg, Bulk.Sys.commit, List.append_eq_nil_iff]
        at hquiet ⊢
      obtain ⟨o, i, h, ⟨ys, j, hplaced, -, hys, hnext⟩, -⟩ := hrep
      obtain rfl : ys = [] := by simpa [hys] using hquiet.2
      obtain rfl := hplaced.eq_of_nil
      exact hnext.trans h.in_eq.symm
  | getBufBulk wordCount => rfl
  | fill k off data =>
    simp only [Bulk.step]
    split
    · rfl
    · split
      · rfl
      · rfl
  | sendMsgWithPackFunc msgWordSz ret data =>
    simp only [Bulk.step] at hquiet ⊢
    by_cases hfit : data.length ≤ 4 * tmpWordCnt msgWordSz
    swap
    · rw [if_neg hfit]
    simp only [if_pos hfit, sendMsgWithPackFunc] at hquiet ⊢
    cases hmsg : (s.ring.getBuf msgWordSz).2 with
    | none =>
      obtain ⟨r', hget, hin⟩ := inIdx_of_getBuf hmsg
      rw [hget]
      exact hin
    | some i =>
      obtain ⟨r', hget, hin⟩ := inIdx_of_getBuf hmsg
      rw [hget] at hquiet ⊢
      by_cases hret : ret = 0
      · simp [hret, Bulk.Sys.commit] at hquiet
      · simp only [ne_eq, hret, not_false_eq_true, if_true, if_false]
        exact hin
  | beginRecvMsgBulk max => rfl
  | recvMsgComplete => rfl
  | recvMsgWithUnpackFunc pFunc =>
    simp only [Bulk.step]
    split
    · exact recvMsgWithUnpackFunc_inIdx _ _
    · exact recvMsgWithUnpackFunc_inIdx _ _

/-- An empty ring refuses the same messages until one is sent. -/
theorem getBuf_none_of_quiet (hn : n < 4294967296) (hrep : Bulk.Rep pBuf n s)
    (hempty : s.pending = []) {wordCount : ℕ} (hrefused : (s.ring.getBuf wordCount).2 = none)
    {s' : Bulk.Sys}
    (hs' : Runs.Reachable Bulk.step (fun s c => (Bulk.step s c).pending = []) s s') :
    (s'.ring.getBuf wordCount).2 = none := by
  have hinv : Bulk.Rep pBuf n s' ∧ s'.pending = [] ∧ s'.ring.inIdx = s.ring.inIdx := by
    apply hs'.invariant _ ⟨hrep, hempty, rfl⟩
    rintro s₁ c ⟨hrep₁, hempty₁, hin₁⟩ hquiet
    have hflag := ((rep_pending_nil hrep₁).mp hempty₁).2
    have hstops : Bulk.StopsAtIn s₁ c := by
      cases c with
      | beginRecvMsgBulk max => exact .inl hflag
      | _ => trivial
    exact ⟨Bulk.rep_step hn hrep₁ hstops, hquiet, (inIdx_of_pending_nil hrep₁ c hquiet).trans hin₁⟩
  obtain ⟨hrep', hempty', hin'⟩ := hinv
  obtain ⟨hsame, hflag⟩ := (rep_pending_nil hrep).mp hempty
  obtain ⟨hsame', hflag'⟩ := (rep_pending_nil hrep').mp hempty'
  rw [← Option.not_isSome_iff_eq_none,
    getBuf_isSome_iff (inRange_of_rep hrep) hsame hflag] at hrefused
  rw [← Option.not_isSome_iff_eq_none, getBuf_isSome_iff (inRange_of_rep hrep') hsame'
    hflag', hin']
  exact hrefused

/-- The first message sent to an initialised ring is placed at the top of the storage. -/
theorem getBufBulk_init {size k : ℕ} (hinit : initQuickMsgRing pBuf size = some r)
    (hk : k + 1 < size / 4) :
    r.getBufBulk [4 * k] = ({ r with buf := reserve r.buf 0 k, nextIn := k + 1 }, [reservLen]) := by
  have hres : reservLen = 1 := rfl
  have hcnt : tmpWordCnt (4 * k) = k := by
    rw [tmpWordCnt_eq]
    omega
  unfold initQuickMsgRing at hinit
  split at hinit
  · simp at hinit
  · obtain rfl := Option.some.inj hinit
    have hroom : ¬ size / 4 ≤ k + 1 := by omega
    have htop : k + 1 ≤ size / 4 := by omega
    simp only [getBufBulk, getBufLoop, getBufStep, unused, hcnt, hres]
    simp [hroom, htop, Nat.mod_eq_of_lt hk]

/-- A ring after a message of `k` words was sent and received. -/
def afterOne (r : QuickMsgRing) (k : ℕ) : Bulk.Sys :=
  [.getBufBulk [4 * k], .sendMsg 0 [], .beginRecvMsgBulk 1, .recvMsgComplete].foldl Bulk.step
    (.init r)

/-- It is empty again, and `in` stands behind the message. -/
theorem afterOne_spec {size k : ℕ} (hsize : size < 2 ^ 29)
    (hinit : initQuickMsgRing pBuf size = some r) (hk : k + 1 < size / 4) :
    Runs.Reachable Bulk.step Bulk.StopsAtIn (.init r) (afterOne r k) ∧
      (afterOne r k).pending = [] ∧ (afterOne r k).ring.inIdx = k + 1 := by
  have hn : size / 4 < 4294967296 := by omega
  -- the message is pending after the second call
  let s₁ := Bulk.step (.init r) (.getBufBulk [4 * k])
  let s₂ := Bulk.step s₁ (.sendMsg 0 [])
  have hget : s₁ = ⟨{ r with buf := reserve r.buf 0 k, nextIn := k + 1 },
      [(reservLen, packed (4 * k) [])], [], []⟩ := by
    simp only [s₁, Bulk.step, Bulk.Sys.init, getBufBulk_init hinit hk]
    rfl
  have hin : s₂.ring.inIdx = k + 1 := by
    simp only [s₂, hget]
    rfl
  have hone : s₂.pending.length = 1 := by
    simp only [s₂, hget]
    rfl
  have hsent : Runs.Reachable Bulk.step Bulk.StopsAtIn (.init r) s₂ :=
    .step (i := Bulk.Call.sendMsg 0 [])
      (.step (i := Bulk.Call.getBufBulk [4 * k]) .start trivial) trivial
  have hreach : Runs.Reachable Bulk.step Bulk.StopsAtIn (.init r) (afterOne r k) :=
    .step (i := Bulk.Call.recvMsgComplete)
      (.step (i := Bulk.Call.beginRecvMsgBulk 1) hsent (.inr hone.ge)) trivial
  refine ⟨hreach, ?_, hin⟩
  obtain ⟨o, i, h, -, -⟩ := hsent.invariant (Bulk.rep_step hn) (Bulk.rep_init hinit)
  obtain ⟨k', msgs, heq, hlen, -⟩ := Bulk.beginRecvMsgBulk_spec h hn 1 (.inr hone.ge)
  have hdrop : (afterOne r k).pending = s₂.pending.drop (s₂.ring.beginRecvMsgBulk 1).2.length := rfl
  rw [hdrop, heq]
  apply List.drop_of_length_le
  rw [hlen, hone, Nat.min_self]

/-- An empty ring with `2w + 3` words accepts a message of `w` words, wherever its
indices meet. With fewer words there is an empty state, reached by sending and receiving
one message, in which a message that would fit otherwise is refused, and refused
again until another one is sent. -/
theorem getBuf_of_empty {size : ℕ} (hsize : size < 2 ^ 29)
    (hinit : initQuickMsgRing pBuf size = some r) (bytes : ℕ) :
    (2 * ((bytes + 3) / 4) + 3 ≤ size / 4 →
      ∀ s, Runs.Reachable Bulk.step (fun _ _ => True) (.init r) s →
        s.ring.beginRecvMsg.2 = none → (s.ring.getBuf bytes).2.isSome) ∧
    (∀ s, Runs.Reachable Bulk.step Bulk.StopsAtIn (.init r) s →
      (s.pending = [] ↔ s.ring.beginRecvMsg.2 = none)) ∧
    (1 ≤ (bytes + 3) / 4 → (bytes + 3) / 4 + 1 < size / 4 →
      size / 4 < 2 * ((bytes + 3) / 4) + 3 →
      ∃ s, Runs.Reachable Bulk.step Bulk.StopsAtIn (.init r) s ∧ s.pending = [] ∧
        s.ring.beginRecvMsg.2 = none ∧
        ∀ s', Runs.Reachable Bulk.step (fun s c => (Bulk.step s c).pending = []) s s' →
          (s'.ring.getBuf bytes).2 = none) := by
  have hn : size / 4 < 4294967296 := by omega
  have hrep : ∀ {s}, Runs.Reachable Bulk.step Bulk.StopsAtIn (.init r) s →
      Bulk.Rep pBuf (size / 4) s :=
    fun hs => hs.invariant (Bulk.rep_step hn) (Bulk.rep_init hinit)
  refine ⟨?_, ?_, ?_⟩
  · intro hroom s hs hnone
    have hrange : InRange (size / 4) s.ring := by
      apply hs.invariant _ (inRange_init hinit)
      exact fun h _ => inRange_step h _
    have hin := hrange.in_lt
    obtain ⟨hsame, hflag⟩ := beginRecvMsg_none_iff.mp hnone
    rw [getBuf_isSome_iff hrange hsame hflag, tmpWordCnt_eq]
    omega
  · intro s hs
    rw [rep_pending_nil (hrep hs), beginRecvMsg_none_iff]
  · intro hpos hfits hshort
    obtain ⟨hreach, hempty, hin⟩ :=
      afterOne_spec hsize hinit (k := size / 4 - (bytes + 3) / 4 - 1) (by omega)
    obtain ⟨hsame, hflag⟩ := (rep_pending_nil (hrep hreach)).mp hempty
    have hrefused : ((afterOne r (size / 4 - (bytes + 3) / 4 - 1)).ring.getBuf bytes).2 = none := by
      rw [← Option.not_isSome_iff_eq_none,
        getBuf_isSome_iff (inRange_of_rep (hrep hreach)) hsame hflag, hin, tmpWordCnt_eq]
      omega
    exact ⟨_, hreach, hempty, beginRecvMsg_none_iff.mpr ⟨hsame, hflag⟩,
      fun s' hs' => getBuf_none_of_quiet hn (hrep hreach) hempty hrefused hs'⟩

/-- A ring of eight words may refuse a message of three although it is empty. -/
theorem getBuf_of_empty_eight_words :
    ∃ s : Bulk.Sys,
      s.pending = [] ∧ s.ring.beginRecvMsg.2 = none ∧ (s.ring.getBuf 12).2 = none := by
  have hinit : initQuickMsgRing 1000 32 = some _ := rfl
  obtain ⟨-, -, hrefused⟩ := getBuf_of_empty (by decide) hinit 12
  obtain ⟨s, -, hempty, hnone, hretry⟩ := hrefused (by decide) (by decide) (by decide)
  exact ⟨s, hempty, hnone, hretry s .start⟩

end Room

end TestMac.QuickMsgRing
