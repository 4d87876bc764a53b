import TestMac.Ring.QuickMsgRingFifo

/-!
# Many messages at once

The bulk calls of the ring and the single ones, made in any order. The producer
may hold many buffers that are not committed, and the consumer many messages
that are not completed. The loop of `QuickMsgRingBeginRecvMsgBulk` stops at `in`
only while `emptyFlag` is set, and `QuickMsgRingRecvMsgComplete` clears it when
it leaves a message behind.
-/

namespace TestMac.QuickMsgRing

open Bytes Framing

/-- `n` pairs of `QuickMsgRingBeginRecvMsg` and `QuickMsgRingRecvMsgComplete`. -/
def recvSingles : ℕ → QuickMsgRing → QuickMsgRing × List (ℕ × ℕ)
  | 0, r => (r, [])
  | n + 1, r =>
    let (r', got) := r.beginRecvMsg
    let (r'', msgs) := recvSingles n r'.recvMsgComplete
    (r'', got.toList ++ msgs)

/-- The words that the loop of `QuickMsgRingBeginRecvMsgBulk` reads, in order. -/
def beginRecvReads (r : QuickMsgRing) : ℕ → ℕ → List ℕ
  | 0, _ => []
  | k + 1, tmpOut =>
    if tmpOut = r.inIdx ∧ r.emptyFlag = true then []
    else
      let start := if word r.buf tmpOut = r.size then 0 else tmpOut
      tmpOut :: start ::
        r.beginRecvReads k ((start + (word r.buf start + reservLen)) % 4294967296 % r.size)

/-- The word lies between `out` and `in`. -/
def Committed (r : QuickMsgRing) (x : ℕ) : Prop :=
  (x + r.size - r.outIdx) % r.size < (r.inIdx + r.size - r.outIdx) % r.size

instance (r : QuickMsgRing) (x : ℕ) : Decidable (r.Committed x) :=
  inferInstanceAs (Decidable (_ < _))

namespace Bulk

/-- A call of the producer or of the consumer. `QuickMsgRingGetBuf` and
`QuickMsgRingBeginRecvMsg` are the bulk calls for one message. -/
inductive Call
  /-- `QuickMsgRingSendMsg` of the buffer at `pMsg`, which holds `data`. -/
  | sendMsg (pMsg : ℕ) (data : List UInt8)
  /-- `QuickMsgRingGetBufBulk`. -/
  | getBufBulk (wordCount : List ℕ)
  /-- The producer writes `data` at an offset of the `k`-th buffer it reserved. -/
  | fill (k off : ℕ) (data : List UInt8)
  /-- `QuickMsgRingSendMsgWithPackFunc`; the callback writes `data` and returns `ret`. -/
  | sendMsgWithPackFunc (msgWordSz : ℕ) (ret : ℤ) (data : List UInt8)
  /-- `QuickMsgRingBeginRecvMsgBulk`. -/
  | beginRecvMsgBulk (maxMsgCount : ℕ)
  /-- `QuickMsgRingRecvMsgComplete`. -/
  | recvMsgComplete
  /-- `QuickMsgRingRecvMsgWithUnpackFunc` with a callback that returns `pFunc`. -/
  | recvMsgWithUnpackFunc (pFunc : List UInt8 → ℕ → ℤ)

/-- The ring with what its two users hold and what lies between them. -/
structure Sys where
  ring : QuickMsgRing
  /-- The buffers reserved by the producer's last call, as composed so far. -/
  resv : List (ℕ × Msg)
  /-- What the consumer's last call found and has not completed. -/
  held : List (ℕ × ℕ)
  /-- The messages committed and not yet removed. -/
  pending : List Msg

/-- The ring before the first call. -/
def Sys.init (r : QuickMsgRing) : Sys := { ring := r, resv := [], held := [], pending := [] }

/-- A commit moves `in` behind the reserved buffers. -/
def Sys.commit (s : Sys) (r : QuickMsgRing) (msgs : List Msg) : Sys :=
  { s with ring := r, resv := [], pending := s.pending ++ msgs }

/-- A completion moves `out` behind the messages held. -/
def Sys.complete (s : Sys) (r : QuickMsgRing) (held : List (ℕ × ℕ)) : Sys :=
  { s with ring := r, held := [], pending := s.pending.drop held.length }

/-- One call. Any call may be made at any time; only a write that does not fit
the buffer it is made to is left out. -/
def step (s : Sys) : Call → Sys
  | .sendMsg pMsg data =>
    if pMsg ≠ 0 ∧ (pMsg < s.ring.pBuf ∨ pMsg > s.ring.pBuf + 4 * s.ring.size) then
      let (r, ret) := s.ring.sendMsg pMsg data
      if ret = success then s.commit r [packed data.length data]
      else { s with ring := r, resv := [] }
    else s.commit (s.ring.sendMsg pMsg data).1 (s.resv.map Prod.snd)
  | .getBufBulk wordCount =>
    let (r, msgs) := s.ring.getBufBulk wordCount
    { s with ring := r, resv := msgs.zip (wordCount.map fun w => packed w []) }
  | .fill k off data =>
    match s.resv[k]? with
    | none => s
    | some (i, m) =>
      if off + data.length ≤ 4 * m.msgLen then
        { s with
          ring := { s.ring with buf := store s.ring.buf (4 * i + off) data }
          resv := s.resv.set k (i, { m with payload := overwrite m.payload off data }) }
      else s
  | .sendMsgWithPackFunc msgWordSz ret data =>
    if data.length ≤ 4 * tmpWordCnt msgWordSz then
      let (r, res) := s.ring.sendMsgWithPackFunc msgWordSz (ret, data)
      let resv := (s.ring.getBuf msgWordSz).2.toList.map fun i => (i, packed msgWordSz data)
      if res = 0 then s.commit r (resv.map Prod.snd) else { s with ring := r, resv := resv }
    else s
  | .beginRecvMsgBulk maxMsgCount =>
    let (r, msgs) := s.ring.beginRecvMsgBulk maxMsgCount
    { s with ring := r, held := msgs }
  | .recvMsgComplete => s.complete s.ring.recvMsgComplete s.held
  | .recvMsgWithUnpackFunc pFunc =>
    let (r, ret, _) := s.ring.recvMsgWithUnpackFunc
      (fun data msgLen _ => (pFunc data msgLen, ())) ()
    let held := s.ring.beginRecvMsg.2.toList
    if ret = 0 then s.complete r held else { s with ring := r, held := held }

/-- The loop of a bulk receive stops at `in`: it tests for that, or it asks for
no more than there is. -/
def StopsAtIn (s : Sys) : Call → Prop
  | .beginRecvMsgBulk maxMsgCount =>
    s.ring.emptyFlag = true ∨ maxMsgCount ≤ s.pending.length
  | _ => True

instance (s : Sys) (c : Call) : Decidable (StopsAtIn s c) := by
  unfold StopsAtIn
  split <;> infer_instance

/-- The reserved buffers lie end to end behind `in` and end at `nextIn`. -/
def Reserved (n : ℕ) (r : QuickMsgRing) (o i : ℕ) (resv : List (ℕ × Msg)) : Prop :=
  ∃ ys j, (framing n).Placed n (cells r.buf) i ys j ∧ j < o + n ∧
    resv = ys.map (fun y => (y.1 + reservLen, y.2)) ∧ r.nextIn = j % n

/-- The messages held are the first of the queue and `nextOut` is behind them. -/
def Received (n : ℕ) (r : QuickMsgRing) (o i : ℕ) (q : List Msg) (held : List (ℕ × ℕ)) : Prop :=
  ∃ xs q' a, (framing n).Placed n (cells r.buf) o xs a ∧
    (framing n).Queue n (cells r.buf) a q' i ∧ q = xs.map Prod.snd ++ q' ∧
    held = xs.map (fun x => (x.1 + reservLen, x.2.msgLen)) ∧ r.nextOut = a % n

/-- The ring holds what is pending. -/
def Rep (pBuf n : ℕ) (s : Sys) : Prop :=
  ∃ o i, Holds pBuf n s.ring s.pending o i ∧ Reserved n s.ring o i s.resv ∧
    Received n s.ring o i s.pending s.held

section Producer

variable {pBuf n o i idx : ℕ} {r r' : QuickMsgRing} {q : List Msg} {m : Msg}
  {resv : List (ℕ × Msg)} {held : List (ℕ × ℕ)}

/-- What the producer writes does not reach the messages held by the consumer. -/
theorem Received.write (h : Holds pBuf n r q o i) (hrecv : Received n r o i q held)
    (hw : Writes n o i r r') : Received n r' o i q held := by
  obtain ⟨xs, q', a, hplaced, hqueue, hq, hheld, hnext⟩ := hrecv
  have hoa := placed_le h.pos hplaced
  have hai := queue_le h.pos hqueue
  have hkeep : ∀ x, o ≤ x → x < i → cells r.buf (x % n) = cells r'.buf (x % n) :=
    fun x hox hxi => hw.buf.eq_of_before hxi (by omega)
  exact ⟨xs, q', a, placed_congr h.pos (fun x hox hxa => hkeep x hox (by omega)) hplaced,
    queue_congr h.pos (fun x hax hxi => hkeep x (by omega) hxi) hqueue, hq, hheld,
    hw.nextOut.trans hnext⟩

/-- `QuickMsgRingGetBufBulk` reserves cleared messages, as long as asked for. -/
theorem getBufBulk_spec (h : Holds pBuf n r q o i) (hn : n < 4294967296) (lens : List ℕ) :
    ∃ r' msgs, r.getBufBulk lens = (r', msgs) ∧ Writes n o i r r' ∧
      Reserved n r' o i (msgs.zip (lens.map fun w => packed w [])) := by
  obtain ⟨ys, j, buf', heq, hplaced, hj, hagree, hlens⟩ :=
    getBufLoop_spec h.size_eq hn h.out_eq lens r.buf (queue_le h.pos h.queue) h.lt_lap h.empty
  refine ⟨{ r with buf := buf', nextIn := j % n }, ys.map fun y => y.1 + reservLen, ?_,
    ⟨hagree, rfl, rfl, rfl, rfl, rfl, rfl⟩, ys, j, hplaced, hj, hlens, rfl⟩
  rw [getBufBulk, h.in_eq, heq]

/-- `QuickMsgRingGetBuf` reserves at most one cleared message. -/
theorem getBuf_spec (h : Holds pBuf n r q o i) (hn : n < 4294967296) (wordCount : ℕ) :
    ∃ r' msg, r.getBuf wordCount = (r', msg) ∧ Writes n o i r r' ∧
      Reserved n r' o i (msg.toList.map fun idx => (idx, packed wordCount [])) := by
  obtain ⟨r', msgs, heq, hw, hresv⟩ := getBufBulk_spec h hn [wordCount]
  refine ⟨r', msgs.head?, by rw [getBuf, heq], hw, ?_⟩
  cases msgs with
  | nil => exact hresv
  | cons idx rest =>
    rw [List.map_cons, List.zip_cons_cons, List.map_nil, List.zip_nil_right] at hresv
    exact hresv

/-- The producer may compose any of the reserved messages as it likes. -/
theorem Reserved.fill {k : ℕ} (off : ℕ) {data : List UInt8} (h : Holds pBuf n r q o i)
    (hresv : Reserved n r o i resv) (hk : resv[k]? = some (idx, m))
    (hfit : off + data.length ≤ 4 * m.msgLen) :
    Writes n o i r { r with buf := store r.buf (4 * idx + off) data } ∧
    Reserved n { r with buf := store r.buf (4 * idx + off) data } o i
      (resv.set k (idx, { m with payload := overwrite m.payload off data })) := by
  obtain ⟨ys, j, hplaced, hj, rfl, hnext⟩ := hresv
  have hle := queue_le h.pos h.queue
  rw [List.getElem?_map, Option.map_eq_some_iff] at hk
  obtain ⟨⟨p, m'⟩, hk, hpm⟩ := hk
  obtain ⟨rfl, rfl⟩ := Prod.mk.inj hpm
  obtain ⟨hplaced', hagree⟩ := placed_rewrite h.pos
    (cells (store r.buf (4 * (p + reservLen) + off) data))
    { m' with payload := overwrite m'.payload off data } hplaced (by omega) hk
    fun len hhere => here_fill hhere hfit
  exact ⟨⟨hagree.mono le_rfl hj.le, rfl, rfl, rfl, rfl, rfl, rfl⟩, _, j, hplaced', hj,
    by rw [List.map_set], hnext⟩

/-- Filling a cleared message from its start gives the packed message. -/
theorem Reserved.pack {wordCount : ℕ} {data : List UInt8} (h : Holds pBuf n r q o i)
    (hresv : Reserved n r o i [(idx, packed wordCount [])])
    (hfit : data.length ≤ 4 * tmpWordCnt wordCount) :
    Writes n o i r { r with buf := store r.buf (4 * idx) data } ∧
    Reserved n { r with buf := store r.buf (4 * idx) data } o i
      [(idx, packed wordCount data)] := by
  have hpacked : { packed wordCount [] with
      payload := overwrite (packed wordCount []).payload 0 data } = packed wordCount data := by
    simp [packed, overwrite]
  have hfilled := Reserved.fill (k := 0) 0 h hresv rfl (by simpa [packed] using hfit)
  rwa [hpacked] at hfilled

/-- Committing the reserved messages appends them to the queue. -/
theorem Reserved.commit (h : Holds pBuf n r q o i) (hresv : Reserved n r o i resv)
    (hrecv : Received n r o i q held) :
    ∃ j, Holds pBuf n { r with inIdx := r.nextIn } (q ++ resv.map Prod.snd) o j ∧
      Reserved n { r with inIdx := r.nextIn } o j [] ∧
      Received n { r with inIdx := r.nextIn } o j (q ++ resv.map Prod.snd) held := by
  obtain ⟨ys, j, hplaced, hj, rfl, hnext⟩ := hresv
  have hmsgs : (ys.map fun y => (y.1 + reservLen, y.2)).map Prod.snd = ys.map Prod.snd := by
    rw [List.map_map]
    rfl
  have hqueue : (framing n).Queue n (cells r.buf) i (ys.map Prod.snd) j := placed_queue hplaced
  have hoi := queue_le h.pos h.queue
  have hij := queue_le h.pos hqueue
  rw [hmsgs]
  refine ⟨j, ?_, ⟨[], j, .nil j, hj, rfl, hnext⟩, ?_⟩
  · exact { h with
      in_eq := hnext
      lt_lap := hj
      empty := fun hjo => h.empty (by omega)
      queue := h.queue.trans hqueue }
  · obtain ⟨xs, q', a, hfound, hrest, rfl, hheld⟩ := hrecv
    exact ⟨xs, q' ++ ys.map Prod.snd, a, hfound, hrest.trans hqueue, by rw [List.append_assoc],
      hheld⟩

/-- A pointer handed out by `QuickMsgRingGetBuf` passes for a buffer of the ring. -/
theorem sendMsg_reserved (h : Holds pBuf n r q o i) (hresv : Reserved n r o i resv)
    (hmem : (idx, m) ∈ resv) (data : List UInt8) :
    r.sendMsg (r.pBuf + 4 * idx) data = ({ r with inIdx := r.nextIn }, success) := by
  obtain ⟨ys, j, hplaced, -, rfl, -⟩ := hresv
  obtain ⟨⟨p, m'⟩, hy, hpm⟩ := List.mem_map.mp hmem
  obtain ⟨rfl, rfl⟩ := Prod.mk.inj hpm
  have hfit := placed_fits h.pos hplaced hy
  have hsize := h.size_eq
  have hres : reservLen = 1 := rfl
  rw [sendMsg, if_neg (by omega)]

end Producer

section Consumer

variable {pBuf n o i : ℕ} {r r' : QuickMsgRing} {q : List Msg} {resv : List (ℕ × Msg)}
  {held : List (ℕ × ℕ)}

/-- From the position of a message on, the loop of a bulk receive finds the
messages that follow, as many as asked for, when it stops at `in`. -/
theorem beginRecvLoop_spec (h : Holds pBuf n r q o i) (hn : n < 4294967296) {a : ℕ}
    {q' : List Msg} (hoa : o ≤ a) (hqueue : (framing n).Queue n (cells r.buf) a q' i) (max : ℕ)
    (hstops : r.emptyFlag = true ∨ max ≤ q'.length) :
    ∃ xs b q'', r.beginRecvLoop max (a % n) =
        (xs.map fun x => (x.1 + reservLen, x.2.msgLen), b % n) ∧
      (framing n).Placed n (cells r.buf) a xs b ∧ (framing n).Queue n (cells r.buf) b q'' i ∧
      q' = xs.map Prod.snd ++ q'' ∧ xs.length = min max q'.length := by
  have hlap := h.lt_lap
  induction max generalizing a q' with
  | zero => exact ⟨[], a, q', rfl, .nil a, hqueue, rfl, by simp⟩
  | succ max ih =>
    cases q' with
    | nil =>
      obtain rfl : a = i := (queue_eq_nil_iff h.pos hqueue).mp rfl
      have hflag : r.emptyFlag = true := by simpa using hstops
      have hstop : r.beginRecvLoop (max + 1) (a % n) = ([], a % n) := by
        rw [beginRecvLoop, if_pos ⟨h.in_eq.symm, hflag⟩]
      exact ⟨[], a, [], hstop, .nil a, hqueue, rfl, by simp⟩
    | cons m q'' =>
      obtain ⟨b, ⟨p, hframe⟩, hrest⟩ := hqueue.cons_inv
      have hab := hframe.lt h.pos
      have hbi := queue_le h.pos hrest
      have hne : a % n ≠ r.inIdx := by
        rw [h.in_eq]
        exact index_ne_of_window (by omega) (by omega)
      obtain ⟨xs, c, q₃, heq, hplaced, hqueue', rfl, hlen⟩ :=
        ih (a := b) (by omega) hrest (by simpa using hstops)
      refine ⟨(p, m) :: xs, c, q₃, ?_, .cons hframe hplaced, hqueue', rfl, ?_⟩
      · rw [beginRecvLoop_frame h.pos h.size_eq hn hframe fun hsame => hne hsame.1, heq,
          List.map_cons]
      · simp only [List.length_cons, hlen]
        omega

/-- What the placed messages hold is read where they are found. -/
theorem readMsg_of_placed {xs : List (ℕ × Msg)} {a : ℕ} (hpos : 0 < n)
    (hplaced : (framing n).Placed n (cells r.buf) o xs a) :
    (xs.map fun x => (x.1 + reservLen, x.2.msgLen)).map (readMsg r.buf) = xs.map Prod.snd := by
  rw [List.map_map]
  apply List.map_congr_left
  rintro ⟨p, m⟩ hx
  obtain ⟨len, hhere⟩ := placed_here hpos hplaced hx
  exact (here_iff.mp hhere).2.2.2.symm

/-- The messages held are read as the first of the queue. -/
theorem Received.content (hpos : 0 < n) (hrecv : Received n r o i q held) :
    held.map (readMsg r.buf) = q.take held.length := by
  obtain ⟨xs, q', a, hplaced, -, rfl, rfl, -⟩ := hrecv
  rw [readMsg_of_placed hpos hplaced, List.length_map, List.take_left' (List.length_map _)]

/-- `QuickMsgRingBeginRecvMsgBulk` finds the first messages of the queue. -/
theorem beginRecvMsgBulk_spec (h : Holds pBuf n r q o i) (hn : n < 4294967296) (max : ℕ)
    (hstops : r.emptyFlag = true ∨ max ≤ q.length) :
    ∃ k msgs, r.beginRecvMsgBulk max = ({ r with nextOut := k }, msgs) ∧
      msgs.length = min max q.length ∧ Received n { r with nextOut := k } o i q msgs := by
  obtain ⟨xs, b, q'', heq, hplaced, hqueue, hq, hlen⟩ :=
    beginRecvLoop_spec h hn le_rfl h.queue max hstops
  refine ⟨b % n, _, ?_, ?_, xs, q'', b, hplaced, hqueue, hq, rfl, rfl⟩
  · rw [beginRecvMsgBulk, h.out_eq, heq]
  · rw [List.length_map, hlen]

/-- `QuickMsgRingBeginRecvMsg` finds the first message of the queue. -/
theorem beginRecvMsg_spec (h : Holds pBuf n r q o i) (hn : n < 4294967296) :
    ∃ k msg, r.beginRecvMsg = ({ r with nextOut := k }, msg) ∧
      Received n { r with nextOut := k } o i q msg.toList := by
  have hstops : r.emptyFlag = true ∨ 1 ≤ q.length := by
    cases q with
    | nil => exact .inl (h.empty ((queue_eq_nil_iff h.pos h.queue).mp rfl).symm)
    | cons m q => exact .inr (by simp)
  obtain ⟨k, msgs, heq, hlen, hrecv⟩ := beginRecvMsgBulk_spec h hn 1 hstops
  refine ⟨k, msgs.head?, by rw [beginRecvMsg, heq], ?_⟩
  cases msgs with
  | nil => exact hrecv
  | cons msg rest =>
    obtain rfl : rest = [] := by
      apply List.eq_nil_of_length_eq_zero
      simp only [List.length_cons] at hlen
      omega
    exact hrecv

/-- `QuickMsgRingRecvMsgComplete` removes the messages held. -/
theorem Received.complete (h : Holds pBuf n r q o i) (hrecv : Received n r o i q held) :
    ∃ a, o ≤ a ∧ Holds pBuf n r.recvMsgComplete (q.drop held.length) a i ∧
      Received n r.recvMsgComplete a i (q.drop held.length) [] := by
  obtain ⟨xs, q', a, hplaced, hqueue, rfl, rfl, hnext⟩ := hrecv
  have hoa := placed_le h.pos hplaced
  rw [List.length_map, List.drop_left' (List.length_map _)]
  exact ⟨a, hoa, h.complete hoa hqueue hnext, [], q', a, .nil a, hqueue, rfl, rfl, hnext⟩

/-- Reserved messages survive the consumer's progress. -/
theorem Reserved.mono {o' : ℕ} (hresv : Reserved n r o i resv) (hbuf : r'.buf = r.buf)
    (hnext : r'.nextIn = r.nextIn) (hle : o ≤ o') : Reserved n r' o' i resv := by
  obtain ⟨ys, j, hplaced, hj, hys, hk⟩ := hresv
  exact ⟨ys, j, hbuf ▸ hplaced, by omega, hys, hnext.trans hk⟩

end Consumer

section Steps

variable {pBuf n : ℕ} {s : Sys}

/-- A buffer from elsewhere is copied and committed, any other pointer commits
what is reserved. -/
theorem rep_sendMsg (hn : n < 4294967296) (hrep : Rep pBuf n s) (pMsg : ℕ) (data : List UInt8) :
    Rep pBuf n (step s (.sendMsg pMsg data)) := by
  obtain ⟨o, i, h, hresv, hrecv⟩ := hrep
  by_cases hcopy : pMsg ≠ 0 ∧ (pMsg < s.ring.pBuf ∨ pMsg > s.ring.pBuf + 4 * s.ring.size)
  swap
  · obtain ⟨j, h', hresv', hrecv'⟩ := hresv.commit h hrecv
    simp only [step, sendMsg, if_neg hcopy]
    exact ⟨o, j, h', hresv', hrecv'⟩
  obtain ⟨r', msg, heq, hw, hresv'⟩ := getBuf_spec h hn data.length
  have h' := h.write hw
  have hrecv' := hrecv.write h hw
  simp only [step, if_pos hcopy, sendMsg, heq]
  cases msg with
  | none => exact ⟨o, i, h', hresv', hrecv'⟩
  | some idx =>
    have hfit : data.length ≤ 4 * tmpWordCnt data.length := by
      rw [tmpWordCnt_eq]
      omega
    obtain ⟨hw', hpacked⟩ := Reserved.pack h' hresv' hfit
    obtain ⟨j, h'', hresv'', hrecv''⟩ := hpacked.commit (h'.write hw') (hrecv'.write h' hw')
    exact ⟨o, j, h'', hresv'', hrecv''⟩

theorem rep_getBufBulk (hn : n < 4294967296) (hrep : Rep pBuf n s) (wordCount : List ℕ) :
    Rep pBuf n (step s (.getBufBulk wordCount)) := by
  obtain ⟨o, i, h, -, hrecv⟩ := hrep
  obtain ⟨r', msgs, heq, hw, hresv⟩ := getBufBulk_spec h hn wordCount
  simp only [step, heq]
  exact ⟨o, i, h.write hw, hresv, hrecv.write h hw⟩

theorem rep_fill (hrep : Rep pBuf n s) (k off : ℕ) (data : List UInt8) :
    Rep pBuf n (step s (.fill k off data)) := by
  simp only [step]
  cases hk : s.resv[k]? with
  | none => exact hrep
  | some x =>
    obtain ⟨idx, m⟩ := x
    obtain ⟨o, i, h, hresv, hrecv⟩ := hrep
    by_cases hfit : off + data.length ≤ 4 * m.msgLen
    · obtain ⟨hw, hfilled⟩ := hresv.fill off h hk hfit
      simp only [if_pos hfit]
      exact ⟨o, i, h.write hw, hfilled, hrecv.write h hw⟩
    · simp only [if_neg hfit]
      exact ⟨o, i, h, hresv, hrecv⟩

/-- The message of a failing callback stays reserved and is not committed. -/
theorem rep_sendMsgWithPackFunc (hn : n < 4294967296) (hrep : Rep pBuf n s) (msgWordSz : ℕ)
    (ret : ℤ) (data : List UInt8) :
    Rep pBuf n (step s (.sendMsgWithPackFunc msgWordSz ret data)) := by
  simp only [step]
  by_cases hfit : data.length ≤ 4 * tmpWordCnt msgWordSz
  swap
  · rw [if_neg hfit]
    exact hrep
  obtain ⟨o, i, h, -, hrecv⟩ := hrep
  obtain ⟨r', msg, heq, hw, hresv⟩ := getBuf_spec h hn msgWordSz
  have h' := h.write hw
  have hrecv' := hrecv.write h hw
  simp only [if_pos hfit, sendMsgWithPackFunc, heq]
  cases msg with
  | none => exact ⟨o, i, h', hresv, hrecv'⟩
  | some idx =>
    obtain ⟨hw', hpacked⟩ := Reserved.pack h' hresv hfit
    by_cases hret : ret = 0
    · have hsend := sendMsg_reserved (h'.write hw') hpacked (List.mem_singleton.mpr rfl)
      obtain ⟨j, h'', hresv'', hrecv''⟩ := hpacked.commit (h'.write hw') (hrecv'.write h' hw')
      simp only [hret, ne_eq, not_true_eq_false, if_false, if_true, hsend]
      exact ⟨o, j, h'', hresv'', hrecv''⟩
    · simp only [ne_eq, hret, not_false_eq_true, if_true, if_false]
      exact ⟨o, i, h'.write hw', hpacked, hrecv'.write h' hw'⟩

theorem rep_beginRecvMsgBulk (hn : n < 4294967296) (hrep : Rep pBuf n s) {max : ℕ}
    (hstops : StopsAtIn s (.beginRecvMsgBulk max)) :
    Rep pBuf n (step s (.beginRecvMsgBulk max)) := by
  obtain ⟨o, i, h, hresv, -⟩ := hrep
  obtain ⟨k, msgs, heq, -, hrecv⟩ := beginRecvMsgBulk_spec h hn max hstops
  simp only [step, heq]
  exact ⟨o, i, { h with }, hresv.mono rfl rfl le_rfl, hrecv⟩

theorem rep_recvMsgComplete (hrep : Rep pBuf n s) : Rep pBuf n (step s .recvMsgComplete) := by
  obtain ⟨o, i, h, hresv, hrecv⟩ := hrep
  obtain ⟨a, hoa, h', hrecv'⟩ := hrecv.complete h
  exact ⟨a, i, h', hresv.mono rfl rfl hoa, hrecv'⟩

/-- The message leaves the ring when the callback accepts it. -/
theorem rep_recvMsgWithUnpackFunc (hn : n < 4294967296) (hrep : Rep pBuf n s)
    (pFunc : List UInt8 → ℕ → ℤ) : Rep pBuf n (step s (.recvMsgWithUnpackFunc pFunc)) := by
  obtain ⟨o, i, h, hresv, -⟩ := hrep
  obtain ⟨k, msg, heq, hrecv⟩ := beginRecvMsg_spec h hn
  have h' : Holds pBuf n { s.ring with nextOut := k } s.pending o i := { h with }
  simp only [step, recvMsgWithUnpackFunc, heq]
  cases msg with
  | none => exact ⟨o, i, h', hresv.mono rfl rfl le_rfl, hrecv⟩
  | some held =>
    by_cases hret : pFunc (slice s.ring.buf (4 * held.1) (4 * held.2)) held.2 = 0
    · obtain ⟨a, hoa, h'', hrecv'⟩ := hrecv.complete h'
      simp only [hret, ne_eq, not_true_eq_false, if_false, if_true]
      exact ⟨a, i, h'', hresv.mono rfl rfl hoa, hrecv'⟩
    · simp only [ne_eq, hret, not_false_eq_true, if_true, if_false]
      exact ⟨o, i, h', hresv.mono rfl rfl le_rfl, hrecv⟩

/-- Every call whose receiving loop stops at `in` keeps the ring in order. -/
theorem rep_step (hn : n < 4294967296) {c : Call} (hrep : Rep pBuf n s) (hstops : StopsAtIn s c) :
    Rep pBuf n (step s c) := by
  cases c with
  | sendMsg pMsg data => exact rep_sendMsg hn hrep pMsg data
  | getBufBulk wordCount => exact rep_getBufBulk hn hrep wordCount
  | fill k off data => exact rep_fill hrep k off data
  | sendMsgWithPackFunc msgWordSz ret data =>
      exact rep_sendMsgWithPackFunc hn hrep msgWordSz ret data
  | beginRecvMsgBulk max => exact rep_beginRecvMsgBulk hn hrep hstops
  | recvMsgComplete => exact rep_recvMsgComplete hrep
  | recvMsgWithUnpackFunc pFunc => exact rep_recvMsgWithUnpackFunc hn hrep pFunc

/-- An initialised ring has nothing pending. -/
theorem rep_init {size : ℕ} {r : QuickMsgRing} (hinit : initQuickMsgRing pBuf size = some r) :
    Rep pBuf (size / 4) (.init r) := by
  obtain ⟨o, i, h, -, -⟩ := QuickMsgRing.rep_init hinit
  unfold initQuickMsgRing at hinit
  split at hinit
  · simp at hinit
  · obtain rfl := Option.some.inj hinit
    have hzero : 0 = 0 % (size / 4) := (Nat.zero_mod _).symm
    refine ⟨0, 0, ?_, ⟨[], 0, .nil 0, by omega, rfl, hzero⟩, [], [], 0, .nil 0, .nil 0, rfl, rfl,
      hzero⟩
    exact { h with
      out_eq := hzero
      in_eq := hzero
      lt_lap := by omega
      empty := fun _ => rfl
      queue := .nil 0 }

end Steps

/-- What a bulk receive should be: it finds the first messages pending, as many as
`maxMsgCount` allows, where single receives find them and with the same `nextOut`, and
reads no word that is not between `out` and `in`. -/
structure LikeSingles (s : Sys) (max : ℕ) : Prop where
  count : (s.ring.beginRecvMsgBulk max).2.length = min max s.pending.length
  content : (s.ring.beginRecvMsgBulk max).2.map (readMsg s.ring.buf) = s.pending.take max
  msgs : (s.ring.beginRecvMsgBulk max).2 = (recvSingles (min max s.pending.length) s.ring).2
  out : (s.ring.beginRecvMsgBulk max).1.nextOut =
    (recvSingles (min max s.pending.length) s.ring).1.outIdx
  nextOut : 0 < min max s.pending.length → (s.ring.beginRecvMsgBulk max).1.nextOut =
    (recvSingles (min max s.pending.length) s.ring).1.nextOut
  reads : ∀ x ∈ s.ring.beginRecvReads max s.ring.outIdx, s.ring.Committed x

section Receiving

variable {pBuf n o i : ℕ} {r : QuickMsgRing} {q : List Msg}

/-- Single receives find the same messages one after the other. -/
theorem recvSingles_spec (hn : n < 4294967296) {xs : List (ℕ × Msg)} {q' : List Msg} {a : ℕ}
    (h : Holds pBuf n r q o i) (hplaced : (framing n).Placed n (cells r.buf) o xs a)
    (hqueue : (framing n).Queue n (cells r.buf) a q' i) :
    (recvSingles xs.length r).2 = xs.map (fun x => (x.1 + reservLen, x.2.msgLen)) ∧
      (recvSingles xs.length r).1.outIdx = a % n ∧
      (0 < xs.length → (recvSingles xs.length r).1.nextOut = a % n) := by
  induction xs generalizing r q o with
  | nil =>
    obtain rfl := hplaced.eq_of_nil
    exact ⟨rfl, h.out_eq, fun hpos => absurd hpos (lt_irrefl 0)⟩
  | cons x xs ih =>
    obtain ⟨b, hframe, hrest⟩ := hplaced.cons_inv
    have hob := hframe.lt h.pos
    have hba := placed_le h.pos hrest
    have hai := queue_le h.pos hqueue
    have hlap := h.lt_lap
    have hne : o % n ≠ r.inIdx := by
      rw [h.in_eq]
      exact index_ne_of_window (by omega) hlap
    have hround : r.beginRecvLoop 1 r.outIdx = ([(x.1 + reservLen, x.2.msgLen)], b % n) := by
      rw [h.out_eq]
      exact beginRecvLoop_frame h.pos h.size_eq hn hframe fun hsame => hne hsame.1
    have hbegin : r.beginRecvMsg = ({ r with nextOut := b % n },
        some (x.1 + reservLen, x.2.msgLen)) := by
      simp only [beginRecvMsg, beginRecvMsgBulk, hround, List.head?_cons]
    have hnext : Holds pBuf n { r with nextOut := b % n } q o i := { h with }
    have hdone := hnext.complete hob.le ((placed_queue hrest).trans hqueue) rfl
    obtain ⟨hmsgs, hout, hlast⟩ := ih hdone hrest hqueue
    simp only [List.length_cons, recvSingles, hbegin]
    refine ⟨?_, hout, fun _ => ?_⟩
    · rw [hmsgs]
      rfl
    · cases xs with
      | nil =>
        obtain rfl := hrest.eq_of_nil
        rfl
      | cons y ys => exact hlast (Nat.succ_pos _)

/-- A position between those of `out` and `in` is a committed word. -/
theorem committed_of_between (h : Holds pBuf n r q o i) {y : ℕ} (hoy : o ≤ y) (hyi : y < i) :
    r.Committed (y % n) := by
  have hlap := h.lt_lap
  rw [Committed, h.size_eq, h.out_eq, h.in_eq, lap_distance hoy (by omega),
    lap_distance (by omega) hlap]
  omega

/-- A loop that stops at `in` reads committed words only. -/
theorem beginRecvReads_spec (h : Holds pBuf n r q o i) (hn : n < 4294967296) {a : ℕ}
    {q' : List Msg} (hoa : o ≤ a) (hqueue : (framing n).Queue n (cells r.buf) a q' i) (max : ℕ)
    (hstops : r.emptyFlag = true ∨ max ≤ q'.length) :
    ∀ x ∈ r.beginRecvReads max (a % n), r.Committed x := by
  have hlap := h.lt_lap
  induction max generalizing a q' with
  | zero => simp [beginRecvReads]
  | succ max ih =>
    cases q' with
    | nil =>
      obtain rfl : a = i := (queue_eq_nil_iff h.pos hqueue).mp rfl
      have hflag : r.emptyFlag = true := by simpa using hstops
      simp [beginRecvReads, h.in_eq, hflag]
    | cons m q'' =>
      obtain ⟨b, ⟨p, hframe⟩, hrest⟩ := hqueue.cons_inv
      have hab := hframe.lt h.pos
      have hbi := queue_le h.pos hrest
      have hne : a % n ≠ r.inIdx := by
        rw [h.in_eq]
        exact index_ne_of_window (by omega) (by omega)
      obtain ⟨hstart, hword, hnext⟩ := frame_read h.pos h.size_eq hn hframe
      obtain ⟨s, len, has, rfl, rfl, -, hhere⟩ := hframe.start h.pos
      have hlen := (framing n).here_pos hhere
      have hhead := committed_of_between h hoa (y := a) (by omega)
      have hmsg := committed_of_between h (y := s) (by omega) (by omega)
      have htail := ih (a := s + len) (by omega) hrest (by simpa using hstops)
      simp only [beginRecvReads, hstart, hword, hnext]
      rw [if_neg fun hsame => hne hsame.1]
      intro x hx
      rcases List.mem_cons.mp hx with rfl | hx
      · exact hhead
      · rcases List.mem_cons.mp hx with rfl | hx
        · exact hmsg
        · exact htail x hx

/-- A loop that does not test for `in` runs for as long as it is asked to. -/
theorem beginRecvLoop_length (hflag : r.emptyFlag = false) (max tmpOut : ℕ) :
    (r.beginRecvLoop max tmpOut).1.length = max := by
  induction max generalizing tmpOut with
  | zero => rfl
  | succ max ih => simp [beginRecvLoop, hflag, ih]

/-- In every state reached by calls whose receiving loops stop at `in`, a bulk
receive is what single receives are exactly when its own loop does. -/
theorem beginRecvMsgBulk_like_singles {size : ℕ} (hsize : size < 2 ^ 29)
    (hinit : initQuickMsgRing pBuf size = some r) {s : Sys}
    (hs : Runs.Reachable step StopsAtIn (.init r) s) (max : ℕ) :
    LikeSingles s max ↔ s.ring.emptyFlag = true ∨ max ≤ s.pending.length := by
  have hn : size / 4 < 4294967296 := by omega
  obtain ⟨o, i, h, -, -⟩ := hs.invariant (rep_step hn) (rep_init hinit)
  constructor
  · intro hlike
    cases hflag : s.ring.emptyFlag with
    | true => exact .inl rfl
    | false =>
      have hcount := hlike.count
      rw [beginRecvMsgBulk, beginRecvLoop_length hflag] at hcount
      exact .inr (by omega)
  · intro hstops
    obtain ⟨xs, a, q', heq, hplaced, hqueue, hq, hlen⟩ :=
      beginRecvLoop_spec h hn le_rfl h.queue max hstops
    obtain ⟨hmsgs, hout, hnext⟩ := recvSingles_spec hn h hplaced hqueue
    have hbulk : s.ring.beginRecvMsgBulk max = ({ s.ring with nextOut := a % (size / 4) },
        xs.map fun x => (x.1 + reservLen, x.2.msgLen)) := by
      rw [← h.out_eq] at heq
      rw [beginRecvMsgBulk, heq]
    have hfirst : s.pending.take xs.length = xs.map Prod.snd := by
      rw [hq]
      exact List.take_left' (List.length_map _)
    rw [hlen] at hmsgs hout hnext
    refine ⟨?_, ?_, ?_, ?_, ?_, ?_⟩
    · rw [hbulk, List.length_map, hlen]
    · rw [hbulk, readMsg_of_placed h.pos hplaced, List.take_eq_take_min, ← hlen, hfirst]
    · rw [hbulk, hmsgs]
    · rw [hbulk, hout]
    · intro hpos
      rw [hbulk, hnext hpos]
    · rw [h.out_eq]
      exact beginRecvReads_spec h hn le_rfl h.queue max hstops

/-- A ring of eight words after two messages, of which one was received. -/
def oneByOne : Sys :=
  [.sendMsg 2000 [1, 2, 3, 4], .sendMsg 2000 [5, 6, 7, 8], .beginRecvMsgBulk 1,
    .recvMsgComplete].foldl step (.init ((initQuickMsgRing 1000 32).get rfl))

theorem reachable_oneByOne :
    Runs.Reachable step StopsAtIn (.init ((initQuickMsgRing 1000 32).get rfl)) oneByOne :=
  .foldl .start (by decide +kernel)

/-- A ring of 24 words with messages of several lengths, of which the first was received and
the last begins at the first word again. -/
def aroundTheEnd : Sys :=
  [.sendMsg 2000 (.replicate 20 5), .sendMsg 2000 [1, 2, 3, 4], .sendMsg 2000 (.replicate 48 6),
    .beginRecvMsgBulk 1, .recvMsgComplete, .sendMsg 2000 (.replicate 12 7)].foldl step
      (.init ((initQuickMsgRing 1000 96).get rfl))

theorem reachable_aroundTheEnd :
    Runs.Reachable step StopsAtIn (.init ((initQuickMsgRing 1000 96).get rfl)) aroundTheEnd :=
  .foldl .start (by decide +kernel)

/-- The three messages pending are received together as they are one by one. -/
theorem beginRecvMsgBulk_like_singles_around_the_end :
    LikeSingles aroundTheEnd 3 ∧ (aroundTheEnd.ring.beginRecvMsgBulk 3).2.length = 3 ∧
      aroundTheEnd.ring.emptyFlag = false :=
  ⟨(beginRecvMsgBulk_like_singles (by decide) (Option.some_get rfl).symm reachable_aroundTheEnd
    3).mpr (.inr (by decide +kernel)), by decide +kernel, by decide +kernel⟩

/-- After a receive that leaves one message behind, a bulk receive of two finds two
messages although one is pending. -/
theorem beginRecvMsgBulk_beyond_in : ∃ r s, initQuickMsgRing 1000 32 = some r ∧
    Runs.Reachable step (fun _ _ => True) (.init r) s ∧ ¬ LikeSingles s 2 := by
  refine ⟨_, oneByOne, (Option.some_get rfl).symm, reachable_oneByOne.mono fun _ => trivial, ?_⟩
  intro hlike
  have hcount := hlike.count
  revert hcount
  decide +kernel

end Receiving

end Bulk

end TestMac.QuickMsgRing
