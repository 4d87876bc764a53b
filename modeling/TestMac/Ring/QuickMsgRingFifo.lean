import TestMac.Lib.Fifo
import TestMac.Ring.QuickMsgRingFrames

/-!
# The message ring is a queue

One producer and one consumer call the ring in any order. The observations they
make are those of a first-in first-out queue of messages, provided no buffer
that is to be copied starts at the first byte behind the storage: the pointer
test of `QuickMsgRingSendMsg` takes that address for a buffer of the ring.
-/

namespace TestMac.QuickMsgRing

open Bytes Framing

/-- A call of the producer or of the consumer. -/
inductive Call
  /-- `QuickMsgRingSendMsg` of the buffer at `pMsg`, which holds `data`. -/
  | sendMsg (pMsg : ℕ) (data : List UInt8)
  /-- `QuickMsgRingGetBuf`. -/
  | getBuf (wordCount : ℕ)
  /-- The producer writes `data` at an offset of the buffer it reserved. -/
  | fill (off : ℕ) (data : List UInt8)
  /-- `QuickMsgRingSendMsg` of the buffer reserved by the producer's last call. -/
  | sendReserved
  /-- `QuickMsgRingSendMsgWithPackFunc`; the callback writes `data` and returns `ret`. -/
  | sendMsgWithPackFunc (msgWordSz : ℕ) (ret : ℤ) (data : List UInt8)
  /-- `QuickMsgRingBeginRecvMsg`. -/
  | beginRecvMsg
  /-- The consumer reads again the message it holds. -/
  | look
  /-- `QuickMsgRingRecvMsgComplete`. -/
  | recvMsgComplete
  /-- `QuickMsgRingRecvMsgWithUnpackFunc` with a callback that returns `pFunc`. -/
  | recvMsgWithUnpackFunc (pFunc : List UInt8 → ℕ → ℤ)

/-- The ring with what its two users hold. -/
structure Sys where
  ring : QuickMsgRing
  /-- The reserved buffer and the message the producer is composing in it. -/
  resv : Option (ℕ × Msg)
  /-- The result of a `QuickMsgRingBeginRecvMsg` that is not completed. -/
  recv : Option (Option (ℕ × ℕ))

/-- The ring before the first call. -/
def Sys.init (r : QuickMsgRing) : Sys := { ring := r, resv := none, recv := none }

/-- One call and what it shows. A successful send shows the message the producer
composed; a receiving call shows the message found in the storage. A call that
its user may not make at this point changes nothing. -/
def step (s : Sys) : Call → Sys × List (Fifo.Event Msg)
  | .sendMsg pMsg data =>
    let (r, ret) := s.ring.sendMsg pMsg data
    ({ s with ring := r, resv := none },
      if ret = success then [.enq [packed data.length data]] else [])
  | .getBuf wordCount =>
    let (r, msg) := s.ring.getBuf wordCount
    ({ s with ring := r, resv := msg.map fun i => (i, packed wordCount []) }, [])
  | .fill off data =>
    match s.resv with
    | none => (s, [])
    | some (i, m) =>
      if off + data.length ≤ 4 * m.msgLen then
        ({ s with
            ring := { s.ring with buf := store s.ring.buf (4 * i + off) data }
            resv := some (i, { m with payload := overwrite m.payload off data }) }, [])
      else (s, [])
  | .sendReserved =>
    match s.resv with
    | none => (s, [])
    | some (i, m) =>
      let (r, ret) := s.ring.sendMsg (s.ring.pBuf + 4 * i) m.payload
      ({ s with ring := r, resv := none }, if ret = success then [.enq [m]] else [])
  | .sendMsgWithPackFunc msgWordSz ret data =>
    if data.length ≤ 4 * tmpWordCnt msgWordSz then
      let (r, res) := s.ring.sendMsgWithPackFunc msgWordSz (ret, data)
      ({ s with ring := r, resv := none }, if res = 0 then [.enq [packed msgWordSz data]] else [])
    else (s, [])
  | .beginRecvMsg =>
    let (r, got) := s.ring.beginRecvMsg
    ({ s with ring := r, recv := some got }, [.front 1 (got.toList.map (readMsg r.buf))])
  | .look =>
    match s.recv with
    | some (some held) => (s, [.front 1 [readMsg s.ring.buf held]])
    | _ => (s, [])
  | .recvMsgComplete =>
    match s.recv with
    | none => (s, [])
    | some got =>
      ({ s with ring := s.ring.recvMsgComplete, recv := none },
        [.deq (got.toList.map (readMsg s.ring.buf))])
  | .recvMsgWithUnpackFunc pFunc =>
    let (r, ret, seen) := s.ring.recvMsgWithUnpackFunc
      (fun data msgLen _ => (pFunc data msgLen, some (Msg.mk msgLen data))) none
    ({ s with ring := r, recv := none },
      .front 1 seen.toList :: if ret = 0 then [.deq seen.toList] else [])

/-- A buffer to be copied lies outside a storage of `n` words at `pBuf`. -/
def Call.External (pBuf n : ℕ) : Call → Prop
  | .sendMsg pMsg data =>
    pMsg ≠ 0 ∧ (pMsg + data.length ≤ pBuf ∧ pMsg < pBuf ∨ pBuf + 4 * n ≤ pMsg)
  | _ => True

/-- A buffer to be copied does not start at the first byte behind the storage. -/
def Call.OffEnd (pBuf n : ℕ) : Call → Prop
  | .sendMsg pMsg _ => pMsg ≠ pBuf + 4 * n
  | _ => True

/-- The reservation is a frame at the position of `in` that is not committed yet. -/
def Reserved (n : ℕ) (r : QuickMsgRing) (o i : ℕ) : Option (ℕ × Msg) → Prop
  | none => True
  | some (idx, m) => ∃ p j, (framing n).FrameAt n (cells r.buf) i p m j ∧
      idx = p + reservLen ∧ j < o + n ∧ r.nextIn = j % n

/-- The message held is the first of the queue and `nextOut` is behind it. -/
def Received (n : ℕ) (r : QuickMsgRing) (o i : ℕ) (q : List Msg) :
    Option (Option (ℕ × ℕ)) → Prop
  | none => True
  | some none => r.nextOut = r.outIdx
  | some (some held) => ∃ p m a q', q = m :: q' ∧ (framing n).FrameAt n (cells r.buf) o p m a ∧
      (framing n).Queue n (cells r.buf) a q' i ∧ held = (p + reservLen, m.msgLen) ∧
      r.nextOut = a % n

/-- The ring holds the queue `q` between the positions `o` of `out` and `i` of
`in`. The two positions meet only when the ring is empty, and then `emptyFlag`
is set; whether it is set otherwise does not matter. -/
structure Holds (pBuf n : ℕ) (r : QuickMsgRing) (q : List Msg) (o i : ℕ) : Prop where
  pos : 0 < n
  pBuf_eq : r.pBuf = pBuf
  size_eq : r.size = n
  out_eq : r.outIdx = o % n
  in_eq : r.inIdx = i % n
  lt_lap : i < o + n
  empty : i = o → r.emptyFlag = true
  queue : (framing n).Queue n (cells r.buf) o q i

/-- The system represents the queue `q`. -/
def Rep (pBuf n : ℕ) (s : Sys) (q : List Msg) : Prop :=
  ∃ o i, Holds pBuf n s.ring q o i ∧ Reserved n s.ring o i s.resv ∧ Received n s.ring o i q s.recv

section Producer

variable {pBuf n o i idx : ℕ} {r : QuickMsgRing} {q : List Msg} {m : Msg}

/-- The producer changes the storage at most behind the position of `in` and
within one lap of `out`, and moves only `nextIn`. -/
structure Writes (n o i : ℕ) (r r' : QuickMsgRing) : Prop where
  buf : AgreeOff n (cells r.buf) (cells r'.buf) i (o + n)
  pBuf : r'.pBuf = r.pBuf
  size : r'.size = r.size
  emptyFlag : r'.emptyFlag = r.emptyFlag
  nextOut : r'.nextOut = r.nextOut
  inIdx : r'.inIdx = r.inIdx
  outIdx : r'.outIdx = r.outIdx

theorem Holds.write {r' : QuickMsgRing} (h : Holds pBuf n r q o i) (hw : Writes n o i r r') :
    Holds pBuf n r' q o i where
  pos := h.pos
  pBuf_eq := hw.pBuf.trans h.pBuf_eq
  size_eq := hw.size.trans h.size_eq
  out_eq := hw.outIdx.trans h.out_eq
  in_eq := hw.inIdx.trans h.in_eq
  lt_lap := h.lt_lap
  empty hio := hw.emptyFlag.trans (h.empty hio)
  queue := queue_of_agreeOff h.pos h.queue hw.buf

/-- What the producer writes does not reach the message held by the consumer. -/
theorem Received.write {r' : QuickMsgRing} {recv : Option (Option (ℕ × ℕ))}
    (h : Holds pBuf n r q o i) (hrecv : Received n r o i q recv) (hw : Writes n o i r r') :
    Received n r' o i q recv := by
  rcases recv with _ | _ | held
  · trivial
  · exact hw.nextOut.trans (hrecv.trans hw.outIdx.symm)
  · obtain ⟨p, m, a, q', rfl, hframe, hqueue, hheld, hnext⟩ := hrecv
    have hoa := hframe.lt h.pos
    have hai := queue_le h.pos hqueue
    have hkeep : ∀ x, o ≤ x → x < i → cells r.buf (x % n) = cells r'.buf (x % n) :=
      fun x hox hxi => hw.buf.eq_of_before hxi (by omega)
    exact ⟨p, m, a, q', rfl, hframe.congr h.pos fun x hax hxb => hkeep x hax (by omega),
      queue_congr h.pos (fun x hax hxb => hkeep x (by omega) hxb) hqueue, hheld,
      hw.nextOut.trans hnext⟩

/-- `QuickMsgRingGetBuf` either finds no room or reserves a cleared message. -/
theorem getBuf_spec (h : Holds pBuf n r q o i) (hn : n < 4294967296) (wordCount : ℕ) :
    ∃ r' msg, r.getBuf wordCount = (r', msg) ∧ Writes n o i r r' ∧
      Reserved n r' o i (msg.map fun idx => (idx, packed wordCount [])) := by
  simp only [getBuf, getBufBulk, getBufLoop]
  cases hstep : r.getBufStep r.buf r.inIdx wordCount with
  | none => exact ⟨_, none, rfl, ⟨.refl _, rfl, rfl, rfl, rfl, rfl, rfl⟩, trivial⟩
  | some placed =>
    obtain ⟨idx, buf, k⟩ := placed
    rw [h.in_eq] at hstep
    obtain ⟨p, j, hframe, rfl, hj, rfl, hagree⟩ :=
      getBufStep_spec h.size_eq hn h.out_eq (queue_le h.pos h.queue) h.lt_lap h.empty hstep
    exact ⟨_, some (p + reservLen), rfl,
      ⟨hagree.mono le_rfl hj.le, rfl, rfl, rfl, rfl, rfl, rfl⟩, p, j, hframe, rfl, hj, rfl⟩

/-- The producer may compose the reserved message as it likes. -/
theorem Reserved.fill (off : ℕ) {data : List UInt8} (h : Holds pBuf n r q o i)
    (hresv : Reserved n r o i (some (idx, m))) (hfit : off + data.length ≤ 4 * m.msgLen) :
    Writes n o i r { r with buf := store r.buf (4 * idx + off) data } ∧
    Reserved n { r with buf := store r.buf (4 * idx + off) data } o i
      (some (idx, { m with payload := overwrite m.payload off data })) := by
  obtain ⟨p, j, hframe, rfl, hj, hnext⟩ := hresv
  have hle := queue_le h.pos h.queue
  have hrw := hframe.rewrite h.pos
    (cells (store r.buf (4 * (p + reservLen) + off) data))
    { m with payload := overwrite m.payload off data } (by omega)
    fun len hhere => here_fill hhere hfit
  exact ⟨⟨hrw.2.mono le_rfl hj.le, rfl, rfl, rfl, rfl, rfl, rfl⟩, p, j, hrw.1, rfl, hj, hnext⟩

/-- Filling a cleared message from its start gives the packed message. -/
theorem Reserved.pack {wordCount : ℕ} {data : List UInt8} (h : Holds pBuf n r q o i)
    (hresv : Reserved n r o i (some (idx, packed wordCount [])))
    (hfit : data.length ≤ 4 * tmpWordCnt wordCount) :
    Writes n o i r { r with buf := store r.buf (4 * idx) data } ∧
    Reserved n { r with buf := store r.buf (4 * idx) data } o i
      (some (idx, packed wordCount data)) := by
  have hpacked : { packed wordCount [] with
      payload := overwrite (packed wordCount []).payload 0 data } = packed wordCount data := by
    simp [packed, overwrite]
  have hfilled := hresv.fill 0 h (by simpa [packed] using hfit)
  rwa [hpacked] at hfilled

/-- Committing the reservation appends the message to the queue. -/
theorem Reserved.commit {recv : Option (Option (ℕ × ℕ))} (h : Holds pBuf n r q o i)
    (hresv : Reserved n r o i (some (idx, m))) (hrecv : Received n r o i q recv) :
    ∃ j, Holds pBuf n { r with inIdx := r.nextIn } (q ++ [m]) o j ∧
      Received n { r with inIdx := r.nextIn } o j (q ++ [m]) recv := by
  obtain ⟨p, j, hframe, -, hj, hnext⟩ := hresv
  have hstep : (framing n).Frame n (cells r.buf) i m j := ⟨p, hframe⟩
  have hle := queue_le h.pos h.queue
  have hlt := hframe.lt h.pos
  refine ⟨j, ?_, ?_⟩
  · exact { h with
      in_eq := hnext
      lt_lap := hj
      empty := fun hjo => absurd hjo (by omega)
      queue := h.queue.snoc hstep }
  · rcases recv with _ | _ | held
    · trivial
    · exact hrecv
    · obtain ⟨p', m', a, q', rfl, hframe', hqueue, hheld⟩ := hrecv
      exact ⟨p', m', a, q' ++ [m], rfl, hframe', hqueue.snoc hstep, hheld⟩

/-- A pointer handed out by `QuickMsgRingGetBuf` passes for a buffer of the ring. -/
theorem sendMsg_reserved (h : Holds pBuf n r q o i) (hresv : Reserved n r o i (some (idx, m)))
    (data : List UInt8) :
    r.sendMsg (r.pBuf + 4 * idx) data = ({ r with inIdx := r.nextIn }, success) := by
  obtain ⟨p, j, hframe, rfl, -⟩ := hresv
  obtain ⟨s, len, -, -, -, hfit, hhere⟩ := hframe.start h.pos
  have hpos := (framing n).here_pos hhere
  have hsize := h.size_eq
  have hres : reservLen = 1 := rfl
  rw [sendMsg, if_neg (by omega)]

end Producer

section Consumer

variable {pBuf n o i : ℕ} {r : QuickMsgRing} {q : List Msg}

/-- `QuickMsgRingBeginRecvMsg` finds the first message, if there is one. -/
theorem beginRecvMsg_spec (h : Holds pBuf n r q o i) (hn : n < 4294967296) :
    ∃ got k, r.beginRecvMsg = ({ r with nextOut := k }, got) ∧
      got.toList.map (readMsg r.buf) = q.take 1 ∧
      Received n { r with nextOut := k } o i q (some got) := by
  have hle := queue_le h.pos h.queue
  by_cases hio : i = o
  · have hq : q = [] := (queue_eq_nil_iff h.pos h.queue).mpr hio.symm
    have hsame : r.outIdx = r.inIdx ∧ r.emptyFlag = true :=
      ⟨by rw [h.out_eq, h.in_eq, hio], h.empty hio⟩
    simp only [beginRecvMsg, beginRecvMsgBulk, beginRecvLoop, if_pos hsame]
    exact ⟨none, r.outIdx, rfl, by simp [hq], rfl⟩
  · have hne : o % n ≠ r.inIdx := by
      rw [h.in_eq]
      exact index_ne_of_window (by omega) h.lt_lap
    obtain _ | ⟨m, q'⟩ := q
    · exact absurd ((queue_eq_nil_iff h.pos h.queue).mp rfl).symm hio
    obtain ⟨a, ⟨p, hframe⟩, hqueue⟩ := h.queue.cons_inv
    obtain ⟨s, len, -, -, -, -, hhere⟩ := hframe.start h.pos
    obtain ⟨-, -, -, hm⟩ := here_iff.mp hhere
    have hround : r.beginRecvLoop 1 r.outIdx = ([(p + reservLen, m.msgLen)], a % n) := by
      rw [h.out_eq]
      exact beginRecvLoop_frame h.pos h.size_eq hn hframe fun hsame => hne hsame.1
    simp only [beginRecvMsg, beginRecvMsgBulk, hround]
    exact ⟨some (p + reservLen, m.msgLen), _, rfl, by simp [← hm], p, m, a, q', rfl, hframe,
      hqueue, rfl, rfl⟩

/-- The message held is the first of the queue. -/
theorem Received.read {held : ℕ × ℕ} (h : Holds pBuf n r q o i)
    (hrecv : Received n r o i q (some (some held))) : ∃ q', q = readMsg r.buf held :: q' := by
  obtain ⟨p, m, a, q', rfl, hframe, -, rfl, -⟩ := hrecv
  obtain ⟨s, len, -, -, -, -, hhere⟩ := hframe.start h.pos
  obtain ⟨-, -, -, hm⟩ := here_iff.mp hhere
  exact ⟨q', by rw [← hm]⟩

/-- `QuickMsgRingRecvMsgComplete` moves `out` to the position of `nextOut`. -/
theorem Holds.complete {q' : List Msg} {a : ℕ} (h : Holds pBuf n r q o i) (hoa : o ≤ a)
    (hqueue : (framing n).Queue n (cells r.buf) a q' i) (hnext : r.nextOut = a % n) :
    Holds pBuf n r.recvMsgComplete q' a i :=
  { h with
    out_eq := hnext
    lt_lap := by have := h.lt_lap; omega
    empty := by
      rintro rfl
      simp [recvMsgComplete, hnext, h.in_eq]
    queue := hqueue }

/-- `QuickMsgRingRecvMsgComplete` removes the message held. -/
theorem Received.complete {got : Option (ℕ × ℕ)} (h : Holds pBuf n r q o i)
    (hrecv : Received n r o i q (some got)) :
    ∃ q' o', q = got.toList.map (readMsg r.buf) ++ q' ∧ o ≤ o' ∧
      Holds pBuf n r.recvMsgComplete q' o' i := by
  rcases got with _ | held
  · exact ⟨q, o, rfl, le_rfl, h.complete le_rfl h.queue (hrecv.trans h.out_eq)⟩
  · obtain ⟨q'', hq⟩ := hrecv.read h
    obtain ⟨p, m, a, q', rfl, hframe, hqueue, rfl, hnext⟩ := hrecv
    have hle := (hframe.lt h.pos).le
    obtain ⟨hm, -⟩ := List.cons.inj hq
    exact ⟨q', a, by simp [← hm], hle, h.complete hle hqueue hnext⟩

/-- A reservation survives the consumer's progress. -/
theorem Reserved.mono {r' : QuickMsgRing} {o' : ℕ} {resv : Option (ℕ × Msg)}
    (hresv : Reserved n r o i resv) (hbuf : r'.buf = r.buf) (hnext : r'.nextIn = r.nextIn)
    (hle : o ≤ o') : Reserved n r' o' i resv := by
  rcases resv with _ | ⟨idx, m⟩
  · trivial
  · obtain ⟨p, j, hframe, hidx, hj, hk⟩ := hresv
    exact ⟨p, j, hbuf ▸ hframe, hidx, by omega, hnext.trans hk⟩

end Consumer

section Runs

variable {pBuf n : ℕ} {s : Sys} {q : List Msg}

/-- A state and the observations on the way to it, as a queue `q` permits them. -/
def Permitted (pBuf n : ℕ) (q : List Msg) (out : Sys × List (Fifo.Event Msg)) : Prop :=
  ∃ q', Fifo.Accepts q out.2 q' ∧ Rep pBuf n out.1 q'

theorem permitted_getBuf (hn : n < 4294967296) (hrep : Rep pBuf n s q) (wordCount : ℕ) :
    Permitted pBuf n q (step s (.getBuf wordCount)) := by
  obtain ⟨o, i, h, -, hrecv⟩ := hrep
  obtain ⟨r', msg, heq, hw, hresv⟩ := getBuf_spec h hn wordCount
  simp only [step, heq]
  exact ⟨q, .nil q, o, i, h.write hw, hresv, hrecv.write h hw⟩

/-- A buffer outside the storage that does not start right behind it is copied. -/
theorem permitted_sendMsg (hn : n < 4294967296) (hrep : Rep pBuf n s q) {pMsg : ℕ}
    {data : List UInt8} (hext : (Call.sendMsg pMsg data).External pBuf n)
    (hend : (Call.sendMsg pMsg data).OffEnd pBuf n) :
    Permitted pBuf n q (step s (.sendMsg pMsg data)) := by
  obtain ⟨o, i, h, -, hrecv⟩ := hrep
  have hcopy : pMsg ≠ 0 ∧ (pMsg < s.ring.pBuf ∨ pMsg > s.ring.pBuf + 4 * s.ring.size) := by
    simp only [Call.External, Call.OffEnd] at hext hend
    rw [h.pBuf_eq, h.size_eq]
    omega
  obtain ⟨r', msg, heq, hw, hresv⟩ := getBuf_spec h hn data.length
  have h' := h.write hw
  have hrecv' := hrecv.write h hw
  simp only [step, sendMsg, if_pos hcopy, heq]
  rcases msg with _ | idx
  · exact ⟨q, .nil q, o, i, h', trivial, hrecv'⟩
  · have hfit : data.length ≤ 4 * tmpWordCnt data.length := by
      rw [tmpWordCnt_eq]
      omega
    obtain ⟨hw', hpacked⟩ := hresv.pack h' hfit
    obtain ⟨j, h'', hrecv''⟩ := hpacked.commit (h'.write hw') (hrecv'.write h' hw')
    exact ⟨_, .single (.enq q _), o, j, h'', trivial, hrecv''⟩

theorem permitted_fill (hrep : Rep pBuf n s q) (off : ℕ) (data : List UInt8) :
    Permitted pBuf n q (step s (.fill off data)) := by
  obtain ⟨ring, resv, recv⟩ := s
  rcases resv with _ | ⟨idx, m⟩
  · exact ⟨q, .nil q, hrep⟩
  obtain ⟨o, i, h, hresv, hrecv⟩ := hrep
  simp only [step]
  by_cases hfit : off + data.length ≤ 4 * m.msgLen
  · rw [if_pos hfit]
    obtain ⟨hw, hfilled⟩ := hresv.fill off h hfit
    exact ⟨q, .nil q, o, i, h.write hw, hfilled, hrecv.write h hw⟩
  · rw [if_neg hfit]
    exact ⟨q, .nil q, o, i, h, hresv, hrecv⟩

theorem permitted_sendReserved (hrep : Rep pBuf n s q) :
    Permitted pBuf n q (step s .sendReserved) := by
  obtain ⟨ring, resv, recv⟩ := s
  rcases resv with _ | ⟨idx, m⟩
  · exact ⟨q, .nil q, hrep⟩
  obtain ⟨o, i, h, hresv, hrecv⟩ := hrep
  obtain ⟨j, h', hrecv'⟩ := hresv.commit h hrecv
  simp only [step, sendMsg_reserved h hresv]
  exact ⟨_, .single (.enq q _), o, j, h', trivial, hrecv'⟩

theorem permitted_sendMsgWithPackFunc (hn : n < 4294967296) (hrep : Rep pBuf n s q)
    (msgWordSz : ℕ) (ret : ℤ) (data : List UInt8) :
    Permitted pBuf n q (step s (.sendMsgWithPackFunc msgWordSz ret data)) := by
  simp only [step]
  by_cases hfit : data.length ≤ 4 * tmpWordCnt msgWordSz
  swap
  · rw [if_neg hfit]
    exact ⟨q, .nil q, hrep⟩
  obtain ⟨o, i, h, -, hrecv⟩ := hrep
  obtain ⟨r', msg, heq, hw, hresv⟩ := getBuf_spec h hn msgWordSz
  have h' := h.write hw
  have hrecv' := hrecv.write h hw
  simp only [if_pos hfit, sendMsgWithPackFunc, heq]
  rcases msg with _ | idx
  · exact ⟨q, .nil q, o, i, h', trivial, hrecv'⟩
  obtain ⟨hw', hpacked⟩ := hresv.pack h' hfit
  by_cases hret : ret = 0
  · -- the callback succeeded and its buffer is committed
    simp only [hret, ne_eq, not_true_eq_false, if_false, if_true,
      sendMsg_reserved (h'.write hw') hpacked]
    obtain ⟨j, h'', hrecv''⟩ := hpacked.commit (h'.write hw') (hrecv'.write h' hw')
    exact ⟨_, .single (.enq q _), o, j, h'', trivial, hrecv''⟩
  · simp only [ne_eq, hret, not_false_eq_true, if_true, if_false]
    exact ⟨q, .nil q, o, i, h'.write hw', trivial, hrecv'.write h' hw'⟩

theorem permitted_beginRecvMsg (hn : n < 4294967296) (hrep : Rep pBuf n s q) :
    Permitted pBuf n q (step s .beginRecvMsg) := by
  obtain ⟨o, i, h, hresv, -⟩ := hrep
  obtain ⟨got, k, heq, hgot, hrecv⟩ := beginRecvMsg_spec h hn
  simp only [step, heq, hgot]
  exact ⟨q, .single (.front q 1), o, i, { h with }, hresv.mono rfl rfl le_rfl, hrecv⟩

theorem permitted_look (hrep : Rep pBuf n s q) : Permitted pBuf n q (step s .look) := by
  obtain ⟨ring, resv, recv⟩ := s
  rcases recv with _ | _ | held
  · exact ⟨q, .nil q, hrep⟩
  · exact ⟨q, .nil q, hrep⟩
  · obtain ⟨o, i, h, hresv, hrecv⟩ := hrep
    obtain ⟨q', rfl⟩ := hrecv.read h
    exact ⟨_, .single (.front _ 1), o, i, h, hresv, hrecv⟩

theorem permitted_recvMsgComplete (hrep : Rep pBuf n s q) :
    Permitted pBuf n q (step s .recvMsgComplete) := by
  obtain ⟨ring, resv, recv⟩ := s
  rcases recv with _ | got
  · exact ⟨q, .nil q, hrep⟩
  · obtain ⟨o, i, h, hresv, hrecv⟩ := hrep
    obtain ⟨q', o', rfl, hle, h'⟩ := hrecv.complete h
    exact ⟨q', .single (.deq _ q'), o', i, h', hresv.mono rfl rfl hle, trivial⟩

/-- The callback sees the first message, which is removed when it returns `0`. -/
theorem permitted_recvMsgWithUnpackFunc (hn : n < 4294967296) (hrep : Rep pBuf n s q)
    (pFunc : List UInt8 → ℕ → ℤ) : Permitted pBuf n q (step s (.recvMsgWithUnpackFunc pFunc)) := by
  obtain ⟨o, i, h, hresv, -⟩ := hrep
  obtain ⟨got, k, heq, hgot, hrecv⟩ := beginRecvMsg_spec h hn
  have h' : Holds pBuf n { s.ring with nextOut := k } q o i := { h with }
  have hfront : Fifo.Step q (.front 1 (got.toList.map (readMsg s.ring.buf))) q := hgot ▸ .front q 1
  simp only [step, recvMsgWithUnpackFunc, heq]
  rcases got with _ | ⟨idx, msgLen⟩
  · exact ⟨q, .cons hfront (.single (.deq [] q)), o, i, h', hresv.mono rfl rfl le_rfl, trivial⟩
  by_cases hret : pFunc (slice s.ring.buf (4 * idx) (4 * msgLen)) msgLen = 0
  · obtain ⟨q', o', rfl, hle, h''⟩ := hrecv.complete h'
    simp only [hret, ne_eq, not_true_eq_false, if_false, if_true]
    exact ⟨q', .cons hfront (.single (.deq _ q')), o', i, h'', hresv.mono rfl rfl hle, trivial⟩
  · simp only [ne_eq, hret, not_false_eq_true, if_true, if_false]
    exact ⟨q, .single hfront, o, i, h', hresv.mono rfl rfl le_rfl, trivial⟩

/-- Every call is answered as a queue would answer it. -/
theorem step_permitted (hn : n < 4294967296) {c : Call} (hrep : Rep pBuf n s q)
    (hok : c.External pBuf n ∧ c.OffEnd pBuf n) : Permitted pBuf n q (step s c) := by
  cases c with
  | sendMsg pMsg data => exact permitted_sendMsg hn hrep hok.1 hok.2
  | getBuf wordCount => exact permitted_getBuf hn hrep wordCount
  | fill off data => exact permitted_fill hrep off data
  | sendReserved => exact permitted_sendReserved hrep
  | sendMsgWithPackFunc msgWordSz ret data =>
    exact permitted_sendMsgWithPackFunc hn hrep msgWordSz ret data
  | beginRecvMsg => exact permitted_beginRecvMsg hn hrep
  | look => exact permitted_look hrep
  | recvMsgComplete => exact permitted_recvMsgComplete hrep
  | recvMsgWithUnpackFunc pFunc => exact permitted_recvMsgWithUnpackFunc hn hrep pFunc

/-- An initialised ring represents the empty queue. -/
theorem rep_init {size : ℕ} {r : QuickMsgRing} (hinit : initQuickMsgRing pBuf size = some r) :
    Rep pBuf (size / 4) (.init r) [] := by
  unfold initQuickMsgRing at hinit
  split at hinit
  · simp at hinit
  · obtain rfl := Option.some.inj hinit
    refine ⟨0, 0, ?_, trivial, trivial⟩
    exact
      { pos := by omega
        pBuf_eq := rfl
        size_eq := rfl
        out_eq := (Nat.zero_mod _).symm
        in_eq := (Nat.zero_mod _).symm
        lt_lap := by omega
        empty := fun _ => rfl
        queue := .nil 0 }

/-- In every run whose copied buffers do not start right behind the storage,
what the producer and the consumer observe is what a first-in first-out queue
shows: the messages sent are the messages delivered followed by those pending. -/
theorem quickMsgRing_refines_fifo {pBuf size : ℕ} {r : QuickMsgRing} (calls : List Call)
    (hsize : size < 2 ^ 29) (hinit : initQuickMsgRing pBuf size = some r)
    (hext : ∀ c ∈ calls, c.External pBuf (size / 4))
    (hend : ∀ c ∈ calls, c.OffEnd pBuf (size / 4)) :
    ∃ pending, Fifo.Accepts [] (Runs.run step (.init r) calls).2 pending ∧
      (Runs.run step (.init r) calls).2.flatMap Fifo.Event.enqueued =
        (Runs.run step (.init r) calls).2.flatMap Fifo.Event.dequeued ++ pending := by
  have hmeets : Runs.Meets step
      (fun _ c => c.External pBuf (size / 4) ∧ c.OffEnd pBuf (size / 4)) (.init r) calls :=
    Runs.meets_of_forall (fun _ c hc => ⟨hext c hc, hend c hc⟩) _
  obtain ⟨pending, haccepts, -⟩ := Runs.simulates
    (fun hrep hok => step_permitted (by omega) hrep hok) (rep_init hinit) hmeets
  exact ⟨pending, haccepts, by simpa using Fifo.Accepts.conserves haccepts⟩

/-- A five-byte message copied from elsewhere arrives padded to two words, while
a reserved message is sent behind it. -/
theorem quickMsgRing_refines_fifo_eight_words :
    ∃ pending, Fifo.Accepts ([] : List Msg)
      [.enq [⟨2, [1, 2, 3, 4, 5, 0, 0, 0]⟩], .front 1 [⟨2, [1, 2, 3, 4, 5, 0, 0, 0]⟩],
        .enq [⟨1, [0, 7, 0, 0]⟩], .deq [⟨2, [1, 2, 3, 4, 5, 0, 0, 0]⟩]] pending := by
  have hinit : initQuickMsgRing 1000 32 = some _ := rfl
  obtain ⟨pending, haccepts, -⟩ := quickMsgRing_refines_fifo
    [.sendMsg 2000 [1, 2, 3, 4, 5], .beginRecvMsg, .getBuf 4, .fill 1 [7], .sendReserved,
      .recvMsgComplete]
    (by decide) hinit (by simp [Call.External]) (by simp [Call.OffEnd])
  exact ⟨pending, haccepts⟩

/-- A message copied from the first byte behind a storage of eight words is
reported as sent and is not there. -/
theorem sendMsg_behind_storage_lost :
    ∃ r, initQuickMsgRing 1000 32 = some r ∧
      (∀ c ∈ [Call.sendMsg 1032 [1, 2, 3, 4], .beginRecvMsg], c.External 1000 8) ∧
      ¬ ∃ pending, Fifo.Accepts []
        (Runs.run step (.init r) [.sendMsg 1032 [1, 2, 3, 4], .beginRecvMsg]).2 pending := by
  refine ⟨_, rfl, by simp [Call.External], ?_⟩
  rintro ⟨pending, haccepts⟩
  have hevents : Steps Fifo.Step [] [.enq [⟨1, [1, 2, 3, 4]⟩], .front 1 []] pending := haccepts
  obtain ⟨q, henq, hrest⟩ := hevents.cons_inv
  obtain ⟨q', hfront, -⟩ := hrest.cons_inv
  have hsent := henq.conserves
  rw [(hfront.front_nil_iff Nat.one_pos).mp rfl] at hsent
  simp [Fifo.Event.enqueued, Fifo.Event.dequeued] at hsent

end Runs

end TestMac.QuickMsgRing
