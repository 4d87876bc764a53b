import TestMac.Lib.Mailbox
import TestMac.Ring.QuickMsgRingFifo

/-!
# The message ring between two threads

The application sends commands from one thread, the MAC receives them in another one, and
the ring has no lock. Here `QuickMsgRingSendMsg` and `QuickMsgRingRecvMsgWithUnpackFunc` are
cut into their loads and stores of shared memory, which the two threads make in any order.
The loads and stores of one thread take effect in the order of the program.

A thread loads an index of the other one once, and by the time it uses what it loaded, the
other one may have gone on.
-/

namespace TestMac.QuickMsgRing

open Bytes Framing

/-- The stores of `QuickMsgRingGetBufBulk` for the length word and the cleared body. -/
def reserveStores (i w : ℕ) : List (ℕ × List UInt8) :=
  [(4 * i, leBytes 4 w), (4 * (i + reservLen), List.replicate (4 * w) 0)]

/-- One round of the loop of `QuickMsgRingGetBufBulk`, with the stores that it makes. -/
def getBufStores (r : QuickMsgRing) (tmpIn wordCount : ℕ) :
    Option (ℕ × List (ℕ × List UInt8) × ℕ) :=
  let w := tmpWordCnt wordCount
  if r.unused tmpIn ≤ w + reservLen then none
  else if tmpIn ≥ r.outIdx then
    let topUnused := r.size - tmpIn
    if topUnused ≥ w + reservLen then
      some (tmpIn + reservLen, reserveStores tmpIn w, (tmpIn + w + reservLen) % r.size)
    else if r.unused tmpIn ≥ r.size - tmpIn + w + 3 * reservLen then
      some (reservLen, (4 * tmpIn, leBytes 4 r.size) :: reserveStores 0 w,
        (reservLen + w) % r.size)
    else none
  else if tmpIn < r.outIdx ∧ r.unused tmpIn > w + reservLen then
    let tmpIn' := tmpIn + w + reservLen
    some (tmpIn + reservLen, reserveStores tmpIn w, if tmpIn' = r.size then 0 else tmpIn')
  else none

/-- The storage after some stores. -/
def storeAll (buf : Mem) (stores : List (ℕ × List UInt8)) : Mem :=
  stores.foldl (fun buf st => store buf st.1 st.2) buf

/-- How far the thread of the producer has come in `QuickMsgRingSendMsg`. -/
inductive Producer
  | idle
  /-- `out` has been loaded for a message. -/
  | sampled (data : List UInt8) (tmpOut : ℕ)
  /-- The stores that are left before `in` is stored. -/
  | storing (data : List UInt8) (stores : List (ℕ × List UInt8))

/-- How far the thread of the consumer has come in `QuickMsgRingRecvMsgWithUnpackFunc`. -/
inductive Consumer
  | idle
  /-- There is a message at `tmpOut` or behind the tail. -/
  | pending (tmpOut : ℕ)
  /-- The tail was skipped if it is not used. -/
  | found (tmpOut : ℕ)
  /-- The length word has been loaded. -/
  | sized (tmpOut msgLen : ℕ)
  /-- The callback works on the message. -/
  | holds (tmpOut msgLen : ℕ)
  /-- `out` has been stored. -/
  | stored
  /-- `out` has been compared with `in`. -/
  | compared (emptyFlag : Bool)

/-- The ring and the two threads. -/
structure Threads where
  ring : QuickMsgRing
  producer : Producer
  consumer : Consumer

def Threads.init (r : QuickMsgRing) : Threads := ⟨r, .idle, .idle⟩

/-- A piece of a message, as the consumer loads it. -/
inductive Glimpse
  | msgLen (len : ℕ)
  | byte (k : ℕ) (b : UInt8)
  deriving DecidableEq

/-- Whose turn it is, and what is free to choose. -/
inductive Turn
  /-- The producer calls `QuickMsgRingSendMsg` for a message outside the ring and loads `out`. -/
  | send (data : List UInt8)
  /-- The producer goes on. A store may be split into any parts. -/
  | produce (k len : ℕ)
  /-- The consumer calls `QuickMsgRingRecvMsgWithUnpackFunc` and loads `in`. -/
  | recv
  /-- The consumer goes on. -/
  | consume
  /-- The callback loads a byte of the message. -/
  | look (k : ℕ)
  /-- The callback returns; the message is removed by storing `out`. -/
  | callbackReturns (ret : ℤ)

/-- A turn of a thread, and what it does to the queue of messages. A turn that a thread
cannot take changes nothing. -/
def turn (s : Threads) : Turn → Threads × List (Mailbox.Event Msg Glimpse)
  | .send data =>
    match s.producer with
    | .idle => ({ s with producer := .sampled data s.ring.outIdx }, [])
    | _ => (s, [])
  | .produce k len =>
    match s.producer with
    | .idle => (s, [])
    | .sampled data tmpOut =>
      match { s.ring with outIdx := tmpOut }.getBufStores s.ring.inIdx data.length with
      | none => ({ s with
          ring := { s.ring with nextIn := s.ring.inIdx }
          producer := .idle }, [])
      | some (i, stores, tmpIn) => ({ s with
          ring := { s.ring with nextIn := tmpIn }
          producer := .storing data (stores ++ [(4 * i, data)]) }, [])
    | .storing data [] => ({ s with
        ring := { s.ring with inIdx := s.ring.nextIn }
        producer := .idle }, [.put (packed data.length data)])
    | .storing data ((a, l) :: stores) =>
      let buf := store s.ring.buf (a + k) ((l.drop k).take len)
      ({ s with
        ring := { s.ring with buf := buf }
        producer := .storing data
          (if slice buf a l.length = l then stores else (a, l) :: stores) }, [])
  | .recv =>
    match s.consumer with
    | .idle =>
      if s.ring.outIdx = s.ring.inIdx ∧ s.ring.emptyFlag = true then
        ({ s with ring := { s.ring with nextOut := s.ring.outIdx } }, [.empty])
      else ({ s with consumer := .pending s.ring.outIdx }, [])
    | _ => (s, [])
  | .consume =>
    match s.consumer with
    | .pending tmpOut => ({ s with
        consumer := .found (if word s.ring.buf tmpOut = s.ring.size then 0 else tmpOut) }, [])
    | .found tmpOut => ({ s with consumer := .sized tmpOut (word s.ring.buf tmpOut) },
        [.look (.msgLen (word s.ring.buf tmpOut))])
    | .sized tmpOut msgLen => ({ s with
        ring := { s.ring with
          nextOut := (tmpOut + (word s.ring.buf tmpOut + reservLen)) % 4294967296 % s.ring.size }
        consumer := .holds tmpOut msgLen }, [])
    | .stored => ({ s with
        consumer := .compared (decide (s.ring.outIdx = s.ring.inIdx)) }, [])
    | .compared emptyFlag => ({ s with
        ring := { s.ring with emptyFlag := emptyFlag }
        consumer := .idle }, [])
    | _ => (s, [])
  | .look k =>
    match s.consumer with
    | .holds tmpOut msgLen =>
      if k < 4 * msgLen then
        (s, [.look (.byte k (s.ring.buf (4 * (tmpOut + reservLen) + k)))])
      else (s, [])
    | _ => (s, [])
  | .callbackReturns ret =>
    match s.consumer with
    | .holds _ _ =>
      if ret ≠ 0 then ({ s with consumer := .idle }, [])
      else ({ s with
        ring := { s.ring with outIdx := s.ring.nextOut }
        consumer := .stored }, [.take])
    | _ => (s, [])

/-- A piece of a message. -/
def Msg.Shows (m : Msg) : Glimpse → Prop
  | .msgLen len => len = m.msgLen
  | .byte k b => m.payload[k]? = some b

section Stores

variable {n o i j idx k : ℕ} {r : QuickMsgRing} {buf : Mem} {stores : List (ℕ × List UInt8)}

theorem storeAll_reserve (buf : Mem) (i w : ℕ) :
    storeAll buf (reserveStores i w) = reserve buf i w := rfl

/-- The stores of a round are those of `QuickMsgRingGetBufBulk`. -/
theorem getBufStep_eq_stores (r : QuickMsgRing) (buf : Mem) (tmpIn wordCount : ℕ) :
    r.getBufStep buf tmpIn wordCount = (r.getBufStores tmpIn wordCount).map fun p =>
      (p.1, storeAll buf p.2.1, p.2.2) := by
  unfold getBufStep getBufStores
  dsimp only
  split_ifs <;> rfl

/-- They are those of the length word and the body, behind the holder in the tail when the
message goes to the top of the storage. -/
theorem getBufStores_cases {tmpIn wordCount : ℕ}
    (h : r.getBufStores tmpIn wordCount = some (idx, stores, k)) :
    ∃ p, idx = p + reservLen ∧ (stores = reserveStores p (tmpWordCnt wordCount) ∨
      stores = (4 * tmpIn, leBytes 4 r.size) :: reserveStores p (tmpWordCnt wordCount)) := by
  unfold getBufStores at h
  dsimp only at h
  split_ifs at h
  all_goals
    simp only [Option.some.injEq, Prod.mk.injEq] at h
    obtain ⟨rfl, rfl, rfl⟩ := h
  · exact ⟨tmpIn, rfl, .inl rfl⟩
  · exact ⟨0, rfl, .inr rfl⟩
  · exact ⟨tmpIn, rfl, .inl rfl⟩
  · exact ⟨tmpIn, rfl, .inl rfl⟩

/-- A store lies in the words of some positions between two others. -/
def Within (n i j : ℕ) (st : ℕ × List UInt8) : Prop :=
  ∃ s w, i ≤ s ∧ s + w ≤ j ∧ s % n + w ≤ n ∧ 4 * (s % n) ≤ st.1 ∧
    st.1 + st.2.length ≤ 4 * (s % n + w)

theorem store_nil {C : Type*} (m : ℕ → C) (a : ℕ) : store m a [] = m := by
  funext x
  unfold store
  split_ifs <;> simp

/-- Any part of such a store leaves the words of the other positions as they are. -/
theorem Within.agreeOff {a : ℕ} {l : List UInt8} (h : Within n i j (a, l)) (k len : ℕ) :
    AgreeOff n (cells buf) (cells (store buf (a + k) ((l.drop k).take len))) i j := by
  obtain ⟨s, w, his, hsj, hfit, hlo, hhi⟩ := h
  dsimp only at hlo hhi
  by_cases hk : k ≤ l.length
  · have hlen : ((l.drop k).take len).length ≤ l.length - k := by
      rw [List.length_take, List.length_drop]
      exact Nat.min_le_right _ _
    refine (AgreeOff.of_interval (s := s) rfl hfit fun p hp => ?_).mono his hsj
    exact (cells_store (by omega) (by omega) hp).symm
  · rw [List.drop_eq_nil_of_le (by omega), List.take_nil, store_nil]
    exact .refl _

/-- A part of a store is covered by the whole store. -/
theorem store_part {C : Type*} (m : ℕ → C) (a k len : ℕ) (l : List C) :
    store (store m (a + k) ((l.drop k).take len)) a l = store m a l := by
  funext x
  by_cases hx : a ≤ x ∧ x < a + l.length
  · have hlt : x - a < l.length := by omega
    simp [store, hx.1, hlt]
  · rw [store_of_not_mem (l := l) (by omega), store_of_not_mem (l := l) (by omega)]
    apply store_of_not_mem
    rw [List.length_take, List.length_drop]
    omega

/-- A store of what is already there. -/
theorem store_same {C : Type*} {m : ℕ → C} {a : ℕ} {l : List C} (h : slice m a l.length = l) :
    store m a l = m := by
  funext x
  by_cases hx : a ≤ x ∧ x < a + l.length
  · have hlt : x - a < l.length := by omega
    have hcell : (slice m a l.length)[x - a]? = l[x - a]? := congrArg (·[x - a]?) h
    simp only [slice, List.getElem?_map, List.getElem?_range hlt, Option.map_some] at hcell
    rw [store, if_pos hx.1, ← hcell, Option.getD_some, Nat.add_sub_cancel' hx.1]
  · exact store_of_not_mem (by omega)

end Stores

/-- The ring holds the queue `q` between the positions `o` of `out` and `i` of `in`.
Nothing is said of `emptyFlag`. -/
structure Between (n : ℕ) (r : QuickMsgRing) (q : List Msg) (o i : ℕ) : Prop where
  pos : 0 < n
  size_eq : r.size = n
  out_eq : r.outIdx = o % n
  in_eq : r.inIdx = i % n
  lt_lap : i < o + n
  queue : (framing n).Queue n (cells r.buf) o q i

/-- What the producer has loaded was right when it was loaded, and its stores stay behind
`in` and make a message there. -/
def ProducerFits (n : ℕ) (r : QuickMsgRing) (o i : ℕ) : Producer → Prop
  | .idle => True
  | .sampled _ tmpOut => ∃ o', o' ≤ o ∧ i < o' + n ∧ tmpOut = o' % n
  | .storing data stores => ∃ p j, j < o + n ∧ r.nextIn = j % n ∧
      (framing n).FrameAt n (cells (storeAll r.buf stores)) i p (packed data.length data) j ∧
      ∀ st ∈ stores, Within n i j st

/-- The consumer is at the first message of the queue, whose length word is at `tmpOut`. -/
def AtHead (n : ℕ) (r : QuickMsgRing) (o i : ℕ) (q : List Msg) (tmpOut : ℕ) (m : Msg) (a : ℕ) :
    Prop :=
  ∃ q', q = m :: q' ∧ (framing n).FrameAt n (cells r.buf) o tmpOut m a ∧
    (framing n).Queue n (cells r.buf) a q' i

/-- What the consumer knows. Only while it removes a message may `emptyFlag` be wrong about
an empty ring. -/
def ConsumerFits (n : ℕ) (r : QuickMsgRing) (o i : ℕ) (q : List Msg) : Consumer → Prop
  | .idle => i = o → r.emptyFlag = true
  | .pending tmpOut => (i = o → r.emptyFlag = true) ∧ tmpOut = o % n ∧ q ≠ []
  | .found tmpOut => (i = o → r.emptyFlag = true) ∧ ∃ m a, AtHead n r o i q tmpOut m a
  | .sized tmpOut msgLen => (i = o → r.emptyFlag = true) ∧
      ∃ m a, AtHead n r o i q tmpOut m a ∧ msgLen = m.msgLen
  | .holds tmpOut msgLen => (i = o → r.emptyFlag = true) ∧
      ∃ m a, AtHead n r o i q tmpOut m a ∧ msgLen = m.msgLen ∧ r.nextOut = a % n
  | .stored => True
  | .compared emptyFlag => i = o → emptyFlag = true

/-- The ring and its threads represent the queue `q`. -/
def Represents (n : ℕ) (s : Threads) (q : List Msg) : Prop :=
  ∃ o i, Between n s.ring q o i ∧ ProducerFits n s.ring o i s.producer ∧
    ConsumerFits n s.ring o i q s.consumer

section Producer

variable {n o i j k : ℕ} {r r' : QuickMsgRing} {q : List Msg} {m : Msg} {c : Consumer}
  {data : List UInt8} {stores : List (ℕ × List UInt8)}

theorem Between.le (h : Between n r q o i) : o ≤ i := queue_le h.pos h.queue

theorem Between.write (h : Between n r q o i) (hw : Writes n o i r r') : Between n r' q o i where
  pos := h.pos
  size_eq := hw.size.trans h.size_eq
  out_eq := hw.outIdx.trans h.out_eq
  in_eq := hw.inIdx.trans h.in_eq
  lt_lap := h.lt_lap
  queue := queue_of_agreeOff h.pos h.queue hw.buf

/-- What the producer writes does not reach the message at the head. -/
theorem AtHead.write {tmpOut a : ℕ} (hhead : AtHead n r o i q tmpOut m a)
    (h : Between n r q o i) (hw : Writes n o i r r') : AtHead n r' o i q tmpOut m a := by
  obtain ⟨q', hq, hframe, hqueue⟩ := hhead
  have hoa := hframe.lt h.pos
  have hai := queue_le h.pos hqueue
  have hkeep : ∀ x, o ≤ x → x < i → cells r.buf (x % n) = cells r'.buf (x % n) :=
    fun x hox hxi => hw.buf.eq_of_before hxi (by omega)
  exact ⟨q', hq, hframe.congr h.pos fun x hox hxa => hkeep x hox (by omega),
    queue_congr h.pos (fun x hax hxi => hkeep x (by omega) hxi) hqueue⟩

theorem ConsumerFits.write (hfits : ConsumerFits n r o i q c) (h : Between n r q o i)
    (hw : Writes n o i r r') : ConsumerFits n r' o i q c := by
  cases c with
  | idle => exact fun hio => hw.emptyFlag.trans (hfits hio)
  | pending tmpOut =>
    obtain ⟨hempty, htmpOut, hq⟩ := hfits
    exact ⟨fun hio => hw.emptyFlag.trans (hempty hio), htmpOut, hq⟩
  | found tmpOut =>
    obtain ⟨hempty, m, a, hhead⟩ := hfits
    exact ⟨fun hio => hw.emptyFlag.trans (hempty hio), m, a, hhead.write h hw⟩
  | sized tmpOut msgLen =>
    obtain ⟨hempty, m, a, hhead, hlen⟩ := hfits
    exact ⟨fun hio => hw.emptyFlag.trans (hempty hio), m, a, hhead.write h hw, hlen⟩
  | holds tmpOut msgLen =>
    obtain ⟨hempty, m, a, hhead, hlen, hnext⟩ := hfits
    exact ⟨fun hio => hw.emptyFlag.trans (hempty hio), m, a, hhead.write h hw, hlen,
      hw.nextOut.trans hnext⟩
  | stored => trivial
  | compared emptyFlag => exact hfits

/-- A message behind the last one is appended to the queue, wherever the consumer is. -/
theorem ConsumerFits.commit (hfits : ConsumerFits n r o i q c) (hn : 0 < n) (hoi : o ≤ i)
    (hframe : (framing n).Frame n (cells r.buf) i m j) :
    ConsumerFits n { r with inIdx := r.nextIn } o j (q ++ [m]) c := by
  have hij := hframe.lt hn
  have hne : j = o → r.emptyFlag = true := fun hjo => absurd hjo (by omega)
  have hhead : ∀ {tmpOut m' a}, AtHead n r o i q tmpOut m' a →
      AtHead n { r with inIdx := r.nextIn } o j (q ++ [m]) tmpOut m' a := by
    rintro tmpOut m' a ⟨q', rfl, hframe', hqueue⟩
    exact ⟨q' ++ [m], rfl, hframe', hqueue.snoc hframe⟩
  cases c with
  | idle => exact hne
  | pending tmpOut => exact ⟨hne, hfits.2.1, by simp⟩
  | found tmpOut =>
    obtain ⟨-, m', a, h⟩ := hfits
    exact ⟨hne, m', a, hhead h⟩
  | sized tmpOut msgLen =>
    obtain ⟨-, m', a, h, hlen⟩ := hfits
    exact ⟨hne, m', a, hhead h, hlen⟩
  | holds tmpOut msgLen =>
    obtain ⟨-, m', a, h, hlen, hnext⟩ := hfits
    exact ⟨hne, m', a, hhead h, hlen, hnext⟩
  | stored => trivial
  | compared emptyFlag => exact fun hjo => absurd hjo (by omega)

/-- Whatever the producer decides on by an index `out` that may be old, it finds no room or
its stores make the message behind `in`, within one lap of the present `out`. -/
theorem getBufStores_spec {tmpOut : ℕ} (h : Between n r q o i) (hn : n < 4294967296)
    (hfits : ProducerFits n r o i (.sampled data tmpOut)) :
    let found := { r with outIdx := tmpOut }.getBufStores r.inIdx data.length
    found = none ∨ ∃ idx stores tmpIn, found = some (idx, stores, tmpIn) ∧
      ProducerFits n { r with nextIn := tmpIn } o i
        (.storing data (stores ++ [(4 * idx, data)])) := by
  intro found
  obtain ⟨o', ho', hlap, htmpOut⟩ := hfits
  cases hfound : found with
  | none => exact .inl rfl
  | some placed =>
    obtain ⟨idx, stores, tmpIn⟩ := placed
    have hle := h.le
    have hsome : { r with outIdx := tmpOut }.getBufStep r.buf (i % n) data.length =
        some (idx, storeAll r.buf stores, tmpIn) := by
      rw [getBufStep_eq_stores, ← h.in_eq]
      exact congrArg (Option.map _) hfound
    -- with `emptyFlag` not set, an index of the present means that there is no room
    have hempty : i = o' → r.emptyFlag = true := by
      rintro rfl
      by_contra hflag
      have hunused : { r with outIdx := tmpOut }.unused (i % n) = 0 := by
        simp [unused, htmpOut, hflag]
      simp [getBufStep, hunused] at hsome
    obtain ⟨p, j, hframe, rfl, hj, rfl, -⟩ := getBufStep_spec
      (r := { r with outIdx := tmpOut }) h.size_eq hn htmpOut (by omega) hlap hempty hsome
    have hfit : 0 + data.length ≤ 4 * (packed data.length []).msgLen := by
      have hmsgLen : (packed data.length []).msgLen = (data.length + 3) / 4 := tmpWordCnt_eq _
      omega
    obtain ⟨hfilled, -⟩ := hframe.rewrite h.pos
      (cells (store (storeAll r.buf stores) (4 * (p + reservLen) + 0) data))
      { packed data.length [] with
        payload := overwrite (packed data.length []).payload 0 data } (by omega)
      fun len hhere => here_fill hhere hfit
    have hpacked : { packed data.length [] with
        payload := overwrite (packed data.length []).payload 0 data } =
          packed data.length data := by
      simp [packed, overwrite]
    rw [hpacked] at hfilled
    refine .inr ⟨p + reservLen, stores, j % n, rfl, p, j, by omega, rfl, ?_, ?_⟩
    · rw [storeAll, List.foldl_append]
      exact hfilled
    · obtain ⟨s, len, his, rfl, rfl, hfits, hhere⟩ := hframe.start h.pos
      obtain ⟨-, -, rfl, -⟩ := here_iff.mp hhere
      have hij := hframe.lt h.pos
      have hmod := Nat.mod_lt i h.pos
      have hres : reservLen = 1 := rfl
      have hmsgLen : (packed data.length []).msgLen = tmpWordCnt data.length := rfl
      have hlast : Within n i (s + ((packed data.length []).msgLen + reservLen))
          (4 * (s % n + reservLen), data) :=
        ⟨s, _, his, le_rfl, hfits, by dsimp only; omega, by dsimp only; omega⟩
      have hreserve : ∀ st ∈ reserveStores (s % n) (tmpWordCnt data.length),
          Within n i (s + ((packed data.length []).msgLen + reservLen)) st := by
        intro st hst
        rcases List.mem_pair.mp hst with rfl | rfl
        · exact ⟨s, _, his, le_rfl, hfits, le_rfl, by simp; omega⟩
        · exact ⟨s, _, his, le_rfl, hfits, by dsimp only; omega, by simp; omega⟩
      obtain ⟨p', hp', hstores⟩ := getBufStores_cases hfound
      obtain rfl : s % n = p' := by omega
      intro st hst
      rcases List.mem_append.mp hst with hst | hst
      · rcases hstores with rfl | rfl
        · exact hreserve st hst
        · rcases List.mem_cons.mp hst with rfl | hst
          · refine ⟨i, 1, le_rfl, by omega, by omega, ?_, ?_⟩
            · rw [h.in_eq]
            · rw [h.in_eq, leBytes_length]
              omega
          · exact hreserve st hst
      · rw [List.mem_singleton.mp hst]
        exact hlast

/-- A part of a store stays behind `in`, and the stores left still make the message. -/
theorem ProducerFits.store {a : ℕ} {l : List UInt8}
    (hfits : ProducerFits n r o i (.storing data ((a, l) :: stores))) (k len : ℕ) :
    let buf := Bytes.store r.buf (a + k) ((l.drop k).take len)
    Writes n o i r { r with buf := buf } ∧ ProducerFits n { r with buf := buf } o i
      (.storing data (if slice buf a l.length = l then stores else (a, l) :: stores)) := by
  intro buf
  obtain ⟨p, j, hj, hnext, hframe, hwithin⟩ := hfits
  obtain ⟨hfirst, hrest⟩ := List.forall_mem_cons.mp hwithin
  have hall : storeAll buf ((a, l) :: stores) = storeAll r.buf ((a, l) :: stores) := by
    change storeAll (Bytes.store buf a l) stores = storeAll (Bytes.store r.buf a l) stores
    rw [store_part]
  refine ⟨⟨(hfirst.agreeOff k len).mono le_rfl hj.le, rfl, rfl, rfl, rfl, rfl, rfl⟩, ?_⟩
  rw [← hall] at hframe
  split_ifs with hdone
  · have hsame : storeAll buf ((a, l) :: stores) = storeAll buf stores :=
      congrArg (storeAll · stores) (store_same hdone)
    rw [hsame] at hframe
    exact ⟨p, j, hj, hnext, hframe, hrest⟩
  · exact ⟨p, j, hj, hnext, hframe, hwithin⟩

/-- The producer keeps its message when the consumer goes on. -/
theorem ProducerFits.mono {o' : ℕ} {p : Producer} (hfits : ProducerFits n r o i p)
    (hbuf : r'.buf = r.buf) (hnext : r'.nextIn = r.nextIn) (hle : o ≤ o') :
    ProducerFits n r' o' i p := by
  cases p with
  | idle => trivial
  | sampled data tmpOut =>
    obtain ⟨x, hx, hlap, htmpOut⟩ := hfits
    exact ⟨x, by omega, hlap, htmpOut⟩
  | storing data stores =>
    obtain ⟨x, j, hj, hin, hframe, hwithin⟩ := hfits
    rw [← hbuf] at hframe
    exact ⟨x, j, by omega, hnext.trans hin, hframe, hwithin⟩

/-- What a state and the events on the way to it may be, for a queue `q`. -/
def Allowed (n : ℕ) (q : List Msg) (out : Threads × List (Mailbox.Event Msg Glimpse)) : Prop :=
  ∃ q', Steps (Mailbox.Step Msg.Shows) q out.2 q' ∧ Represents n out.1 q'

theorem Represents.allowed {s : Threads} (h : Represents n s q) : Allowed n q (s, []) :=
  ⟨q, .nil q, h⟩

theorem allowed_send {s : Threads} (h : Represents n s q) (data : List UInt8) :
    Allowed n q (turn s (.send data)) := by
  obtain ⟨ring, producer, consumer⟩ := s
  cases producer with
  | idle =>
    obtain ⟨o, i, hring, -, hcons⟩ := h
    exact ⟨q, .nil q, o, i, hring, ⟨o, le_rfl, hring.lt_lap, hring.out_eq⟩, hcons⟩
  | sampled data' tmpOut => exact h.allowed
  | storing data' stores => exact h.allowed

theorem allowed_produce {s : Threads} (hn : n < 4294967296) (h : Represents n s q) (k len : ℕ) :
    Allowed n q (turn s (.produce k len)) := by
  obtain ⟨ring, producer, consumer⟩ := s
  cases producer with
  | idle => exact h.allowed
  | sampled data tmpOut =>
    obtain ⟨o, i, hring, hprod, hcons⟩ := h
    have hkeep : ∀ tmpIn, Writes n o i ring { ring with nextIn := tmpIn } :=
      fun _ => ⟨.refl _, rfl, rfl, rfl, rfl, rfl, rfl⟩
    simp only [turn]
    rcases getBufStores_spec hring hn hprod with hnone | ⟨idx, stores, tmpIn, hsome, hprod'⟩
    · rw [hnone]
      exact ⟨q, .nil q, o, i, hring.write (hkeep _), trivial, hcons.write hring (hkeep _)⟩
    · rw [hsome]
      exact ⟨q, .nil q, o, i, hring.write (hkeep _), hprod', hcons.write hring (hkeep _)⟩
  | storing data stores =>
    obtain ⟨o, i, hring, hprod, hcons⟩ := h
    cases stores with
    | nil =>
      obtain ⟨p, j, hj, hnext, hframe, -⟩ := hprod
      have hplaced : (framing n).Frame n (cells ring.buf) i (packed data.length data) j :=
        ⟨p, hframe⟩
      exact ⟨_, .single (.put q _), o, j,
        { hring with in_eq := hnext, lt_lap := hj, queue := hring.queue.snoc hplaced }, trivial,
        hcons.commit hring.pos hring.le hplaced⟩
    | cons st stores =>
      obtain ⟨hw, hprod'⟩ := hprod.store k len
      exact ⟨q, .nil q, o, i, hring.write hw, hprod', hcons.write hring hw⟩

end Producer

section Consumer

variable {n o i : ℕ} {r : QuickMsgRing} {q : List Msg} {s : Threads}

theorem allowed_recv (h : Represents n s q) : Allowed n q (turn s .recv) := by
  obtain ⟨ring, producer, consumer⟩ := s
  cases consumer with
  | idle =>
    obtain ⟨o, i, hring, hprod, hempty⟩ := h
    simp only [turn]
    by_cases hsame : ring.outIdx = ring.inIdx ∧ ring.emptyFlag = true
    · rw [if_pos hsame]
      have hio : o = i := by
        by_contra hne
        have hle := hring.le
        rw [hring.out_eq, hring.in_eq] at hsame
        exact index_ne_of_window (by omega) hring.lt_lap hsame.1
      obtain rfl := (queue_eq_nil_iff hring.pos hring.queue).mpr hio
      exact ⟨[], .single .empty, o, i, { hring with }, hprod.mono rfl rfl le_rfl, hempty⟩
    · rw [if_neg hsame]
      refine ⟨q, .nil q, o, i, hring, hprod, hempty, hring.out_eq, ?_⟩
      rintro rfl
      obtain rfl := (queue_eq_nil_iff hring.pos hring.queue).mp rfl
      exact hsame ⟨hring.out_eq.trans hring.in_eq.symm, hempty rfl⟩
  | pending tmpOut => exact h.allowed
  | found tmpOut => exact h.allowed
  | sized tmpOut msgLen => exact h.allowed
  | holds tmpOut msgLen => exact h.allowed
  | stored => exact h.allowed
  | compared emptyFlag => exact h.allowed

theorem allowed_consume (hn : n < 4294967296) (h : Represents n s q) :
    Allowed n q (turn s .consume) := by
  obtain ⟨ring, producer, consumer⟩ := s
  cases consumer with
  | idle => exact h.allowed
  | pending tmpOut =>
    obtain ⟨o, i, hring, hprod, hempty, rfl, hne⟩ := h
    obtain ⟨m, q', rfl⟩ := List.exists_cons_of_ne_nil hne
    obtain ⟨a, ⟨p, hframe⟩, hqueue⟩ := hring.queue.cons_inv
    obtain ⟨hstart, -, -⟩ := frame_read hring.pos hring.size_eq hn hframe
    simp only [turn, hstart]
    exact ⟨_, .nil _, o, i, hring, hprod, hempty, m, a, q', rfl, hframe, hqueue⟩
  | found tmpOut =>
    obtain ⟨o, i, hring, hprod, hempty, m, a, q', rfl, hframe, hqueue⟩ := h
    obtain ⟨-, hword, -⟩ := frame_read hring.pos hring.size_eq hn hframe
    simp only [turn, hword]
    exact ⟨_, .single (.look q' rfl), o, i, hring, hprod, hempty, m, a, ⟨q', rfl, hframe, hqueue⟩,
      rfl⟩
  | sized tmpOut msgLen =>
    obtain ⟨o, i, hring, hprod, hempty, m, a, ⟨q', rfl, hframe, hqueue⟩, rfl⟩ := h
    obtain ⟨-, hword, hnext⟩ := frame_read hring.pos hring.size_eq hn hframe
    simp only [turn, hword, hnext]
    exact ⟨_, .nil _, o, i, { hring with }, hprod.mono rfl rfl le_rfl, hempty, m, a,
      ⟨q', rfl, hframe, hqueue⟩, rfl, rfl⟩
  | holds tmpOut msgLen => exact h.allowed
  | stored =>
    obtain ⟨o, i, hring, hprod, -⟩ := h
    refine ⟨q, .nil q, o, i, hring, hprod, ?_⟩
    rintro rfl
    exact decide_eq_true (hring.out_eq.trans hring.in_eq.symm)
  | compared emptyFlag =>
    obtain ⟨o, i, hring, hprod, hempty⟩ := h
    exact ⟨q, .nil q, o, i, { hring with }, hprod.mono rfl rfl le_rfl, hempty⟩

/-- The bytes at the head are those of the first message. -/
theorem AtHead.byte {tmpOut a k : ℕ} {m : Msg} (hhead : AtHead n r o i q tmpOut m a) (hn : 0 < n)
    (hk : k < 4 * m.msgLen) :
    m.Shows (.byte k (r.buf (4 * (tmpOut + reservLen) + k))) := by
  obtain ⟨q', -, hframe, -⟩ := hhead
  obtain ⟨s, len, -, -, -, -, hhere⟩ := hframe.start hn
  obtain ⟨-, -, -, hm⟩ := here_iff.mp hhere
  have hpayload : m.payload = slice r.buf (4 * (tmpOut + reservLen)) (4 * m.msgLen) :=
    congrArg Msg.payload hm
  simp only [Msg.Shows, hpayload, slice, List.getElem?_map, List.getElem?_range hk,
    Option.map_some]

theorem allowed_look (h : Represents n s q) (k : ℕ) : Allowed n q (turn s (.look k)) := by
  obtain ⟨ring, producer, consumer⟩ := s
  cases consumer with
  | holds tmpOut msgLen =>
    simp only [turn]
    by_cases hk : k < 4 * msgLen
    · rw [if_pos hk]
      obtain ⟨o, i, hring, hprod, hempty, m, a, hhead, rfl, hnext⟩ := h
      have hshows := hhead.byte hring.pos hk
      obtain ⟨q', rfl, hframe, hqueue⟩ := hhead
      exact ⟨_, .single (.look q' hshows), o, i, hring, hprod, hempty, m, a,
        ⟨q', rfl, hframe, hqueue⟩, rfl, hnext⟩
    · rw [if_neg hk]
      exact h.allowed
  | idle => exact h.allowed
  | pending tmpOut => exact h.allowed
  | found tmpOut => exact h.allowed
  | sized tmpOut msgLen => exact h.allowed
  | stored => exact h.allowed
  | compared emptyFlag => exact h.allowed

theorem allowed_callbackReturns (h : Represents n s q) (ret : ℤ) :
    Allowed n q (turn s (.callbackReturns ret)) := by
  obtain ⟨ring, producer, consumer⟩ := s
  cases consumer with
  | holds tmpOut msgLen =>
    obtain ⟨o, i, hring, hprod, hempty, m, a, ⟨q', rfl, hframe, hqueue⟩, rfl, hnext⟩ := h
    simp only [turn]
    by_cases hret : ret = 0
    · rw [if_neg (by simpa using hret)]
      have hoa := hframe.lt hring.pos
      have hlap := hring.lt_lap
      exact ⟨q', .single (.take m q'), a, i,
        { hring with out_eq := hnext, lt_lap := by omega, queue := hqueue },
        hprod.mono rfl rfl hoa.le, trivial⟩
    · rw [if_pos hret]
      exact ⟨_, .nil _, o, i, hring, hprod, hempty⟩
  | idle => exact h.allowed
  | pending tmpOut => exact h.allowed
  | found tmpOut => exact h.allowed
  | sized tmpOut msgLen => exact h.allowed
  | stored => exact h.allowed
  | compared emptyFlag => exact h.allowed

end Consumer

/-- Every turn does to the queue what may be done to a mailbox. -/
theorem turn_allowed {n : ℕ} {s : Threads} {q : List Msg} (hn : n < 4294967296)
    (h : Represents n s q) (t : Turn) : Allowed n q (turn s t) := by
  cases t with
  | send data => exact allowed_send h data
  | produce k len => exact allowed_produce hn h k len
  | recv => exact allowed_recv h
  | consume => exact allowed_consume hn h
  | look k => exact allowed_look h k
  | callbackReturns ret => exact allowed_callbackReturns h ret

/-- An initialised ring is empty. -/
theorem represents_init {pBuf size : ℕ} {r : QuickMsgRing}
    (hinit : initQuickMsgRing pBuf size = some r) : Represents (size / 4) (.init r) [] := by
  obtain ⟨o, i, h, -, -⟩ := rep_init hinit
  exact ⟨o, i, ⟨h.pos, h.size_eq, h.out_eq, h.in_eq, h.lt_lap, h.queue⟩, trivial, h.empty⟩

/-- Every run leads to a state that represents some queue, along the events of a mailbox. -/
theorem run_represents {pBuf size : ℕ} {r : QuickMsgRing} (turns : List Turn)
    (hsize : size < 2 ^ 29) (hinit : initQuickMsgRing pBuf size = some r) :
    ∃ q, Steps (Mailbox.Step Msg.Shows) [] (Runs.run turn (.init r) turns).2 q ∧
      Represents (size / 4) (Runs.run turn (.init r) turns).1 q := by
  have hn : size / 4 < 4294967296 := by omega
  have hmeets : Runs.Meets turn (fun _ _ => True) (.init r) turns :=
    Runs.meets_of_forall (fun _ _ _ => trivial) _
  have hstep : ∀ {s t q}, Represents (size / 4) s q → True →
      ∃ q', Steps (Mailbox.Step Msg.Shows) q (turn s t).2 q' ∧
        Represents (size / 4) (turn s t).1 q' :=
    fun h _ => turn_allowed hn h _
  exact Runs.simulates hstep (represents_init hinit) hmeets

/-- In whatever order the two threads make their loads and stores, the ring passes on the
messages whose `in` was stored, one by one and whole: everything the consumer loads of a
message belongs to the one whose turn it is, also while the producer stores the next ones,
and the ring is found empty only when every message has been removed. -/
theorem threads_pass_messages {pBuf size : ℕ} {r : QuickMsgRing} (turns : List Turn)
    (hsize : size < 2 ^ 29) (hinit : initQuickMsgRing pBuf size = some r) :
    let es := (Runs.run turn (.init r) turns).2
    Mailbox.takes es ≤ (Mailbox.puts es).length ∧
    (∀ es₁ w es₂, es = es₁ ++ .look w :: es₂ →
      ∃ m : Msg, (Mailbox.puts es₁)[Mailbox.takes es₁]? = some m ∧ m.Shows w) ∧
    (∀ es₁ es₂, es = es₁ ++ .empty :: es₂ →
      Mailbox.takes es₁ = (Mailbox.puts es₁).length) := by
  intro es
  obtain ⟨q, hrun, -⟩ := run_represents turns hsize hinit
  have hes : Steps (Mailbox.Step Msg.Shows) [] es q := hrun
  refine ⟨(Mailbox.contents hes).1, ?_, ?_⟩
  · intro es₁ w es₂ heq
    rw [heq] at hes
    exact Mailbox.look_shows hes
  · intro es₁ es₂ heq
    rw [heq] at hes
    exact Mailbox.empty_taken hes

/-- While the consumer works on a message, the producer sends the next one. -/
def overlappingTurns : List Turn :=
  [.send [7], .produce 0 4, .produce 0 4, .produce 0 4, .produce 0 4, .produce 0 0, .recv,
    .consume, .consume, .consume, .send [8, 9], .produce 0 4, .look 0, .produce 0 4,
    .produce 0 4, .produce 1 1, .look 1, .produce 0 1, .callbackReturns 0, .produce 0 0,
    .consume, .consume, .recv, .consume, .consume]

/-- The bytes seen are those of the first message. -/
theorem threads_pass_messages_overlapping :
    let es : List (Mailbox.Event Msg Glimpse) := [.put ⟨1, [7, 0, 0, 0]⟩, .look (.msgLen 1),
      .look (.byte 0 7), .look (.byte 1 0), .take, .put ⟨1, [8, 9, 0, 0]⟩, .look (.msgLen 1)]
    Mailbox.takes es ≤ (Mailbox.puts es).length ∧
    (∀ es₁ w es₂, es = es₁ ++ .look w :: es₂ →
      ∃ m : Msg, (Mailbox.puts es₁)[Mailbox.takes es₁]? = some m ∧ m.Shows w) ∧
    (∀ es₁ es₂, es = es₁ ++ .empty :: es₂ →
      Mailbox.takes es₁ = (Mailbox.puts es₁).length) := by
  have hinit : initQuickMsgRing 1000 32 = some _ := rfl
  exact threads_pass_messages overlappingTurns (by decide) hinit

/-- The bytes that the producer is about to store. -/
def Producer.stores : Producer → ℕ → Prop
  | .storing _ stores, x => ∃ st ∈ stores, st.1 ≤ x ∧ x < st.1 + st.2.length
  | _, _ => False

/-- The bytes that the consumer may load before it stores `out`. -/
def Consumer.loads : Consumer → ℕ → Prop
  | .pending tmpOut, x => 4 * tmpOut ≤ x ∧ x < 4 * tmpOut + 4
  | .found tmpOut, x => 4 * tmpOut ≤ x ∧ x < 4 * tmpOut + 4
  | .sized tmpOut _, x => 4 * tmpOut ≤ x ∧ x < 4 * tmpOut + 4
  | .holds tmpOut msgLen, x => 4 * tmpOut ≤ x ∧ x < 4 * (tmpOut + reservLen + msgLen)
  | _, _ => False

section Races

variable {n o i x : ℕ} {r : QuickMsgRing} {q : List Msg}

/-- What the producer stores has a position behind `in`. -/
theorem ProducerFits.position {p : Producer} (h : ProducerFits n r o i p) (hx : p.stores x) :
    ∃ y, i ≤ y ∧ y < o + n ∧ y % n = x / 4 := by
  cases p with
  | idle => exact hx.elim
  | sampled data tmpOut => exact hx.elim
  | storing data stores =>
    obtain ⟨p, j, hj, -, -, hwithin⟩ := h
    obtain ⟨st, hst, hlo, hhi⟩ := hx
    obtain ⟨s, w, his, hsj, hfit, hle, hlen⟩ := hwithin st hst
    have hlt : x / 4 - s % n < w := by omega
    have hmod : (s + (x / 4 - s % n)) % n = s % n + (x / 4 - s % n) := add_mod_of_lt (by omega)
    exact ⟨s + (x / 4 - s % n), by omega, by omega, by omega⟩

/-- The words of a message have positions between `out` and `in`. -/
theorem AtHead.position {tmpOut a k : ℕ} {m : Msg} (h : AtHead n r o i q tmpOut m a)
    (hn : 0 < n) (hlo : tmpOut ≤ k) (hhi : k < tmpOut + (m.msgLen + reservLen)) :
    ∃ y, o ≤ y ∧ y < i ∧ y % n = k := by
  obtain ⟨q', -, hframe, hqueue⟩ := h
  obtain ⟨s, len, hos, rfl, rfl, hfit, hhere⟩ := hframe.start hn
  obtain ⟨-, -, rfl, -⟩ := here_iff.mp hhere
  have hle := queue_le hn hqueue
  refine ⟨s + (k - s % n), by omega, by omega, ?_⟩
  rw [add_mod_of_lt (by omega)]
  omega

/-- What the consumer may load has a position between `out` and `in`. -/
theorem ConsumerFits.position {c : Consumer} (h : ConsumerFits n r o i q c)
    (hring : Between n r q o i) (hx : c.loads x) : ∃ y, o ≤ y ∧ y < i ∧ y % n = x / 4 := by
  have hres : reservLen = 1 := rfl
  cases c with
  | idle => exact hx.elim
  | pending tmpOut =>
    obtain ⟨-, rfl, hne⟩ := h
    obtain ⟨hlo, hhi⟩ := hx
    have hle := hring.le
    have hoi : o ≠ i := fun heq => hne ((queue_eq_nil_iff hring.pos hring.queue).mpr heq)
    exact ⟨o, le_rfl, by omega, by omega⟩
  | found tmpOut =>
    obtain ⟨-, m, a, hhead⟩ := h
    obtain ⟨hlo, hhi⟩ := hx
    exact hhead.position hring.pos (by omega) (by omega)
  | sized tmpOut msgLen =>
    obtain ⟨-, m, a, hhead, -⟩ := h
    obtain ⟨hlo, hhi⟩ := hx
    exact hhead.position hring.pos (by omega) (by omega)
  | holds tmpOut msgLen =>
    obtain ⟨-, m, a, hhead, rfl, -⟩ := h
    obtain ⟨hlo, hhi⟩ := hx
    exact hhead.position hring.pos (by omega) (by omega)
  | stored => exact hx.elim
  | compared emptyFlag => exact hx.elim

/-- The two threads never touch the same byte: whatever the producer is about to store lies
in the storage and outside of everything that the consumer may load before it stores `out`. -/
theorem threads_do_not_race {pBuf size : ℕ} {r : QuickMsgRing} (turns : List Turn)
    (hsize : size < 2 ^ 29) (hinit : initQuickMsgRing pBuf size = some r) :
    let s := (Runs.run turn (.init r) turns).1
    ∀ x, s.producer.stores x → x < 4 * (size / 4) ∧ ¬ s.consumer.loads x := by
  intro s x hx
  obtain ⟨q, -, o, i, hring, hprod, hcons⟩ := run_represents turns hsize hinit
  obtain ⟨y, hiy, hyo, hy⟩ := hprod.position hx
  have hlt := Nat.mod_lt y hring.pos
  refine ⟨by omega, ?_⟩
  intro hload
  obtain ⟨z, hoz, hzi, hz⟩ := hcons.position hring hload
  exact index_ne_of_window (show z < y by omega) (by omega) (hz.trans hy.symm)

/-- In the middle of the overlapping turns, the second message is stored behind the first one. -/
theorem threads_do_not_race_overlapping :
    let s := (Runs.run turn (.init ⟨1000, fun _ => 0, true, 8, 0, 0, 0, 0⟩)
      (overlappingTurns.take 13)).1
    s.consumer.loads 4 ∧ s.producer.stores 8 ∧ 8 < 4 * (32 / 4) ∧ ¬ s.consumer.loads 8 := by
  intro s
  have hinit : initQuickMsgRing 1000 32 = some ⟨1000, fun _ => 0, true, 8, 0, 0, 0, 0⟩ := rfl
  have hstores : s.producer.stores 8 :=
    ⟨(8, [1, 0, 0, 0]), List.mem_cons_self, by decide, by decide⟩
  exact ⟨⟨by decide, by decide⟩, hstores,
    threads_do_not_race (overlappingTurns.take 13) (by decide) hinit 8 hstores⟩

end Races

end TestMac.QuickMsgRing
