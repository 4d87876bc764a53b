import TestMac.Rx.Bounds

/-!
# What `macRevL1Ctrl` reads and where its cursor goes

The messages of a group are found through their announced sizes. When each of
them lies inside the payload with all that it announces, only the payload is
read. The cursor moves on after every message, except that a size close to
`2 ^ 32` makes the step wrap to zero.
-/

namespace TestMac

open Bytes Decoder

/-- The addresses of the messages that the walk reaches: each starts where the
size of the one before sends it, and the walk ends behind a message that is not
handled or whose length is taken for an error. -/
def headers (m : Mem) (p : ℕ) : ℕ → List ℕ
  | 0 => []
  | recvCnt + 1 => p :: if handled (rd32 m p) ∧ msgLen m p ≠ illegalMsgLen
      then headers m (p + l1MsgStep (msgLen m p)) recvCnt else []

/-- The addresses of the messages that `macRevL1Ctrl` reaches; a count of 255 is refused. -/
def groupHeaders (m : Mem) (buf : ℕ) : List ℕ :=
  if rd8 m buf < 255 then headers m (buf + sizeofFapiMsgHdr) (rd8 m buf) else []

variable {m : Mem} {b e fuel : ℕ}

/-- The loop over a group reads inside the payload when every message it reaches
lies inside. -/
theorem safe_macRevL1CtrlLoop {p recvCnt _offset : ℕ} (hb : b ≤ p) (he : e < b + 2 ^ 32)
    (hfits : ∀ q ∈ headers m p recvCnt, q + sizeofL1GeneralMsgHdr ≤ e ∧
      bodyFits m e (rd32 m q) (q + sizeofL1GeneralMsgHdr)) :
    Safe (Inside b e) m (macRevL1CtrlLoop fuel recvCnt p _offset) (fun _ => True) := by
  induction recvCnt generalizing p _offset with
  | zero => exact .pure trivial
  | succ recvCnt ih =>
    obtain ⟨hhdr, hbody⟩ := hfits p (by simp [headers])
    have hsize : sizeofL1GeneralMsgHdr = 8 := rfl
    refine (Safe.read ⟨by omega, by omega⟩).bind fun _ _ => (Safe.call _).bind fun _ _ =>
      (safe_fapiMsgDec ⟨by omega, by omega⟩ ⟨by omega, by omega⟩ fun _ =>
        safe_fapiMsgBody (by omega) he hbody).lift.bind fun singleMsgLen hlen => ?_
    by_cases hill : singleMsgLen = illegalMsgLen
    · rw [if_pos hill]
      exact .pure trivial
    · rw [if_neg hill]
      obtain ⟨hhandled, rfl⟩ := hlen.resolve_left hill
      refine (Safe.call _).bind fun _ _ => ih (by omega) fun q hq => hfits q ?_
      rw [headers, if_pos ⟨hhandled, hill⟩]
      exact List.mem_cons_of_mem _ hq

/-- What `macRevL1Ctrl` reads lies inside the payload when every message that the
walk reaches does. -/
theorem safe_macRevL1Ctrl {buf payloadSize : ℕ} (hpayload : 4 ≤ payloadSize)
    (hmax : payloadSize < 2 ^ 32)
    (hfits : ∀ q ∈ groupHeaders m buf, q + sizeofL1GeneralMsgHdr ≤ buf + payloadSize ∧
      bodyFits m (buf + payloadSize) (rd32 m q) (q + sizeofL1GeneralMsgHdr)) :
    Safe (Inside buf (buf + payloadSize)) m (macRevL1Ctrl fuel buf payloadSize)
      (fun _ => True) := by
  refine (Safe.assert _).bind fun _ _ => (Safe.assert _).bind fun _ _ => (Safe.call _).bind
    fun _ _ => (Safe.read ⟨by omega, by omega⟩).bind fun recvCnt hcnt => ?_
  replace hcnt : recvCnt = rd8 m buf := hcnt
  rw [groupHeaders, ← hcnt] at hfits
  refine (Safe.read ⟨by omega, by omega⟩).bind fun _ _ => ?_
  split_ifs with h0 h255
  · exact .pure trivial
  · exact .pure trivial
  · rw [if_pos (by omega)] at hfits
    refine (safe_macRevL1CtrlLoop (by omega) (by omega) hfits).bind fun res _ => ?_
    cases res with
    | none => exact .pure trivial
    | some _offset => exact .pure trivial

/-- The places that the group cursor takes. -/
def cursors (es : List WalkCall) : List ℕ := es.filterMap fun
  | .cursor l1MsgInput => some l1MsgInput
  | _ => none

@[simp]
theorem cursors_nil : cursors [] = [] := rfl

@[simp]
theorem cursors_cursor (p : ℕ) (es : List WalkCall) : cursors (.cursor p :: es) = p :: cursors es :=
  rfl

@[simp]
theorem cursors_fapiMsgDec (p : ℕ) (es : List WalkCall) :
    cursors (.fapiMsgDec p :: es) = cursors es := rfl

@[simp]
theorem cursors_append (es es' : List WalkCall) : cursors (es ++ es') = cursors es ++ cursors es' :=
  List.filterMap_append

@[simp]
theorem cursors_rx (es : List RxCall) : cursors (es.map .rx) = [] := by simp [cursors]

/-- The calls of one round of the loop over a group. -/
theorem calls_macRevL1CtrlLoop (p recvCnt _offset : ℕ) :
    (macRevL1CtrlLoop fuel (recvCnt + 1) p _offset).calls m =
      .fapiMsgDec p :: (((fapiMsgDec fuel p).calls m).map .rx ++
        match (fapiMsgDec fuel p m).2 with
        | .ok len => if len = illegalMsgLen then [] else .cursor (p + l1MsgStep len) ::
            (macRevL1CtrlLoop fuel recvCnt (p + l1MsgStep len)
              ((_offset + len) % 4294967296)).calls m
        | _ => []) := by
  rw [macRevL1CtrlLoop]
  simp only [calls_bind, calls_read, calls_call, calls_lift, result_read, result_call, result_lift]
  cases (fapiMsgDec fuel p m).2 with
  | ok len =>
    by_cases hill : len = illegalMsgLen
    · simp [hill]
    · simp [if_neg hill, calls_bind]
  | assertFailed => simp
  | running => simp

/-- The loop moves the cursor behind the first message and goes on there, or it
does not move it. -/
theorem cursors_loop (m : Mem) (fuel p recvCnt _offset : ℕ) :
    cursors ((macRevL1CtrlLoop fuel (recvCnt + 1) p _offset).calls m) = [] ∨
      handled (rd32 m p) ∧ msgLen m p ≠ illegalMsgLen ∧
      ∃ _offset', cursors ((macRevL1CtrlLoop fuel (recvCnt + 1) p _offset).calls m) =
        (p + l1MsgStep (msgLen m p)) ::
          cursors
            ((macRevL1CtrlLoop fuel recvCnt (p + l1MsgStep (msgLen m p)) _offset').calls m) := by
  have hlen : ∀ len, (fapiMsgDec fuel p m).2 = .ok len →
      len = illegalMsgLen ∨ handled (rd32 m p) ∧ len = msgLen m p :=
    (safe_fapiMsgDec trivial trivial fun body _ => .unbounded body).2
  rw [calls_macRevL1CtrlLoop]
  generalize (fapiMsgDec fuel p m).2 = res at hlen ⊢
  cases res with
  | ok len =>
    by_cases hill : len = illegalMsgLen
    · exact .inl (by simp [hill])
    · obtain ⟨hhandled, rfl⟩ := (hlen len rfl).resolve_left hill
      refine .inr ⟨hhandled, hill, (_offset + msgLen m p) % 4294967296, ?_⟩
      simp [hill]
  | assertFailed => exact .inl (by simp)
  | running => exact .inl (by simp)

/-- The cursor moves strictly forward when no message reached has one of the three
sizes for which the step of the loop wraps to zero. -/
theorem isChain_cursors_loop {p recvCnt _offset : ℕ}
    (hsize : ∀ q ∈ headers m p recvCnt,
      rd32 m (q + 4) ∉ [0xFFFFFFF5, 0xFFFFFFF6, 0xFFFFFFF8]) :
    (p :: cursors ((macRevL1CtrlLoop fuel recvCnt p _offset).calls m)).IsChain (· < ·) := by
  induction recvCnt generalizing p _offset with
  | zero => exact .singleton p
  | succ recvCnt ih =>
    rcases cursors_loop m fuel p recvCnt _offset with
      hnil | ⟨hhandled, hlegal, _offset', hcons⟩
    · rw [hnil]
      exact .singleton p
    · rw [hcons]
      refine List.isChain_cons_cons.mpr ⟨?_, ih fun q hq => hsize q ?_⟩
      · have hp := hsize p (by simp [headers])
        have hlt := rd32_lt m (p + 4)
        simp only [List.mem_cons, List.not_mem_nil, or_false, not_or] at hp
        unfold l1MsgStep
        unfold illegalMsgLen at hlegal
        unfold msgLen at *
        omega
      · rw [headers, if_pos ⟨hhandled, hlegal⟩]
        exact List.mem_cons_of_mem _ hq

/-- The calls of `macRevL1Ctrl`: the cursor is set behind the group header and the
messages are walked unless their number is 0 or 255. -/
theorem calls_macRevL1Ctrl (m : Mem) (fuel buf payloadSize : ℕ) :
    (macRevL1Ctrl fuel buf payloadSize).calls m = [] ∨
      (macRevL1Ctrl fuel buf payloadSize).calls m = .cursor (buf + sizeofFapiMsgHdr) ::
        if rd8 m buf < 255 then
          (macRevL1CtrlLoop fuel (rd8 m buf) (buf + sizeofFapiMsgHdr) sizeofFapiMsgHdr).calls m
        else [] := by
  unfold macRevL1Ctrl
  by_cases hbuf : buf ≠ 0
  · by_cases hpayload : 0 < payloadSize
    · refine .inr ?_
      simp only [calls_bind, calls_assert, result_assert, calls_call, result_call, calls_read,
        result_read, if_pos hbuf, if_pos hpayload, List.nil_append, List.singleton_append]
      rw [show leValue (slice m buf 1) = rd8 m buf from rfl]
      split_ifs with h0 hlt h255
      · rw [h0]
        rfl
      · omega
      · omega
      · rfl
      · simp only [calls_bind]
        cases (macRevL1CtrlLoop fuel (rd8 m buf) (buf + sizeofFapiMsgHdr) sizeofFapiMsgHdr m).2 with
        | ok last => cases last <;> simp
        | assertFailed => simp
        | running => simp
      · omega
    · exact .inl (by simp [calls_bind, hbuf, hpayload])
  · exact .inl (by simp only [calls_bind, calls_assert, result_assert, if_neg hbuf,
      List.nil_append])

/-- What `macRevL1Ctrl` reads lies inside the payload when everything announced
there does, and its cursor moves strictly forward unless a message has one of the
three sizes for which its step wraps to zero. -/
theorem macRevL1Ctrl_bounded (buf payloadSize : ℕ) (hpayload : 4 ≤ payloadSize)
    (hmax : payloadSize < 2 ^ 32) (fuel : ℕ) :
    ((∀ q ∈ groupHeaders m buf, q + sizeofL1GeneralMsgHdr ≤ buf + payloadSize ∧
        bodyFits m (buf + payloadSize) (rd32 m q) (q + sizeofL1GeneralMsgHdr)) →
      ∀ addr len, .read addr len ∈ (macRevL1Ctrl fuel buf payloadSize m).1 →
        Inside buf (buf + payloadSize) addr len) ∧
    ((∀ q ∈ groupHeaders m buf, rd32 m (q + 4) ∉ [0xFFFFFFF5, 0xFFFFFFF6, 0xFFFFFFF8]) →
      (cursors ((macRevL1Ctrl fuel buf payloadSize).calls m)).IsChain (· < ·)) := by
  refine ⟨fun hfits => (safe_macRevL1Ctrl hpayload hmax hfits).1, fun hsize => ?_⟩
  rcases calls_macRevL1Ctrl m fuel buf payloadSize with hnil | hcalls
  · rw [hnil]
    exact .nil
  · rw [hcalls, cursors_cursor]
    unfold groupHeaders at hsize
    split_ifs at hsize ⊢
    · exact isChain_cursors_loop hsize
    · exact .singleton _

/-- A group of an RX data indication whose PDU has two TLVs, a CRC indication of one transport
block, and a UCI indication of a PUSCH PDU with CSI part 1 and a PUCCH PDU of format 0 or 1. -/
def mixedGroup : List UInt8 :=
  [3, 0, 0, 0] ++
  [0x85, 0, 0, 0, 44, 0, 0, 0, 7, 0, 3, 0, 1, 0, 0, 0] ++
    [1, 0, 0, 0, 70, 0, 0, 0, 2, 0, 0, 0] ++
    [2, 0, 0, 0, 100, 0, 0, 0, 0, 16, 0, 0, 1, 0, 0, 0, 4, 0, 0, 0, 9, 9, 9, 9] ++
  [0x86, 0, 0, 0, 156, 0, 0, 0, 7, 0, 3, 0, 1, 0, 0, 0] ++ List.replicate 148 0 ++
  [0x87, 0, 0, 0, 92, 0, 0, 0, 7, 0, 3, 0, 2, 0, 0, 0] ++
    [0, 0, 56, 0] ++ List.replicate 12 0 ++ [4, 0, 0, 0] ++ List.replicate 36 0 ++
    [1, 0, 28, 0] ++ List.replicate 12 0 ++ [3, 0, 0, 0] ++ List.replicate 8 0

theorem macRevL1Ctrl_bounded_mixed :
    (∀ addr len, .read addr len ∈ (macRevL1Ctrl 3 1000 320 (store (fun _ => 0) 1000 mixedGroup)).1 →
      Inside 1000 1320 addr len) ∧
    (cursors ((macRevL1Ctrl 3 1000 320).calls (store (fun _ => 0) 1000 mixedGroup))).IsChain
      (· < ·) ∧
    cursors ((macRevL1Ctrl 3 1000 320).calls (store (fun _ => 0) 1000 mixedGroup)) =
      [1004, 1056, 1220, 1320] := by
  have h := macRevL1Ctrl_bounded (m := store (fun _ => 0) 1000 mixedGroup) 1000 320
    (by decide) (by decide) 3
  exact ⟨h.1 (by decide +kernel), h.2 (by decide +kernel), by decide +kernel⟩

/-- A payload of four bytes that announces a message is read behind its end, and
a stop indication of size `2 ^ 32 - 8` does not move the cursor. -/
theorem macRevL1Ctrl_reads_outside :
    (¬ ∀ addr len, .read addr len ∈ (macRevL1Ctrl 1 1000 4 (store (fun _ => 0) 1000 [1])).1 →
      Inside 1000 1004 addr len) ∧
    cursors ((macRevL1Ctrl 1 1000 12).calls
      (store (fun _ => 0) 1000 [1, 0, 0, 0, 6, 0, 0, 0, 0xF8, 0xFF, 0xFF, 0xFF])) =
        [1004, 1004] := by
  refine ⟨fun h => ?_, rfl⟩
  have hread : Inside 1000 1004 1008 4 := h 1008 4 (List.mem_iff_getElem?.mpr ⟨3, rfl⟩)
  simp [Inside] at hread

end TestMac
