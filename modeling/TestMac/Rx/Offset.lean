import Mathlib.Algebra.Order.BigOperators.Group.List
import TestMac.Rx.Walk
import TestMac.Rx.Group

/-!
# The two positions that `macRevL1Ctrl` keeps

The pointer `l1MsgInput` moves on by whole words and `_offset` by the bytes of the
message. They part behind the first message whose size is not a multiple of four,
and stay apart, since the pointer never falls behind.
-/

namespace TestMac

open Bytes Decoder

/-- The places that `l1MsgInput` is set to. -/
def cursorOf : WalkCall → Option ℕ
  | .cursor l1MsgInput => some l1MsgInput
  | _ => none

/-- The bytes of a message, header and body. -/
def L1Msg.bytes (msg : L1Msg) : ℕ := sizeofL1GeneralMsgHdr + msg.msgSize

/-- The size of the payload that a group of messages takes, each of them up to the next
four-byte boundary. -/
def layoutSize (msgs : List L1Msg) : ℕ := sizeofFapiMsgHdr + (msgs.map L1Msg.span).sum

variable {m : Mem} {fuel p off off' : ℕ} {ps : List ℕ} {msgs : List L1Msg}

/-- A message after which the loop of `macRevL1Ctrl` goes on. -/
def Passes (m : Mem) (fuel p : ℕ) : Prop :=
  (fapiMsgDec fuel p m).2 = .ok (msgLen m p) ∧ msgLen m p ≠ illegalMsgLen

/-- What the loop of `macRevL1Ctrl` did in a round after which it went on. -/
theorem returns_loop_inv {k : ℕ}
    (h : Returns cursorOf m (macRevL1CtrlLoop fuel (k + 1) p off) ps (some off')) :
    Passes m fuel p ∧ ∃ ps', ps = (p + l1MsgStep (msgLen m p)) :: ps' ∧
      Returns cursorOf m (macRevL1CtrlLoop fuel k (p + l1MsgStep (msgLen m p))
        ((off + msgLen m p) % 4294967296)) ps' (some off') := by
  rw [macRevL1CtrlLoop, (Returns.read 4 _).silent_iff,
    (Returns.call (WalkCall.fapiMsgDec p)).silent_iff] at h
  obtain ⟨es₁, len, es₂, rfl, hdec, hrest⟩ := h.bind_inv
  have hout : (fapiMsgDec fuel p m).2 = .ok len := by
    rw [← result_lift WalkCall.rx]
    exact hdec.1
  have hunseen : Returns cursorOf m ((fapiMsgDec fuel p).lift .rx) [] len := by
    apply Returns.lift_unseen
    · exact fun _ => rfl
    · exact hout
  obtain rfl : es₁ = [] := by
    rw [← hdec.2]
    exact hunseen.2
  by_cases hill : len = illegalMsgLen
  · rw [if_pos hill] at hrest
    have hend : (Outcome.ok (none : Option ℕ)) = .ok (some off') := hrest.1
    simp at hend
  · have hsafe : Safe (fun _ _ => True) m (fapiMsgDec fuel p)
        (fun len => len = illegalMsgLen ∨ handled (rd32 m p) ∧ len = msgLen m p) :=
      safe_fapiMsgDec trivial trivial fun body _ => .unbounded body
    obtain rfl : len = msgLen m p := ((hsafe.2 len hout).resolve_left hill).2
    rw [if_neg hill, (Returns.call _).bind_iff] at hrest
    exact ⟨⟨hout, hill⟩, hrest⟩

/-- The two positions after some rounds: the pointer moved on by the spans of the
messages and `_offset` by their bytes. -/
theorem returns_loop_offset {k : ℕ} (hlaid : LaidOut m p msgs) (hk : k ≤ msgs.length)
    (hsize : off + (msgs.map L1Msg.span).sum < 4294967296)
    (h : Returns cursorOf m (macRevL1CtrlLoop fuel k p off) ps (some off')) :
    ps.getLastD p = p + ((msgs.take k).map L1Msg.span).sum ∧
      off' = off + ((msgs.take k).map L1Msg.bytes).sum := by
  induction k generalizing p off ps msgs with
  | zero =>
    obtain ⟨hout, rfl⟩ := h
    have hend : (Outcome.ok (some off)) = .ok (some off') := hout
    obtain rfl := Option.some.inj (Outcome.ok.inj hend)
    exact ⟨rfl, rfl⟩
  | succ k ih =>
    cases msgs with
    | nil => simp at hk
    | cons msg msgs =>
      obtain ⟨-, hmsg, hrest⟩ := hlaid
      obtain ⟨-, ps', rfl, h'⟩ := returns_loop_inv h
      rw [List.map_cons, List.sum_cons] at hsize
      have hspan : msg.bytes ≤ msg.span := by
        unfold L1Msg.bytes L1Msg.span
        omega
      have hbytes : msgLen m p = msg.bytes := by
        unfold L1Msg.bytes L1Msg.span sizeofL1GeneralMsgHdr at *
        rw [msgLen, hmsg, Nat.mod_eq_of_lt (by omega), Nat.add_comm]
      have hstep : l1MsgStep (msgLen m p) = msg.span := by
        rw [hbytes]
        unfold l1MsgStep L1Msg.bytes L1Msg.span at *
        omega
      rw [hstep, hbytes, Nat.mod_eq_of_lt (by omega)] at h'
      obtain ⟨hlast, hoff⟩ := ih hrest (by simpa using hk) (by omega) h'
      rw [List.getLastD_cons, hstep, hlast, hoff]
      simp only [List.take_succ_cons, List.map_cons, List.sum_cons, Nat.add_assoc, and_self]

/-- The bytes of messages fill their spans exactly when every size is a multiple of four. -/
theorem sum_bytes_eq_iff :
    (msgs.map L1Msg.bytes).sum = (msgs.map L1Msg.span).sum ↔ ∀ msg ∈ msgs, msg.msgSize % 4 = 0 := by
  have hle : ∀ msgs : List L1Msg, (msgs.map L1Msg.bytes).sum ≤ (msgs.map L1Msg.span).sum := by
    intro msgs
    apply List.sum_le_sum
    intro msg _
    unfold L1Msg.bytes L1Msg.span
    omega
  induction msgs with
  | nil => simp
  | cons msg msgs ih =>
    have hmsg : msg.bytes ≤ msg.span ∧ (msg.bytes = msg.span ↔ msg.msgSize % 4 = 0) := by
      unfold L1Msg.bytes L1Msg.span sizeofL1GeneralMsgHdr
      omega
    have hrest := hle msgs
    simp only [List.forall_mem_cons, ← ih, ← hmsg.2, List.map_cons, List.sum_cons]
    omega

/-- After some rounds over a group, `_offset` is the distance from `buf` to
`l1MsgInput` exactly when the messages so far have sizes that are multiples of four. At
the end it is the size of the payload exactly when all of them have. -/
theorem macRevL1Ctrl_offset (buf : ℕ) (msgs : List L1Msg)
    (hlaid : LaidOut m (buf + sizeofFapiMsgHdr) msgs) (hpayload : layoutSize msgs < 2 ^ 32) :
    (∀ k ≤ msgs.length, ∀ ps _offset,
      Returns cursorOf m (macRevL1CtrlLoop fuel k (buf + sizeofFapiMsgHdr) sizeofFapiMsgHdr) ps
        (some _offset) →
      (ps.getLastD (buf + sizeofFapiMsgHdr) = buf + _offset ↔
        ∀ msg ∈ msgs.take k, msg.msgSize % 4 = 0)) ∧
    ∀ ps _offset,
      Returns cursorOf m (macRevL1CtrlLoop fuel msgs.length (buf + sizeofFapiMsgHdr)
        sizeofFapiMsgHdr) ps (some _offset) →
      (_offset = layoutSize msgs ↔ ∀ msg ∈ msgs, msg.msgSize % 4 = 0) := by
  constructor
  · intro k hk ps _offset h
    obtain ⟨hlast, hoff⟩ := returns_loop_offset hlaid hk hpayload h
    rw [hlast, hoff, ← sum_bytes_eq_iff]
    omega
  · intro ps _offset h
    obtain ⟨-, hoff⟩ := returns_loop_offset hlaid le_rfl hpayload h
    rw [List.take_length] at hoff
    rw [hoff, layoutSize, ← sum_bytes_eq_iff]
    omega

/-- Two configuration responses: the first one is padded, the body of the second one is
its error code alone. -/
def twoResponses : Mem :=
  store (fun _ => 0) 1000 [2, 0, 0, 0, 3, 0, 0, 0, 4, 0, 0, 0, 0, 0, 0, 0, 3, 0, 0, 0, 1, 0, 0, 0]

theorem laidOut_twoResponses : LaidOut twoResponses 1004 [⟨3, 4⟩, ⟨3, 1⟩] :=
  ⟨by decide, by decide, by decide, by decide, trivial⟩

/-- Behind the padded response the two positions are the same. -/
theorem macRevL1Ctrl_offset_padded : ∃ ps _offset,
    Returns cursorOf twoResponses (macRevL1CtrlLoop 1 1 1004 4) ps (some _offset) ∧
      ps.getLastD 1004 = 1000 + _offset := by
  have hround : Returns cursorOf twoResponses (macRevL1CtrlLoop 1 1 1004 4) [1016] (some 16) :=
    ⟨rfl, rfl⟩
  exact ⟨_, _, hround, ((macRevL1Ctrl_offset 1000 [⟨3, 4⟩, ⟨3, 1⟩] laidOut_twoResponses
    (by decide)).1 1 (by decide) _ _ hround).mpr (by simp)⟩

/-- Behind the response of one byte `_offset` falls short of the pointer and of the size of
the payload. -/
theorem macRevL1Ctrl_offset_short : LaidOut twoResponses 1004 [⟨3, 4⟩, ⟨3, 1⟩] ∧
    (∀ msg ∈ [⟨3, 4⟩, (⟨3, 1⟩ : L1Msg)], handled msg.msgId) ∧
    ∃ ps _offset, Returns cursorOf twoResponses (macRevL1CtrlLoop 1 2 1004 4) ps (some _offset) ∧
      ps.getLastD 1004 ≠ 1000 + _offset ∧ _offset ≠ layoutSize [⟨3, 4⟩, ⟨3, 1⟩] :=
  ⟨laidOut_twoResponses, by decide, [1016, 1028], 25, ⟨rfl, rfl⟩, by decide, by decide⟩

end TestMac
