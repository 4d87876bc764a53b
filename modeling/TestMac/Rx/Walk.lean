import TestMac.Rx.Decode

/-!
# The walk of `macRevL1Ctrl` over a group of messages

A group is a list of messages behind the group header, each on the next
four-byte boundary. `macRevL1Ctrl` hands every message to `fapiMsgDec`, in
order, up to the first one whose identifier is not handled.
-/

namespace TestMac

open Bytes Decoder

/-- One message of a group: its identifier and the size of its body. -/
structure L1Msg where
  msgId : ℕ
  msgSize : ℕ

/-- The bytes from the start of a message to the next four-byte boundary behind it. -/
def L1Msg.span (msg : L1Msg) : ℕ := 4 * ((sizeofL1GeneralMsgHdr + msg.msgSize + 3) / 4)

/-- The messages lie one after the other from the address `p` on. Their bodies
are whatever the memory holds there. -/
def LaidOut (m : Mem) : ℕ → List L1Msg → Prop
  | _, [] => True
  | p, msg :: msgs => rd32 m p = msg.msgId ∧ rd32 m (p + 4) = msg.msgSize ∧
      LaidOut m (p + msg.span) msgs

/-- Some decoder of `fapiMsgDec` handles the identifier. -/
def handled (msgId : ℕ) : Prop := msgId ∈
  [fapiRxDataIndication, fapiSlotIndication, fapiConfigResponse, fapiStopIndication,
    fapiErrorIndication, fapiCrcIndication, fapiUciIndication, fapiSrsIndication,
    fapiPrachIndication]

instance (msgId : ℕ) : Decidable (handled msgId) := inferInstanceAs (Decidable (_ ∈ _))

/-- The messages from `p` on, with their addresses, up to and including the first
one that is not handled. -/
def reached : ℕ → List L1Msg → List (ℕ × L1Msg)
  | _, [] => []
  | p, msg :: msgs => (p, msg) :: if handled msg.msgId then reached (p + msg.span) msgs else []

/-- The pointer handed to `fapiMsgDec`. -/
def fapiMsgDecArg : WalkCall → Option ℕ
  | .fapiMsgDec l1MessageInput => some l1MessageInput
  | _ => none

variable {m : Mem} {fuel p : ℕ}

/-- `fapiMsgDec` has no decoder exactly for the identifiers it does not handle. -/
theorem fapiMsgBody_eq_none {msgId pMsg : ℕ} :
    fapiMsgBody fuel msgId pMsg = none ↔ ¬ handled msgId := by
  have hbranch : ∀ (p : Prop) [Decidable p] (body : RxDec Unit) (rest : Option (RxDec Unit)),
      (if p then some body else rest) = none ↔ ¬ p ∧ rest = none := by
    intro p _ body rest
    by_cases hp : p
    · simp [hp]
    · simp [hp]
  simp only [fapiMsgBody, hbranch, handled, List.mem_cons, List.not_mem_nil, or_false, not_or,
    and_true]

/-- The message length that `fapiMsgDec` returns is not taken for an error. -/
theorem msgLen_ne_illegal {msgSize : ℕ} (h : msgSize < 4294967284) :
    (msgSize + 8) % 4294967296 ≠ illegalMsgLen := by
  unfold illegalMsgLen
  omega

/-- A message of less than `2 ^ 32 - 12` bytes is followed by the next four-byte boundary. -/
theorem l1MsgStep_eq_span {msg : L1Msg} (h : msg.msgSize < 4294967284) :
    l1MsgStep ((msg.msgSize + 8) % 4294967296) = msg.span := by
  unfold l1MsgStep L1Msg.span sizeofL1GeneralMsgHdr
  omega

/-- `fapiMsgDec` rejects a message that it does not handle. -/
theorem fapiMsgDec_unhandled (h : ¬ handled (rd32 m p)) :
    (fapiMsgDec fuel p m).2 = .ok illegalMsgLen := by
  have hret : Returns (some : RxCall → _) m (fapiMsgDec fuel p) [] illegalMsgLen := by
    rw [fapiMsgDec]
    refine (Returns.read 4 p).silent ?_
    rw [show leValue (slice m p 4) = rd32 m p from rfl, fapiMsgBody_eq_none.mpr h]
    exact .pure _
  exact hret.1

/-- `fapiMsgDec` returns the length of a message whose decoder returns. -/
theorem fapiMsgDec_handled {body : RxDec Unit}
    (hbody : fapiMsgBody fuel (rd32 m p) (p + sizeofL1GeneralMsgHdr) = some body)
    (hret : (body m).2 = .ok ()) :
    (fapiMsgDec fuel p m).2 = .ok ((rd32 m (p + 4) + 8) % 4294967296) := by
  have hall : Returns (some : RxCall → _) m (fapiMsgDec fuel p) (body.calls m)
      ((rd32 m (p + 4) + 8) % 4294967296) := by
    rw [fapiMsgDec, ← List.append_nil (body.calls m)]
    refine (Returns.read 4 p).silent ?_
    rw [show leValue (slice m p 4) = rd32 m p from rfl, hbody]
    exact Returns.bind ⟨hret, by simp⟩ ((Returns.read 4 (p + 4)).silent (.pure _))
  exact hall.1

/-- The loop of `macRevL1Ctrl` goes on behind a message that is decoded. -/
theorem returns_loop_handled {k off len : ℕ} {ps : List ℕ} {res : Option ℕ}
    (hdec : (fapiMsgDec fuel p m).2 = .ok len) (hlen : len ≠ illegalMsgLen)
    (hloop : Returns fapiMsgDecArg m
      (macRevL1CtrlLoop fuel k (p + l1MsgStep len) ((off + len) % 4294967296)) ps res) :
    Returns fapiMsgDecArg m (macRevL1CtrlLoop fuel (k + 1) p off) (p :: ps) res := by
  rw [macRevL1CtrlLoop]
  refine (Returns.read 4 _).silent ((Returns.call _).shows
    ((Returns.lift_unseen (fun _ => rfl) hdec).silent ?_))
  rw [if_neg hlen]
  exact (Returns.call _).silent hloop

/-- The loop of `macRevL1Ctrl` ends at a message that is rejected. -/
theorem returns_loop_illegal {k off : ℕ} (hdec : (fapiMsgDec fuel p m).2 = .ok illegalMsgLen) :
    Returns fapiMsgDecArg m (macRevL1CtrlLoop fuel (k + 1) p off) [p] none := by
  rw [macRevL1CtrlLoop]
  refine (Returns.read 4 _).silent ((Returns.call _).shows
    ((Returns.lift_unseen (fun _ => rfl) hdec).silent ?_))
  rw [if_pos rfl]
  exact .pure _

/-- The decoders of the messages reached return: no assertion of theirs fails
and their loops end. -/
def BodiesReturn (m : Mem) (fuel p : ℕ) (msgs : List L1Msg) : Prop :=
  ∀ x ∈ reached p msgs, ∀ body,
    fapiMsgBody fuel x.2.msgId (x.1 + sizeofL1GeneralMsgHdr) = some body → (body m).2 = .ok ()

/-- The loop of `macRevL1Ctrl` passes the messages reached to `fapiMsgDec`. -/
theorem macRevL1CtrlLoop_walks {msgs : List L1Msg} (hlaid : LaidOut m p msgs)
    (hsize : ∀ msg ∈ msgs, msg.msgSize < 4294967284) (hret : BodiesReturn m fuel p msgs)
    (off : ℕ) :
    ∃ res, Returns fapiMsgDecArg m (macRevL1CtrlLoop fuel msgs.length p off)
      ((reached p msgs).map Prod.fst) res := by
  induction msgs generalizing p off with
  | nil => exact ⟨some off, .pure _⟩
  | cons msg msgs ih =>
    obtain ⟨hid, hsz, hrest⟩ := hlaid
    have hmsg := hsize msg (by simp)
    by_cases hhandled : handled msg.msgId
    · obtain ⟨body, hbody⟩ := Option.ne_none_iff_exists'.mp
        (fun hnone => (fapiMsgBody_eq_none.mp hnone) hhandled :
          fapiMsgBody fuel msg.msgId (p + sizeofL1GeneralMsgHdr) ≠ none)
      have hdec := fapiMsgDec_handled (hid.symm ▸ hbody)
        (hret (p, msg) (by simp [reached]) body hbody)
      rw [hsz] at hdec
      obtain ⟨res, hloop⟩ := ih hrest (fun msg' h => hsize msg' (by simp [h]))
        (fun x hx => hret x (by simp [reached, hhandled, hx]))
        ((off + (msg.msgSize + 8) % 4294967296) % 4294967296)
      rw [← l1MsgStep_eq_span hmsg] at hloop
      refine ⟨res, ?_⟩
      simpa [reached, hhandled, l1MsgStep_eq_span hmsg] using
        returns_loop_handled hdec (msgLen_ne_illegal hmsg) hloop
    · have hdec : (fapiMsgDec fuel p m).2 = .ok illegalMsgLen :=
        fapiMsgDec_unhandled (hid.symm ▸ hhandled)
      refine ⟨none, ?_⟩
      simpa [reached, hhandled] using returns_loop_illegal hdec

/-- Whatever the loop of `macRevL1Ctrl` found, the size of the payload is returned. -/
theorem returns_payloadSize (payloadSize : ℕ) (res : Option ℕ) :
    Returns fapiMsgDecArg m (match res with
      | none => pure payloadSize
      | some _offset => pure (if payloadSize ≠ _offset then payloadSize else _offset) :
        Decoder WalkCall ℕ) [] payloadSize := by
  cases res with
  | none => exact .pure _
  | some _offset =>
    by_cases heq : payloadSize = _offset
    · subst heq
      simpa using Returns.pure _
    · simpa [heq] using Returns.pure _

/-- `macRevL1Ctrl` calls `fapiMsgDec` once for every message of the group, in
order and with a pointer to its own header, up to the first message that is not
handled, and returns the size of the payload. -/
theorem macRevL1Ctrl_walks (buf payloadSize : ℕ) (msgs : List L1Msg) (hbuf : buf ≠ 0)
    (hpayload : 0 < payloadSize) (hnum : rd8 m buf = msgs.length) (hmin : 1 ≤ msgs.length)
    (hmax : msgs.length ≤ 254) (hlaid : LaidOut m (buf + sizeofFapiMsgHdr) msgs)
    (hsize : ∀ msg ∈ msgs, msg.msgSize < 2 ^ 32 - 12)
    (hret : BodiesReturn m fuel (buf + sizeofFapiMsgHdr) msgs) :
    Returns fapiMsgDecArg m (macRevL1Ctrl fuel buf payloadSize)
      ((reached (buf + sizeofFapiMsgHdr) msgs).map Prod.fst) payloadSize := by
  obtain ⟨res, hloop⟩ := macRevL1CtrlLoop_walks hlaid hsize hret sizeofFapiMsgHdr
  rw [macRevL1Ctrl, ← List.append_nil (List.map _ _)]
  refine (Returns.assert hbuf).silent ((Returns.assert hpayload).silent ((Returns.call _).silent
    ((Returns.read 1 _).silent ((Returns.read 1 _).silent ?_))))
  rw [show leValue (slice m buf 1) = rd8 m buf from rfl, hnum, if_neg (by omega),
    if_neg (by omega)]
  exact hloop.bind (returns_payloadSize payloadSize res)

/-- A stop indication is decoded, and the unknown message behind it ends the walk. -/
theorem macRevL1Ctrl_walks_stop_unknown :
    Returns fapiMsgDecArg
      (store (fun _ => 0) 1000 [2, 0, 0, 0, 6, 0, 0, 0, 3, 0, 0, 0, 1, 2, 3, 0, 153])
      (macRevL1Ctrl 1 1000 24) [1004, 1016] 24 := by
  refine macRevL1Ctrl_walks 1000 24 [⟨6, 3⟩, ⟨153, 0⟩] (by decide) (by decide) (by decide)
    (by decide) (by decide) ⟨by decide, by decide, by decide, by decide, trivial⟩ (by simp) ?_
  intro x hx body hbody
  have hx' : x ∈ [(1004, (⟨6, 3⟩ : L1Msg)), (1016, ⟨153, 0⟩)] := hx
  rcases List.mem_pair.mp hx' with rfl | rfl
  · obtain rfl := Option.some.inj hbody
    rfl
  · simp [fapiMsgBody_eq_none.mpr (by decide : ¬ handled 153)] at hbody

/-- A UCI indication with an empty body is decoded from the message behind it: an
assertion fails there, so the slot indication is not passed on and nothing is returned. -/
theorem macRevL1Ctrl_empty_uci_aborts :
    let m := store (fun _ => 0) 1000
      [2, 0, 0, 0, 0x87, 0, 0, 0, 0, 0, 0, 0, 0x82, 0, 0, 0, 4, 0, 0, 0, 0, 0, 0, 0]
    let msgs : List L1Msg := [⟨fapiUciIndication, 0⟩, ⟨fapiSlotIndication, 4⟩]
    rd8 m 1000 = msgs.length ∧ LaidOut m 1004 msgs ∧ (∀ msg ∈ msgs, msg.msgSize < 2 ^ 32 - 12) ∧
      (reached 1004 msgs).map Prod.fst = [1004, 1012] ∧
      ∀ fuel, (macRevL1Ctrl (fuel + 1) 1000 24 m).2 = .assertFailed ∧
        ((macRevL1Ctrl (fuel + 1) 1000 24).calls m).filterMap fapiMsgDecArg = [1004] := by
  refine ⟨by decide, ⟨by decide, by decide, by decide, by decide, trivial⟩, by decide, by decide,
    fun fuel => ⟨rfl, rfl⟩⟩

end TestMac
