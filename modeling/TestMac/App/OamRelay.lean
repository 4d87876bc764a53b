import TestMac.App.OamConfig
import TestMac.Lib.Paths

/-!
# The relay between the network and the PHY: `mac_feu_fapi.c`

Requests come in datagrams and go to the PHY in sub-messages, and what the PHY responds goes
back in datagrams. All this is done in buffers whose other bytes are left over from before. The
relay is compared with a plain one that has messages only.

One address is kept for all clients: what the PHY responds is sent to the one heard last.
-/

namespace TestMac

open Bytes

/-- The layout of `pcxx_oam_sub_msg_t`: where its body begins, at its end, and the bytes of
its fields in front of it. -/
structure SubMsgLayout where
  msbBody : ℕ
  head : (msgId msgSize : ℕ) → List UInt8
  length_head : ∀ msgId msgSize, (head msgId msgSize).length = msbBody

/-- A sub-message of the library: its type and its fields, with as many bytes in its body as
`msg_size` says. -/
structure OamMsg where
  msgType : PcxxMsg
  msgId : ℕ
  body : List UInt8
  deriving DecidableEq

/-- The buffer in which a sub-message is built. -/
def SubMsg.buf (sub : SubMsg) (pRecvMsg : Mem) : Mem :=
  let buf := store (fun _ => 0) sub.msbBody sub.feu
  match sub.copy with
  | none => buf
  | some copy => store buf copy.dst (slice pRecvMsg copy.src copy.len)

/-- What `pcxx_oam_send_msg` finds in the buffer. -/
def SubMsg.sent (sub : SubMsg) (pRecvMsg : Mem) : OamMsg where
  msgType := sub.msgType
  msgId := sub.msgId
  body := slice (sub.buf pRecvMsg) sub.msbBody sub.msgSize

/-- `p19_config_rsp`: the bytes given to `oamSendAppRsp`, of a sub-message in the memory. The
size in the header of the message counts, cut to the width of the parameter. -/
def p19ConfigRsp (msbBody : ℕ) (subMsg : Mem) : List UInt8 :=
  let pHdr := msbBody + sizeofFeuMsgHdr
  slice subMsg pHdr (rd32 subMsg (pHdr + 4) % 65536)

/-- `oam_config_rsp`. -/
def oamConfigRsp (msbBody msgSize : ℕ) (subMsg : Mem) : List UInt8 :=
  slice subMsg 0 ((msgSize + msbBody) % 65536)

/-- What happens to the relay. -/
inductive RelayEvent (Addr : Type)
  /-- `oamRecvAppMsg`, with what is left on the stack and the datagram that has come. -/
  | recv (stack : Mem) (datagram : Option (Addr × List UInt8))
  /-- The library calls back with a sub-message in the memory, and `sendto` succeeds or not. -/
  | rsp (subMsg : OamMsg) (mem : Mem) (sends : Bool)

/-- What the relay does: a call of `pcxx_oam_send_msg`, or a datagram. -/
inductive RelayOut (Addr : Type)
  | toPhy (subMsg : OamMsg)
  | toClient (addr : Addr) (datagram : List UInt8)
  deriving DecidableEq

variable {Addr : Type} (layout : SubMsgLayout) (phyTrace : Addr)

/-- One event. The state is `clientaddr[0]`, once the socket is open and the callbacks are
registered. -/
def relayStep (clientaddr : Option Addr) : RelayEvent Addr → Option Addr × List (RelayOut Addr)
  | .recv _ none => (some (clientaddr.getD phyTrace), [])
  | .recv stack (some (addr, datagram)) =>
    (some addr, (oamRecvAppMsg layout.msbBody stack datagram).toList.map fun sub =>
      .toPhy (sub.sent (oamRecvBuf stack datagram)))
  | .rsp subMsg mem sends =>
    match clientaddr with
    | none => (none, [])
    | some addr =>
      let pMsg := match subMsg.msgType with
        | .p19 => p19ConfigRsp layout.msbBody mem
        | .oam => oamConfigRsp layout.msbBody subMsg.body.length mem
      (some addr, if sends then [.toClient addr pMsg] else [])

/-- The fields of the header of a message. -/
def feuMsgId (datagram : List UInt8) : ℕ := leValue (datagram.take 2)
def feuCellid (datagram : List UInt8) : ℕ := leValue ((datagram.drop 2).take 2)
def feuMsgSize (datagram : List UInt8) : ℕ := leValue ((datagram.drop 4).take 4)

/-- The sub-message that a datagram asks for. A message of the first kind is wrapped as it is;
of one of the second kind the header is dropped. -/
def requested (datagram : List UInt8) : Option OamMsg :=
  let msg := datagram.take (feuMsgSize datagram)
  if feuMsgId datagram ∈ p19MsgIds then
    some ⟨.p19, 0, [1, UInt8.ofNat (feuCellid datagram), 0, 0] ++ msg⟩
  else if feuMsgId datagram ∈ oamMsgIds then
    some ⟨.oam, feuMsgId datagram, msg.drop sizeofFeuGeneralMsgHdr⟩
  else none

/-- The datagram that a sub-message asks for: the message wrapped in it, or all of it. -/
def responded (subMsg : OamMsg) : List UInt8 :=
  match subMsg.msgType with
  | .p19 => subMsg.body.drop sizeofFeuMsgHdr
  | .oam => layout.head subMsg.msgId subMsg.body.length ++ subMsg.body

/-- The plain relay. -/
def plainStep (clientaddr : Option Addr) : RelayEvent Addr → Option Addr × List (RelayOut Addr)
  | .recv _ none => (some (clientaddr.getD phyTrace), [])
  | .recv _ (some (addr, datagram)) => (some addr, (requested datagram).toList.map .toPhy)
  | .rsp subMsg _ sends =>
    match clientaddr with
    | none => (none, [])
    | some addr => (some addr, if sends then [.toClient addr (responded layout subMsg)] else [])

/-- A datagram has a header, the message ends in it, and the sub-message fits its buffer. -/
structure DatagramFits (datagram : List UInt8) : Prop where
  header : sizeofFeuGeneralMsgHdr ≤ datagram.length
  whole : datagram.length ≤ oamMsgMaxLen
  p19 : feuMsgId datagram ∈ p19MsgIds → feuMsgSize datagram ≤ datagram.length ∧
    layout.msbBody + sizeofFeuMsgHdr + feuMsgSize datagram ≤ oamMsgMaxLen
  oam : feuMsgId datagram ∈ oamMsgIds → sizeofFeuGeneralMsgHdr ≤ feuMsgSize datagram ∧
    feuMsgSize datagram ≤ datagram.length ∧
    layout.msbBody + feuMsgSize datagram ≤ oamMsgMaxLen + sizeofFeuGeneralMsgHdr

/-- A sub-message stands in the memory, and the message wrapped in one of the first kind has
its own length in its header. -/
structure ResponseFits (subMsg : OamMsg) (mem : Mem) : Prop where
  stands : Holds mem 0 (layout.head subMsg.msgId subMsg.body.length ++ subMsg.body)
  length : layout.msbBody + subMsg.body.length < 65536
  p19 : subMsg.msgType = .p19 → sizeofFeuMsgHdr + sizeofFeuGeneralMsgHdr ≤ subMsg.body.length ∧
    feuMsgSize (subMsg.body.drop sizeofFeuMsgHdr) = subMsg.body.length - sizeofFeuMsgHdr

/-- Datagrams and responses fit. -/
def RelayEvent.Fits : RelayEvent Addr → Prop
  | .recv _ none => True
  | .recv _ (some (_, datagram)) => DatagramFits layout datagram
  | .rsp subMsg mem _ => ResponseFits layout subMsg mem

variable {layout phyTrace} {datagram : List UInt8} {stack mem : Mem} {subMsg : OamMsg}

section Requests

/-- The fields are read from the datagram alone. -/
theorem slice_oamRecvBuf (hlength : datagram.length ≤ oamMsgMaxLen) {a n : ℕ}
    (h : a + n ≤ datagram.length) :
    slice (oamRecvBuf stack datagram) a n = (datagram.drop a).take n := by
  have hread : slice (oamRecvBuf stack datagram) 0 datagram.length = datagram := by
    rw [oamRecvBuf, List.take_of_length_le hlength]
    exact slice_store_eq rfl
  rw [← hread, slice_drop_take _ _ _ _ _ (by simpa using h), hread, Nat.zero_add]

/-- The header read is that of the datagram. -/
theorem read_header (hheader : sizeofFeuGeneralMsgHdr ≤ datagram.length)
    (hlength : datagram.length ≤ oamMsgMaxLen) :
    rd16 (oamRecvBuf stack datagram) 0 = feuMsgId datagram ∧
      rd16 (oamRecvBuf stack datagram) 2 = feuCellid datagram ∧
      rd32 (oamRecvBuf stack datagram) 4 = feuMsgSize datagram := by
  rw [sizeofFeuGeneralMsgHdr] at hheader
  rw [rd16, rd16, rd32, slice_oamRecvBuf hlength (by omega), slice_oamRecvBuf hlength (by omega),
    slice_oamRecvBuf hlength (by omega)]
  exact ⟨rfl, rfl, rfl⟩

/-- A message of the first kind is wrapped as it is. -/
theorem sent_p19 {pRecvMsg : Mem} {msbBody msgSize cellid : ℕ}
    (hfits : msbBody + sizeofFeuMsgHdr + msgSize ≤ oamMsgMaxLen) :
    (p19ConfigReq msbBody msgSize cellid).sent pRecvMsg =
      ⟨.p19, 0, [1, UInt8.ofNat cellid, 0, 0] ++ slice pRecvMsg 0 msgSize⟩ := by
  rw [sizeofFeuMsgHdr, oamMsgMaxLen] at hfits
  have hsize : msgSize % 65536 = msgSize := Nat.mod_eq_of_lt (by omega)
  have htotal : (4 + msgSize) % 65536 = 4 + msgSize := Nat.mod_eq_of_lt (by omega)
  simp only [SubMsg.sent, SubMsg.buf, p19ConfigReq, sizeofFeuMsgHdr, hsize, htotal]
  have hfeu : [1, UInt8.ofNat cellid, 0, 0].length = 4 := rfl
  rw [slice_add, slice_store_disjoint (.inl le_rfl), slice_store_eq hfeu,
    slice_store_eq (slice_length _ _ _)]

/-- Of a message of the second kind the header is dropped. -/
theorem sent_oam {pRecvMsg : Mem} {msbBody msgId msgSize : ℕ}
    (hheader : sizeofFeuGeneralMsgHdr ≤ msgSize) (hsmall : msgSize < 65536) :
    (oamConfigReq msbBody msgId msgSize).sent pRecvMsg =
      ⟨.oam, msgId, slice pRecvMsg sizeofFeuGeneralMsgHdr (msgSize - sizeofFeuGeneralMsgHdr)⟩ := by
  rw [sizeofFeuGeneralMsgHdr] at hheader
  have hsize : msgSize % 65536 = msgSize := Nat.mod_eq_of_lt hsmall
  have hbody : (65536 + msgSize - 8) % 65536 = msgSize - 8 := by omega
  have hcopied : msgSize ≠ 0 := by omega
  simp only [SubMsg.sent, SubMsg.buf, oamConfigReq, sizeofFeuGeneralMsgHdr, hsize, hbody, hcopied,
    if_false]
  rw [slice_store_eq (by simp)]

/-- The sub-message sent for a datagram that fits is the one that it asks for, whatever is left
on the stack. -/
theorem oamRecvAppMsg_requested (h : DatagramFits layout datagram) :
    (oamRecvAppMsg layout.msbBody stack datagram).map
      (fun sub => sub.sent (oamRecvBuf stack datagram)) = requested datagram := by
  have hheader := h.header
  obtain ⟨hid, hcell, hsize⟩ := @read_header datagram stack h.header h.whole
  rw [sizeofFeuGeneralMsgHdr] at hheader
  have hpos : 0 < oamRecvLength datagram := by
    rw [oamRecvLength, oamMsgMaxLen]
    omega
  rw [oamRecvAppMsg, if_pos hpos, oamConfigMsgDec, requested]
  simp only [hid, hcell, hsize]
  by_cases hp19 : feuMsgId datagram ∈ p19MsgIds
  · obtain ⟨hends, hfits⟩ := h.p19 hp19
    rw [if_pos hp19, if_pos hp19, Option.map_some, sent_p19 hfits,
      slice_oamRecvBuf h.whole (by omega), List.drop_zero]
  by_cases hoam : feuMsgId datagram ∈ oamMsgIds
  · obtain ⟨hlow, hends, -⟩ := h.oam hoam
    have hwhole := h.whole
    rw [oamMsgMaxLen] at hwhole
    rw [if_neg hp19, if_pos hoam, if_neg hp19, if_pos hoam, Option.map_some,
      sent_oam hlow (by omega),
      slice_oamRecvBuf h.whole (by rw [sizeofFeuGeneralMsgHdr] at *; omega), List.drop_take]
  · rw [if_neg hp19, if_neg hoam, if_neg hp19, if_neg hoam, Option.map_none]

end Requests

section Responses

theorem ResponseFits.body (h : ResponseFits layout subMsg mem) :
    Holds mem layout.msbBody subMsg.body := by
  have hbody := (holds_append.mp h.stands).2
  rwa [layout.length_head, Nat.zero_add] at hbody

/-- The message wrapped in a sub-message of the first kind is sent as it is. -/
theorem p19ConfigRsp_eq (h : ResponseFits layout subMsg mem) (htype : subMsg.msgType = .p19) :
    p19ConfigRsp layout.msbBody mem = subMsg.body.drop sizeofFeuMsgHdr := by
  obtain ⟨hheader, hsize⟩ := h.p19 htype
  have hlength := h.length
  have hbody : slice mem layout.msbBody subMsg.body.length = subMsg.body := h.body
  rw [sizeofFeuMsgHdr, sizeofFeuGeneralMsgHdr] at hheader
  rw [feuMsgSize, sizeofFeuMsgHdr, List.drop_drop] at hsize
  have hfield : rd32 mem (layout.msbBody + 4 + 4) = subMsg.body.length - 4 := by
    rw [rd32, ← hsize, ← hbody, slice_drop_take _ _ _ _ _ (by simp; omega)]
  rw [p19ConfigRsp, sizeofFeuMsgHdr, hfield, Nat.mod_eq_of_lt (by omega),
    ← slice_drop _ _ (by omega), hbody]

/-- A sub-message of the second kind is sent as a whole. -/
theorem oamConfigRsp_eq (h : ResponseFits layout subMsg mem) :
    oamConfigRsp layout.msbBody subMsg.body.length mem =
      layout.head subMsg.msgId subMsg.body.length ++ subMsg.body := by
  have hlength := h.length
  have hstands : slice mem 0 _ = _ := h.stands
  rw [List.length_append, layout.length_head] at hstands
  rw [oamConfigRsp, Nat.mod_eq_of_lt (by omega), Nat.add_comm, hstands]

end Responses

/-- One event. -/
theorem relayStep_eq {e : RelayEvent Addr} (h : e.Fits layout) (clientaddr : Option Addr) :
    relayStep layout phyTrace clientaddr e = plainStep layout phyTrace clientaddr e := by
  cases e with
  | recv stack datagram =>
    cases datagram with
    | none => rfl
    | some heard =>
      obtain ⟨addr, datagram⟩ := heard
      rw [relayStep, plainStep, ← @oamRecvAppMsg_requested layout datagram stack h,
        Option.toList_map, List.map_map]
      rfl
  | rsp subMsg mem sends =>
    cases clientaddr with
    | none => rfl
    | some addr =>
      simp only [relayStep, plainStep, responded]
      cases htype : subMsg.msgType with
      | p19 => simp only [p19ConfigRsp_eq h htype]
      | oam => simp only [oamConfigRsp_eq h]

/-- The senders of the datagrams received. -/
def senders : List (RelayEvent Addr) → List Addr
  | [] => []
  | .recv _ (some (addr, _)) :: es => addr :: senders es
  | _ :: es => senders es

/-- `oamRecvAppMsg` has been called, so that the socket is open. -/
def opened : List (RelayEvent Addr) → Bool
  | [] => false
  | .recv _ _ :: _ => true
  | .rsp _ _ _ :: es => opened es

/-- The sender of the last datagram, or the address configured if there was none. -/
def heardLast (phyTrace : Addr) (es : List (RelayEvent Addr)) : Addr :=
  (senders es).getLast?.getD phyTrace

/-- What is kept of the datagrams is the sender of the last one. -/
theorem plain_clientaddr (clientaddr : Option Addr) (es : List (RelayEvent Addr)) :
    (Runs.run (plainStep layout phyTrace) clientaddr es).1 =
      if clientaddr.isSome || opened es then some (heardLast (clientaddr.getD phyTrace) es)
      else none := by
  induction es generalizing clientaddr with
  | nil => cases clientaddr <;> rfl
  | cons e es ih =>
    rw [Runs.run, ih]
    cases e with
    | recv stack datagram =>
      rcases datagram with - | ⟨addr, datagram⟩
      · simp [plainStep, opened, heardLast, senders]
      · simp [plainStep, opened, heardLast, senders, List.getLast?_cons]
    | rsp subMsg mem sends =>
      cases clientaddr <;> simp [plainStep, opened, heardLast, senders]

/-- In every run whose datagrams and responses fit, whatever is left in the buffers, the relay
sends what the plain relay does: to the PHY the messages of the datagrams, and to the clients
the messages of the PHY. A response goes to the sender of the last datagram, whoever has made
the request, and nowhere before the socket is open. -/
theorem oamRelay_transparent {es : List (RelayEvent Addr)} (hfits : ∀ e ∈ es, e.Fits layout) :
    Runs.run (relayStep layout phyTrace) none es = Runs.run (plainStep layout phyTrace) none es ∧
      ∀ front subMsg mem back, es = front ++ .rsp subMsg mem true :: back →
        (relayStep layout phyTrace (Runs.run (relayStep layout phyTrace) none front).1
          (.rsp subMsg mem true)).2 =
        if opened front then [.toClient (heardLast phyTrace front) (responded layout subMsg)]
        else [] := by
  have hrun : ∀ clientaddr : Option Addr, ∀ es, (∀ e ∈ es, RelayEvent.Fits layout e) →
      Runs.run (relayStep layout phyTrace) clientaddr es =
        Runs.run (plainStep layout phyTrace) clientaddr es := by
    intro clientaddr es hes
    induction es generalizing clientaddr with
    | nil => rfl
    | cons e es ih =>
      rw [Runs.run, Runs.run, relayStep_eq (hes e List.mem_cons_self),
        ih _ fun e' he' => hes e' (List.mem_cons_of_mem e he')]
  refine ⟨hrun none es hfits, ?_⟩
  rintro front subMsg mem back rfl
  rw [hrun none front fun e he => hfits e (List.mem_append_left _ he),
    relayStep_eq (hfits _ (by simp)), plain_clientaddr]
  cases opened front <;> rfl

/-- Two clients ask, and the response to the first one goes to the second. -/
theorem oamRelay_transparent_two : ∃ layout : SubMsgLayout,
    (Runs.run (relayStep layout 0) none
      [.recv (fun _ => 7) (some (1, [0, 4, 1, 0, 8, 0, 0, 0])),
        .recv (fun _ => 8) (some (2, [4, 0, 0, 0, 12, 0, 0, 0, 1, 2, 3, 4])),
        .rsp ⟨.p19, 0, [1, 1, 0, 0, 1, 4, 1, 0, 8, 0, 0, 0]⟩
          (store (fun _ => 9) 0 ([0, 0, 12, 0] ++ [1, 1, 0, 0, 1, 4, 1, 0, 8, 0, 0, 0]))
          true]).2 =
      [.toPhy ⟨.p19, 0, [1, 1, 0, 0, 0, 4, 1, 0, 8, 0, 0, 0]⟩, .toPhy ⟨.oam, 4, [1, 2, 3, 4]⟩,
        .toClient 2 [1, 4, 1, 0, 8, 0, 0, 0]] := by
  let layout : SubMsgLayout :=
    ⟨4, fun msgId msgSize => leBytes 2 msgId ++ leBytes 2 msgSize, fun _ _ => by simp⟩
  refine ⟨layout, ?_⟩
  have hfirst : DatagramFits layout [0, 4, 1, 0, 8, 0, 0, 0] :=
    ⟨by decide, by decide, fun _ => by decide, fun h => absurd h (by decide)⟩
  have hsecond : DatagramFits layout [4, 0, 0, 0, 12, 0, 0, 0, 1, 2, 3, 4] :=
    ⟨by decide, by decide, fun h => absurd h (by decide), fun _ => by decide⟩
  have hresponse : ResponseFits layout ⟨.p19, 0, [1, 1, 0, 0, 1, 4, 1, 0, 8, 0, 0, 0]⟩
      (store (fun _ => 9) 0 ([0, 0, 12, 0] ++ [1, 1, 0, 0, 1, 4, 1, 0, 8, 0, 0, 0])) :=
    ⟨by unfold Holds; decide, by decide, fun _ => by decide⟩
  refine (congrArg Prod.snd (@oamRelay_transparent ℕ layout 0 _ fun e he => ?_).1).trans
    (by decide)
  simp only [List.mem_cons, List.not_mem_nil, or_false] at he
  rcases he with rfl | rfl | rfl
  · exact hfirst
  · exact hsecond
  · exact hresponse

end TestMac
