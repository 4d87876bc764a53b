import TestMac.Rx.Meaning
import TestMac.Rx.Period
import TestMac.Rx.Walk

/-!
# Groups of indications

The PHY packs its indications into groups. Received as a group, indications do what they
mean, one after the other, so that it does not matter how the PHY forms its groups or in
which order it hands over those of different channels.
-/

namespace TestMac

open Bytes Decoder Act

/-- The message of an indication stands at an address. -/
structure Indication.At (m : Mem) (l1MessageInput : ℕ) (ind : Indication) : Prop where
  msgId : rd32 m l1MessageInput = ind.msgId
  msgSize : rd32 m (l1MessageInput + 4) = ind.msgSize
  body : ind.BodyAt m (l1MessageInput + sizeofL1GeneralMsgHdr)

/-- The messages stand one after the other, each on the next four-byte boundary. -/
def MessagesAt (m : Mem) : ℕ → List Indication → Prop
  | _, [] => True
  | p, ind :: inds => ind.At m p ∧ MessagesAt m (p + (⟨ind.msgId, ind.msgSize⟩ : L1Msg).span) inds

/-- A group of indications that the decoders can follow stands at an address. -/
structure GroupAt (m : Mem) (buf : ℕ) (inds : List Indication) : Prop where
  count : rd8 m buf = inds.length
  nonempty : 1 ≤ inds.length
  notFull : inds.length ≤ 254
  messages : MessagesAt m (buf + sizeofFapiMsgHdr) inds
  sizes : ∀ ind ∈ inds, ind.msgSize < 4294967284
  decodable : ∀ ind ∈ inds, ind.Decodable

/-- A call of `macRevL1Ctrl` is carried out: the calls of `fapiMsgDec` are. -/
def walkCall (env : Env) (dev cell : ℕ) : WalkCall → Act Receiver Unit
  | .cursor _ => pure ()
  | .fapiMsgDec _ => pure ()
  | .rx c => rxCall env dev cell c

variable {env : Env} {w : World} {dev cell fuel p buf : ℕ} {m : Mem} {ind : Indication}
  {inds : List Indication}

variable (env dev cell) in
/-- The decoder that `fapiMsgDec` chooses performs what the indication means. -/
theorem Indication.At.body_decodes (h : ind.At m p) (hfuel : 65536 ≤ fuel)
    (hdec : ind.Decodable) :
    ∃ body, fapiMsgBody fuel ind.msgId (p + sizeofL1GeneralMsgHdr) = some body ∧
      Decodes env dev cell m body (ind.perform env dev cell) := by
  have hbody := h.body
  cases ind with
  | rxData ind =>
    have hlt : ind.bytes.length < 4294967296 := by
      have hsize : rd32 m (p + 4) = ind.bytes.length := h.msgSize
      rw [← hsize]
      exact rd32_lt m _
    exact ⟨_, rfl, performs_rxDataIndication hfuel hdec hlt hbody⟩
  | slot SFN Slot =>
    obtain ⟨hSFN, hSlot⟩ := holds_append.mp hbody
    refine ⟨_, rfl, ?_⟩
    rw [Indication.perform, ← hSFN.rd16_eq, ← hSlot.rd16_eq]
    have hind : Decodes env dev cell m
        (slotIndicationProcDecHdlr (p + sizeofL1GeneralMsgHdr)) (inCell dev cell
          (macTxStartIndHandle env ⟨rd16 m (p + sizeofL1GeneralMsgHdr),
            rd16 m (p + sizeofL1GeneralMsgHdr + 2)⟩)) :=
      (Performs.read 2 _).silent ((Performs.read 2 _).silent (.call _))
    exact hind.bind (.call _)
  | configResponse rsp =>
    have hcode := (holds_append.mp hbody).1.rd8_eq
    refine ⟨_, rfl, (Performs.read 1 _).silent ?_⟩
    rw [← rd8, hcode]
    exact .call _
  | stop ErrorCode => exact ⟨_, rfl, .call _⟩
  | error ind =>
    simp only [Indication.BodyAt, ErrorIndication.bytes, holds_append, leBytes_length,
      List.length_singleton, Nat.add_assoc, Nat.reduceAdd] at hbody
    obtain ⟨-, -, -, -, hmessageId, herrorCode, -⟩ := hbody
    refine ⟨_, rfl, (Performs.read 1 _).silent ((Performs.read 1 _).silent ?_)⟩
    rw [← rd8, ← rd8, Nat.add_assoc, Nat.add_assoc, hmessageId.rd8_eq, herrorCode.rd8_eq]
    exact .call _
  | crc ind => exact ⟨_, rfl, performs_crcIndication hfuel hbody⟩
  | uci pdus => exact ⟨_, rfl, performs_uciIndication hfuel hbody hdec⟩
  | srs ind => exact ⟨_, rfl, performs_srsIndication hfuel hbody⟩
  | rach ind => exact ⟨_, rfl, performs_rachIndication hfuel hbody⟩

/-- `fapiMsgDec` performs what the indication of the message means. -/
theorem Indication.At.performs_fapiMsgDec (h : ind.At m p) (hfuel : 65536 ≤ fuel)
    (hdec : ind.Decodable) :
    Performs (rxCall env dev cell) m (fapiMsgDec fuel p) ((ind.msgSize + 8) % 4294967296)
      (ind.perform env dev cell) := by
  obtain ⟨body, hbody, hperf⟩ :=
    h.body_decodes env dev cell hfuel hdec
  rw [fapiMsgDec]
  refine (Performs.read 4 _).silent ?_
  rw [← rd32, h.msgId, hbody]
  refine hperf.done ((Performs.read 4 _).silent ?_)
  rw [← rd32, h.msgSize]
  exact .pure _

variable (env dev cell) in
/-- The loop of `macRevL1Ctrl` performs what the indications mean. -/
theorem performs_macRevL1CtrlLoop (off : ℕ) (hfuel : 65536 ≤ fuel) (h : MessagesAt m p inds)
    (hsize : ∀ ind ∈ inds, ind.msgSize < 4294967284) (hdec : ∀ ind ∈ inds, ind.Decodable) :
    ∃ _offset, Performs (walkCall env dev cell) m (macRevL1CtrlLoop fuel inds.length p off)
      (some _offset) (forEach (Indication.perform env dev cell) inds) := by
  induction inds generalizing p off with
  | nil => exact ⟨off, .pure _⟩
  | cons ind inds ih =>
    obtain ⟨hind, hrest⟩ := h
    have hlt := hsize ind List.mem_cons_self
    have hfirst : Performs (walkCall env dev cell) m ((fapiMsgDec fuel p).lift .rx)
        ((ind.msgSize + 8) % 4294967296) (ind.perform env dev cell) :=
      (hind.performs_fapiMsgDec hfuel (hdec ind List.mem_cons_self)).lift fun _ => rfl
    have hcall : ∀ c : WalkCall, walkCall env dev cell c = pure () →
        Performs (walkCall env dev cell) m (Decoder.call c) () (pure ()) :=
      fun _ => Performs.call_unseen
    obtain ⟨_offset, hloop⟩ := ih ((off + (ind.msgSize + 8) % 4294967296) % 4294967296) hrest
      (fun ind' hind' => hsize ind' (List.mem_cons_of_mem ind hind'))
      fun ind' hind' => hdec ind' (List.mem_cons_of_mem ind hind')
    refine ⟨_offset, ?_⟩
    rw [List.length_cons, macRevL1CtrlLoop]
    refine (Performs.read 4 _).silent ((hcall _ rfl).silent (hfirst.bind ?_))
    have hspan : l1MsgStep ((ind.msgSize + 8) % 4294967296) =
        (⟨ind.msgId, ind.msgSize⟩ : L1Msg).span :=
      @l1MsgStep_eq_span ⟨ind.msgId, ind.msgSize⟩ hlt
    rw [if_neg (msgLen_ne_illegal hlt), hspan]
    exact (hcall _ rfl).silent hloop

variable (env dev cell) in
/-- `macRevL1Ctrl` performs what the indications of a group mean. -/
theorem GroupAt.performs_macRevL1Ctrl {payloadSize : ℕ} (h : GroupAt m buf inds)
    (hfuel : 65536 ≤ fuel) (hbuf : buf ≠ 0) (hpayload : 0 < payloadSize) :
    ∃ size, Performs (walkCall env dev cell) m (macRevL1Ctrl fuel buf payloadSize) size
      (forEach (Indication.perform env dev cell) inds) := by
  obtain ⟨_offset, hloop⟩ := performs_macRevL1CtrlLoop env dev cell sizeofFapiMsgHdr hfuel
    h.messages h.sizes h.decodable
  have hcursor : Performs (walkCall env dev cell) m
      (Decoder.call (.cursor (buf + sizeofFapiMsgHdr))) () (pure ()) := .call_unseen rfl
  refine ⟨if payloadSize ≠ _offset then payloadSize else _offset, ?_⟩
  rw [macRevL1Ctrl]
  refine (Performs.assert hbuf).silent ((Performs.assert hpayload).silent (hcursor.silent
    ((Performs.read 1 _).silent ((Performs.read 1 _).silent ?_))))
  have hpos := h.nonempty
  have hmax := h.notFull
  rw [← rd8, h.count, if_neg (by omega), if_neg (by omega)]
  exact hloop.done (.pure _)

/-- The calls of `fapiMsgDec` are what `macRevL1Ctrl` carries out. -/
theorem forEach_rxCalls (calls : List WalkCall) :
    forEach (rxCall env dev cell) (rxCalls calls) = forEach (walkCall env dev cell) calls := by
  induction calls with
  | nil => rfl
  | cons c calls ih =>
    cases c with
    | cursor l1MsgInput => exact ih
    | fapiMsgDec l1MessageInput => exact ih
    | rx c => exact congrArg (rxCall env dev cell c >>= fun _ => ·) ih

/-- A group does to the globals what its indications mean, one after the other. -/
theorem GroupAt.receive_eq {rd : L1Read} (h : GroupAt rd.memory rd.buf inds) (w : World)
    (hfuel : 65536 ≤ fuel) (hbuf : rd.buf ≠ 0) (hpayload : 0 < rd.payloadSize) :
    receive w fuel rd =
      forEach (Indication.perform (w.env rd.channel.devIndex rd.channel.cellId)
        rd.channel.devIndex rd.channel.cellId) inds := by
  obtain ⟨size, hperf⟩ := h.performs_macRevL1Ctrl (w.env rd.channel.devIndex rd.channel.cellId)
    rd.channel.devIndex rd.channel.cellId hfuel hbuf hpayload
  rw [receive, forEach_rxCalls, hperf.performed, hperf.result, assert_eq_pure (by rfl), bind_unit]

/-- A group that is handed to `macRevL1Ctrl`. -/
structure IndicationGroup where
  read : L1Read
  inds : List Indication
  buf_ne : read.buf ≠ 0
  payload_pos : 0 < read.payloadSize
  laidOut : GroupAt read.memory read.buf inds

/-- The indications of the groups, each with its channel. -/
def allSent (gs : List IndicationGroup) : List (Channel × Indication) :=
  gs.flatMap fun g => g.inds.map fun ind => (g.read.channel, ind)

/-- The indications of one channel, in their order. -/
def sentOn (ch : Channel) (gs : List IndicationGroup) : List Indication :=
  (gs.filter (·.read.channel = ch)).flatMap IndicationGroup.inds

/-- The groups are received one after the other. -/
def receiveGroups (w : World) (fuel : ℕ) (gs : List IndicationGroup) : Act Receiver Unit :=
  forEach (receive w fuel) (gs.map IndicationGroup.read)

/-- What indications mean, each for the cell of its channel. -/
def performAll (w : World) (inds : List (Channel × Indication)) : Act Receiver Unit :=
  forEach (fun p => p.2.perform (w.env p.1.devIndex p.1.cellId) p.1.devIndex p.1.cellId) inds

/-- Receiving groups of indications, of all channels and in any order, does to the globals
exactly what their indications mean, one after the other. -/
theorem receiveGroups_eq_performAll (w : World) (hfuel : 65536 ≤ fuel)
    (gs : List IndicationGroup) :
    receiveGroups w fuel gs = performAll w (allSent gs) := by
  rw [receiveGroups, performAll, allSent, forEach_flatMap, forEach_map]
  refine forEach_congr ?_
  intro g _
  rw [forEach_map]
  exact g.laidOut.receive_eq w hfuel g.buf_ne g.payload_pos

/-- A transport block received with timing advance 5. -/
def receivedCrc : CrcIndication :=
  ⟨0, 0, 1, 0, [⟨0, 0, 0, 0, 5, 1290, 0, 3, 0, 0, .replicate 128 0⟩], rfl⟩

def noSrs : SrsIndication := ⟨0, 0, 0, 0, 0, [], rfl⟩

/-- A group at the address 1000, for any channel. -/
def groupAt1000 (ch : Channel) (memory : Mem) (inds : List Indication)
    (h : GroupAt memory 1000 inds) : IndicationGroup :=
  ⟨⟨ch, memory, 1000, 256⟩, inds, Nat.succ_ne_zero _, Nat.succ_pos _, h⟩

/-- One group of both. -/
def crcSrsMemory : Mem :=
  store (fun _ => 0) 1000 ([2, 0, 0, 0] ++ leBytes 4 fapiCrcIndication ++ leBytes 4 156 ++
    receivedCrc.bytes ++ leBytes 4 fapiSrsIndication ++ leBytes 4 8)

theorem crcSrsMemory_groupAt : GroupAt crcSrsMemory 1000 [.crc receivedCrc, .srs noSrs] where
  count := by decide +kernel
  nonempty := by decide
  notFull := by decide
  messages := ⟨⟨by decide +kernel, by decide +kernel, by
    unfold Indication.BodyAt Holds
    decide +kernel⟩, ⟨by decide +kernel, by decide +kernel, by
    unfold Indication.BodyAt Holds
    decide +kernel⟩, trivial⟩
  sizes := by decide +kernel
  decodable := by simp [Indication.Decodable]

/-- The counters of the cell are stepped once. -/
theorem receiveGroups_crc_srs :
    receiveGroups readyWorld 65536 [groupAt1000 ⟨0, 0⟩ crcSrsMemory _ crcSrsMemory_groupAt] =
      inPuschStats 0 0 (·.crcPass 5 1290 3) := by
  rw [receiveGroups_eq_performAll readyWorld le_rfl]
  have hsent : performAll readyWorld
        (allSent [groupAt1000 ⟨0, 0⟩ crcSrsMemory _ crcSrsMemory_groupAt]) =
      ((receivedCrc.CRCs.head (by decide)).perform 0 0 >>= fun _ => pure ()) >>= fun _ =>
        pure () >>= fun _ => pure () := rfl
  rw [hsent, pure_bind, bind_unit, bind_unit]
  rfl

/-- The groups of one channel do what its indications mean. -/
theorem receiveGroups_filter (w : World) (hfuel : 65536 ≤ fuel) (ch : Channel)
    (gs : List IndicationGroup) :
    forEach (receive w fuel) ((gs.map IndicationGroup.read).filter (·.channel = ch)) =
      forEach (Indication.perform (w.env ch.devIndex ch.cellId) ch.devIndex ch.cellId)
        (sentOn ch gs) := by
  rw [sentOn, forEach_flatMap, List.filter_map, forEach_map]
  refine forEach_congr ?_
  intro g hg
  obtain rfl : g.read.channel = ch := by simpa using (List.mem_filter.mp hg).2
  exact g.laidOut.receive_eq w hfuel g.buf_ne g.payload_pos

/-- Every slot that the groups prepare leads to a row of its cell. -/
def GroupsInRows (w : World) (fuel : ℕ) (gs : List IndicationGroup) (r : Receiver) : Prop :=
  Meets (receive w fuel) (L1Read.InRows w fuel) (gs.map IndicationGroup.read) r

instance (w : World) (fuel : ℕ) (gs : List IndicationGroup) (r : Receiver) :
    Decidable (GroupsInRows w fuel gs r) := decidableMeets _ _ _ _

/-- It does not matter how the indications of the channels are packed into groups, nor in
which order the groups of different channels come: when every channel is sent the same
indications in the same order, and every slot that is prepared leads to a row of its cell,
they are all handled or none of the two runs comes to its end, and every channel ends in the
same state, with the same counters and the same requests sent. -/
theorem receiveGroups_eq_of_sentOn (w : World) (hfuel : 65536 ≤ fuel)
    (gs gs' : List IndicationGroup) (h : ∀ ch, sentOn ch gs = sentOn ch gs')
    (r : Receiver) (hin : GroupsInRows w fuel gs r) (hin' : GroupsInRows w fuel gs' r) :
    ((∃ r₁, receiveGroups w fuel gs r = some ((), r₁)) ↔
      ∃ r₂, receiveGroups w fuel gs' r = some ((), r₂)) ∧
    ∀ r₁ r₂, receiveGroups w fuel gs r = some ((), r₁) →
      receiveGroups w fuel gs' r = some ((), r₂) → ∀ ch, r₁.view ch = r₂.view ch := by
  have halone : ∀ gs r', GroupsInRows w fuel gs r → receiveGroups w fuel gs r = some ((), r') →
      ∀ ch, ∃ t,
        forEach (Indication.perform (w.env ch.devIndex ch.cellId) ch.devIndex ch.cellId)
          (sentOn ch gs) r = some ((), t) ∧ r'.view ch = t.view ch := by
    intro gs r' hin hrun ch
    rw [← receiveGroups_filter w hfuel ch gs]
    exact forEach_filter (owned_receive w fuel) hin rfl hrun
  have hfinishes : ∀ gs gs' r₁, (∀ ch, sentOn ch gs = sentOn ch gs') →
      GroupsInRows w fuel gs r → GroupsInRows w fuel gs' r →
      receiveGroups w fuel gs r = some ((), r₁) →
      ∃ r₂, receiveGroups w fuel gs' r = some ((), r₂) := by
    intro gs gs' r₁ h hin hin' hrun
    refine forEach_finishes (owned_receive w fuel) hin' (fun _ => r) (fun _ => rfl) fun ch => ?_
    obtain ⟨t, ht, -⟩ := halone gs r₁ hin hrun ch
    rw [h ch] at ht
    exact ⟨t, by rw [receiveGroups_filter w hfuel ch gs', ht]⟩
  refine ⟨⟨?_, ?_⟩, ?_⟩
  · rintro ⟨r₁, hrun⟩
    exact hfinishes gs gs' r₁ h hin hin' hrun
  · rintro ⟨r₂, hrun⟩
    exact hfinishes gs' gs r₂ (fun ch => (h ch).symm) hin' hin hrun
  · intro r₁ r₂ hrun₁ hrun₂ ch
    obtain ⟨t₁, ht₁, hview₁⟩ := halone gs r₁ hin hrun₁ ch
    obtain ⟨t₂, ht₂, hview₂⟩ := halone gs' r₂ hin' hrun₂ ch
    rw [← h ch, ht₁] at ht₂
    obtain ⟨-, rfl⟩ := Prod.mk.inj (Option.some.inj ht₂)
    rw [hview₁, hview₂]

/-- The same two indications in groups of their own. -/
def crcMemory : Mem :=
  store (fun _ => 0) 1000 ([1, 0, 0, 0] ++ leBytes 4 fapiCrcIndication ++ leBytes 4 156 ++
    receivedCrc.bytes)

def srsMemory : Mem :=
  store (fun _ => 0) 1000 ([1, 0, 0, 0] ++ leBytes 4 fapiSrsIndication ++ leBytes 4 8)

theorem crcMemory_groupAt : GroupAt crcMemory 1000 [.crc receivedCrc] where
  count := by decide +kernel
  nonempty := by decide
  notFull := by decide
  messages := ⟨⟨by decide +kernel, by decide +kernel, by
    unfold Indication.BodyAt Holds
    decide +kernel⟩, trivial⟩
  sizes := by decide +kernel
  decodable := by simp [Indication.Decodable]

theorem srsMemory_groupAt : GroupAt srsMemory 1000 [.srs noSrs] where
  count := by decide +kernel
  nonempty := by decide
  notFull := by decide
  messages := ⟨⟨by decide +kernel, by decide +kernel, by
    unfold Indication.BodyAt Holds
    decide +kernel⟩, trivial⟩
  sizes := by decide +kernel
  decodable := by simp [Indication.Decodable]

/-- Together or apart, they leave every channel the same. -/
theorem receiveGroups_together_or_apart :
    let gs := [groupAt1000 ⟨0, 0⟩ crcSrsMemory _ crcSrsMemory_groupAt]
    let gs' := [groupAt1000 ⟨0, 0⟩ crcMemory _ crcMemory_groupAt,
      groupAt1000 ⟨0, 0⟩ srsMemory _ srsMemory_groupAt]
    ((∃ r₁, receiveGroups readyWorld 65536 gs periodReceiver = some ((), r₁)) ↔
      ∃ r₂, receiveGroups readyWorld 65536 gs' periodReceiver = some ((), r₂)) ∧
    ∀ r₁ r₂, receiveGroups readyWorld 65536 gs periodReceiver = some ((), r₁) →
      receiveGroups readyWorld 65536 gs' periodReceiver = some ((), r₂) →
        ∀ ch, r₁.view ch = r₂.view ch := by
  intro gs gs'
  have hin : GroupsInRows readyWorld 65536 gs periodReceiver := by decide +kernel
  have hin' : GroupsInRows readyWorld 65536 gs' periodReceiver := by decide +kernel
  refine receiveGroups_eq_of_sentOn readyWorld le_rfl gs gs' ?_ periodReceiver hin hin'
  intro ch
  by_cases hch : (⟨0, 0⟩ : Channel) = ch
  · simp [gs, gs', sentOn, groupAt1000, hch]
  · simp [gs, gs', sentOn, groupAt1000, hch]

end TestMac
