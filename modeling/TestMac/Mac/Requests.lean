import TestMac.Mac.Control

/-!
# What the senders change

The parts that a sender is made of are few. A relation between cells that goes along with
each of them goes along with every sender, whatever the driver answers. One such relation
is that the control state is left alone and requests of certain kinds only are logged.
-/

namespace TestMac

open Bytes Act

variable {env : Env} {ids : List ℕ}

/-- A relation between cells that goes along with the parts of sending requests with some
identifiers, apart from the rows of the tables. -/
structure Sending (ids : List ℕ) (R : Cell → Cell → Prop) : Prop where
  refl (c : Cell) : R c c
  trans {c c' c'' : Cell} : R c c' → R c' c'' → R c c''
  calls (c : Cell) (n : ℕ) : R c { c with calls := n }
  ctxt (c : Cell) (ctxt : PhyApiTxCtxt) : R c { c with phyCtrlMsgCtxt := ctxt }
  sent (c : Cell) {msgId : ℕ} (bytes : List UInt8) : msgId ∈ ids →
    R c { c with log := c.log ++ [.sent msgId bytes] }

namespace Sending

variable {R : Cell → Cell → Prop} (hR : Sending ids R)

include hR

theorem bind {α β : Type} {x : CellM α} {f : α → CellM β} (hx : Within R x)
    (hf : ∀ a, Within R (f a)) : Within R (x >>= f) :=
  Within.bind (R := R) (fun h h' => hR.trans h h') hx hf

theorem read {α : Type} (f : Cell → α) : Within R (Act.read f) := Within.read hR.refl f

theorem pure {α : Type} (a : α) : Within R (Pure.pure a) := Within.pure hR.refl a

theorem assert (p : Prop) [Decidable p] : Within R (Act.assert p) := Within.assert hR.refl p

theorem when {p : Prop} [Decidable p] {x : CellM Unit} (hx : Within R x) :
    Within R (Act.when p x) :=
  Within.when hR.refl hx

theorem pcxx {α : Type} (answer : ℕ → α) : Within R (TestMac.pcxx answer) :=
  hR.bind (hR.read _) fun _ => hR.bind (Within.update fun c => hR.calls c _) fun _ => hR.pure _

theorem allocL1CtrlMsgMem (size : ℕ) : Within R (TestMac.allocL1CtrlMsgMem env size) := by
  refine hR.bind (hR.pcxx _) fun room => hR.bind (hR.assert _) fun _ => ?_
  exact hR.bind (hR.assert _) fun _ => Within.update fun c => hR.ctxt c _

theorem setL1CtrlMsgGrpHeader : Within R (TestMac.setL1CtrlMsgGrpHeader env) := by
  refine hR.bind (hR.pcxx _) fun room => hR.bind (hR.assert _) fun _ => ?_
  refine hR.bind (hR.assert _) fun _ => hR.bind (Within.update fun c => hR.ctxt c _) fun _ => ?_
  exact hR.bind (hR.pcxx _) fun _ => hR.pure _

theorem appendL1Msg {msgId msgSize sfn slot msgType : ℕ} {body : List UInt8}
    (hid : msgId ∈ ids) :
    Within R (TestMac.appendL1Msg env msgId msgSize body sfn slot msgType) := by
  refine hR.bind (hR.assert _) fun _ => hR.bind (hR.assert _) fun _ => ?_
  refine hR.bind (hR.assert _) fun _ => hR.bind (Within.update fun c => hR.ctxt c _) fun _ => ?_
  refine hR.bind (hR.read _) fun ctxt => hR.bind (hR.assert _) fun _ => ?_
  refine hR.bind (hR.pcxx _) fun accepted => ?_
  refine hR.bind (hR.when (Within.update fun c => hR.sent c _ hid)) fun _ => ?_
  exact Within.update fun c => hR.ctxt c _

theorem l1MsgProc {body : CellM Unit} (h : Within R body) :
    Within R (TestMac.l1MsgProc env body) := by
  refine hR.bind (hR.pcxx _) fun started => hR.when ?_
  refine hR.bind hR.setL1CtrlMsgGrpHeader fun _ => hR.bind h fun _ => ?_
  exact hR.bind (hR.pcxx _) fun _ => hR.pure _

theorem sendHeaderOnly {msgId msgType : ℕ} (hid : msgId ∈ ids) :
    Within R (TestMac.sendHeaderOnly env msgId msgType) :=
  hR.l1MsgProc (hR.bind (hR.allocL1CtrlMsgMem _) fun _ => hR.appendL1Msg hid)

theorem sendPhyConfigReq (hid : fapiConfigRequest ∈ ids) :
    Within R (TestMac.sendPhyConfigReq env) := by
  apply hR.l1MsgProc
  refine hR.bind (hR.allocL1CtrlMsgMem _) fun _ => hR.bind (hR.read _) fun c => ?_
  exact Within.ite (hR.appendL1Msg hid) (hR.appendL1Msg hid)

section Rows

variable (huses : ∀ (c : Cell) (us : List TableUse), R c { c with uses := us })

include huses

omit hR in
theorem useTable (u : TableUse) : Within R (TestMac.useTable u) :=
  Within.update fun c => huses c _

theorem rowAt (sfn slot : ℕ) : Within R (TestMac.rowAt sfn slot) :=
  hR.bind (useTable huses _) fun _ => hR.pure _

/-- A request that is a row goes along when changes of its table do. -/
theorem sendTtiReq {r : TtiReq} {sfn slot : ℕ} (hid : r.msgId ∈ ids)
    (hrows : ∀ (c : Cell) (rows : SlotTable Mem),
      R c { c with tables := r.withRows c.tables rows }) :
    Within R (r.send env sfn slot) := by
  refine hR.bind (hR.allocL1CtrlMsgMem _) fun _ => hR.bind (hR.rowAt huses _ _) fun p => ?_
  refine hR.bind (hR.read _) fun c => ?_
  apply Within.ite
  · refine hR.bind (Within.update fun c => hrows c _) fun _ => ?_
    exact hR.bind (hR.rowAt huses _ _) fun q => hR.appendL1Msg hid
  · exact hR.bind (Within.update fun c => hrows c _) fun _ => hR.appendL1Msg hid

theorem payloadBytes (size offset : ℕ) : Within R (TestMac.payloadBytes env size offset) := by
  refine hR.bind (hR.read _) fun c => ?_
  split
  · exact hR.pure _
  · exact hR.bind (useTable huses _) fun _ => hR.pure _

variable
  (htable : ∀ (c : Cell) (table : SlotTable Mem),
    R c { c with tables := { c.tables with gL1TXDATAREQ := table } })
  (hdata : ∀ (c : Cell) (offset : ℕ) (bytes : List UInt8),
    R c { c with log := c.log ++ [.dataSent offset bytes] })

include hdata in
theorem macDlSchBuildPayload (size offset : ℕ) :
    Within R (TestMac.macDlSchBuildPayload env size offset) := by
  refine hR.bind (hR.pcxx _) fun found => ?_
  cases found with
  | none => exact hR.pure _
  | some dest =>
    refine hR.bind (hR.payloadBytes huses _ _) fun bytes => hR.bind ?_ fun _ => hR.pure _
    exact Within.update fun c => hdata c _ _

include htable hdata

theorem txdataTLVs (p numTLV tlv : ℕ) : Within R (TestMac.txdataTLVs env p numTLV tlv) := by
  induction numTLV generalizing tlv with
  | zero => exact hR.pure _
  | succ numTLV ih =>
    refine hR.bind (hR.read _) fun entry => hR.bind (hR.when ?_) fun _ => ?_
    · exact hR.bind (hR.macDlSchBuildPayload huses hdata _ _) fun value =>
        Within.update fun c => htable c _
    · exact hR.bind (hR.read _) fun copied => hR.bind (ih _) fun rest => hR.pure _

theorem txdataPdus (p base numPDUs offset : ℕ) :
    Within R (TestMac.txdataPdus env p base numPDUs offset) := by
  induction numPDUs generalizing offset with
  | zero => exact hR.pure _
  | succ numPDUs ih =>
    refine hR.bind (hR.read _) fun numTLV => ?_
    refine hR.bind (hR.txdataTLVs huses htable hdata _ _ _) fun tlvs =>
      hR.bind (hR.read _) fun _ => ?_
    refine hR.bind (Within.update fun c => htable c _) fun _ => ?_
    exact hR.bind (ih _) fun rest => hR.pure _

/-- A TX_DATA request goes along when changes of its table and the data sent do. -/
theorem sendTxdataReq {sfn slot : ℕ} (hid : fapiTxDataRequest ∈ ids) :
    Within R (TestMac.sendTxdataReq env sfn slot) := by
  refine hR.bind (hR.allocL1CtrlMsgMem _) fun _ => hR.bind (hR.read _) fun c => ?_
  refine hR.bind (hR.rowAt huses _ _) fun p => hR.bind ?_ fun out => hR.appendL1Msg hid
  refine hR.bind (hR.read _) fun clock => hR.bind (Within.update fun c => htable c _) fun _ => ?_
  refine hR.bind (hR.read _) fun entry => ?_
  exact hR.bind (hR.txdataPdus huses htable hdata _ _ _ _) fun pdus => hR.pure _

end Rows

end Sending

/-- The control state is kept, and only requests with the identifiers are logged. -/
def Requests (ids : List ℕ) (c c' : Cell) : Prop :=
  c'.control = c.control ∧ ∃ es, c'.log = c.log ++ es ∧ ∀ e ∈ es, e.OfRequest ids

theorem Requests.refl (c : Cell) : Requests ids c c := ⟨rfl, [], by simp, by simp⟩

theorem Requests.trans {c c' c'' : Cell} (h : Requests ids c c') (h' : Requests ids c' c'') :
    Requests ids c c'' := by
  obtain ⟨hctl, es, hlog, hes⟩ := h
  obtain ⟨hctl', es', hlog', hes'⟩ := h'
  refine ⟨hctl'.trans hctl, es ++ es', by rw [hlog', hlog, List.append_assoc], ?_⟩
  intro e he
  rcases List.mem_append.mp he with he | he
  · exact hes e he
  · exact hes' e he

/-- Requests with some identifiers, as a part of those with more. -/
theorem Requests.mono {ids' : List ℕ} {c c' : Cell} (h : Requests ids c c')
    (hids : ∀ id ∈ ids, id ∈ ids') : Requests ids' c c' := by
  obtain ⟨hctl, es, hlog, hes⟩ := h
  refine ⟨hctl, es, hlog, ?_⟩
  intro e he
  have hreq := hes e he
  cases e with
  | sent msgId bytes => exact hids msgId hreq
  | dataSent offset bytes => trivial
  | ttiTx sfn slot => exact hreq.elim
  | cfgResponse errorCode => exact hreq.elim
  | errorIndication messageId errorCode => exact hreq.elim
  | stopIndication => exact hreq.elim

theorem requests_sending : Sending ids (Requests ids) where
  refl := Requests.refl
  trans := Requests.trans
  calls c n := ⟨rfl, [], by simp, by simp⟩
  ctxt c ctxt := ⟨rfl, [], by simp, by simp⟩
  sent c msgId bytes hid := by
    refine ⟨rfl, [.sent msgId bytes], rfl, ?_⟩
    intro e he
    rw [List.mem_singleton.mp he]
    exact hid

theorem requests_bind {α β : Type} {x : CellM α} {f : α → CellM β} (hx : Within (Requests ids) x)
    (hf : ∀ a, Within (Requests ids) (f a)) : Within (Requests ids) (x >>= f) :=
  requests_sending.bind hx hf

theorem requests_when {p : Prop} [Decidable p] {x : CellM Unit} (hx : Within (Requests ids) x) :
    Within (Requests ids) (when p x) :=
  requests_sending.when hx

theorem requests_l1MsgProc {body : CellM Unit} (h : Within (Requests ids) body) :
    Within (Requests ids) (l1MsgProc env body) :=
  requests_sending.l1MsgProc h

theorem requests_sendHeaderOnly {msgId msgType : ℕ} (hid : msgId ∈ ids) :
    Within (Requests ids) (sendHeaderOnly env msgId msgType) :=
  requests_sending.sendHeaderOnly hid

theorem requests_sendPhyConfigReq (hid : fapiConfigRequest ∈ ids) :
    Within (Requests ids) (sendPhyConfigReq env) :=
  requests_sending.sendPhyConfigReq hid

theorem requests_sendTtiReq {r : TtiReq} {sfn slot : ℕ} (hid : r.msgId ∈ ids) :
    Within (Requests ids) (r.send env sfn slot) := by
  refine requests_sending.sendTtiReq ?_ hid ?_
  · intro c us
    exact ⟨rfl, [], by simp, by simp⟩
  · intro c rows
    exact ⟨rfl, [], by simp, by simp⟩

theorem requests_sendDlTTIReq {sfn slot : ℕ} (hid : fapiDlTtiRequest ∈ ids) :
    Within (Requests ids) (sendDlTTIReq env sfn slot) := by
  rw [sendDlTTIReq_eq]
  exact requests_sendTtiReq hid

theorem requests_sendUlTTIReq {sfn slot : ℕ} (hid : fapiUlTtiRequest ∈ ids) :
    Within (Requests ids) (sendUlTTIReq env sfn slot) := by
  rw [sendUlTTIReq_eq]
  exact requests_sendTtiReq hid

theorem requests_sendTxdataReq {sfn slot : ℕ} (hid : fapiTxDataRequest ∈ ids) :
    Within (Requests ids) (sendTxdataReq env sfn slot) := by
  refine requests_sending.sendTxdataReq ?_ ?_ ?_ hid
  · intro c us
    exact ⟨rfl, [], by simp, by simp⟩
  · intro c table
    exact ⟨rfl, [], by simp, by simp⟩
  · intro c offset bytes
    exact ⟨rfl, [.dataSent offset bytes], rfl, by simp [CellEvent.OfRequest]⟩

theorem requests_macTtiTx {sfn slot : ℕ} :
    Within (Requests [fapiDlTtiRequest, fapiUlTtiRequest, fapiTxDataRequest])
      (macTtiTx env sfn slot) := by
  apply requests_l1MsgProc
  refine requests_bind (requests_when (requests_sendDlTTIReq (by simp))) fun _ => ?_
  refine requests_bind (requests_when (requests_sendUlTTIReq (by simp))) fun _ => ?_
  exact requests_when (requests_sendTxdataReq (by simp))

end TestMac
