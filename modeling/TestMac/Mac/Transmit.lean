import TestMac.Mac.State

/-!
# Sending requests to the PHY: `macTx.c`

Every sender follows the source function of its name. The bytes of a request are
collected as they are copied to the memory of the driver, and enter the log when
the driver accepts them. The trace of the group and the group header itself,
apart from its count, are left out.
-/

namespace TestMac

open Bytes Act

variable (env : Env)

/-- The message types of `FAPIMsgId_e`. -/
def l1ConfigRequest : ℕ := 2
def l1StartRequest : ℕ := 4
def l1StopRequest : ℕ := 5
def l1DlTtiRequest : ℕ := 8
def l1UlTtiRequest : ℕ := 9
def l1TxDataRequest : ℕ := 12

/-- `msgSize - 8` and the like, as 32-bit numbers. -/
def sub32 (a b : ℕ) : ℕ := (a + (4294967296 - b)) % 4294967296

/-- `allocL1CtrlMsgMem`. -/
def allocL1CtrlMsgMem (size : ℕ) : CellM Unit := do
  let room ← pcxx env.pcxxCtrlAlloc
  assert (room.isSome = true)
  assert (size ≤ room.getD 0)
  update fun c => { c with
    phyCtrlMsgCtxt := { c.phyCtrlMsgCtxt with curMsgLen := 0, maxRemLen := room.getD 0 } }

/-- `setL1CtrlMsgGrpHeader`. -/
def setL1CtrlMsgGrpHeader : CellM Unit := do
  let room ← pcxx env.pcxxCtrlAlloc
  assert (room.isSome = true)
  assert (32 < room.getD 0)
  update fun c => { c with
    phyCtrlMsgCtxt :=
      { msgNum := 0, curMsgLen := sizeofFapiMsgHdr, totalLen := sizeofFapiMsgHdr,
        maxRemLen := room.getD 0 } }
  let _ ← pcxx env.pcxxCtrlSend

/-- `appendL1MsgToList`, given the identifier and the bytes of the message. -/
def appendL1MsgToList (msgId : ℕ) (bytes : List UInt8) (len sfn slot msgType : ℕ) :
    CellM Unit := do
  assert (sfn < 1024)
  assert (slot < 160)
  assert (msgType < 254)
  update fun c => { c with
    phyCtrlMsgCtxt := { c.phyCtrlMsgCtxt with
      curMsgLen := (c.phyCtrlMsgCtxt.curMsgLen + len) % 4294967296
      totalLen := (c.phyCtrlMsgCtxt.totalLen + len) % 4294967296 } }
  let ctxt ← read Cell.phyCtrlMsgCtxt
  assert (ctxt.curMsgLen < ctxt.maxRemLen)
  let accepted ← pcxx env.pcxxCtrlSend
  when (accepted = true) (logEvent (.sent msgId (bytes.take ctxt.curMsgLen)))
  update fun c => { c with
    phyCtrlMsgCtxt := { c.phyCtrlMsgCtxt with msgNum := (c.phyCtrlMsgCtxt.msgNum + 1) % 256 } }

/-- A message with its general header. -/
def l1Message (msgId msgSize : ℕ) (body : List UInt8) : List UInt8 :=
  leBytes 4 msgId ++ leBytes 4 msgSize ++ body

/-- Appending a message whose body has been written behind the general header. -/
def appendL1Msg (msgId msgSize : ℕ) (body : List UInt8) (sfn slot msgType : ℕ) : CellM Unit :=
  appendL1MsgToList env msgId (l1Message msgId msgSize body)
    ((msgSize + sizeofL1GeneralMsgHdr) % 4294967296) sfn slot msgType

/-- `START_L1_MSG_PROC`, a part of a sender, and `END_L1_MSG_PROC`: nothing is sent
when the driver refuses the start. -/
def l1MsgProc (body : CellM Unit) : CellM Unit := do
  let started ← pcxx env.pcxxSendStart
  when (started = true) do
    setL1CtrlMsgGrpHeader env
    body
    let _ ← pcxx env.pcxxSendEnd

/-- A request that consists of the general header. -/
def sendHeaderOnly (msgId msgType : ℕ) : CellM Unit := l1MsgProc env do
  allocL1CtrlMsgMem env sizeofL1GeneralMsgHdr
  appendL1Msg env msgId 0 [] 0 0 msgType

def sendPhyParamReq : CellM Unit := sendHeaderOnly env fapiParamRequest fapiParamRequest

def sendPhyStartReq : CellM Unit := sendHeaderOnly env fapiStartRequest l1StartRequest

def sendPhyStopReq : CellM Unit := sendHeaderOnly env fapiStopRequest l1StopRequest

/-- `sendPhyConfigReq`. -/
def sendPhyConfigReq : CellM Unit := l1MsgProc env do
  allocL1CtrlMsgMem env sizeofL1GeneralMsgHdr
  let c ← read id
  if c.ctx.runMode = .fapiGenerator then
    appendL1Msg env fapiConfigRequest (sub32 c.tables.gL1ConfigReqSize 8)
      (slice c.tables.gL1ConfigRequest 8 c.tables.gL1ConfigReqSize) 0 0 l1ConfigRequest
  else
    let body := (env.rctParams fapiConfigRequest c.clock c.tables.gL1ConfigRequest).2
    appendL1Msg env fapiConfigRequest (body.length % 4294967296) body 0 0 l1ConfigRequest

/-- The SFN and the slot of a request, in the first fields of its body. -/
def stamp (m : Mem) (body sfn slot : ℕ) : Mem := wr16 (wr16 m body sfn) (body + 2) slot

theorem stamp_of_not_mem {m : Mem} {body sfn slot a : ℕ} (h : a < body ∨ body + 4 ≤ a) :
    stamp m body sfn slot a = m a := by
  rw [stamp, wr16, store_of_not_mem (by rw [leBytes_length]; omega), wr16,
    store_of_not_mem (by rw [leBytes_length]; omega)]

theorem slice_stamp {m : Mem} {body sfn slot : ℕ} :
    slice (stamp m body sfn slot) body 4 = leBytes 2 sfn ++ leBytes 2 slot := by
  have hsfn : slice (stamp m body sfn slot) body 2 = leBytes 2 sfn := by
    rw [stamp, wr16, slice_store_disjoint (.inl (by omega)), wr16,
      slice_store_eq (leBytes_length 2 sfn)]
  have hslot : slice (stamp m body sfn slot) (body + 2) 2 = leBytes 2 slot := by
    rw [stamp, wr16, slice_store_eq (leBytes_length 2 slot)]
  rw [slice_add _ body 2 2, hsfn, hslot]

/-- `MAX_PRE_SCHEDULE_SFN_WINDOW_MASK`, applied to a frame number. -/
def sfnWindow (sfn : ℕ) : ℕ := sfn &&& 3

/-- `sendDlTTIReq`. -/
def sendDlTTIReq (sfn slot : ℕ) : CellM Unit := do
  allocL1CtrlMsgMem env sizeofL1GeneralMsgHdr
  let p ← rowAt (sfnWindow sfn) slot
  let c ← read id
  if c.ctx.runMode = .fapiGenerator then do
    let dlttiReq := stamp (c.tables.gL1DLTTIReq.rows p) 8 sfn slot
    setTables fun t => { t with gL1DLTTIReq := t.gL1DLTTIReq.set p dlttiReq }
    let q ← rowAt (sfnWindow sfn) slot
    let size := c.tables.gL1DlttiReqSize.rows q
    appendL1Msg env fapiDlTtiRequest (sub32 size 8) (slice dlttiReq 8 size) sfn slot l1DlTtiRequest
  else do
    let out := env.rctParams fapiDlTtiRequest c.clock (c.tables.gL1DLTTIReq.rows p)
    setTables fun t => { t with gL1DLTTIReq := t.gL1DLTTIReq.set p out.1 }
    appendL1Msg env fapiDlTtiRequest (out.2.length % 4294967296) out.2 sfn slot l1DlTtiRequest

/-- `sendUlTTIReq`. -/
def sendUlTTIReq (sfn slot : ℕ) : CellM Unit := do
  allocL1CtrlMsgMem env sizeofL1GeneralMsgHdr
  let p ← rowAt (sfnWindow sfn) slot
  let c ← read id
  if c.ctx.runMode = .fapiGenerator then do
    let ulttiReq := stamp (c.tables.gL1ULTTI.rows p) 8 sfn slot
    setTables fun t => { t with gL1ULTTI := t.gL1ULTTI.set p ulttiReq }
    let q ← rowAt (sfnWindow sfn) slot
    let size := c.tables.gL1UlttiReqSize.rows q
    appendL1Msg env fapiUlTtiRequest (sub32 size 8) (slice ulttiReq 8 size) sfn slot l1UlTtiRequest
  else do
    let out := env.rctParams fapiUlTtiRequest c.clock (c.tables.gL1ULTTI.rows p)
    setTables fun t => { t with gL1ULTTI := t.gL1ULTTI.set p out.1 }
    appendL1Msg env fapiUlTtiRequest (out.2.length % 4294967296) out.2 sfn slot l1UlTtiRequest

/-- `BsMacPayloads_pdsch`. -/
def bsMacPayloadsPdsch : List UInt8 :=
  [0x0f, 0x70, 0xb3, 0x6f, 0x43, 0x98, 0x48, 0xae, 0xbc, 0x97, 0x38, 0x1d,
    0xd3, 0xd4, 0xa0, 0x55, 0x7d, 0x68, 0x37, 0x6d, 0x60, 0xbb, 0xe3, 0xcd,
    0x35, 0xc6, 0x8b, 0xfa, 0x58, 0xa6, 0x30, 0x19, 0x95, 0x93, 0xf6, 0x92,
    0x6f, 0xcb, 0x50, 0xa2, 0x76, 0x5e, 0xc3, 0x54, 0xe4, 0x31, 0x08, 0x04,
    0x46, 0x47, 0x56, 0xc7, 0x12, 0xa3, 0x67, 0xcf, 0x16, 0xe5, 0x20, 0x99,
    0xd1, 0xf7, 0x83, 0xfe] ++ List.replicate 36 0

/-- The bytes of `macDlSchBuildPayload`: a pattern, or a part of the entry of
`Predefine_Data_Buf` for the slot being prepared. -/
def payloadBytes (size offset : ℕ) : CellM (List UInt8) := do
  let c ← read id
  let gsfn := c.clock.gL2TxGSfn
  match c.ctx.pdschMode with
  | .autoMode => pure ((List.range size).map fun i => bsMacPayloadsPdsch.getD (i % 100) 0)
  | .loadMode => do
    useTable (.data (sfnWindow gsfn.SFN) gsfn.Slot)
    pure (slice (env.predefineDataBuf (sfnWindow gsfn.SFN) gsfn.Slot) offset size)

/-- `macDlSchBuildPayload`: the offset found for the data, which replaces the one
given, or the one given when there is no room. -/
def macDlSchBuildPayload (size offset : ℕ) : CellM ℕ := do
  let found ← pcxx env.pcxxDataAlloc
  match found with
  | none => pure offset
  | some dest => do
    let bytes ← payloadBytes env size offset
    logEvent (.dataSent dest bytes)
    pure dest

/-- The loop over the TLVs of one PDU in `TxdataParams`, for the table entry at a place
and from the TLV at `tlv` on: the bytes copied. A TLV with tag 2 is given the offset of
its data. -/
def txdataTLVs (p : ℕ) : ℕ → ℕ → CellM (List UInt8)
  | 0, _ => pure []
  | numTLV + 1, tlv => do
    let entry ← read fun c => c.tables.gL1TXDATAREQ.rows p
    when (rd16 entry tlv = 2) do
      let value ← macDlSchBuildPayload env (rd32 entry (tlv + 4)) (rd32 entry (tlv + 8))
      setTables fun t => { t with
        gL1TXDATAREQ :=
          t.gL1TXDATAREQ.set p (wr32 (t.gL1TXDATAREQ.rows p) (tlv + 8) value) }
    let copied ← read fun c => slice (c.tables.gL1TXDATAREQ.rows p) tlv sizeofL1DataTLV
    let rest ← txdataTLVs p numTLV (tlv + sizeofL1DataTLV)
    pure (copied ++ rest)

/-- The loop over the PDUs in `TxdataParams`: the offset behind them and the bytes
copied. The header of a PDU is copied before its length is updated. -/
def txdataPdus (p base : ℕ) : ℕ → ℕ → CellM (ℕ × List UInt8)
  | 0, offset => pure (offset, [])
  | numPDUs + 1, offset => do
    let pdu := base + offset
    let numTLV ← read fun c => rd32 (c.tables.gL1TXDATAREQ.rows p) (pdu + 8)
    let tlvs ← txdataTLVs env p numTLV (pdu + 12)
    let header ← read fun c => slice (c.tables.gL1TXDATAREQ.rows p) pdu 12
    let next := (offset + 12 + sizeofL1DataTLV * numTLV) % 4294967296
    setTables fun t => { t with
      gL1TXDATAREQ :=
        t.gL1TXDATAREQ.set p (wr32 (t.gL1TXDATAREQ.rows p) pdu (sub32 next offset)) }
    let rest ← txdataPdus p base numPDUs next
    pure (rest.1, header ++ tlvs ++ rest.2)

/-- `TxdataParams` for the table entry at a place, with its body at `base`. -/
def txdataParams (p base : ℕ) : CellM (ℕ × List UInt8) := do
  let clock ← read Cell.clock
  setTables fun t => { t with
    gL1TXDATAREQ :=
      t.gL1TXDATAREQ.set p
        (stamp (t.gL1TXDATAREQ.rows p) base clock.gMacTxRfn clock.gMacTxSlot) }
  let entry ← read fun c => c.tables.gL1TXDATAREQ.rows p
  let pdus ← txdataPdus env p base (rd16 entry (base + 4)) offsetofPdus
  pure (pdus.1, slice entry base offsetofPdus ++ pdus.2)

/-- `sendTxdataReq`. -/
def sendTxdataReq (sfn slot : ℕ) : CellM Unit := do
  allocL1CtrlMsgMem env sizeofL1GeneralMsgHdr
  let c ← read id
  let p ← rowAt (sfnWindow sfn) slot
  let out ← txdataParams env p (if c.ctx.runMode = .fapiGenerator then 8 else 0)
  appendL1Msg env fapiTxDataRequest out.1 out.2 sfn slot l1TxDataRequest

def sendSingleDlTTIReq (sfn slot : ℕ) : CellM Unit := l1MsgProc env (sendDlTTIReq env sfn slot)

def sendSingleUlTTIReq (sfn slot : ℕ) : CellM Unit := l1MsgProc env (sendUlTTIReq env sfn slot)

def sendSingleTxDataReq (sfn slot : ℕ) : CellM Unit := l1MsgProc env (sendTxdataReq env sfn slot)

/-- `macTtiTx`. -/
def macTtiTx (sfn slot : ℕ) : CellM Unit := l1MsgProc env do
  when (env.macTxEnable.dlttiTxEnable = 1) (sendDlTTIReq env sfn slot)
  when (env.macTxEnable.ulttiTxEnable = 1) (sendUlTTIReq env sfn slot)
  when (env.macTxEnable.txdataTxEnble = 1) (sendTxdataReq env sfn slot)

/-- The requests that are a row of a table. -/
inductive TtiReq
  | dl
  | ul

namespace TtiReq

def msgId : TtiReq → ℕ
  | dl => fapiDlTtiRequest
  | ul => fapiUlTtiRequest

def msgType : TtiReq → ℕ
  | dl => l1DlTtiRequest
  | ul => l1UlTtiRequest

def rows (r : TtiReq) (t : TcTables) : SlotTable Mem :=
  match r with
  | dl => t.gL1DLTTIReq
  | ul => t.gL1ULTTI

def sizes (r : TtiReq) (t : TcTables) : SlotTable ℕ :=
  match r with
  | dl => t.gL1DlttiReqSize
  | ul => t.gL1UlttiReqSize

def withRows (t : TcTables) (rows : SlotTable Mem) : TtiReq → TcTables
  | dl => { t with gL1DLTTIReq := rows }
  | ul => { t with gL1ULTTI := rows }

/-- What `sendDlTTIReq` and `sendUlTTIReq` have in common. -/
def send (r : TtiReq) (sfn slot : ℕ) : CellM Unit := do
  allocL1CtrlMsgMem env sizeofL1GeneralMsgHdr
  let p ← rowAt (sfnWindow sfn) slot
  let c ← read id
  if c.ctx.runMode = .fapiGenerator then do
    let row := stamp ((r.rows c.tables).rows p) 8 sfn slot
    setTables fun t => r.withRows t ((r.rows t).set p row)
    let q ← rowAt (sfnWindow sfn) slot
    let size := (r.sizes c.tables).rows q
    appendL1Msg env r.msgId (sub32 size 8) (slice row 8 size) sfn slot r.msgType
  else do
    let out := env.rctParams r.msgId c.clock ((r.rows c.tables).rows p)
    setTables fun t => r.withRows t ((r.rows t).set p out.1)
    appendL1Msg env r.msgId (out.2.length % 4294967296) out.2 sfn slot r.msgType

end TtiReq

theorem sendDlTTIReq_eq (sfn slot : ℕ) : sendDlTTIReq env sfn slot = TtiReq.dl.send env sfn slot :=
  rfl

theorem sendUlTTIReq_eq (sfn slot : ℕ) : sendUlTTIReq env sfn slot = TtiReq.ul.send env sfn slot :=
  rfl

end TestMac
