import TestMac.Mac.Commands
import TestMac.Rx.Decode

/-!
# What the messages of the PHY change: the handlers of `mac_rx.c`

The decoders leave a list of calls. Here they are carried out on the globals: the
cell they are addressed to, the counters of `mac_cell.c`, which every handler finds
through `macGetCellById`, the number of slots of `fapiMsgDec`, and the table of
`mac_ue.c`, which all cells share. An access outside this table has no result.
-/

namespace TestMac

open Bytes Act

/-- `macStatsRach_s`, without the fields that nothing writes. -/
structure MacStatsRach where
  prachPreambleID : ℕ
  totalNumTa : ℕ
  taMaxPRACH : ℕ
  taMinPRACH : ℕ
  taAvgPRACH : ℕ
  totalNumRssi : ℕ
  rssiMaxPRACH : ℕ
  rssiMinPRACH : ℕ
  rssiAvgPRACH : ℕ
  deriving DecidableEq

/-- `macStatsPucch_s`, without the fields that nothing writes. -/
structure MacStatsPucch where
  numPucchCrcPass : ℕ
  numPucchCrcFail : ℕ
  numPucchUciDetected : ℕ
  numPucchUciNotDetected : ℕ
  deriving DecidableEq

/-- `macStatsPusch_s`, without the fields that nothing writes. All but the sum of the
SNR are of type `int32_t`. -/
structure MacStatsPusch where
  numPuschCrcPass : ℤ
  numPuschCrcFail : ℤ
  sumTaPUSCH : ℤ
  sumFailTaPUSCH : ℤ
  sumRssiPUSCH : ℤ
  sumSnrPUSCH : ℕ
  deriving DecidableEq

/-- `macCellCtx_s`. -/
structure MacCellCtx where
  rachStatsInfo : MacStatsRach
  pucchStatsInfo : MacStatsPucch
  puschStatsInfo : MacStatsPusch
  deriving DecidableEq

/-- The two counters of `MacUeCtxt_s` that are stepped. -/
structure MacUeCtxt where
  numCsiPart1CrcPass : ℕ
  numCsiPart1CrcFail : ℕ
  deriving DecidableEq

/-- The globals that messages from the PHY change. -/
structure Receiver where
  cells : Cells
  sMacCellCtx : ℕ → ℕ → MacCellCtx
  sSlotNum : ℕ → ℕ → ℕ
  sMacUeCtxt : ℕ → MacUeCtxt

/-- `MAX_UE_NUM_IN_ONE_CELL`. -/
def maxUeNumInOneCell : ℕ := 256

/-- The index of `macGetUeByCrnti`. -/
def ueIndex (cRnti : ℕ) : ℕ := cRnti &&& 4095

/-- A sum of type `int32_t`. -/
def addInt32 (x y : ℤ) : ℤ := (x + y).bmod 4294967296

/-- `macCrcInHdlr` for a transport block that was received. -/
def MacStatsPusch.crcPass (ta rssi sinr : ℕ) (s : MacStatsPusch) : MacStatsPusch :=
  { s with
    numPuschCrcPass := addInt32 s.numPuschCrcPass 1
    sumTaPUSCH := addInt32 s.sumTaPUSCH ta
    sumRssiPUSCH := addInt32 s.sumRssiPUSCH (((rssi : ℤ) - 1280).tdiv 10)
    sumSnrPUSCH := (s.sumSnrPUSCH + sinr) % 4294967296 }

/-- `macCrcInHdlr` for a transport block that was not received. -/
def MacStatsPusch.crcFail (ta : ℕ) (s : MacStatsPusch) : MacStatsPusch :=
  { s with
    sumFailTaPUSCH := addInt32 s.sumFailTaPUSCH ta
    numPuschCrcFail := addInt32 s.numPuschCrcFail 1 }

/-- `macRachPduInHdlr`. A new minimum is looked for above the largest timing advance. -/
def MacStatsRach.rssi (rssi : ℕ) (s : MacStatsRach) : MacStatsRach :=
  let totalNumRssi := (s.totalNumRssi + 1) % 4294967296
  let rssiAvgPRACH := (s.rssiAvgPRACH + rssi) % 65536
  if s.totalNumRssi = 0 then
    { s with
      totalNumRssi := totalNumRssi
      rssiMaxPRACH := rssi
      rssiMinPRACH := rssi
      rssiAvgPRACH := rssiAvgPRACH }
  else
    { s with
      totalNumRssi := totalNumRssi
      rssiMinPRACH := if s.taMaxPRACH < rssi then rssi else s.rssiMinPRACH
      rssiMaxPRACH := if rssi < s.rssiMaxPRACH then rssi else s.rssiMaxPRACH
      rssiAvgPRACH := rssiAvgPRACH }

/-- `macPreambleInHdlr`. -/
def MacStatsRach.preamble (preambleIndex ta : ℕ) (s : MacStatsRach) : MacStatsRach :=
  let totalNumTa := (s.totalNumTa + 1) % 4294967296
  let taAvgPRACH := (s.taAvgPRACH + ta) % 4294967296
  if s.totalNumTa = 0 then
    { s with
      prachPreambleID := preambleIndex
      totalNumTa := totalNumTa
      taMaxPRACH := ta
      taMinPRACH := ta
      taAvgPRACH := taAvgPRACH }
  else
    { s with
      prachPreambleID := preambleIndex
      totalNumTa := totalNumTa
      taMinPRACH := if s.taMaxPRACH < ta then ta else s.taMinPRACH
      taMaxPRACH := if ta < s.taMaxPRACH then ta else s.taMaxPRACH
      taAvgPRACH := taAvgPRACH }

/-- What `macDumpCellUlInfo` leaves of the counters it prints. -/
def macDumpCellUlInfo : MacCellCtx :=
  { rachStatsInfo := ⟨0, 0, 0, 0, 0, 0, 0, 0, 0⟩
    pucchStatsInfo := ⟨0, 0, 0, 0⟩
    puschStatsInfo := ⟨0, 0, 0, 0, 0, 0⟩ }

/-- A counter of a UE is stepped. -/
def MacUeCtxt.csiPart1Crc (pass : Bool) (u : MacUeCtxt) : MacUeCtxt :=
  if pass = true then { u with numCsiPart1CrcPass := (u.numCsiPart1CrcPass + 1) % 4294967296 }
  else { u with numCsiPart1CrcFail := (u.numCsiPart1CrcFail + 1) % 4294967296 }

/-- An action of one of the cells. -/
def inCell (dev cell : ℕ) (x : CellM Unit) : Act Receiver Unit :=
  lift (fun r => r.cells dev cell) (fun c r => { r with cells := r.cells.set dev cell c }) x

/-- A change of the counters that `macGetCellById` finds. -/
def inCellCtx (dev cell : ℕ) (f : MacCellCtx → MacCellCtx) : Act Receiver Unit :=
  update fun r => { r with
    sMacCellCtx := setEntry r.sMacCellCtx dev (cell &&& 1) (f (r.sMacCellCtx dev (cell &&& 1))) }

/-- A change of the PUCCH counters. -/
def inPucchStats (dev cell : ℕ) (f : MacStatsPucch → MacStatsPucch) : Act Receiver Unit :=
  inCellCtx dev cell fun ctx => { ctx with pucchStatsInfo := f ctx.pucchStatsInfo }

/-- The counting of slots in `fapiMsgDec`; after 20000 of them the counters are printed
and set back. -/
def countSlot (dev cell : ℕ) : Act Receiver Unit :=
  update fun r =>
    let slotNum := (r.sSlotNum dev cell + 1) % 4294967296
    if 20000 ≤ slotNum then
      { r with
        sSlotNum := setEntry r.sSlotNum dev cell 0
        sMacCellCtx := setEntry r.sMacCellCtx dev (cell &&& 1) macDumpCellUlInfo }
    else { r with sSlotNum := setEntry r.sSlotNum dev cell slotNum }

/-- The access of a handler of CSI part 1 to the table of the UEs. -/
def accessUe (cRnti : ℕ) : Act Receiver Unit := assert (ueIndex cRnti < maxUeNumInOneCell)

/-- A call of a decoder is carried out. Slots are counted before the state is set at
the end of the case `FAPI_SLOT_INDICATION`. -/
def rxCall (env : Env) (dev cell : ℕ) : RxCall → Act Receiver Unit
  | .macTxStartIndHandle slotInd => inCell dev cell (macTxStartIndHandle env slotInd)
  | .setPhyActive => do
    countSlot dev cell
    inCell dev cell (setPhyState .phyActive)
  | .macRevCfgResonse errorCode => inCell dev cell (macRevCfgResonse env errorCode)
  | .macRevStopIndication => inCell dev cell (macRevStopIndication env)
  | .macRevErrorIndication messageId errorCode =>
    inCell dev cell (macRevErrorIndication messageId errorCode)
  | .pcxxDataRecv _ _ => pure ()
  | .macCrcInHdlr _ => pure ()
  | .puschCrcPass ta rssi sinr => inCellCtx dev cell fun ctx =>
    { ctx with puschStatsInfo := ctx.puschStatsInfo.crcPass ta rssi sinr }
  | .puschCrcFail ta => inCellCtx dev cell fun ctx =>
    { ctx with puschStatsInfo := ctx.puschStatsInfo.crcFail ta }
  | .macRachPduInHdlr _ avgRssi => inCellCtx dev cell fun ctx =>
    { ctx with rachStatsInfo := ctx.rachStatsInfo.rssi avgRssi }
  | .macPreambleInHdlr _ preambleIndex ta => inCellCtx dev cell fun ctx =>
    { ctx with rachStatsInfo := ctx.rachStatsInfo.preamble preambleIndex ta }
  | .uciPdu _ => pure ()
  | .macCSIPart1InfoUciInPuschPduFmt234PduHdlr cRnti _ _ => accessUe cRnti
  | .macCSIPart1InfoUciInPucchPduFmt234PduHdlr cRnti _ _ => accessUe cRnti
  | .macUciInfoInPucchPduFmt234PduHdlr _ _ _ => pure ()
  | .ueCsiPart1Crc cRnti pass => update fun r => { r with
    sMacUeCtxt := Function.update r.sMacUeCtxt (ueIndex cRnti)
      ((r.sMacUeCtxt (ueIndex cRnti)).csiPart1Crc pass) }
  | .numPucchCrcPass => inPucchStats dev cell fun s =>
    { s with numPucchCrcPass := (s.numPucchCrcPass + 1) % 4294967296 }
  | .numPucchCrcFail => inPucchStats dev cell fun s =>
    { s with numPucchCrcFail := (s.numPucchCrcFail + 1) % 4294967296 }
  | .numPucchUciDetected => inPucchStats dev cell fun s =>
    { s with numPucchUciDetected := (s.numPucchUciDetected + 1) % 4294967296 }
  | .numPucchUciNotDetected => inPucchStats dev cell fun s =>
    { s with numPucchUciNotDetected := (s.numPucchUciNotDetected + 1) % 4294967296 }

/-- The calls that `fapiMsgDec` makes on behalf of `macRevL1Ctrl`. -/
def rxCalls (calls : List WalkCall) : List RxCall := calls.filterMap fun
  | .rx c => some c
  | _ => none

/-- The channels of the driver: `MAC_PC802_INDEX_MAX` devices with `MAC_MAX_CELL_NUM` cells. -/
structure Channel where
  devIndex : Fin 4
  cellId : Fin 2
  deriving DecidableEq

/-- A buffer that is handed to `macRevL1Ctrl` for a channel. -/
structure L1Read where
  channel : Channel
  memory : Mem
  buf : ℕ
  payloadSize : ℕ

/-- `macRevL1Ctrl` is called for a channel. The calls up to a failed assertion, or up to
the end of the rounds allowed to the loops, are made before it stops. -/
def receive (w : World) (fuel : ℕ) (rd : L1Read) : Act Receiver Unit := do
  let dev := rd.channel.devIndex
  let cell := rd.channel.cellId
  let decoder := macRevL1Ctrl fuel rd.buf rd.payloadSize
  forEach (rxCall (w.env dev cell) dev cell) (rxCalls (decoder.calls rd.memory))
  assert ((decoder rd.memory).2.returned = true)

end TestMac
