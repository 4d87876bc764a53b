import TestMac.Lib.Channels
import TestMac.Mac.OwnPart
import TestMac.Rx.Receive

/-!
# Cells that do not interfere

Every handler finds its globals by the device and the cell it was called for. The table of
the UEs is shared, but nothing that is read from it comes back into a cell. The slot of an
indication is a subscript that nothing checks: as long as it leads to a row of the cell, each
channel ends as if its own messages had been the only ones. With a wide spacing it may lead
to a row of the next cell.
-/

namespace TestMac

open Bytes Act

/-- What belongs to one channel: the globals of the cell with its rows and with everything it
has sent, its counters and its number of slots. -/
structure ChannelView where
  cell : Cell
  cellCtx : MacCellCtx
  slotNum : ℕ

def Receiver.view (ch : Channel) (r : Receiver) : ChannelView :=
  ⟨(r.cells ch.devIndex ch.cellId).ownPart, r.sMacCellCtx ch.devIndex ch.cellId,
    r.sSlotNum ch.devIndex ch.cellId⟩

/-- The slot that a call prepares leads to a row of the cell. -/
def RxCall.InRows (env : Env) (dev cell : ℕ) : RxCall → Receiver → Prop
  | .macTxStartIndHandle slotInd, r => (r.cells dev cell).SlotInRows env slotInd
  | _, _ => True

/-- All slots that the messages of a buffer prepare lead to rows of the cell. -/
def L1Read.InRows (w : World) (fuel : ℕ) (rd : L1Read) (r : Receiver) : Prop :=
  let dev := rd.channel.devIndex
  let cell := rd.channel.cellId
  Meets (rxCall (w.env dev cell) dev cell) (RxCall.InRows (w.env dev cell) dev cell)
    (rxCalls ((macRevL1Ctrl fuel rd.buf rd.payloadSize).calls rd.memory)) r

instance (env : Env) (dev cell : ℕ) :
    ∀ (c : RxCall) (r : Receiver), Decidable (c.InRows env dev cell r)
  | c, r => by
    cases c
    case macTxStartIndHandle slotInd =>
      exact inferInstanceAs (Decidable (Cell.SlotInRows env _ slotInd))
    all_goals exact .isTrue trivial

instance (w : World) (fuel : ℕ) (rd : L1Read) (r : Receiver) : Decidable (rd.InRows w fuel r) :=
  decidableMeets _ _ _ _

variable {ch : Channel} {env : Env} {c : Cell} {slotInd : SlotIndication}

/-- The mask of `macGetCellById` keeps the two cells of a device apart. -/
theorem cellId_and_one (ch : Channel) : (ch.cellId : ℕ) &&& 1 = ch.cellId := by
  have hlt : (ch.cellId : ℕ) < 2 := ch.cellId.isLt
  rw [Nat.and_one_is_mod]
  omega

/-- The entries of two channels are different. -/
theorem channel_ne {ch' : Channel} (h : ch' ≠ ch) :
    ¬ ((ch'.devIndex : ℕ) = ch.devIndex ∧ (ch'.cellId : ℕ) = ch.cellId) := by
  rintro ⟨hdev, hcell⟩
  obtain ⟨dev, cell⟩ := ch
  obtain ⟨dev', cell'⟩ := ch'
  obtain rfl : dev' = dev := Fin.ext hdev
  obtain rfl : cell' = cell := Fin.ext hcell
  exact h rfl

section Owned

/-- A slot indication whose slot leads to a row of the cell leaves the rows behind alone. -/
theorem rowsBehind_macTxStartIndHandle (h : c.SlotInRows env slotInd) :
    Ensures (macTxStartIndHandle env slotInd) c fun _ c' => c'.rowsBehind = c.rowsBehind := by
  have hin : CellInput.InRows env c (.slotIndication slotInd) := by
    refine ⟨fun g hg => ?_, fun files hfiles => CellInput.noConfusion hfiles⟩
    obtain ⟨hsch, hg⟩ := Option.ite_none_right_eq_some.mp hg
    obtain rfl := Option.some.inj hg
    exact h hsch
  have hslot := rowsBehind_cellAction hin
  rw [cellAction, slotIndication, ensures_bind] at hslot
  refine hslot.mono ?_
  intro _ c' hc'
  rw [setPhyState, ensures_update] at hc'
  exact hc'

/-- What a cell does within its part concerns its channel only. -/
theorem owned_inCell (ch : Channel) {x : CellM Unit} {P : Cell → Prop}
    (hpart : ∀ {c c' : Cell}, c.ownPart = c'.ownPart → P c → P c')
    (hcomm : ∀ c, P c → Commutes Cell.ownPart x c)
    (hbehind : ∀ c, P c → Ensures x c fun _ c' => c'.rowsBehind = c.rowsBehind) :
    Owned Receiver.view ch (fun r => P (r.cells ch.devIndex ch.cellId))
      (inCell ch.devIndex ch.cellId x) where
  own := by
    intro s t hs hview
    have hcell := congrArg ChannelView.cell hview
    have hctx := congrArg ChannelView.cellCtx hview
    have hslots := congrArg ChannelView.slotNum hview
    refine ((hcomm _ hs).together (hcomm _ (hpart hcell hs)) hcell).lift ?_
    rintro _ c _ c' ⟨-, hc⟩
    simp only [Receiver.view, cells_set_same] at hctx hslots ⊢
    rw [hc, hctx, hslots]
  others := by
    intro s s' hs hrun ch' hch'
    have hall : Ensures (inCell ch.devIndex ch.cellId x) s fun _ s' =>
        s'.view ch' = s.view ch' := by
      rw [inCell, ensures_lift]
      refine (hbehind _ hs).mono ?_
      intro _ c hc
      have hpart' := ownPart_set_other ch.cellId.isLt ch'.cellId.isLt hc (channel_ne hch')
      simp only [Receiver.view, hpart']
    exact hall () s' hrun

/-- What a cell does without any rows. -/
theorem owned_inCell_control (ch : Channel) {x : CellM Unit}
    (hcomm : ∀ c, Commutes Cell.ownPart x c)
    (hbehind : Within (fun c c' => c'.rowsBehind = c.rowsBehind) x) {G : Receiver → Prop} :
    Owned Receiver.view ch G (inCell ch.devIndex ch.cellId x) :=
  (owned_inCell (P := fun _ => True) ch (fun _ h => h) (fun c _ => hcomm c) fun c _ =>
    hbehind c).mono fun _ _ => trivial

theorem owned_inCellCtx (ch : Channel) (f : MacCellCtx → MacCellCtx) {G : Receiver → Prop} :
    Owned Receiver.view ch G (inCellCtx ch.devIndex ch.cellId f) := by
  unfold inCellCtx
  rw [cellId_and_one]
  refine Owned.update ?_ ?_
  · intro s t hview
    have hcell := congrArg ChannelView.cell hview
    have hctx := congrArg ChannelView.cellCtx hview
    have hslots := congrArg ChannelView.slotNum hview
    simp only [Receiver.view, setEntry_same] at hcell hctx hslots ⊢
    rw [hcell, hctx, hslots]
  · intro s ch' hch'
    simp only [Receiver.view, setEntry_other (channel_ne hch')]

theorem owned_countSlot {G : Receiver → Prop} :
    Owned Receiver.view ch G (countSlot ch.devIndex ch.cellId) := by
  unfold countSlot
  rw [cellId_and_one]
  refine Owned.update ?_ ?_
  · intro s t hview
    have hcell := congrArg ChannelView.cell hview
    have hctx := congrArg ChannelView.cellCtx hview
    have hslots := congrArg ChannelView.slotNum hview
    simp only [Receiver.view] at hcell hctx hslots
    dsimp only
    rw [hslots]
    split_ifs
    · simp only [Receiver.view, setEntry_same, hcell]
    · simp only [Receiver.view, setEntry_same, hcell, hctx]
  · intro s ch' hch'
    dsimp only
    split_ifs
    · simp only [Receiver.view, setEntry_other (channel_ne hch')]
    · simp only [Receiver.view, setEntry_other (channel_ne hch')]

/-- The table of the UEs belongs to no channel. -/
theorem owned_ueCsiPart1Crc (cRnti : ℕ) (pass : Bool) {G : Receiver → Prop} :
    Owned Receiver.view ch G (rxCall env ch.devIndex ch.cellId (.ueCsiPart1Crc cRnti pass)) :=
  Owned.update (fun hview => hview) fun _ _ _ => rfl

/-- Whatever a message makes a decoder call concerns the channel of the message, as long as
the slot of an indication leads to a row of its cell. -/
theorem owned_rxCall (c : RxCall) :
    Owned Receiver.view ch (c.InRows env ch.devIndex ch.cellId)
      (rxCall env ch.devIndex ch.cellId c) := by
  cases c with
  | macTxStartIndHandle slotInd =>
    refine owned_inCell ch (P := fun c => c.SlotInRows env slotInd) ?_ ?_ ?_
    · intro c c' hpart hc
      have hsame : c.ownPart.SlotInRows env slotInd := hc
      rw [hpart] at hsame
      exact hsame
    · exact fun _ => commutes_macTxStartIndHandle
    · exact fun _ => rowsBehind_macTxStartIndHandle
  | setPhyActive =>
    refine owned_countSlot.bind (owned_inCell_control (G := fun _ => True) ch ?_ ?_) ?_
    · exact fun _ => commutes_setPhyState _
    · exact rowsBehind_handling.setPhyState _
    · exact fun _ _ _ _ => trivial
  | macRevCfgResonse errorCode =>
    exact owned_inCell_control ch (fun _ => commutes_macRevCfgResonse _)
      (rowsBehind_handling.macRevCfgResonse _)
  | macRevStopIndication =>
    exact owned_inCell_control ch (fun _ => commutes_macRevStopIndication)
      rowsBehind_handling.macRevStopIndication
  | macRevErrorIndication messageId errorCode =>
    exact owned_inCell_control ch (fun _ => commutes_macRevErrorIndication _ _)
      (rowsBehind_handling.macRevErrorIndication _ _)
  | pcxxDataRecv value length => exact Owned.pure
  | macCrcInHdlr crcInfo => exact Owned.pure
  | puschCrcPass ta rssi sinr =>
    rw [rxCall]
    exact owned_inCellCtx ch _
  | puschCrcFail ta =>
    rw [rxCall]
    exact owned_inCellCtx ch _
  | macRachPduInHdlr rachPduInfo avgRssi =>
    rw [rxCall]
    exact owned_inCellCtx ch _
  | macPreambleInHdlr preambleInfo preambleIndex ta =>
    rw [rxCall]
    exact owned_inCellCtx ch _
  | uciPdu uciPdu => exact Owned.pure
  | macCSIPart1InfoUciInPuschPduFmt234PduHdlr cRnti handle addr => exact Owned.assert _
  | macCSIPart1InfoUciInPucchPduFmt234PduHdlr cRnti handle addr => exact Owned.assert _
  | macUciInfoInPucchPduFmt234PduHdlr cRnti handle addr => exact Owned.pure
  | ueCsiPart1Crc cRnti pass => exact owned_ueCsiPart1Crc cRnti pass
  | numPucchCrcPass =>
    rw [rxCall, inPucchStats]
    exact owned_inCellCtx ch _
  | numPucchCrcFail =>
    rw [rxCall, inPucchStats]
    exact owned_inCellCtx ch _
  | numPucchUciDetected =>
    rw [rxCall, inPucchStats]
    exact owned_inCellCtx ch _
  | numPucchUciNotDetected =>
    rw [rxCall, inPucchStats]
    exact owned_inCellCtx ch _

theorem owned_receive (w : World) (fuel : ℕ) (rd : L1Read) :
    Owned Receiver.view rd.channel (rd.InRows w fuel) (receive w fuel rd) :=
  (Owned.forEach fun _ _ => owned_rxCall _).bind (Owned.assert (G := fun _ => True) _)
    fun _ _ _ _ => trivial

end Owned

/-- For any interleaving of messages of all channels, as long as every slot that is prepared
leads to a row of its cell: it is handled to its end exactly when the messages of every channel
alone are, and then every channel ends in the state, with the counters and with the requests
sent, that its own messages alone lead to. -/
theorem channels_do_not_interfere (w : World) (fuel : ℕ) (reads : List L1Read) (r : Receiver)
    (hin : Meets (receive w fuel) (L1Read.InRows w fuel) reads r) :
    ((∃ r', forEach (receive w fuel) reads r = some ((), r')) ↔
      ∀ ch, ∃ r', forEach (receive w fuel) (reads.filter (·.channel = ch)) r = some ((), r')) ∧
    ∀ r', forEach (receive w fuel) reads r = some ((), r') → ∀ ch,
      ∃ r₁, forEach (receive w fuel) (reads.filter (·.channel = ch)) r = some ((), r₁) ∧
        r'.view ch = r₁.view ch := by
  have halone : ∀ r', forEach (receive w fuel) reads r = some ((), r') → ∀ ch,
      ∃ r₁, forEach (receive w fuel) (reads.filter (·.channel = ch)) r = some ((), r₁) ∧
        r'.view ch = r₁.view ch :=
    fun r' hrun ch => forEach_filter (owned_receive w fuel) hin rfl hrun
  refine ⟨⟨?_, ?_⟩, halone⟩
  · rintro ⟨r', hrun⟩ ch
    obtain ⟨r₁, hrun₁, -⟩ := halone r' hrun ch
    exact ⟨r₁, hrun₁⟩
  · exact forEach_finishes (owned_receive w fuel) hin (fun _ => r) fun _ => rfl

section Example

/-- A driver that has room for data on the first cell of a device only, which sends TX_DATA
requests. -/
def firstRoomWorld : World :=
  { readyWorld with
    env := fun dev cell => { readyWorld.env dev cell with
      pcxxDataAlloc := fun _ => if cell = 0 then some 7 else none
      macTxEnable := ⟨0, 0, 1⟩ } }

/-- A TX_DATA request with one PDU of one TLV, which points to data. -/
def oneTlvRow : Mem := store (store (store (fun _ => 0) 12 [1]) 24 [1]) 28 [2]

/-- Active cells, the first one of a device with 60 kHz and the second one with 30 kHz. The
second cell has a request in its first row. -/
def wideReceiver : Receiver where
  cells :=
    let resting := restingCell .auto 0
    let active := { resting with
      ctx := { resting.ctx with state := .phyActive, schState := .schNormal } }
    { own := fun _ cell => { active.own with gcurrentScs := if cell = 0 then 60 else 30 }
      rows := { active.tables.toTcRows with
        gL1TXDATAREQ := active.tables.gL1TXDATAREQ.set (firstRow 0 1) oneTlvRow } }
  sMacCellCtx _ _ := macDumpCellUlInfo
  sSlotNum _ _ := 0
  sMacUeCtxt _ := ⟨0, 0⟩

/-- A buffer with the indication of a slot. -/
def slotRead (ch : Channel) (slotInd : SlotIndication) : L1Read where
  channel := ch
  memory := store (fun _ => 0) 1000 ([1, 0, 0, 0] ++ leBytes 4 fapiSlotIndication ++ leBytes 4 4 ++
    leBytes 2 slotInd.SFN ++ leBytes 2 slotInd.Slot)
  buf := 1000
  payloadSize := 16

/-- Slot 5 of the first cell and slot 0 of the second one lead to rows of their own. -/
theorem channels_do_not_interfere_five :
    let reads := [slotRead ⟨0, 0⟩ ⟨0, 3⟩, slotRead ⟨0, 1⟩ ⟨1023, 18⟩]
    ∃ r', forEach (receive firstRoomWorld 16) reads wideReceiver = some ((), r') ∧
      ∀ ch, ∃ r₁, forEach (receive firstRoomWorld 16) (reads.filter (·.channel = ch))
        wideReceiver = some ((), r₁) ∧ r'.view ch = r₁.view ch := by
  intro reads
  have hin : Meets (receive firstRoomWorld 16) (L1Read.InRows firstRoomWorld 16) reads
      wideReceiver := by
    decide +kernel
  have hruns : (forEach (receive firstRoomWorld 16) reads wideReceiver).isSome = true := by
    decide +kernel
  obtain ⟨⟨⟨⟩, r'⟩, hrun⟩ := Option.isSome_iff_exists.mp hruns
  exact ⟨r', hrun, (channels_do_not_interfere firstRoomWorld 16 reads wideReceiver hin).2 r' hrun⟩

/-- The slot 20 of frame 3, which a 60 kHz cell has, leads to the first row of the next cell.
That cell then sends the request with the offset of data that were never its own. -/
theorem wide_slot_interferes :
    let reads := [slotRead ⟨0, 0⟩ ⟨3, 18⟩, slotRead ⟨0, 1⟩ ⟨1023, 18⟩]
    ∃ r' r₁, forEach (receive firstRoomWorld 16) reads wideReceiver = some ((), r') ∧
      forEach (receive firstRoomWorld 16) (reads.filter (·.channel = ⟨0, 1⟩)) wideReceiver =
        some ((), r₁) ∧
      requests (r'.cells 0 1).log ≠ requests (r₁.cells 0 1).log := by
  intro reads
  -- the length of the PDU and the offset are the first cell's
  have hboth : (forEach (receive firstRoomWorld 16) reads wideReceiver).map (fun r =>
      requests (r.2.cells 0 1).log) = some [(fapiTxDataRequest, l1Message fapiTxDataRequest 32
        [0, 0, 0, 0, 1, 0, 0, 0, 24, 0, 0, 0, 0, 0, 0, 0, 1, 0, 0, 0,
          2, 0, 0, 0, 0, 0, 0, 0, 7, 0, 0, 0])] := by
    decide +kernel
  have halone : (forEach (receive firstRoomWorld 16) (reads.filter (·.channel = ⟨0, 1⟩))
      wideReceiver).map (fun r => requests (r.2.cells 0 1).log) =
      some [(fapiTxDataRequest, l1Message fapiTxDataRequest 32
        [0, 0, 0, 0, 1, 0, 0, 0, 0, 0, 0, 0, 0, 0, 0, 0, 1, 0, 0, 0,
          2, 0, 0, 0, 0, 0, 0, 0, 0, 0, 0, 0])] := by
    decide +kernel
  obtain ⟨⟨⟨⟩, r'⟩, hrun, hsent⟩ := Option.map_eq_some_iff.mp hboth
  obtain ⟨⟨⟨⟩, r₁⟩, hrun₁, hsent₁⟩ := Option.map_eq_some_iff.mp halone
  refine ⟨r', r₁, hrun, hrun₁, ?_⟩
  rw [hsent, hsent₁]
  decide +kernel

end Example

end TestMac
