import TestMac.Rx.Period

/-!
# The PUCCH counters

A verdict on a section of UCI reaches a cell through one of two handlers. The handler of
UCI info counts passes and failures, the handler of CSI part 1 counts passes only.
-/

namespace TestMac

open Bytes Decoder Act

/-- The field `CsiPart1Crc` of the section handed to
`macCSIPart1InfoUciInPucchPduFmt234PduHdlr`. -/
def RxCall.csiPart1Crc (m : Mem) : RxCall → Option ℕ
  | .macCSIPart1InfoUciInPucchPduFmt234PduHdlr _ _ cSIPart1Pdu => some (rd8 m (cSIPart1Pdu + 2))
  | _ => none

/-- The field `CrcStatus` of the section handed to `macUciInfoInPucchPduFmt234PduHdlr`. -/
def RxCall.crcStatus (m : Mem) : RxCall → Option ℕ
  | .macUciInfoInPucchPduFmt234PduHdlr _ _ uciInfoPdu => some (rd8 m (uciInfoPdu + 2))
  | _ => none

/-- The verdicts of the CSI part 1 sections on the PUCCH. -/
def csiPart1CrcsHeard (fuel : ℕ) (ch : Channel) (ds : List Delivery) : List ℕ :=
  (heard ch ds).flatMap fun msg => (msg.calls fuel).filterMap (·.csiPart1Crc msg.memory)

/-- The verdicts of the UCI info sections on the PUCCH. -/
def crcStatusesHeard (fuel : ℕ) (ch : Channel) (ds : List Delivery) : List ℕ :=
  (heard ch ds).flatMap fun msg => (msg.calls fuel).filterMap (·.crcStatus msg.memory)

/-- The call hands over a section whose verdict is a pass. -/
def RxCall.passes (m : Mem) (c : RxCall) : Bool :=
  c.csiPart1Crc m = some 0 ∨ c.crcStatus m = some 0

/-- The call hands over a UCI info section whose verdict is a failure. -/
def RxCall.fails (m : Mem) (c : RxCall) : Bool := c.crcStatus m = some 1

variable {m : Mem} {w : World} {fuel pMsg : ℕ} {ch : Channel} {r r' : Receiver} {msg : PhyMsg}
  {ds : List Delivery}

theorem calls_csiPart1InPucch {cRnti handle cSIPart1Pdu : ℕ}
    (hret : (macCSIPart1InfoUciInPucchPduFmt234PduHdlr cRnti handle cSIPart1Pdu m).2.returned =
      true) :
    (macCSIPart1InfoUciInPucchPduFmt234PduHdlr cRnti handle cSIPart1Pdu).calls m =
      .macCSIPart1InfoUciInPucchPduFmt234PduHdlr cRnti handle cSIPart1Pdu ::
        if rd8 m (cSIPart1Pdu + 2) = 0 then [.ueCsiPart1Crc cRnti true, .numPucchCrcPass]
        else if rd8 m (cSIPart1Pdu + 2) = 1 then [.ueCsiPart1Crc cRnti false] else [] := by
  have hhandle : handle < 65536 := by
    by_contra h
    simp [macCSIPart1InfoUciInPucchPduFmt234PduHdlr, result_bind, h, Outcome.returned] at hret
  simp only [macCSIPart1InfoUciInPucchPduFmt234PduHdlr, calls_bind, calls_call, result_call,
    calls_assert, result_assert, if_pos hhandle, calls_read, result_read, rd8]
  clear hret
  split_ifs
  all_goals simp_all [calls_bind]

theorem calls_uciInfoInPucch {cRnti handle uciInfoPdu : ℕ}
    (hret : (macUciInfoInPucchPduFmt234PduHdlr cRnti handle uciInfoPdu m).2.returned = true) :
    (macUciInfoInPucchPduFmt234PduHdlr cRnti handle uciInfoPdu).calls m =
      .macUciInfoInPucchPduFmt234PduHdlr cRnti handle uciInfoPdu ::
        if rd8 m (uciInfoPdu + 2) = 0 then [.numPucchCrcPass]
        else if rd8 m (uciInfoPdu + 2) = 1 then [.numPucchCrcFail]
        else if rd8 m (uciInfoPdu + 2) = 2 then [.numPucchUciDetected]
        else if rd8 m (uciInfoPdu + 2) = 3 then [.numPucchUciNotDetected] else [] := by
  have hhandle : handle < 65536 := by
    by_contra h
    simp [macUciInfoInPucchPduFmt234PduHdlr, result_bind, h, Outcome.returned] at hret
  simp only [macUciInfoInPucchPduFmt234PduHdlr, calls_bind, calls_call, result_call,
    calls_assert, result_assert, if_pos hhandle, calls_read, result_read, rd8]
  clear hret
  split_ifs
  all_goals simp_all

/-- A decoder that comes to its end has made calls that count the verdicts. -/
def Verdicts (m : Mem) {α : Type} (x : RxDec α) : Prop :=
  Balanced (·.passes m) (· == .numPucchCrcPass) m x ∧
    Balanced (·.fails m) (· == .numPucchCrcFail) m x

theorem Verdicts.closed : Closed fun {α : Type} (x : RxDec α) => Verdicts m x where
  pure a := ⟨Balanced.closed.pure a, Balanced.closed.pure a⟩
  read len addr := ⟨Balanced.closed.read len addr, Balanced.closed.read len addr⟩
  assert p := ⟨Balanced.closed.assert p, Balanced.closed.assert p⟩
  bind hx hf := ⟨hx.1.bind fun a => (hf a).1, hx.2.bind fun a => (hf a).2⟩

/-- A call that neither hands over a verdict on the PUCCH nor counts one. -/
structure RxCall.Quiet (m : Mem) (c : RxCall) : Prop where
  pass : c.passes m = (c == .numPucchCrcPass)
  fail : c.fails m = (c == .numPucchCrcFail)

theorem verdicts_of_quiet {α : Type} {x : RxDec α} (h : Only (RxCall.Quiet m) m x) :
    Verdicts m x :=
  ⟨(h.mono fun _ hc => hc.pass).balanced, (h.mono fun _ hc => hc.fail).balanced⟩

theorem verdicts_csiPart1InPusch (cRnti handle cSIPart1Pdu : ℕ) :
    Verdicts m (macCSIPart1InfoUciInPuschPduFmt234PduHdlr cRnti handle cSIPart1Pdu) :=
  closed_csiPart1InPusch Verdicts.closed (verdicts_of_quiet (.call ⟨rfl, rfl⟩)) fun _ =>
    verdicts_of_quiet (.call ⟨rfl, rfl⟩)

theorem verdicts_csiPart1InPucch (cRnti handle cSIPart1Pdu : ℕ) :
    Verdicts m (macCSIPart1InfoUciInPucchPduFmt234PduHdlr cRnti handle cSIPart1Pdu) := by
  constructor
  · intro hret
    rw [calls_csiPart1InPucch hret]
    split_ifs with hpass hfail
    all_goals simp_all [RxCall.passes, RxCall.csiPart1Crc, RxCall.crcStatus]
  · intro hret
    rw [calls_csiPart1InPucch hret]
    split_ifs
    all_goals simp [RxCall.fails, RxCall.crcStatus]

theorem verdicts_uciInfoInPucch (cRnti handle uciInfoPdu : ℕ) :
    Verdicts m (macUciInfoInPucchPduFmt234PduHdlr cRnti handle uciInfoPdu) := by
  constructor
  · intro hret
    rw [calls_uciInfoInPucch hret]
    split_ifs
    all_goals simp_all [RxCall.passes, RxCall.csiPart1Crc, RxCall.crcStatus]
  · intro hret
    rw [calls_uciInfoInPucch hret]
    split_ifs
    all_goals simp_all [RxCall.fails, RxCall.crcStatus]

theorem RxCall.quiet_of_ne {c : RxCall} (h : c.msgId ≠ fapiUciIndication) : c.Quiet m := by
  cases c with
  | macCSIPart1InfoUciInPucchPduFmt234PduHdlr cRnti handle cSIPart1Pdu => exact absurd rfl h
  | macUciInfoInPucchPduFmt234PduHdlr cRnti handle uciInfoPdu => exact absurd rfl h
  | numPucchCrcPass => exact absurd rfl h
  | numPucchCrcFail => exact absurd rfl h
  | _ => exact ⟨rfl, rfl⟩

/-- A message that is decoded to its end counts its verdicts. -/
theorem verdicts_fapiMsgDec (m : Mem) (fuel l1MessageInput : ℕ) :
    Verdicts m (fapiMsgDec fuel l1MessageInput) := by
  by_cases hid : rd32 m l1MessageInput = fapiUciIndication
  · have huci : Verdicts m
        (uciIndicationProcDecHdlr fuel (l1MessageInput + sizeofL1GeneralMsgHdr)) :=
      closed_uciIndication Verdicts.closed verdicts_csiPart1InPusch verdicts_csiPart1InPucch
        verdicts_uciInfoInPucch (fun _ => verdicts_of_quiet (.call ⟨rfl, rfl⟩))
        (verdicts_of_quiet .running)
    have hbody : fapiMsgBody fuel (rd32 m l1MessageInput)
        (l1MessageInput + sizeofL1GeneralMsgHdr) =
        some (uciIndicationProcDecHdlr fuel (l1MessageInput + sizeofL1GeneralMsgHdr)) := by
      rw [hid]
      rfl
    constructor
    · intro hret
      rw [calls_fapiMsgDec_body hbody]
      exact huci.1 (returned_fapiMsgDec_body hbody hret)
    · intro hret
      rw [calls_fapiMsgDec_body hbody]
      exact huci.2 (returned_fapiMsgDec_body hbody hret)
  · apply verdicts_of_quiet
    refine only_fapiMsgDec.mono ?_
    intro c hc
    apply RxCall.quiet_of_ne
    rw [hc.msgId_eq]
    exact hid

/-- A passing verdict comes from one of the two kinds of sections. -/
theorem countP_passes (cs : List RxCall) :
    cs.countP (·.passes m) = (cs.filterMap (·.csiPart1Crc m)).count 0 +
      (cs.filterMap (·.crcStatus m)).count 0 := by
  rw [List.count_filterMap, List.count_filterMap]
  induction cs with
  | nil => rfl
  | cons c cs ih =>
    rw [List.countP_cons, List.countP_cons, List.countP_cons, ih]
    cases c with
    | macCSIPart1InfoUciInPucchPduFmt234PduHdlr cRnti handle cSIPart1Pdu =>
      simp only [RxCall.passes, RxCall.csiPart1Crc, RxCall.crcStatus]
      simp
      omega
    | macUciInfoInPucchPduFmt234PduHdlr cRnti handle uciInfoPdu =>
      simp only [RxCall.passes, RxCall.csiPart1Crc, RxCall.crcStatus]
      simp
      omega
    | _ => rfl

theorem countP_fails (cs : List RxCall) :
    cs.countP (·.fails m) = (cs.filterMap (·.crcStatus m)).count 1 := by
  rw [List.count_filterMap]
  apply List.countP_congr
  intro c _
  simp [RxCall.fails]

/-- How often the two counters of a cell are stepped by messages decoded to their ends. -/
theorem countP_steps {msgs : List PhyMsg} (h : ∀ msg ∈ msgs, msg.Returned fuel) :
    (msgs.flatMap (·.calls fuel)).countP (· == .numPucchCrcPass) =
        (msgs.flatMap fun msg => (msg.calls fuel).filterMap (·.csiPart1Crc msg.memory)).count 0 +
          (msgs.flatMap fun msg => (msg.calls fuel).filterMap (·.crcStatus msg.memory)).count 0 ∧
      (msgs.flatMap (·.calls fuel)).countP (· == .numPucchCrcFail) =
        (msgs.flatMap fun msg => (msg.calls fuel).filterMap (·.crcStatus msg.memory)).count 1 := by
  induction msgs with
  | nil => exact ⟨rfl, rfl⟩
  | cons msg msgs ih =>
    obtain ⟨hpass, hfail⟩ := ih fun msg' hmsg' => h msg' (List.mem_cons_of_mem msg hmsg')
    obtain ⟨hpasses, hfails⟩ := verdicts_fapiMsgDec msg.memory fuel msg.l1MessageInput
    have hret : msg.Returned fuel := h msg List.mem_cons_self
    have hpassOne := hpasses hret
    have hfailOne := hfails hret
    rw [← PhyMsg.calls, countP_passes] at hpassOne
    rw [← PhyMsg.calls, countP_fails] at hfailOne
    simp only [List.flatMap_cons, List.countP_append, List.count_append]
    constructor
    · omega
    · omega

/-- The PUCCH counters after some calls. -/
theorem pucchStats_tally (cs : List RxCall) :
    (tally cs macDumpCellUlInfo).pucchStatsInfo.numPucchCrcPass =
        cs.countP (· == .numPucchCrcPass) % 4294967296 ∧
      (tally cs macDumpCellUlInfo).pucchStatsInfo.numPucchCrcFail =
        cs.countP (· == .numPucchCrcFail) % 4294967296 := by
  induction cs using List.reverseRecOn with
  | nil => exact ⟨rfl, rfl⟩
  | append_singleton cs c ih =>
    obtain ⟨hpass, hfail⟩ := ih
    rw [tally_concat, List.countP_append, List.countP_append]
    cases c
    all_goals simp [RxCall.count, hpass, hfail]

/-- The PUCCH counters are the numbers of the verdicts. -/
structure MacStatsPucch.Exact (csiPart1Crcs crcStatuses : List ℕ) (s : MacStatsPucch) : Prop where
  pass : s.numPucchCrcPass = csiPart1Crcs.count 0 + crcStatuses.count 0
  fail : s.numPucchCrcFail = csiPart1Crcs.count 1 + crcStatuses.count 1

theorem BetweenDumps.pucchStats (h : BetweenDumps w fuel ch r ds r') :
    (r'.sMacCellCtx ch.devIndex ch.cellId).pucchStatsInfo.numPucchCrcPass =
        ((csiPart1CrcsHeard fuel ch ds).count 0 + (crcStatusesHeard fuel ch ds).count 0) %
          4294967296 ∧
      (r'.sMacCellCtx ch.devIndex ch.cellId).pucchStatsInfo.numPucchCrcFail =
        (crcStatusesHeard fuel ch ds).count 1 % 4294967296 := by
  obtain ⟨hpass, hfail⟩ := pucchStats_tally (callsHeard fuel ch ds)
  obtain ⟨hpasses, hfails⟩ := countP_steps h.returned
  rw [h.sMacCellCtx_eq, hpass, hfail, callsHeard, hpasses, hfails]
  exact ⟨rfl, rfl⟩

/-- Between two dumps the counters are the numbers of the verdicts exactly when no CSI
part 1 section on the PUCCH has failed and the numbers fit into 32 bits. -/
theorem pucchStats_exact_iff (h : BetweenDumps w fuel ch r ds r') :
    (r'.sMacCellCtx ch.devIndex ch.cellId).pucchStatsInfo.Exact (csiPart1CrcsHeard fuel ch ds)
        (crcStatusesHeard fuel ch ds) ↔
      1 ∉ csiPart1CrcsHeard fuel ch ds ∧
        (csiPart1CrcsHeard fuel ch ds).count 0 + (crcStatusesHeard fuel ch ds).count 0 <
          4294967296 ∧
        (crcStatusesHeard fuel ch ds).count 1 < 4294967296 := by
  obtain ⟨hpass, hfail⟩ := h.pucchStats
  rw [← List.count_eq_zero]
  constructor
  · rintro ⟨hpass', hfail'⟩
    rw [hpass] at hpass'
    rw [hfail] at hfail'
    omega
  · rintro ⟨hnone, hpasses, hfails⟩
    constructor
    · rw [hpass, Nat.mod_eq_of_lt hpasses]
    · rw [hfail, Nat.mod_eq_of_lt hfails, hnone, Nat.zero_add]

/-- A UCI indication of one PDU on the PUCCH that carries CSI part 1 with a verdict. -/
def csiPart1Msg (csiPart1Crc : ℕ) : PhyMsg :=
  let header := (zeroMsg fapiUciIndication).memory
  let counts := store header 1008 [0, 0, 0, 0, 1, 0, 0, 0, 2, 0, 60, 0]
  ⟨store (store counts 1033 [4]) 1038 (leBytes 1 csiPart1Crc), 1000⟩

/-- An indication of two PDUs on the PUCCH: CSI part 1 that passed with UCI info that failed,
and UCI info that passed. -/
def twoUcisMsg : PhyMsg :=
  let header := (zeroMsg fapiUciIndication).memory
  let first := store (store (store header 1012 [2, 0, 0, 0, 2, 0, 64, 0]) 1033 [20]) 1072 [8, 0, 1]
  ⟨store (store (store first 1080 [2, 0, 28, 0]) 1097 [16]) 1100 [8, 0, 0], 1000⟩

/-- Indications for a cell, with one for its neighbour between them. -/
def threeUciMsgs (ch neighbour : Channel) : List Delivery :=
  [⟨ch, twoUcisMsg⟩, ⟨neighbour, csiPart1Msg 1⟩, ⟨ch, csiPart1Msg 0⟩]

theorem pucchStats_exact_iff_three :
    ∃ r', BetweenDumps readyWorld 3 ⟨0, 0⟩ periodReceiver (threeUciMsgs ⟨0, 0⟩ ⟨0, 1⟩) r' ∧
      (r'.sMacCellCtx 0 0).pucchStatsInfo.Exact [0, 0] [1, 0] := by
  obtain ⟨r', h⟩ := periodReceiver_betweenDumps 3 (threeUciMsgs ⟨0, 0⟩ ⟨0, 1⟩) (by decide +kernel)
    (by decide +kernel)
  have hcsi : csiPart1CrcsHeard 3 ⟨0, 0⟩ (threeUciMsgs ⟨0, 0⟩ ⟨0, 1⟩) = [0, 0] := by decide +kernel
  have huci : crcStatusesHeard 3 ⟨0, 0⟩ (threeUciMsgs ⟨0, 0⟩ ⟨0, 1⟩) = [1, 0] := by decide +kernel
  have hexact := (pucchStats_exact_iff h).mpr
  rw [hcsi, huci] at hexact
  exact ⟨r', h, hexact (by decide)⟩

/-- One indication of CSI part 1 for a cell. -/
def oneCsiPart1 (ch : Channel) (csiPart1Crc : ℕ) : List Delivery :=
  [⟨ch, csiPart1Msg csiPart1Crc⟩]

/-- A failure of CSI part 1 is not counted. -/
theorem csiPart1_failure_not_counted :
    ∃ r', BetweenDumps readyWorld 2 ⟨0, 0⟩ periodReceiver (oneCsiPart1 ⟨0, 0⟩ 1) r' ∧
      csiPart1CrcsHeard 2 ⟨0, 0⟩ (oneCsiPart1 ⟨0, 0⟩ 1) = [1] ∧
      (r'.sMacCellCtx 0 0).pucchStatsInfo.numPucchCrcFail = 0 := by
  obtain ⟨r', h⟩ := periodReceiver_betweenDumps 2 (oneCsiPart1 ⟨0, 0⟩ 1) (by decide +kernel)
    (by decide +kernel)
  have hcsi : csiPart1CrcsHeard 2 ⟨0, 0⟩ (oneCsiPart1 ⟨0, 0⟩ 1) = [1] := by decide +kernel
  have huci : crcStatusesHeard 2 ⟨0, 0⟩ (oneCsiPart1 ⟨0, 0⟩ 1) = [] := by decide +kernel
  have hfail := h.pucchStats.2
  rw [huci] at hfail
  exact ⟨r', h, hcsi, hfail⟩

end TestMac
