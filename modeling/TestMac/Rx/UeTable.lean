import TestMac.Rx.Bounds
import TestMac.Rx.Receive

/-!
# The table of the UEs: `mac_ue.c`

The reports of CSI part 1 are counted in a table of 256 entries. The entry is chosen by
the lower twelve bits of the RNTI in force at a PDU, which for a PDU on the PUSCH is the
one of an earlier PDU. Neither the device nor the cell takes part in the choice.
-/

namespace TestMac

open Bytes Decoder

/-- A UE is told by its RNTI from the others of its cell. -/
structure Ue where
  channel : Channel
  rnti : ℕ
  deriving DecidableEq

/-- What the decoder does that concerns the UEs. -/
inductive UeCall
  /-- The loop turns to the PDU at an address. -/
  | pdu (addr : ℕ)
  /-- A handler of CSI part 1 is called. -/
  | report (cRnti handle addr : ℕ)
  /-- A counter is stepped. -/
  | crc (cRnti : ℕ) (pass : Bool)

def ueCall : RxCall → Option UeCall
  | .uciPdu addr => some (.pdu addr)
  | .macCSIPart1InfoUciInPuschPduFmt234PduHdlr cRnti handle addr => some (.report cRnti handle addr)
  | .macCSIPart1InfoUciInPucchPduFmt234PduHdlr cRnti handle addr => some (.report cRnti handle addr)
  | .ueCsiPart1Crc cRnti pass => some (.crc cRnti pass)
  | _ => none

/-- An access to an entry of the table on behalf of a UE, with the `CsiPart1Crc` reported. -/
structure UeAccess where
  ue : Ue
  index : ℕ
  crc : ℕ
  deriving DecidableEq

/-- The accesses of the handlers. They follow the assertion on the handle. -/
def ueAccesses (ch : Channel) (m : Mem) : ℕ → List UeCall → List UeAccess
  | _, [] => []
  | _, .pdu addr :: cs => ueAccesses ch m addr cs
  | pdu, .report cRnti handle addr :: cs =>
    (if handle < 65536 then [⟨⟨ch, rd16 m (pdu + 8)⟩, ueIndex cRnti, rd8 m (addr + 2)⟩] else []) ++
      ueAccesses ch m pdu cs
  | pdu, .crc _ _ :: cs => ueAccesses ch m pdu cs

/-- The table after the calls. -/
def ueTable : List UeCall → (ℕ → MacUeCtxt) → ℕ → MacUeCtxt
  | [], t => t
  | .crc cRnti pass :: cs, t =>
    ueTable cs (Function.update t (ueIndex cRnti) ((t (ueIndex cRnti)).csiPart1Crc pass))
  | .pdu _ :: cs, t => ueTable cs t
  | .report _ _ _ :: cs, t => ueTable cs t

/-- A UCI indication that is received, with its body at an address. -/
structure UciReceived where
  channel : Channel
  memory : Mem
  pMsg : ℕ

/-- The calls of `uciIndicationProcDecHdlr`. The number of PDUs has 16 bits. -/
def UciReceived.calls (r : UciReceived) : List UeCall :=
  ((uciIndicationProcDecHdlr 65536 r.pMsg).calls r.memory).filterMap ueCall

/-- All accesses for a sequence of indications. -/
def accessesOf (rs : List UciReceived) : List UeAccess :=
  rs.flatMap fun r => ueAccesses r.channel r.memory 0 r.calls

/-- The table after a sequence of indications; it starts with zeros. -/
def tableOf (rs : List UciReceived) : ℕ → MacUeCtxt :=
  ueTable (rs.flatMap UciReceived.calls) fun _ => ⟨0, 0⟩

/-- The identity in force at a PDU, and the place of the next PDU. -/
def UciLoop.next (m : Mem) (pMsg : ℕ) (s : UciLoop) : UciLoop :=
  let a := pMsg + s.initOffset
  { initOffset := s.initOffset + rd16 m (a + 2)
    RNTI := if rd16 m a = 2 then rd16 m (a + 8) else s.RNTI
    Handle := if rd16 m a = 2 then rd32 m (a + 4) else s.Handle }

/-- Where the PDU at `a` carries CSI part 1, if it does. -/
def csiPart1At (m : Mem) (a : ℕ) : Option ℕ :=
  if rd16 m a = 0 then
    if rd8 m (a + 16) &&& 4 ≠ 0 then
      some (a + 20 + sectionSize (rd8 m (a + 16)) 2 sizeofL1HarqPduForFmt234)
    else none
  else if rd16 m a = 2 then
    if rd8 m (a + 17) &&& 4 ≠ 0 then
      some (a + 20 + sectionSize (rd8 m (a + 17)) 1 sizeofL1SrPduFMT234 +
        sectionSize (rd8 m (a + 17)) 2 sizeofL1HarqPduForFmt234)
    else none
  else none

/-- A report of CSI part 1: the UE of its PDU, and the RNTI in force. -/
structure CsiReport where
  ue : Ue
  rnti : ℕ
  crc : ℕ
  deriving DecidableEq

/-- The report of a PDU. -/
def csiReport (ch : Channel) (m : Mem) (pMsg : ℕ) (s : UciLoop) : List CsiReport :=
  match csiPart1At m (pMsg + s.initOffset) with
  | none => []
  | some addr =>
    if (s.next m pMsg).Handle < 65536 then
      [⟨⟨ch, rd16 m (pMsg + s.initOffset + 8)⟩, (s.next m pMsg).RNTI, rd8 m (addr + 2)⟩]
    else []

/-- The reports of the PDUs of an indication, up to the first one that the decoder does
not accept. -/
def csiReports (ch : Channel) (m : Mem) (pMsg : ℕ) : ℕ → UciLoop → List CsiReport
  | 0, _ => []
  | numUcis + 1, s =>
    csiReport ch m pMsg s ++
      if (uciInfo pMsg s m).2.returned = true then csiReports ch m pMsg numUcis (s.next m pMsg)
      else []

def UciReceived.reports (r : UciReceived) : List CsiReport :=
  csiReports r.channel r.memory r.pMsg (rd16 r.memory (r.pMsg + 4)) ⟨offsetofPdus, 0, 0⟩

/-- All reports of a sequence of indications. -/
def reportsOf (rs : List UciReceived) : List CsiReport := rs.flatMap UciReceived.reports

/-- The calls for a report. -/
def ueReportCalls (m : Mem) (cRnti handle addr : ℕ) : List UeCall :=
  .report cRnti handle addr ::
    if handle < 65536 then
      if rd8 m (addr + 2) = 0 then [.crc cRnti true]
      else if rd8 m (addr + 2) = 1 then [.crc cRnti false]
      else []
    else []

/-- The calls for the report of a PDU. -/
def uciPduCalls (m : Mem) (pMsg : ℕ) (s : UciLoop) : List UeCall :=
  match csiPart1At m (pMsg + s.initOffset) with
  | none => []
  | some addr => ueReportCalls m (s.next m pMsg).RNTI (s.next m pMsg).Handle addr

variable {m : Mem} {pMsg fuel : ℕ} {s : UciLoop}

section Sections

variable {cRnti handle addr pduBitmap bit offset : ℕ}

theorem shows_csiPart1InPusch :
    Shows ueCall m (macCSIPart1InfoUciInPuschPduFmt234PduHdlr cRnti handle addr)
      (ueReportCalls m cRnti handle addr) fun _ => True := by
  unfold macCSIPart1InfoUciInPuschPduFmt234PduHdlr ueReportCalls
  refine (Returns.call _).shows_then (Shows.assert_then fun _ => ?_)
  refine (Returns.read 1 (addr + 2)).silent_then ?_
  rw [show leValue (slice m (addr + 2) 1) = rd8 m (addr + 2) from rfl]
  split_ifs
  · exact (Returns.call _).toShows trivial
  · exact (Returns.call _).toShows trivial
  · exact (Returns.pure _).toShows trivial

theorem shows_csiPart1InPucch :
    Shows ueCall m (macCSIPart1InfoUciInPucchPduFmt234PduHdlr cRnti handle addr)
      (ueReportCalls m cRnti handle addr) fun _ => True := by
  unfold macCSIPart1InfoUciInPucchPduFmt234PduHdlr ueReportCalls
  refine (Returns.call _).shows_then (Shows.assert_then fun _ => ?_)
  refine (Returns.read 1 (addr + 2)).silent_then ?_
  rw [show leValue (slice m (addr + 2) 1) = rd8 m (addr + 2) from rfl]
  split_ifs
  · exact (Returns.call _).shows_then ((Returns.call _).toShows trivial)
  · exact (Returns.call _).toShows trivial
  · exact (Returns.pure _).toShows trivial

/-- A section that is skipped shows nothing. -/
theorem returns_uciSection_skip {size : ℕ} :
    Returns ueCall m (uciSection pduBitmap bit (skipSection size) offset) []
      (offset + sectionSize pduBitmap bit size) := by
  unfold uciSection sectionSize
  split_ifs
  · exact .pure _
  · exact .pure _

theorem shows_uciInfo_section :
    Shows ueCall m (uciSection pduBitmap 16 (fun offset => do
      macUciInfoInPucchPduFmt234PduHdlr cRnti handle (pMsg + offset)
      let uciBitLen ← read 2 (pMsg + offset)
      pure (offset + offsetofUciPayload + uciBitLen / 8)) offset) [] fun _ => True := by
  unfold uciSection macUciInfoInPucchPduFmt234PduHdlr
  split_ifs
  · refine Shows.then_silent (Q := fun _ => True) ?_ fun _ _ =>
      (Returns.read 2 _).silent_then ((Returns.pure _).toShows trivial)
    refine (Returns.call _).silent_then ((Shows.assert _).then_silent fun _ _ =>
      (Returns.read 1 _).silent_then ?_)
    split_ifs
    all_goals first
      | exact (Returns.call _).toShows trivial
      | exact (Returns.pure _).toShows trivial
  · exact (Returns.pure _).toShows trivial

end Sections

section Pdus

/-- The section of CSI part 1 shows its report. -/
theorem shows_csiSection {pduBitmap offset cRnti handle : ℕ} {h : ℕ → RxDec Unit}
    (hdlr : Shows ueCall m (h (pMsg + offset)) (ueReportCalls m cRnti handle (pMsg + offset))
      fun _ => True) :
    Shows ueCall m (uciSection pduBitmap 4 (fun offset => do
        h (pMsg + offset)
        pure (offset + sizeofL1CSIPart1Pdu)) offset)
      (if pduBitmap &&& 4 ≠ 0 then ueReportCalls m cRnti handle (pMsg + offset) else [])
      fun _ => True := by
  unfold uciSection
  split_ifs
  · exact hdlr.then_silent fun _ _ => (Returns.pure _).toShows trivial
  · exact (Returns.pure _).toShows trivial

theorem uciPduCalls_inPusch (htype : rd16 m (pMsg + s.initOffset) = 0) :
    uciPduCalls m pMsg s =
      if rd8 m (pMsg + s.initOffset + 16) &&& 4 ≠ 0 then
        ueReportCalls m s.RNTI s.Handle (pMsg + (s.initOffset + offsetofUciPdu + offsetofSections +
          sectionSize (rd8 m (pMsg + s.initOffset + 16)) 2 sizeofL1HarqPduForFmt234))
      else [] := by
  have haddr : ∀ k, pMsg + s.initOffset + 20 + k =
      pMsg + (s.initOffset + offsetofUciPdu + offsetofSections + k) := by
    intro k
    simp only [offsetofUciPdu, offsetofSections]
    omega
  rw [uciPduCalls, csiPart1At, if_pos htype, haddr]
  split_ifs
  · simp [UciLoop.next, htype]
  · rfl

theorem uciPduCalls_inPucch (htype : rd16 m (pMsg + s.initOffset) = 2) :
    uciPduCalls m pMsg s =
      if rd8 m (pMsg + s.initOffset + 17) &&& 4 ≠ 0 then
        ueReportCalls m (rd16 m (pMsg + s.initOffset + 8)) (rd32 m (pMsg + s.initOffset + 4))
          (pMsg + (s.initOffset + offsetofUciPdu + offsetofSections +
            sectionSize (rd8 m (pMsg + s.initOffset + 17)) 1 sizeofL1SrPduFMT234 +
            sectionSize (rd8 m (pMsg + s.initOffset + 17)) 2 sizeofL1HarqPduForFmt234))
      else [] := by
  have haddr : ∀ k l, pMsg + s.initOffset + 20 + k + l =
      pMsg + (s.initOffset + offsetofUciPdu + offsetofSections + k + l) := by
    intro k l
    simp only [offsetofUciPdu, offsetofSections]
    omega
  rw [uciPduCalls, csiPart1At, if_neg (by omega), if_pos htype, haddr]
  split_ifs
  · simp [UciLoop.next, htype]
  · rfl

theorem shows_uciInPuschPdu (htype : rd16 m (pMsg + s.initOffset) = 0) :
    Shows ueCall m (uciInPuschPdu pMsg s (s.initOffset + offsetofUciPdu)) (uciPduCalls m pMsg s)
      fun _ => True := by
  have hbitmap : pMsg + (s.initOffset + offsetofUciPdu) + 12 = pMsg + s.initOffset + 16 := by
    simp only [offsetofUciPdu]
    omega
  rw [uciPduCalls_inPusch htype, uciInPuschPdu, hbitmap]
  refine (Returns.read 1 _).silent_then (returns_uciSection_skip.silent_then ?_)
  rw [show leValue (slice m (pMsg + s.initOffset + 16) 1) =
    rd8 m (pMsg + s.initOffset + 16) from rfl]
  exact (shows_csiSection shows_csiPart1InPusch).then_silent fun _ _ =>
    returns_uciSection_skip.toShows trivial

theorem shows_uciInPucchPduFmt234 (htype : rd16 m (pMsg + s.initOffset) = 2) :
    Shows ueCall m (uciInPucchPduFmt234 pMsg (rd16 m (pMsg + s.initOffset + 8))
        (rd32 m (pMsg + s.initOffset + 4)) (s.initOffset + offsetofUciPdu))
      (uciPduCalls m pMsg s) fun _ => True := by
  have hbitmap : pMsg + (s.initOffset + offsetofUciPdu) + 13 = pMsg + s.initOffset + 17 := by
    simp only [offsetofUciPdu]
    omega
  rw [uciPduCalls_inPucch htype, uciInPucchPduFmt234, hbitmap]
  refine (Returns.read 1 _).silent_then (returns_uciSection_skip.silent_then
    (returns_uciSection_skip.silent_then ?_))
  rw [show leValue (slice m (pMsg + s.initOffset + 17) 1) =
    rd8 m (pMsg + s.initOffset + 17) from rfl]
  exact (shows_csiSection shows_csiPart1InPucch).then_silent fun _ _ =>
    returns_uciSection_skip.silent_then shows_uciInfo_section

/-- The end of a round shows nothing. -/
theorem shows_uciPduEnd {RNTI Handle : ℕ} (offset : ℕ) (hrnti : RNTI = (s.next m pMsg).RNTI)
    (hhandle : Handle = (s.next m pMsg).Handle) :
    Shows ueCall m (do
      let pduSize ← read 2 (pMsg + s.initOffset + 2)
      assert (offset - s.initOffset ≤ pduSize)
      pure { initOffset := s.initOffset + pduSize, RNTI := RNTI, Handle := Handle } :
        RxDec UciLoop) [] (· = s.next m pMsg) := by
  refine (Returns.read 2 _).silent_then ((Shows.assert _).then_silent fun _ _ => ?_)
  refine (Returns.pure _).toShows ?_
  rw [hrnti, hhandle]
  rfl

/-- One round of the loop over the PDUs shows the PDU and its report. -/
theorem shows_uciInfo :
    Shows ueCall m (uciInfo pMsg s) (.pdu (pMsg + s.initOffset) :: uciPduCalls m pMsg s)
      (· = s.next m pMsg) := by
  unfold uciInfo
  refine (Returns.call _).shows_then ((Returns.read 2 _).silent_then ?_)
  rw [show leValue (slice m (pMsg + s.initOffset) 2) = rd16 m (pMsg + s.initOffset) from rfl]
  have hnone : rd16 m (pMsg + s.initOffset) ≠ 0 → rd16 m (pMsg + s.initOffset) ≠ 2 →
      uciPduCalls m pMsg s = [] := by
    intro h₀ h₂
    simp [uciPduCalls, csiPart1At, h₀, h₂]
  have hkept : rd16 m (pMsg + s.initOffset) ≠ 2 →
      s.RNTI = (s.next m pMsg).RNTI ∧ s.Handle = (s.next m pMsg).Handle := by
    intro h₂
    simp [UciLoop.next, h₂]
  split_ifs with h₀ h₁ h₂
  · obtain ⟨hrnti, hhandle⟩ := hkept (by omega)
    exact (shows_uciInPuschPdu h₀).then_silent fun offset _ => shows_uciPduEnd offset hrnti hhandle
  · obtain ⟨hrnti, hhandle⟩ := hkept (by omega)
    rw [hnone h₀ (by omega)]
    refine Shows.then_silent (Q := fun _ => True) ?_ fun offset _ =>
      shows_uciPduEnd offset hrnti hhandle
    exact (Returns.read 1 _).silent_then (returns_uciSection_skip.silent_then
      (returns_uciSection_skip.toShows trivial))
  · -- the PDU brings its own identity
    have haddr : pMsg + (s.initOffset + offsetofUciPdu) = pMsg + s.initOffset + 4 := by
      simp only [offsetofUciPdu]
      omega
    dsimp only
    rw [haddr]
    refine (Returns.read 4 _).silent_then ((Returns.read 2 _).silent_then ?_)
    refine (shows_uciInPucchPduFmt234 h₂).then_silent fun offset _ => shows_uciPduEnd offset ?_ ?_
    · simp only [UciLoop.next, if_pos h₂]
      rfl
    · simp only [UciLoop.next, if_pos h₂]
      rfl
  · obtain ⟨hrnti, hhandle⟩ := hkept h₂
    rw [hnone h₀ h₂]
    exact shows_uciPduEnd _ hrnti hhandle

end Pdus

/-- The calls of the loop over the PDUs. -/
def uciWalk (m : Mem) (pMsg : ℕ) : ℕ → UciLoop → List UeCall
  | 0, _ => []
  | numUcis + 1, s =>
    .pdu (pMsg + s.initOffset) :: uciPduCalls m pMsg s ++
      if (uciInfo pMsg s m).2.returned = true then uciWalk m pMsg numUcis (s.next m pMsg) else []

theorem calls_uciLoop {numUcis i : ℕ} (hnum : numUcis < 65536) (hi : i ≤ numUcis)
    (hfuel : numUcis - i < fuel) :
    ((loop16 numUcis (fun _ => uciInfo pMsg) fuel i s).calls m).filterMap ueCall =
      uciWalk m pMsg (numUcis - i) s := by
  induction fuel generalizing i s with
  | zero => omega
  | succ fuel ih =>
    by_cases hlt : i < numUcis
    · have hshows : Shows ueCall m (uciInfo pMsg s)
          (.pdu (pMsg + s.initOffset) :: uciPduCalls m pMsg s) (· = s.next m pMsg) := shows_uciInfo
      obtain ⟨hcalls, hnext⟩ := hshows
      rw [loop16_step hlt hnum, calls_bind, List.filterMap_append, hcalls,
        show numUcis - i = numUcis - (i + 1) + 1 by omega, uciWalk]
      match hout : (uciInfo pMsg s m).2 with
      | .ok s' =>
        rw [hnext s' hout, ih (by omega) (by omega)]
        simp [Outcome.returned]
      | .assertFailed => simp [Outcome.returned]
      | .running => simp [Outcome.returned]
    · have hdone : numUcis - i = 0 := by omega
      rw [loop16, if_neg hlt, hdone]
      rfl

/-- The calls for an indication are those of its PDUs. -/
theorem UciReceived.calls_eq (r : UciReceived) : r.calls =
    uciWalk r.memory r.pMsg (rd16 r.memory (r.pMsg + 4)) ⟨offsetofPdus, 0, 0⟩ := by
  have hlt := rd16_lt r.memory (r.pMsg + 4)
  unfold UciReceived.calls uciIndicationProcDecHdlr
  simp only [calls_bind, calls_read, result_read, List.nil_append]
  rw [show leValue (slice r.memory (r.pMsg + 4) 2) = rd16 r.memory (r.pMsg + 4) from rfl,
    List.filterMap_append, calls_uciLoop hlt (Nat.zero_le _) (by omega)]
  match (loop16 (rd16 r.memory (r.pMsg + 4)) (fun _ => uciInfo r.pMsg) 65536 0
    { initOffset := offsetofPdus, RNTI := 0, Handle := 0 } r.memory).2 with
  | .ok s => simp
  | .assertFailed => simp
  | .running => simp

section Reports

variable {ch : Channel} {numUcis pdu : ℕ}

/-- The access that a report leads to. -/
def CsiReport.access (r : CsiReport) : UeAccess := ⟨r.ue, ueIndex r.rnti, r.crc⟩

/-- The counting of a report. -/
def CsiReport.count (t : ℕ → MacUeCtxt) (r : CsiReport) : ℕ → MacUeCtxt :=
  if r.crc = 0 then
    Function.update t (ueIndex r.rnti) ((t (ueIndex r.rnti)).csiPart1Crc true)
  else if r.crc = 1 then
    Function.update t (ueIndex r.rnti) ((t (ueIndex r.rnti)).csiPart1Crc false)
  else t

/-- The calls for the report of a PDU lead to the access of the report. -/
theorem ueAccesses_pdu (cs : List UeCall) :
    ueAccesses ch m (pMsg + s.initOffset) (uciPduCalls m pMsg s ++ cs) =
      (csiReport ch m pMsg s).map CsiReport.access ++ ueAccesses ch m (pMsg + s.initOffset) cs := by
  unfold uciPduCalls csiReport
  cases csiPart1At m (pMsg + s.initOffset) with
  | none => rfl
  | some addr =>
    simp only [ueReportCalls]
    split_ifs
    all_goals simp [ueAccesses, CsiReport.access, *]

theorem ueTable_append (cs cs' : List UeCall) (t : ℕ → MacUeCtxt) :
    ueTable (cs ++ cs') t = ueTable cs' (ueTable cs t) := by
  induction cs generalizing t with
  | nil => rfl
  | cons c cs ih =>
    cases c with
    | pdu addr => exact ih t
    | report cRnti handle addr => exact ih t
    | crc cRnti pass => exact ih _

/-- The calls for the report of a PDU count it. -/
theorem ueTable_pdu (t : ℕ → MacUeCtxt) :
    ueTable (uciPduCalls m pMsg s) t = (csiReport ch m pMsg s).foldl CsiReport.count t := by
  unfold uciPduCalls csiReport
  cases csiPart1At m (pMsg + s.initOffset) with
  | none => rfl
  | some addr =>
    simp only [ueReportCalls]
    split_ifs
    all_goals simp [ueTable, CsiReport.count, *]

theorem ueAccesses_walk : ueAccesses ch m pdu (uciWalk m pMsg numUcis s) =
    (csiReports ch m pMsg numUcis s).map CsiReport.access := by
  induction numUcis generalizing s pdu with
  | zero => rfl
  | succ numUcis ih =>
    rw [uciWalk, csiReports, List.cons_append, ueAccesses, ueAccesses_pdu, List.map_append]
    split_ifs
    · rw [ih]
    · rfl

theorem ueTable_walk (t : ℕ → MacUeCtxt) : ueTable (uciWalk m pMsg numUcis s) t =
    (csiReports ch m pMsg numUcis s).foldl CsiReport.count t := by
  induction numUcis generalizing s t with
  | zero => rfl
  | succ numUcis ih =>
    rw [uciWalk, csiReports, List.cons_append, ueTable, ueTable_append, ueTable_pdu,
      List.foldl_append]
    split_ifs
    · rw [ih]
    · rfl

end Reports

/-- The accesses of a run are those of its reports. -/
theorem accessesOf_eq (rs : List UciReceived) :
    accessesOf rs = (reportsOf rs).map CsiReport.access := by
  unfold accessesOf reportsOf
  rw [List.map_flatMap]
  refine List.flatMap_congr fun r _ => ?_
  rw [r.calls_eq, ueAccesses_walk]
  rfl

/-- The table after a run counts the reports of the run. -/
theorem tableOf_eq (rs : List UciReceived) :
    tableOf rs = (reportsOf rs).foldl CsiReport.count fun _ => ⟨0, 0⟩ := by
  unfold tableOf reportsOf
  generalize (fun _ : ℕ => (⟨0, 0⟩ : MacUeCtxt)) = t
  induction rs generalizing t with
  | nil => rfl
  | cons r rs ih =>
    rw [List.flatMap_cons, ueTable_append, ih, List.flatMap_cons, List.foldl_append, r.calls_eq,
      ueTable_walk]
    rfl

end TestMac
