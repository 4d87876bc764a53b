import TestMac.Rx.Period

/-!
# The PUSCH counters

Every entry of a CRC indication is counted as a transport block that was received or one
that was not, and adds its timing advance, and for a received one its RSSI in dBm and its
SINR, to the sums of the cell. `macDumpCellUlInfo` prints the averages.
-/

namespace TestMac

open Bytes Decoder Act

/-- The fields of a `L1CrcInfo_t` that are counted. -/
structure CrcEntry where
  tbCrcStatus : ℕ
  ta : ℕ
  rssi : ℕ
  sinr : ℕ
  deriving DecidableEq

/-- The transport block was received. -/
def CrcEntry.passed (e : CrcEntry) : Bool := e.tbCrcStatus = 0

/-- The transport block was not received. -/
def CrcEntry.failed (e : CrcEntry) : Bool := e.tbCrcStatus = 1

/-- The RSSI in dBm, cut towards zero. -/
def CrcEntry.dBm (e : CrcEntry) : ℤ := ((e.rssi : ℤ) - 1280).tdiv 10

/-- The entry handed to `macCrcInHdlr`. -/
def RxCall.crcEntry (m : Mem) : RxCall → Option CrcEntry
  | .macCrcInHdlr crcInfo =>
    some ⟨rd8 m (crcInfo + 7), rd32 m (crcInfo + 8), rd16 m (crcInfo + 12), rd8 m (crcInfo + 15)⟩
  | _ => none

/-- The entries of the CRC indications that a cell hears, in their order. -/
def crcEntriesHeard (fuel : ℕ) (ch : Channel) (ds : List Delivery) : List CrcEntry :=
  (heard ch ds).flatMap fun msg => (msg.calls fuel).filterMap (·.crcEntry msg.memory)

/-- What the statistics are told of an entry. -/
def CrcEntry.told (e : CrcEntry) : Option RxCall :=
  if e.tbCrcStatus = 0 then some (.puschCrcPass e.ta e.rssi e.sinr)
  else if e.tbCrcStatus = 1 then some (.puschCrcFail e.ta)
  else none

/-- The calls that step the PUSCH counters. -/
def RxCall.pusch : RxCall → Option RxCall
  | .puschCrcPass ta rssi sinr => some (.puschCrcPass ta rssi sinr)
  | .puschCrcFail ta => some (.puschCrcFail ta)
  | _ => none

variable {m : Mem} {w : World} {fuel pMsg : ℕ} {ch : Channel} {r r' : Receiver} {msg : PhyMsg}
  {ds : List Delivery}

theorem calls_macCrcInHdlr (crcInfo : ℕ) :
    (macCrcInHdlr crcInfo).calls m = .macCrcInHdlr crcInfo ::
      (CrcEntry.told ⟨rd8 m (crcInfo + 7), rd32 m (crcInfo + 8), rd16 m (crcInfo + 12),
        rd8 m (crcInfo + 15)⟩).toList := by
  simp only [macCrcInHdlr, calls_bind, calls_call, result_call, calls_read, result_read, rd8, rd16,
    rd32, CrcEntry.told]
  by_cases hpass : leValue (slice m (crcInfo + 7) 1) = 0
  · simp [hpass, calls_bind]
  · by_cases hfail : leValue (slice m (crcInfo + 7) 1) = 1
    · simp [hfail, calls_bind]
    · simp [hpass, hfail]

/-- A decoder that comes to its end has told the statistics of every entry. -/
abbrev Told (m : Mem) {α : Type} (x : RxDec α) : Prop :=
  Mirrored (fun c => (c.crcEntry m).bind CrcEntry.told) RxCall.pusch m x

theorem told_macCrcInHdlr (crcInfo : ℕ) : Told m (macCrcInHdlr crcInfo) := by
  intro _
  rw [calls_macCrcInHdlr]
  by_cases hpass : rd8 m (crcInfo + 7) = 0
  · simp [CrcEntry.told, RxCall.crcEntry, hpass]
    rfl
  · by_cases hfail : rd8 m (crcInfo + 7) = 1
    · simp [CrcEntry.told, RxCall.crcEntry, hfail]
      rfl
    · simp [CrcEntry.told, RxCall.crcEntry, RxCall.pusch, hpass, hfail]

theorem told_crcIndication : Told m (crcIndicationProcDecHdlr fuel pMsg) := by
  refine Mirrored.bind (Mirrored.closed.read _ _) fun _ => Mirrored.bind ?_ fun _ =>
    Mirrored.closed.pure ()
  refine Closed.loop16 Mirrored.closed ?_ fun _ _ => ?_
  · exact Only.running.mirrored
  · exact Mirrored.bind (told_macCrcInHdlr _) fun _ => Mirrored.closed.pure _

/-- Calls that belong to no CRC indication. -/
theorem told_of_ne {c : RxCall} (h : c.msgId ≠ fapiCrcIndication) :
    (c.crcEntry m).bind CrcEntry.told = c.pusch := by
  cases c with
  | macCrcInHdlr crcInfo => exact absurd rfl h
  | puschCrcPass ta rssi sinr => exact absurd rfl h
  | puschCrcFail ta => exact absurd rfl h
  | _ => rfl

theorem told_fapiMsgDec (m : Mem) (fuel l1MessageInput : ℕ) :
    Told m (fapiMsgDec fuel l1MessageInput) := by
  by_cases hid : rd32 m l1MessageInput = fapiCrcIndication
  · have hbody : fapiMsgBody fuel (rd32 m l1MessageInput)
        (l1MessageInput + sizeofL1GeneralMsgHdr) =
        some (crcIndicationProcDecHdlr fuel (l1MessageInput + sizeofL1GeneralMsgHdr)) := by
      rw [hid]
      rfl
    intro hret
    rw [calls_fapiMsgDec_body hbody]
    exact told_crcIndication (returned_fapiMsgDec_body hbody hret)
  · refine Only.mirrored (only_fapiMsgDec.mono ?_)
    intro c hc
    apply told_of_ne
    rw [hc.msgId_eq]
    exact hid

/-- The statistics are told of the entries that were heard. -/
theorem pusch_callsHeard (h : ∀ msg ∈ heard ch ds, msg.Returned fuel) :
    (callsHeard fuel ch ds).filterMap RxCall.pusch =
      (crcEntriesHeard fuel ch ds).filterMap CrcEntry.told := by
  rw [callsHeard, crcEntriesHeard]
  generalize heard ch ds = msgs at h ⊢
  induction msgs with
  | nil => rfl
  | cons msg msgs ih =>
    have htold := told_fapiMsgDec msg.memory fuel msg.l1MessageInput (h msg List.mem_cons_self)
    rw [← PhyMsg.calls] at htold
    rw [List.flatMap_cons, List.flatMap_cons, List.filterMap_append, List.filterMap_append,
      ih fun msg' hmsg' => h msg' (List.mem_cons_of_mem msg hmsg'), List.filterMap_filterMap, htold]

/-- What a call does to the PUSCH counters. -/
def RxCall.puschStep : RxCall → MacStatsPusch → MacStatsPusch
  | .puschCrcPass ta rssi sinr, s => s.crcPass ta rssi sinr
  | .puschCrcFail ta, s => s.crcFail ta
  | _, s => s

/-- `macCrcInHdlr`, on the statistics. -/
def CrcEntry.count (e : CrcEntry) (s : MacStatsPusch) : MacStatsPusch :=
  if e.tbCrcStatus = 0 then s.crcPass e.ta e.rssi e.sinr
  else if e.tbCrcStatus = 1 then s.crcFail e.ta
  else s

theorem puschStatsInfo_count (c : RxCall) (ctx : MacCellCtx) :
    (c.count ctx).puschStatsInfo = c.puschStep ctx.puschStatsInfo := by
  cases c <;> rfl

/-- The statistics after some calls depend on the calls that tell them of entries. -/
theorem puschStats_tally {cs : List RxCall} {es : List CrcEntry} {ctx : MacCellCtx}
    (h : cs.filterMap RxCall.pusch = es.filterMap CrcEntry.told) :
    (tally cs ctx).puschStatsInfo = es.foldl (fun s e => e.count s) ctx.puschStatsInfo := by
  have hcalls : (tally cs ctx).puschStatsInfo =
      (cs.filterMap RxCall.pusch).foldl (fun s c => c.puschStep s) ctx.puschStatsInfo := by
    clear h
    induction cs generalizing ctx with
    | nil => rfl
    | cons c cs ih =>
      rw [tally, List.foldl_cons, ← tally, ih, puschStatsInfo_count]
      cases c <;> rfl
  rw [hcalls, h, List.foldl_filterMap]
  congr 1
  funext s e
  simp only [CrcEntry.told, CrcEntry.count]
  split_ifs <;> rfl

/-- The entries that count as received, and those that count as not received. -/
def passes (es : List CrcEntry) : List CrcEntry := es.filter CrcEntry.passed

def fails (es : List CrcEntry) : List CrcEntry := es.filter CrcEntry.failed

/-- The numbers and sums of some entries, cut to the width of their counters. -/
structure MacStatsPusch.Of (es : List CrcEntry) (s : MacStatsPusch) : Prop where
  pass : s.numPuschCrcPass = ((passes es).length : ℤ).bmod 4294967296
  fail : s.numPuschCrcFail = ((fails es).length : ℤ).bmod 4294967296
  ta : s.sumTaPUSCH = (((passes es).map CrcEntry.ta).sum : ℤ).bmod 4294967296
  failTa : s.sumFailTaPUSCH = (((fails es).map CrcEntry.ta).sum : ℤ).bmod 4294967296
  rssi : s.sumRssiPUSCH = ((passes es).map CrcEntry.dBm).sum.bmod 4294967296
  snr : s.sumSnrPUSCH = ((passes es).map CrcEntry.sinr).sum % 4294967296

theorem MacStatsPusch.Of.count {es : List CrcEntry} {s : MacStatsPusch} (h : s.Of es)
    (e : CrcEntry) : (e.count s).Of (es ++ [e]) := by
  obtain ⟨hpass, hfail, hta, hfailTa, hrssi, hsnr⟩ := h
  by_cases hp : e.tbCrcStatus = 0
  · constructor <;>
      simp [CrcEntry.count, MacStatsPusch.crcPass, addInt32, passes, fails, CrcEntry.passed,
        CrcEntry.failed, CrcEntry.dBm, List.filter_append, *]
  · by_cases hf : e.tbCrcStatus = 1
    · constructor <;>
        simp [CrcEntry.count, MacStatsPusch.crcFail, addInt32, passes, fails, CrcEntry.passed,
          CrcEntry.failed, List.filter_append, *]
    · constructor <;>
        simp [CrcEntry.count, passes, fails, CrcEntry.passed, CrcEntry.failed,
          List.filter_append, *]

theorem MacStatsPusch.of_entries (es : List CrcEntry) :
    (es.foldl (fun s e => e.count s) macDumpCellUlInfo.puschStatsInfo).Of es := by
  induction es using List.reverseRecOn with
  | nil => constructor <;> rfl
  | append_singleton es e ih =>
    rw [List.foldl_append]
    exact ih.count e

theorem BetweenDumps.puschStats (h : BetweenDumps w fuel ch r ds r') :
    (r'.sMacCellCtx ch.devIndex ch.cellId).puschStatsInfo.Of (crcEntriesHeard fuel ch ds) := by
  rw [h.sMacCellCtx_eq, puschStats_tally (pusch_callsHeard h.returned)]
  exact MacStatsPusch.of_entries _

/-- The counters are the numbers and sums of the entries. -/
structure MacStatsPusch.Exact (es : List CrcEntry) (s : MacStatsPusch) : Prop where
  pass : s.numPuschCrcPass = (passes es).length
  fail : s.numPuschCrcFail = (fails es).length
  ta : s.sumTaPUSCH = ((passes es).map CrcEntry.ta).sum
  failTa : s.sumFailTaPUSCH = ((fails es).map CrcEntry.ta).sum
  rssi : s.sumRssiPUSCH = ((passes es).map CrcEntry.dBm).sum
  snr : s.sumSnrPUSCH = ((passes es).map CrcEntry.sinr).sum

/-- The numbers and sums fit the widths of their counters. -/
structure PuschFits (es : List CrcEntry) : Prop where
  pass : (passes es).length < 2147483648
  fail : (fails es).length < 2147483648
  ta : ((passes es).map CrcEntry.ta).sum < 2147483648
  failTa : ((fails es).map CrcEntry.ta).sum < 2147483648
  rssi : -2147483648 ≤ ((passes es).map CrcEntry.dBm).sum ∧
    ((passes es).map CrcEntry.dBm).sum < 2147483648
  snr : ((passes es).map CrcEntry.sinr).sum < 4294967296

theorem bmod_eq_self_iff {x : ℤ} :
    x.bmod 4294967296 = x ↔ -2147483648 ≤ x ∧ x < 2147483648 := by
  rw [Int.bmod_eq_iff (by decide)]
  simp

theorem MacStatsPusch.Of.exact_iff {es : List CrcEntry} {s : MacStatsPusch} (h : s.Of es) :
    s.Exact es ↔ PuschFits es := by
  have hcut : ∀ {k : ℕ}, (k : ℤ).bmod 4294967296 = k ↔ k < 2147483648 := by
    intro k
    rw [bmod_eq_self_iff]
    omega
  constructor
  · intro hexact
    exact
      { pass := hcut.mp (h.pass.symm.trans hexact.pass)
        fail := hcut.mp (h.fail.symm.trans hexact.fail)
        ta := hcut.mp (h.ta.symm.trans hexact.ta)
        failTa := hcut.mp (h.failTa.symm.trans hexact.failTa)
        rssi := bmod_eq_self_iff.mp (h.rssi.symm.trans hexact.rssi)
        snr := by
          have hsnr := h.snr.symm.trans hexact.snr
          omega }
  · intro hfits
    exact
      { pass := h.pass.trans (hcut.mpr hfits.pass)
        fail := h.fail.trans (hcut.mpr hfits.fail)
        ta := h.ta.trans (hcut.mpr hfits.ta)
        failTa := h.failTa.trans (hcut.mpr hfits.failTa)
        rssi := h.rssi.trans (bmod_eq_self_iff.mpr hfits.rssi)
        snr := h.snr.trans (Nat.mod_eq_of_lt hfits.snr) }

/-- The averages that `macDumpCellUlInfo` prints for the received transport blocks. -/
structure PuschNotice where
  ta : ℤ
  rssi : ℤ
  snr : ℤ

/-- The line of `macDumpCellUlInfo` for the received transport blocks. The SNR is
computed without a sign and printed with one. -/
def MacStatsPusch.notice (s : MacStatsPusch) : Option PuschNotice :=
  if s.numPuschCrcPass ≠ 0 then
    some
      { ta := s.sumTaPUSCH.tdiv s.numPuschCrcPass
        rssi := s.sumRssiPUSCH.tdiv s.numPuschCrcPass
        snr := ((s.sumSnrPUSCH / (s.numPuschCrcPass % 4294967296).toNat / 2 : ℕ) - 64 : ℤ).bmod
          4294967296 }
  else none

/-- The line for those that were not received. -/
def MacStatsPusch.failNotice (s : MacStatsPusch) : Option ℤ :=
  if s.numPuschCrcFail ≠ 0 then some (s.sumFailTaPUSCH.tdiv s.numPuschCrcFail) else none

/-- What is cut off when every value is divided by ten. -/
theorem sum_tdiv_bound (xs : List ℤ) :
    xs.sum - 9 * xs.length ≤ 10 * (xs.map fun x => x.tdiv 10).sum ∧
      10 * (xs.map fun x => x.tdiv 10).sum ≤ xs.sum + 9 * xs.length := by
  induction xs with
  | nil => simp
  | cons x xs ih =>
    simp only [List.sum_cons, List.map_cons, List.length_cons, Nat.cast_add, Nat.cast_one]
    rcases Int.le_total 0 x with hx | hx
    · rw [Int.tdiv_eq_ediv_of_nonneg hx]
      omega
    · obtain ⟨y, rfl⟩ : ∃ y : ℤ, x = -y := ⟨-x, by omega⟩
      rw [Int.neg_tdiv, Int.tdiv_eq_ediv_of_nonneg (by omega)]
      omega

/-- A quotient that is cut towards zero, multiplied again. -/
theorem mul_tdiv_bound (x : ℤ) {n : ℕ} (hn : 0 < n) :
    x - n < n * x.tdiv n ∧ n * x.tdiv n < x + n := by
  have hsplit := Int.mul_tdiv_add_tmod x n
  have hlt := Int.tmod_lt_of_pos x (show (0 : ℤ) < n by omega)
  have hgt := Int.lt_tmod_of_pos x (show (0 : ℤ) < n by omega)
  omega

/-- Between two dumps the PUSCH counters are the numbers of the received and of the other
transport blocks, and the sums of their values, exactly when these fit the counters. Then
the averages printed are the integer parts of the mean timing advances and, halved and
shifted, of the mean SINR, and the RSSI printed is less than 1.9 dB away from the mean. -/
theorem puschDump_exact_iff (h : BetweenDumps w fuel ch r ds r') :
    ((r'.sMacCellCtx ch.devIndex ch.cellId).puschStatsInfo.Exact (crcEntriesHeard fuel ch ds) ↔
      PuschFits (crcEntriesHeard fuel ch ds)) ∧
    (PuschFits (crcEntriesHeard fuel ch ds) →
      (fails (crcEntriesHeard fuel ch ds) ≠ [] →
        (r'.sMacCellCtx ch.devIndex ch.cellId).puschStatsInfo.failNotice =
          some ((((fails (crcEntriesHeard fuel ch ds)).map CrcEntry.ta).sum /
            (fails (crcEntriesHeard fuel ch ds)).length : ℕ) : ℤ)) ∧
      (passes (crcEntriesHeard fuel ch ds) ≠ [] →
        ∃ notice, (r'.sMacCellCtx ch.devIndex ch.cellId).puschStatsInfo.notice = some notice ∧
          notice.ta = (((passes (crcEntriesHeard fuel ch ds)).map CrcEntry.ta).sum /
            (passes (crcEntriesHeard fuel ch ds)).length : ℕ) ∧
          notice.snr = (((passes (crcEntriesHeard fuel ch ds)).map CrcEntry.sinr).sum /
            (passes (crcEntriesHeard fuel ch ds)).length / 2 : ℕ) - 64 ∧
          10 * ((passes (crcEntriesHeard fuel ch ds)).length * notice.rssi) <
            ((passes (crcEntriesHeard fuel ch ds)).map fun e => (e.rssi : ℤ) - 1280).sum +
              19 * (passes (crcEntriesHeard fuel ch ds)).length ∧
          ((passes (crcEntriesHeard fuel ch ds)).map fun e => (e.rssi : ℤ) - 1280).sum <
            10 * ((passes (crcEntriesHeard fuel ch ds)).length * notice.rssi) +
              19 * (passes (crcEntriesHeard fuel ch ds)).length)) := by
  refine ⟨h.puschStats.exact_iff, fun hfits => ?_⟩
  have hexact := h.puschStats.exact_iff.mpr hfits
  generalize (r'.sMacCellCtx ch.devIndex ch.cellId).puschStatsInfo = s at hexact ⊢
  generalize crcEntriesHeard fuel ch ds = es at hfits hexact ⊢
  constructor
  · intro hne
    have hlen : (fails es).length ≠ 0 := by simpa using hne
    have hnum : s.numPuschCrcFail ≠ 0 := by rw [hexact.fail]; omega
    rw [MacStatsPusch.failNotice, if_pos hnum, hexact.fail, hexact.failTa,
      ← Int.ofNat_tdiv]
  · intro hne
    have hlen : 0 < (passes es).length := List.length_pos_of_ne_nil hne
    have hnum : s.numPuschCrcPass ≠ 0 := by rw [hexact.pass]; omega
    refine ⟨_, by rw [MacStatsPusch.notice, if_pos hnum], ?_, ?_, ?_⟩
    · rw [hexact.ta, hexact.pass, ← Int.ofNat_tdiv]
    · have hpass : (s.numPuschCrcPass % 4294967296).toNat = (passes es).length := by
        have := hfits.pass
        rw [hexact.pass]
        omega
      have hsnr : ((passes es).map CrcEntry.sinr).sum / (passes es).length / 2 < 2147483648 := by
        have := hfits.snr
        have hle := Nat.div_le_self ((passes es).map CrcEntry.sinr).sum (passes es).length
        omega
      dsimp only
      rw [hpass, hexact.snr, bmod_eq_self_iff]
      generalize ((passes es).map CrcEntry.sinr).sum / (passes es).length = mean at hsnr ⊢
      omega
    · have hcut := sum_tdiv_bound ((passes es).map fun e => (e.rssi : ℤ) - 1280)
      have hmean := mul_tdiv_bound s.sumRssiPUSCH hlen
      rw [List.map_map, List.length_map] at hcut
      have hdBm : (passes es).map ((fun x => x.tdiv 10) ∘ fun e => (e.rssi : ℤ) - 1280) =
          (passes es).map CrcEntry.dBm := rfl
      rw [hdBm, ← hexact.rssi] at hcut
      dsimp only
      rw [hexact.pass]
      omega

/-- A CRC indication of one entry. -/
def crcMsg (tbCrcStatus ta rssi sinr : ℕ) : PhyMsg :=
  let header := store (zeroMsg fapiCrcIndication).memory 1012 [1]
  ⟨store (store (store header 1023 (leBytes 1 tbCrcStatus)) 1024 (leBytes 4 ta)) 1028
    (leBytes 2 rssi ++ leBytes 1 0 ++ leBytes 1 sinr), 1000⟩

/-- Two blocks received and one that was not. -/
def threeBlocks (ch : Channel) : List Delivery :=
  [⟨ch, crcMsg 0 5 1283 200⟩, ⟨ch, crcMsg 1 9 0 0⟩, ⟨ch, crcMsg 0 8 407 204⟩]

/-- The RSSI values are 0.3 and -87.3 dBm, the one printed is -43 dBm. -/
theorem puschDump_exact_three :
    ∃ r' notice, BetweenDumps readyWorld 2 ⟨0, 0⟩ periodReceiver (threeBlocks ⟨0, 0⟩) r' ∧
      (r'.sMacCellCtx 0 0).puschStatsInfo.notice = some notice ∧ notice.ta = 6 ∧
      notice.snr = 37 ∧ 10 * (2 * notice.rssi) < -870 + 38 := by
  obtain ⟨r', h⟩ := periodReceiver_betweenDumps 2 (threeBlocks ⟨0, 0⟩) (by decide +kernel)
    (by decide +kernel)
  have hes : crcEntriesHeard 2 ⟨0, 0⟩ (threeBlocks ⟨0, 0⟩) =
      [⟨0, 5, 1283, 200⟩, ⟨1, 9, 0, 0⟩, ⟨0, 8, 407, 204⟩] := by decide +kernel
  have hprinted := (puschDump_exact_iff h).2
  rw [hes] at hprinted
  obtain ⟨-, hnotice⟩ := hprinted ⟨by decide, by decide, by decide, by decide, by decide, by decide⟩
  obtain ⟨notice, heq, hta, hsnr, hrssi, -⟩ := hnotice (by decide)
  exact ⟨r', notice, h, heq, hta, hsnr, hrssi⟩

end TestMac
