import Mathlib.Order.Bounds.Basic
import TestMac.Rx.Period

/-!
# The PRACH counters

`macRachPduInHdlr` and `macPreambleInHdlr` step the numbers of samples and their sums. Of
the two extremes they keep, the maximum is only ever lowered, so that it is the least
sample, and the minimum is whichever sample was last taken for one.
-/

namespace TestMac

open Bytes Decoder Act

/-- The field `avgRssi` of the PDU that is handed to `macRachPduInHdlr`. -/
def RxCall.avgRssi (m : Mem) : RxCall → Option ℕ
  | .macRachPduInHdlr rachPduInfo _ => some (rd16 m (rachPduInfo + 2))
  | _ => none

/-- The field `TA` of the preamble that is handed to `macPreambleInHdlr`. -/
def RxCall.ta (m : Mem) : RxCall → Option ℕ
  | .macPreambleInHdlr preambleInfo _ _ => some (rd16 m (preambleInfo + 4))
  | _ => none

/-- What a cell is told of the PDUs of its PRACH indications. -/
def rssisHeard (fuel : ℕ) (ch : Channel) (ds : List Delivery) : List ℕ :=
  (heard ch ds).flatMap fun msg => (msg.calls fuel).filterMap (·.avgRssi msg.memory)

/-- What a cell is told of the preambles of its PRACH indications. -/
def tasHeard (fuel : ℕ) (ch : Channel) (ds : List Delivery) : List ℕ :=
  (heard ch ds).flatMap fun msg => (msg.calls fuel).filterMap (·.ta msg.memory)

/-- The value that `macRachPduInHdlr` works with. -/
def RxCall.rssiArg : RxCall → Option ℕ
  | .macRachPduInHdlr _ avgRssi => some avgRssi
  | _ => none

/-- The value that `macPreambleInHdlr` works with. -/
def RxCall.taArg : RxCall → Option ℕ
  | .macPreambleInHdlr _ _ ta => some ta
  | _ => none

variable {m : Mem} {w : World} {fuel pMsg : ℕ} {ch : Channel} {r r' : Receiver} {msg : PhyMsg}
  {ds : List Delivery} {rssis tas : List ℕ} {s : MacStatsRach}

/-- The handlers of PRACH work with the fields of what they are handed. -/
structure RxCall.TakesFields (m : Mem) (c : RxCall) : Prop where
  rssi : c.rssiArg = c.avgRssi m
  ta : c.taArg = c.ta m

/-- Outside PRACH indications neither of the two handlers is called. -/
theorem RxCall.takesFields_of_ne {c : RxCall} (h : c.msgId ≠ fapiPrachIndication) :
    c.TakesFields m := by
  cases c with
  | macRachPduInHdlr rachPduInfo avgRssi => exact absurd rfl h
  | macPreambleInHdlr preambleInfo preambleIndex ta => exact absurd rfl h
  | _ => exact ⟨rfl, rfl⟩

theorem takesFields_calls : ∀ c ∈ msg.calls fuel, c.TakesFields msg.memory := by
  intro c hc
  by_cases hid : msg.msgId = fapiPrachIndication
  · have hbody : fapiMsgBody fuel (rd32 msg.memory msg.l1MessageInput)
        (msg.l1MessageInput + sizeofL1GeneralMsgHdr) =
        some (rachIndicationProcDecHdlr fuel (msg.l1MessageInput + sizeofL1GeneralMsgHdr)) := by
      rw [← PhyMsg.msgId, hid]
      rfl
    rw [PhyMsg.calls, calls_fapiMsgDec_body hbody] at hc
    exact only_rachIndication (fun _ => ⟨rfl, rfl⟩) (fun _ _ => ⟨rfl, rfl⟩) c hc
  · apply RxCall.takesFields_of_ne
    rw [(only_fapiMsgDec c hc).msgId_eq]
    exact hid

/-- The samples are the values that the handlers of the cell worked with. -/
theorem rssisHeard_eq :
    rssisHeard fuel ch ds = (callsHeard fuel ch ds).filterMap RxCall.rssiArg := by
  rw [rssisHeard, callsHeard, List.filterMap_flatMap]
  apply List.flatMap_congr
  intro msg _
  exact List.filterMap_congr fun c hc => (takesFields_calls c hc).rssi.symm

theorem tasHeard_eq : tasHeard fuel ch ds = (callsHeard fuel ch ds).filterMap RxCall.taArg := by
  rw [tasHeard, callsHeard, List.filterMap_flatMap]
  apply List.flatMap_congr
  intro msg _
  exact List.filterMap_congr fun c hc => (takesFields_calls c hc).ta.symm

/-- What the two extremes of some samples come to. -/
def Lowered (xs : List ℕ) (max min : ℕ) : Prop :=
  xs ≠ [] → IsLeast {x | x ∈ xs} max ∧ min ∈ xs

/-- The counters after the samples. -/
structure MacStatsRach.Of (rssis tas : List ℕ) (s : MacStatsRach) : Prop where
  totalNumRssi : s.totalNumRssi = rssis.length % 4294967296
  totalNumTa : s.totalNumTa = tas.length % 4294967296
  rssiAvgPRACH : s.rssiAvgPRACH = rssis.sum % 65536
  rssi : rssis.length < 4294967296 → Lowered rssis s.rssiMaxPRACH s.rssiMinPRACH
  ta : tas.length < 4294967296 → Lowered tas s.taMaxPRACH s.taMinPRACH

/-- A further sample lowers the maximum, or leaves it. -/
theorem Lowered.concat {xs : List ℕ} {x max min min' : ℕ} (h : Lowered xs max min)
    (hne : xs ≠ []) (hmin : min' = x ∨ min' = min) :
    Lowered (xs ++ [x]) (if x < max then x else max) min' := by
  intro _
  obtain ⟨hleast, hmem⟩ := h hne
  constructor
  · have hset : {y | y ∈ xs ++ [x]} = insert x {y | y ∈ xs} := by
      ext y
      simp [or_comm]
    have hmax : (if x < max then x else max) = x ⊓ max := by
      split_ifs
      · omega
      · omega
    rw [hset, hmax]
    exact hleast.insert x
  · rcases hmin with rfl | rfl
    · simp
    · simp [hmem]

theorem MacStatsRach.of_dumped : macDumpCellUlInfo.rachStatsInfo.Of [] [] where
  totalNumRssi := rfl
  totalNumTa := rfl
  rssiAvgPRACH := rfl
  rssi _ := fun h => absurd rfl h
  ta _ := fun h => absurd rfl h

theorem mod_concat_length (xs : List ℕ) (x : ℕ) :
    (xs.length % 4294967296 + 1) % 4294967296 = (xs ++ [x]).length % 4294967296 := by
  rw [List.length_append, List.length_singleton]
  omega

section Next

variable {xs : List ℕ} {num max min min' : ℕ}

/-- While the number has not wrapped, it is 0 before the first sample. -/
theorem lowered_first (hnum : num = xs.length % 4294967296) (hfirst : num = 0) (x : ℕ)
    (hlen : (xs ++ [x]).length < 4294967296) : Lowered (xs ++ [x]) x x := by
  rw [List.length_append, List.length_singleton] at hlen
  rw [hnum, Nat.mod_eq_of_lt (by omega)] at hfirst
  rw [List.length_eq_zero_iff.mp hfirst]
  intro _
  constructor
  · simp [IsLeast, lowerBounds]
  · simp

/-- Before the later ones it is another. -/
theorem lowered_later (hnum : num = xs.length % 4294967296) (hfirst : num ≠ 0)
    (h : xs.length < 4294967296 → Lowered xs max min) (x : ℕ)
    (hmin : min' = x ∨ min' = min) (hlen : (xs ++ [x]).length < 4294967296) :
    Lowered (xs ++ [x]) (if x < max then x else max) min' := by
  rw [List.length_append, List.length_singleton] at hlen
  have hne : xs ≠ [] := by
    rintro rfl
    exact hfirst hnum
  exact (h (by omega)).concat hne hmin

end Next

/-- A PDU is counted. -/
theorem MacStatsRach.Of.rssi_concat (h : s.Of rssis tas) (rssi : ℕ) :
    (s.rssi rssi).Of (rssis ++ [rssi]) tas := by
  have hnum : (s.totalNumRssi + 1) % 4294967296 = (rssis ++ [rssi]).length % 4294967296 := by
    rw [h.totalNumRssi, mod_concat_length]
  have hsum : (s.rssiAvgPRACH + rssi) % 65536 = (rssis ++ [rssi]).sum % 65536 := by
    rw [h.rssiAvgPRACH, List.sum_append, List.sum_singleton]
    omega
  rw [MacStatsRach.rssi]
  by_cases hfirst : s.totalNumRssi = 0
  · rw [if_pos hfirst]
    exact ⟨hnum, h.totalNumTa, hsum, lowered_first h.totalNumRssi hfirst rssi, h.ta⟩
  · rw [if_neg hfirst]
    have hnext := lowered_later h.totalNumRssi hfirst h.rssi rssi
      (ite_eq_or_eq (s.taMaxPRACH < rssi) _ _)
    exact ⟨hnum, h.totalNumTa, hsum, hnext, h.ta⟩

/-- A preamble is counted. -/
theorem MacStatsRach.Of.ta_concat (h : s.Of rssis tas) (preambleIndex ta : ℕ) :
    (s.preamble preambleIndex ta).Of rssis (tas ++ [ta]) := by
  have hnum : (s.totalNumTa + 1) % 4294967296 = (tas ++ [ta]).length % 4294967296 := by
    rw [h.totalNumTa, mod_concat_length]
  rw [MacStatsRach.preamble]
  by_cases hfirst : s.totalNumTa = 0
  · rw [if_pos hfirst]
    exact ⟨h.totalNumRssi, hnum, h.rssiAvgPRACH, h.rssi, lowered_first h.totalNumTa hfirst ta⟩
  · rw [if_neg hfirst]
    have hnext := lowered_later h.totalNumTa hfirst h.ta ta
      (ite_eq_or_eq (s.taMaxPRACH < ta) _ _)
    exact ⟨h.totalNumRssi, hnum, h.rssiAvgPRACH, h.rssi, hnext⟩

/-- A call is counted. -/
theorem MacStatsRach.Of.count {ctx : MacCellCtx} (h : ctx.rachStatsInfo.Of rssis tas)
    (c : RxCall) :
    (c.count ctx).rachStatsInfo.Of (rssis ++ c.rssiArg.toList) (tas ++ c.taArg.toList) := by
  have hrssis : rssis ++ [] = rssis := List.append_nil rssis
  have htas : tas ++ [] = tas := List.append_nil tas
  cases c with
  | macRachPduInHdlr rachPduInfo avgRssi => exact htas.symm ▸ h.rssi_concat avgRssi
  | macPreambleInHdlr preambleInfo preambleIndex ta =>
    exact hrssis.symm ▸ h.ta_concat preambleIndex ta
  | _ => exact hrssis.symm ▸ htas.symm ▸ h

theorem filterMap_concat {α β : Type} (f : α → Option β) (xs : List α) (x : α) :
    (xs ++ [x]).filterMap f = xs.filterMap f ++ (f x).toList := by
  rw [List.filterMap_append]
  cases h : f x with
  | none => simp [h]
  | some y => simp [h]

/-- The PRACH counters after some calls. -/
theorem rachStats_tally (cs : List RxCall) :
    (tally cs macDumpCellUlInfo).rachStatsInfo.Of (cs.filterMap RxCall.rssiArg)
      (cs.filterMap RxCall.taArg) := by
  induction cs using List.reverseRecOn with
  | nil => exact MacStatsRach.of_dumped
  | append_singleton cs c ih =>
    rw [tally_concat, filterMap_concat, filterMap_concat]
    exact ih.count c

/-- The PRACH counters between two dumps. -/
theorem BetweenDumps.rachStats (h : BetweenDumps w fuel ch r ds r') :
    (r'.sMacCellCtx ch.devIndex ch.cellId).rachStatsInfo.Of (rssisHeard fuel ch ds)
      (tasHeard fuel ch ds) := by
  rw [h.sMacCellCtx_eq, rssisHeard_eq, tasHeard_eq]
  exact rachStats_tally _

/-- The extremes and the numbers of the samples, as they are to be. -/
structure MacStatsRach.Exact (rssis tas : List ℕ) (s : MacStatsRach) : Prop where
  totalNumRssi : s.totalNumRssi = rssis.length
  totalNumTa : s.totalNumTa = tas.length
  rssi : rssis ≠ [] →
    IsGreatest {x | x ∈ rssis} s.rssiMaxPRACH ∧ IsLeast {x | x ∈ rssis} s.rssiMinPRACH
  ta : tas ≠ [] → IsGreatest {x | x ∈ tas} s.taMaxPRACH ∧ IsLeast {x | x ∈ tas} s.taMinPRACH

/-- All samples have one value. -/
def Constant (xs : List ℕ) : Prop := ∀ x ∈ xs, ∀ y ∈ xs, x = y

/-- A least sample is the greatest one only when there is no other. -/
theorem Lowered.extremes_iff {xs : List ℕ} {max min : ℕ} (h : Lowered xs max min) :
    (xs ≠ [] → IsGreatest {x | x ∈ xs} max ∧ IsLeast {x | x ∈ xs} min) ↔ Constant xs := by
  constructor
  · intro hext x hx y hy
    have hne : xs ≠ [] := List.ne_nil_of_mem hx
    have hgreatest := (hext hne).1
    have hleast := (h hne).1
    have hall : ∀ z ∈ xs, z = max := fun z hz => le_antisymm (hgreatest.2 hz) (hleast.2 hz)
    rw [hall x hx, hall y hy]
  · intro hconst hne
    obtain ⟨hleast, hmin⟩ := h hne
    refine ⟨⟨hleast.1, ?_⟩, ⟨hmin, ?_⟩⟩
    · intro x hx
      exact (hconst x hx max hleast.1).le
    · intro x hx
      exact (hconst min hmin x hx).le

theorem MacStatsRach.Of.exact_iff (h : s.Of rssis tas) :
    s.Exact rssis tas ↔ (Constant rssis ∧ rssis.length < 4294967296) ∧
      Constant tas ∧ tas.length < 4294967296 := by
  constructor
  · rintro ⟨hnumRssi, hnumTa, hrssi, hta⟩
    rw [h.totalNumRssi] at hnumRssi
    rw [h.totalNumTa] at hnumTa
    have hlenRssi : rssis.length < 4294967296 := by omega
    have hlenTa : tas.length < 4294967296 := by omega
    exact ⟨⟨(h.rssi hlenRssi).extremes_iff.mp hrssi, hlenRssi⟩,
      (h.ta hlenTa).extremes_iff.mp hta, hlenTa⟩
  · rintro ⟨⟨hrssi, hlenRssi⟩, hta, hlenTa⟩
    constructor
    · rw [h.totalNumRssi, Nat.mod_eq_of_lt hlenRssi]
    · rw [h.totalNumTa, Nat.mod_eq_of_lt hlenTa]
    · exact (h.rssi hlenRssi).extremes_iff.mpr hrssi
    · exact (h.ta hlenTa).extremes_iff.mpr hta

/-- Between two dumps the extremes and the numbers are those of what the cell received
exactly when, of the values of the PDUs and of those of the preambles, no two differ, and
their numbers fit into 32 bits. -/
theorem rachStats_exact_iff (h : BetweenDumps w fuel ch r ds r') :
    (r'.sMacCellCtx ch.devIndex ch.cellId).rachStatsInfo.Exact (rssisHeard fuel ch ds)
        (tasHeard fuel ch ds) ↔
      (Constant (rssisHeard fuel ch ds) ∧ (rssisHeard fuel ch ds).length < 4294967296) ∧
        Constant (tasHeard fuel ch ds) ∧ (tasHeard fuel ch ds).length < 4294967296 :=
  h.rachStats.exact_iff

/-- A PRACH indication of one PDU without preambles. -/
def prachMsg (avgRssi : ℕ) : PhyMsg :=
  let header := (zeroMsg fapiPrachIndication).memory
  ⟨store (store header 1012 [1]) 1018 (leBytes 2 avgRssi), 1000⟩

/-- Two such indications for one cell. -/
def twoPdus (ch : Channel) (avgRssi avgRssi' : ℕ) : List Delivery :=
  [⟨ch, prachMsg avgRssi⟩, ⟨ch, prachMsg avgRssi'⟩]

theorem rachStats_exact_iff_same :
    ∃ r', (r'.sMacCellCtx 0 0).rachStatsInfo.Exact [7, 7] [] ∧
      BetweenDumps readyWorld 2 ⟨0, 0⟩ periodReceiver (twoPdus ⟨0, 0⟩ 7 7) r' := by
  obtain ⟨r', h⟩ := periodReceiver_betweenDumps 2 (twoPdus ⟨0, 0⟩ 7 7) (by decide +kernel)
    (by decide +kernel)
  have hrssis : rssisHeard 2 ⟨0, 0⟩ (twoPdus ⟨0, 0⟩ 7 7) = [7, 7] := by decide +kernel
  have htas : tasHeard 2 ⟨0, 0⟩ (twoPdus ⟨0, 0⟩ 7 7) = [] := by decide +kernel
  have hexact := (rachStats_exact_iff h).mpr
  rw [hrssis, htas] at hexact
  exact ⟨r', hexact (by simp [Constant]), h⟩

/-- Of the values 1 and 2 the maximum is 1. -/
theorem rssiMax_not_greatest :
    ∃ r', BetweenDumps readyWorld 2 ⟨0, 0⟩ periodReceiver (twoPdus ⟨0, 0⟩ 1 2) r' ∧
      rssisHeard 2 ⟨0, 0⟩ (twoPdus ⟨0, 0⟩ 1 2) = [1, 2] ∧
      tasHeard 2 ⟨0, 0⟩ (twoPdus ⟨0, 0⟩ 1 2) = [] ∧
      ¬ (r'.sMacCellCtx 0 0).rachStatsInfo.Exact [1, 2] [] := by
  obtain ⟨r', h⟩ := periodReceiver_betweenDumps 2 (twoPdus ⟨0, 0⟩ 1 2) (by decide +kernel)
    (by decide +kernel)
  have hrssis : rssisHeard 2 ⟨0, 0⟩ (twoPdus ⟨0, 0⟩ 1 2) = [1, 2] := by decide +kernel
  have htas : tasHeard 2 ⟨0, 0⟩ (twoPdus ⟨0, 0⟩ 1 2) = [] := by decide +kernel
  refine ⟨r', h, hrssis, htas, ?_⟩
  intro hexact
  have hstats := h.rachStats
  rw [hrssis, htas] at hstats
  have hconst := (hstats.exact_iff.mp hexact).1.1
  exact absurd (hconst 1 (by simp) 2 (by simp)) (by decide)

/-- The average that `macDumpCellUlInfo` prints. -/
def MacStatsRach.printedAvgRssi (s : MacStatsRach) : ℕ := s.rssiAvgPRACH / s.totalNumRssi

/-- Between two dumps, with at most 28 PDUs for each of 20000 slots, the accumulator holds
the sum of the values and the printed average is the integer part of their mean exactly
when the sum fits into 16 bits. -/
theorem rssiAvg_exact_iff (h : BetweenDumps w fuel ch r ds r')
    (hnum : (rssisHeard fuel ch ds).length ≤ 28 * 20000) :
    ((r'.sMacCellCtx ch.devIndex ch.cellId).rachStatsInfo.rssiAvgPRACH =
        (rssisHeard fuel ch ds).sum ∧
      (r'.sMacCellCtx ch.devIndex ch.cellId).rachStatsInfo.printedAvgRssi =
        (rssisHeard fuel ch ds).sum / (rssisHeard fuel ch ds).length) ↔
      (rssisHeard fuel ch ds).sum < 65536 := by
  have hstats := h.rachStats
  have hlen : (rssisHeard fuel ch ds).length % 4294967296 = (rssisHeard fuel ch ds).length :=
    Nat.mod_eq_of_lt (by omega)
  rw [MacStatsRach.printedAvgRssi, hstats.rssiAvgPRACH, hstats.totalNumRssi, hlen]
  constructor
  · rintro ⟨hsum, -⟩
    omega
  · intro hsum
    rw [Nat.mod_eq_of_lt hsum]
    exact ⟨rfl, rfl⟩

theorem rssiAvg_exact_iff_same :
    ∃ r', (r'.sMacCellCtx 0 0).rachStatsInfo.printedAvgRssi = 7 ∧
      BetweenDumps readyWorld 2 ⟨0, 0⟩ periodReceiver (twoPdus ⟨0, 0⟩ 7 7) r' := by
  obtain ⟨r', h⟩ := periodReceiver_betweenDumps 2 (twoPdus ⟨0, 0⟩ 7 7) (by decide +kernel)
    (by decide +kernel)
  have hrssis : rssisHeard 2 ⟨0, 0⟩ (twoPdus ⟨0, 0⟩ 7 7) = [7, 7] := by decide +kernel
  have havg := (rssiAvg_exact_iff h (by rw [hrssis]; decide)).mpr (by rw [hrssis]; decide)
  rw [hrssis] at havg
  exact ⟨r', havg.2, h⟩

/-- Of two values of 40000 the printed average is 7232. -/
theorem rssiAvg_wraps :
    ∃ r', BetweenDumps readyWorld 2 ⟨0, 0⟩ periodReceiver (twoPdus ⟨0, 0⟩ 40000 40000) r' ∧
      rssisHeard 2 ⟨0, 0⟩ (twoPdus ⟨0, 0⟩ 40000 40000) = [40000, 40000] ∧
      (r'.sMacCellCtx 0 0).rachStatsInfo.printedAvgRssi = 7232 ∧
      (40000 + 40000) / 2 ≠ 7232 := by
  obtain ⟨r', h⟩ := periodReceiver_betweenDumps 2 (twoPdus ⟨0, 0⟩ 40000 40000)
    (by decide +kernel) (by decide +kernel)
  have hrssis : rssisHeard 2 ⟨0, 0⟩ (twoPdus ⟨0, 0⟩ 40000 40000) = [40000, 40000] := by
    decide +kernel
  have hstats : (r'.sMacCellCtx 0 0).rachStatsInfo.Of [40000, 40000]
      (tasHeard 2 ⟨0, 0⟩ (twoPdus ⟨0, 0⟩ 40000 40000)) := hrssis ▸ h.rachStats
  refine ⟨r', h, hrssis, ?_, by decide⟩
  rw [MacStatsRach.printedAvgRssi, hstats.rssiAvgPRACH, hstats.totalNumRssi]
  rfl

end TestMac
