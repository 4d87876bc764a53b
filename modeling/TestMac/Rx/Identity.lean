import TestMac.Rx.UeTable

/-!
# The identity that a section is reported with

A PDU on the PUCCH is decoded with its own RNTI and handle, a PDU on the PUSCH with those of
the last PDU on the PUCCH before it, or with zeros. Every section of CSI part 1 is reported
with the identity of its own PDU, whatever comes before, exactly when the two are the same
for every PDU on the PUSCH that has such a section.
-/

namespace TestMac

open Bytes Decoder

/-- The RNTI and the handle in a PDU. -/
def ownIdentity (m : Mem) (pdu : ℕ) : ℕ × ℕ := (rd16 m (pdu + 8), rd32 m (pdu + 4))

/-- The calls for a PDU that is decoded with its own identity. They depend on this PDU only. -/
def ownPduCalls (m : Mem) (pdu : ℕ) : List UeCall :=
  match csiPart1At m pdu with
  | none => []
  | some addr => ueReportCalls m (ownIdentity m pdu).1 (ownIdentity m pdu).2 addr

/-- The PDUs that the loop comes to, up to the first one that the decoder does not accept. -/
def reachedPdus (m : Mem) (pMsg : ℕ) : ℕ → UciLoop → List ℕ
  | 0, _ => []
  | numUcis + 1, s =>
    (pMsg + s.initOffset) ::
      if (uciInfo pMsg s m).2.returned = true then reachedPdus m pMsg numUcis (s.next m pMsg)
      else []

def UciReceived.pdus (r : UciReceived) : List ℕ :=
  reachedPdus r.memory r.pMsg (rd16 r.memory (r.pMsg + 4)) ⟨offsetofPdus, 0, 0⟩

/-- Every PDU that is reached is reported with its own identity. -/
def UciReceived.ReportsOwn (r : UciReceived) : Prop :=
  r.calls = r.pdus.flatMap fun pdu => .pdu pdu :: ownPduCalls r.memory pdu

/-- The identity left by some PDUs: that of the last one on the PUCCH with format 2, 3 or 4. -/
def carriedIdentity (m : Mem) (first : ℕ × ℕ) (before : List ℕ) : ℕ × ℕ :=
  (((before.filter fun pdu => rd16 m pdu = 2).getLast?).map (ownIdentity m)).getD first

/-- Every PDU on the PUSCH with CSI part 1 has the identity that the PDUs before it leave. -/
def CarriesOwn (m : Mem) (first : ℕ × ℕ) (pdus : List ℕ) : Prop :=
  ∀ before pdu after, pdus = before ++ pdu :: after → rd16 m pdu = 0 →
    (csiPart1At m pdu).isSome = true → carriedIdentity m first before = ownIdentity m pdu

variable {m : Mem} {pMsg numUcis pdu : ℕ} {s : UciLoop} {first : ℕ × ℕ} {pdus : List ℕ}

section Carried

theorem carriedIdentity_cons (before : List ℕ) : carriedIdentity m first (pdu :: before) =
    carriedIdentity m (if rd16 m pdu = 2 then ownIdentity m pdu else first) before := by
  unfold carriedIdentity
  by_cases h : rd16 m pdu = 2
  · rw [List.filter_cons_of_pos (by simpa using h), List.getLast?_cons, if_pos h]
    cases (before.filter fun pdu => rd16 m pdu = 2).getLast? <;> rfl
  · rw [List.filter_cons_of_neg (by simpa using h), if_neg h]

theorem carriesOwn_nil : CarriesOwn m first [] := by
  intro before pdu after h
  simp at h

/-- The first PDU, and the ones behind it. -/
theorem carriesOwn_cons : CarriesOwn m first (pdu :: pdus) ↔
    (rd16 m pdu = 0 → (csiPart1At m pdu).isSome = true → first = ownIdentity m pdu) ∧
      CarriesOwn m (if rd16 m pdu = 2 then ownIdentity m pdu else first) pdus := by
  constructor
  · intro h
    constructor
    · exact h [] pdu pdus rfl
    · intro before pdu' after hsplit
      rw [← carriedIdentity_cons]
      exact h (pdu :: before) pdu' after (by rw [hsplit, List.cons_append])
  · rintro ⟨hfirst, hrest⟩ before pdu' after hsplit
    cases before with
    | nil =>
      obtain ⟨rfl, rfl⟩ := List.cons.inj hsplit
      exact hfirst
    | cons b before =>
      obtain ⟨rfl, htail⟩ := List.cons.inj hsplit
      rw [carriedIdentity_cons]
      exact hrest before pdu' after htail

end Carried

/-- The identity in force at a PDU. -/
def UciLoop.identity (s : UciLoop) : ℕ × ℕ := (s.RNTI, s.Handle)

theorem next_identity : (s.next m pMsg).identity =
    if rd16 m (pMsg + s.initOffset) = 2 then ownIdentity m (pMsg + s.initOffset)
    else s.identity := by
  simp only [UciLoop.next, UciLoop.identity, ownIdentity]
  split_ifs <;> rfl

theorem csiPart1At_type (h : (csiPart1At m pdu).isSome = true) :
    rd16 m pdu = 0 ∨ rd16 m pdu = 2 := by
  by_contra hneither
  rw [not_or] at hneither
  rw [csiPart1At, if_neg hneither.1, if_neg hneither.2] at h
  exact absurd h (by decide)

/-- A report shows the identity it is made with. -/
theorem ueReportCalls_append_inj (id id' : ℕ × ℕ) {addr : ℕ} {cs cs' : List UeCall} :
    ueReportCalls m id.1 id.2 addr ++ cs = ueReportCalls m id'.1 id'.2 addr ++ cs' ↔
      id = id' ∧ cs = cs' := by
  constructor
  · intro h
    obtain ⟨hrnti, hhandle, -⟩ := UeCall.report.inj (List.cons.inj h).1
    have hid : id = id' := Prod.ext hrnti hhandle
    rw [hid] at h
    exact ⟨hid, List.append_cancel_left h⟩
  · rintro ⟨rfl, rfl⟩
    rfl

/-- A PDU is reported with its own identity when it brings it along, has nothing to report, or
finds it in force. -/
theorem uciPduCalls_append_inj {cs cs' : List UeCall} :
    uciPduCalls m pMsg s ++ cs = ownPduCalls m (pMsg + s.initOffset) ++ cs' ↔
      (rd16 m (pMsg + s.initOffset) = 0 → (csiPart1At m (pMsg + s.initOffset)).isSome = true →
        s.identity = ownIdentity m (pMsg + s.initOffset)) ∧ cs = cs' := by
  unfold uciPduCalls ownPduCalls
  cases hat : csiPart1At m (pMsg + s.initOffset) with
  | none => simp
  | some addr =>
    have hsome : (csiPart1At m (pMsg + s.initOffset)).isSome = true := by rw [hat]; rfl
    refine Iff.trans (ueReportCalls_append_inj (s.next m pMsg).identity _) ?_
    rw [next_identity]
    rcases csiPart1At_type hsome with h₀ | h₂
    · simp [h₀]
    · simp [h₂]

/-- The PDUs are reported with their own identities exactly when each finds it in force. -/
theorem uciWalk_own_iff : uciWalk m pMsg numUcis s =
      ((reachedPdus m pMsg numUcis s).flatMap fun pdu => .pdu pdu :: ownPduCalls m pdu) ↔
    CarriesOwn m s.identity (reachedPdus m pMsg numUcis s) := by
  induction numUcis generalizing s with
  | zero => simp [uciWalk, reachedPdus, carriesOwn_nil]
  | succ numUcis ih =>
    rw [uciWalk, reachedPdus, List.flatMap_cons, List.cons_append, List.cons_append,
      List.cons_inj_right, uciPduCalls_append_inj, carriesOwn_cons, ← next_identity]
    by_cases hreturned : (uciInfo pMsg s m).2.returned = true
    · rw [if_pos hreturned, if_pos hreturned, ih]
    · rw [if_neg hreturned, if_neg hreturned]
      simp [carriesOwn_nil]

/-- Every section of CSI part 1 of an indication is reported with the identity of its own PDU,
and nothing else, exactly when every PDU on the PUSCH with such a section has the identity of
the last PDU on the PUCCH with format 2, 3 or 4 before it, or zeros when there is none. -/
theorem reports_own_iff (r : UciReceived) :
    r.ReportsOwn ↔ CarriesOwn r.memory (0, 0) r.pdus := by
  rw [UciReceived.ReportsOwn, r.calls_eq]
  exact uciWalk_own_iff

deriving instance DecidableEq for UeCall

/-- An indication with one PDU on the PUSCH, of the UE with RNTI 5 and handle 0, that reports
CSI part 1. -/
def puschReport : UciReceived :=
  ⟨⟨0, 0⟩, store (fun _ => 0) 1000
    [0, 0, 0, 0, 1, 0, 0, 0, 0, 0, 56, 0, 0, 0, 0, 0, 5, 0, 0, 0, 0, 0, 0, 0, 4], 1000⟩

/-- The section is reported with the RNTI 0. -/
theorem puschReport_not_own : puschReport.calls =
      [.pdu 1008, .report 0 0 1028, .crc 0 true] ∧
    ownIdentity puschReport.memory 1008 = (5, 0) ∧ ¬ puschReport.ReportsOwn := by
  refine ⟨by decide +kernel, by decide +kernel, ?_⟩
  unfold UciReceived.ReportsOwn
  decide +kernel

end TestMac
