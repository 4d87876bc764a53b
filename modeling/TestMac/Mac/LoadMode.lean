import TestMac.Mac.TxTwice
import TestMac.Mac.Generator

/-!
# The TLVs of a TX_DATA request in load mode

The value of a TLV with tag 2 says where its data lies in `Predefine_Data_Buf`. The
offset that `pcxxDataAlloc` finds is written over it. A request is left as it was
configured when the driver finds for every TLV the offset that stands in it.
-/

namespace TestMac

open Bytes Act

/-- `L1DataTLV_t`. -/
structure L1DataTLV where
  tag : ℕ
  length : ℕ
  value : ℕ
  deriving DecidableEq

/-- The TLV at an address. -/
def tlvAt (row : Mem) (tlv : ℕ) : L1DataTLV :=
  ⟨rd16 row tlv, rd32 row (tlv + 4), rd32 row (tlv + 8)⟩

/-- The TLVs of one PDU. -/
def tlvsAt (row : Mem) : ℕ → ℕ → List L1DataTLV
  | 0, _ => []
  | numTLV + 1, tlv => tlvAt row tlv :: tlvsAt row numTLV (tlv + sizeofL1DataTLV)

/-- The TLVs of the PDUs that a row announces. -/
def pduTLVs (row : Mem) (base : ℕ) : ℕ → ℕ → List L1DataTLV
  | 0, _ => []
  | numPDUs + 1, offset =>
    let numTLV := rd32 row (base + offset + 8)
    tlvsAt row numTLV (base + offset + 12) ++
      pduTLVs row base numPDUs (offset + 12 + sizeofL1DataTLV * numTLV)

/-- The TLVs of a TX_DATA request with its body at `base`. -/
def txTLVs (row : Mem) (base : ℕ) : List L1DataTLV :=
  pduTLVs row base (rd16 row (base + 4)) offsetofPdus

/-- The TLVs that data is sent for, each with the number of the call that finds its offset. -/
def dataCalls (calls : ℕ) (tlvs : List L1DataTLV) : List (L1DataTLV × ℕ) :=
  (tlvs.filter fun tlv => tlv.tag = 2).zipIdx calls

/-- The data sent for TLVs that say where it lies in a buffer. -/
def configuredData (env : Env) (buf : Mem) (calls : ℕ) (tlvs : List L1DataTLV) : List CellEvent :=
  (dataCalls calls tlvs).filterMap fun tc =>
    (env.pcxxDataAlloc tc.2).map fun dest => .dataSent dest (slice buf tc.1.value tc.1.length)

/-- The driver finds room for every TLV at the offset that stands in it, or no room. -/
def AllocsConfigured (env : Env) (calls : ℕ) (tlvs : List L1DataTLV) : Prop :=
  ∀ tc ∈ dataCalls calls tlvs, ∀ dest, env.pcxxDataAlloc tc.2 = some dest →
    dest % 4294967296 = tc.1.value

variable {src : PayloadSource} {row row' : Mem} {env : Env} {buf : Mem} {t : L1DataTLV}
  {tlvs tlvs' : List L1DataTLV} {base numPDUs numTLV offset tlv calls : ℕ}

theorem tlvAt_congr (h : ∀ a, tlv ≤ a → a < tlv + 12 → row a = row' a) :
    tlvAt row tlv = tlvAt row' tlv := by
  have htag : rd16 row tlv = rd16 row' tlv := rd16_congr fun a ha ha' => h a ha (by omega)
  have hlength : rd32 row (tlv + 4) = rd32 row' (tlv + 4) :=
    rd32_congr fun a ha ha' => h a (by omega) (by omega)
  have hvalue : rd32 row (tlv + 8) = rd32 row' (tlv + 8) :=
    rd32_congr fun a ha ha' => h a (by omega) (by omega)
  rw [tlvAt, tlvAt, htag, hlength, hvalue]

theorem tlvsAt_congr (h : ∀ a, tlv ≤ a → a < tlv + sizeofL1DataTLV * numTLV → row a = row' a) :
    tlvsAt row numTLV tlv = tlvsAt row' numTLV tlv := by
  have hsize : sizeofL1DataTLV = 12 := rfl
  induction numTLV generalizing tlv with
  | zero => rfl
  | succ numTLV ih =>
    rw [Nat.mul_succ] at h
    rw [tlvsAt, tlvsAt, tlvAt_congr fun a ha ha' => h a ha (by omega),
      ih fun a ha ha' => h a (by omega) (by omega)]

/-- The TLVs of the PDUs depend on the row from the first of the PDUs on. -/
theorem pduTLVs_congr (h : ∀ a, base + offset ≤ a → row a = row' a) :
    pduTLVs row base numPDUs offset = pduTLVs row' base numPDUs offset := by
  induction numPDUs generalizing offset with
  | zero => rfl
  | succ numPDUs ih =>
    have hnum : rd32 row (base + offset + 8) = rd32 row' (base + offset + 8) := by
      exact rd32_congr fun a ha _ => h a (by omega)
    rw [pduTLVs, pduTLVs]
    simp only [hnum]
    rw [tlvsAt_congr fun a ha _ => h a (by omega), ih fun a ha => h a (by omega)]

theorem dataCalls_append : dataCalls calls (tlvs ++ tlvs') = dataCalls calls tlvs ++
    dataCalls (calls + (tlvs.filter fun tlv => tlv.tag = 2).length) tlvs' := by
  rw [dataCalls, List.filter_append, List.zipIdx_append]
  rfl

theorem dataCalls_data (h : t.tag = 2) :
    dataCalls calls (t :: tlvs) = (t, calls) :: dataCalls (calls + 1) tlvs := by
  rw [dataCalls, List.filter_cons_of_pos (by simpa using h), List.zipIdx_cons]
  rfl

theorem dataCalls_other (h : t.tag ≠ 2) : dataCalls calls (t :: tlvs) = dataCalls calls tlvs := by
  rw [dataCalls, List.filter_cons_of_neg (by simpa using h)]
  rfl

theorem configuredData_append : configuredData env buf calls (tlvs ++ tlvs') =
    configuredData env buf calls tlvs ++
      configuredData env buf (calls + (tlvs.filter fun tlv => tlv.tag = 2).length) tlvs' := by
  rw [configuredData, dataCalls_append, List.filterMap_append]
  rfl

theorem allocsConfigured_append : AllocsConfigured env calls (tlvs ++ tlvs') ↔
    AllocsConfigured env calls tlvs ∧
      AllocsConfigured env (calls + (tlvs.filter fun tlv => tlv.tag = 2).length) tlvs' := by
  rw [AllocsConfigured, dataCalls_append]
  exact List.forall_mem_append

/-- A number written over itself leaves a memory as it is. -/
theorem wr32_self {m : Mem} {a v : ℕ} (h : v % 4294967296 = rd32 m a) : wr32 m a v = m := by
  have hvalue : leValue (leBytes 4 v) = leValue (slice m a 4) := (leValue_leBytes 4 v).trans h
  have hbytes : leBytes 4 v = slice m a 4 := by
    rw [← leBytes_leValue (leBytes_length 4 v), hvalue, leBytes_leValue (slice_length m a 4)]
  have hslice : slice (wr32 m a v) a 4 = slice m a 4 := (slice_wr32 m a v).trans hbytes
  funext i
  by_cases hi : a ≤ i ∧ i < a + 4
  · exact slice_eq_iff.mp hslice i hi.1 hi.2
  · rw [wr32, store_of_not_mem (by rw [leBytes_length]; omega)]

/-- The buffer that data is taken from in load mode. -/
def PayloadSource.dataBuf (src : PayloadSource) : Mem :=
  src.env.predefineDataBuf (sfnWindow src.gL2TxGSfn.SFN) src.gL2TxGSfn.Slot

theorem payload_loadMode (hload : src.pdschMode = .loadMode) (size offset : ℕ) :
    src.payload size offset = slice src.dataBuf offset size := by
  rw [PayloadSource.payload, hload]
  rfl

/-- A TLV that is given the offset that stands in it. -/
theorem fillTLV_kept (hload : src.pdschMode = .loadMode)
    (halloc : AllocsConfigured src.env calls [tlvAt row tlv]) :
    (fillTLV src row tlv calls).row = row ∧
    (fillTLV src row tlv calls).events = configuredData src.env src.dataBuf calls [tlvAt row tlv] ∧
    (fillTLV src row tlv calls).calls =
      calls + ([tlvAt row tlv].filter fun tlv => tlv.tag = 2).length := by
  by_cases htag : rd16 row tlv = 2
  · have hdata : (tlvAt row tlv).tag = 2 := htag
    rw [fillTLV, if_pos htag, configuredData, dataCalls_data hdata,
      List.filter_cons_of_pos (by simpa using hdata)]
    rw [AllocsConfigured, dataCalls_data hdata] at halloc
    cases hdest : src.env.pcxxDataAlloc calls with
    | none =>
      refine ⟨wr32_self (Nat.mod_eq_of_lt (rd32_lt _ _)), ?_, rfl⟩
      simp [dataCalls, hdest]
    | some dest =>
      refine ⟨wr32_self (halloc _ List.mem_cons_self dest hdest), ?_, rfl⟩
      rw [payload_loadMode hload]
      simp [dataCalls, hdest, tlvAt]
  · have hother : (tlvAt row tlv).tag ≠ 2 := htag
    rw [fillTLV, if_neg htag, configuredData, dataCalls_other hother,
      List.filter_cons_of_neg (by simpa using hother)]
    exact ⟨rfl, rfl, rfl⟩

/-- The TLVs of a PDU that are given the offsets that stand in them. -/
theorem walkTLVs_kept (hload : src.pdschMode = .loadMode)
    (halloc : AllocsConfigured src.env calls (tlvsAt row numTLV tlv)) :
    (walkTLVs src numTLV tlv row calls).row = row ∧
    (walkTLVs src numTLV tlv row calls).events =
      configuredData src.env src.dataBuf calls (tlvsAt row numTLV tlv) ∧
    (walkTLVs src numTLV tlv row calls).calls =
      calls + ((tlvsAt row numTLV tlv).filter fun tlv => tlv.tag = 2).length := by
  induction numTLV generalizing tlv calls with
  | zero => exact ⟨rfl, rfl, rfl⟩
  | succ numTLV ih =>
    rw [tlvsAt, ← List.singleton_append] at halloc ⊢
    obtain ⟨hfirst, hothers⟩ := allocsConfigured_append.mp halloc
    obtain ⟨hrow, hevents, hcalls⟩ := fillTLV_kept hload hfirst
    obtain ⟨hrow', hevents', hcalls'⟩ := ih hothers
    simp only [walkTLVs, hrow, hevents, hcalls, hrow', hevents', hcalls', configuredData_append,
      List.filter_append, List.length_append, Nat.add_assoc, and_self]

/-- A request whose TLVs are given the offsets that stand in them sends the data configured,
and has the same TLVs afterwards. -/
theorem walkPdus_kept (hload : src.pdschMode = .loadMode)
    (h : pduEnd row base numPDUs offset < 4294967296)
    (halloc : AllocsConfigured src.env calls (pduTLVs row base numPDUs offset)) :
    (walkPdus src base numPDUs offset row calls).2.events =
      configuredData src.env src.dataBuf calls (pduTLVs row base numPDUs offset) ∧
    pduTLVs (walkPdus src base numPDUs offset row calls).2.row base numPDUs offset =
      pduTLVs row base numPDUs offset := by
  induction numPDUs generalizing offset row calls with
  | zero => exact ⟨rfl, rfl⟩
  | succ numPDUs ih =>
    obtain ⟨row₁, next, walk, hnext, hwalk, hrow₁, hend, hbehind, hlast, hevents, -⟩ :=
      walkPdus_step src calls h
    have hrest : pduTLVs row base numPDUs next = pduTLVs row₁ base numPDUs next :=
      pduTLVs_congr fun a ha => (hbehind a ha).symm
    have hsplit : pduTLVs row base (numPDUs + 1) offset =
        tlvsAt row (rd32 row (base + offset + 8)) (base + offset + 12) ++
          pduTLVs row₁ base numPDUs next := by
      rw [← hrest, hnext]
      rfl
    rw [hsplit] at halloc ⊢
    obtain ⟨hpdu, hothers⟩ := allocsConfigured_append.mp halloc
    obtain ⟨hrow, hsent, hcalls⟩ := walkTLVs_kept hload hpdu
    rw [← hwalk] at hrow hsent hcalls
    rw [← hcalls] at hothers
    obtain ⟨hsent', hkept⟩ := ih hend hothers
    constructor
    · rw [hevents, hsent, hsent', configuredData_append, hcalls]
    · -- within the PDU only its length has changed
      have hbefore : ∀ a, a < base + next →
          (walkPdus src base numPDUs next row₁ walk.calls).2.row a = row₁ a :=
        (walkPdus_spec hend).2.1
      have hsame : ∀ a, base + offset + 4 ≤ a → a < base + next →
          (walkPdus src base numPDUs next row₁ walk.calls).2.row a = row a := by
        intro a ha ha'
        rw [hbefore a ha', hrow₁, wr32, store_of_not_mem (by rw [leBytes_length]; omega), hrow]
      have hnum : rd32 (walkPdus src base numPDUs next row₁ walk.calls).2.row (base + offset + 8) =
          rd32 row (base + offset + 8) :=
        rd32_congr fun a ha ha' => hsame a (by omega) (by omega)
      rw [hlast, pduTLVs]
      simp only [hnum]
      rw [← hnext, hkept, tlvsAt_congr fun a ha ha' => hsame a (by omega) (by omega)]

end TestMac
