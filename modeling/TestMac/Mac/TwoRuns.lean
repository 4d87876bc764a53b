import TestMac.Lib.Together
import TestMac.Mac.SameRows

/-!
# Two runs of a cell in step

Two cells whose tables agree are given the same slot indications, with a driver that
answers the same from their current calls on. They send the same requests, and their
tables agree afterwards.
-/

namespace TestMac

open Bytes Act

variable {env env₁ env₂ : Env} {n b : ℕ}

section Walks

variable {src src₁ src₂ : PayloadSource} {row row₁ row₂ : Mem}
  {base numPDUs numTLV offset tlv calls calls₁ calls₂ : ℕ}

/-- The driver finds the same offsets for data, from two numbers of calls on. -/
def SameData (src₁ src₂ : PayloadSource) (calls₁ calls₂ : ℕ) : Prop :=
  ∀ k, src₁.env.pcxxDataAlloc (calls₁ + k) = src₂.env.pcxxDataAlloc (calls₂ + k)

theorem SameData.add (h : SameData src₁ src₂ calls₁ calls₂) (k : ℕ) :
    SameData src₁ src₂ (calls₁ + k) (calls₂ + k) := by
  intro l
  rw [Nat.add_assoc, Nat.add_assoc]
  exact h (k + l)

/-- Two walks make the same number of calls, copy the same bytes, and leave rows that agree
up to `b`. -/
structure SameWalk (b calls₁ calls₂ : ℕ) (walk₁ walk₂ : TxWalk) : Prop where
  row : ∀ a < b, walk₁.row a = walk₂.row a
  calls : ∃ k, walk₁.calls = calls₁ + k ∧ walk₂.calls = calls₂ + k
  copied : walk₁.copied = walk₂.copied

theorem sameWalk_fillTLV (hdata : SameData src₁ src₂ calls₁ calls₂)
    (hrow : ∀ a < b, row₁ a = row₂ a) (hb : tlv + 12 ≤ b) :
    SameWalk b calls₁ calls₂ (fillTLV src₁ row₁ tlv calls₁) (fillTLV src₂ row₂ tlv calls₂) := by
  have htag : rd16 row₁ tlv = rd16 row₂ tlv := rd16_congr fun a _ ha => hrow a (by omega)
  have hvalue : rd32 row₁ (tlv + 8) = rd32 row₂ (tlv + 8) :=
    rd32_congr fun a _ ha => hrow a (by omega)
  have hdest : src₁.env.pcxxDataAlloc calls₁ = src₂.env.pcxxDataAlloc calls₂ := hdata 0
  rw [fillTLV, fillTLV, htag, hvalue, hdest]
  by_cases htwo : rd16 row₂ tlv = 2
  · rw [if_pos htwo, if_pos htwo]
    cases src₂.env.pcxxDataAlloc calls₂ with
    | none => exact ⟨fun a ha => store_congr (hrow a ha), ⟨1, rfl, rfl⟩, rfl⟩
    | some dest => exact ⟨fun a ha => store_congr (hrow a ha), ⟨1, rfl, rfl⟩, rfl⟩
  · rw [if_neg htwo, if_neg htwo]
    exact ⟨hrow, ⟨0, rfl, rfl⟩, rfl⟩

theorem sameWalk_walkTLVs (hdata : SameData src₁ src₂ calls₁ calls₂)
    (hrow : ∀ a < b, row₁ a = row₂ a) (hb : tlv + sizeofL1DataTLV * numTLV ≤ b) :
    SameWalk b calls₁ calls₂ (walkTLVs src₁ numTLV tlv row₁ calls₁)
      (walkTLVs src₂ numTLV tlv row₂ calls₂) := by
  have hsize : sizeofL1DataTLV = 12 := rfl
  induction numTLV generalizing tlv row₁ row₂ calls₁ calls₂ with
  | zero => exact ⟨hrow, ⟨0, rfl, rfl⟩, rfl⟩
  | succ numTLV ih =>
    rw [Nat.mul_succ] at hb
    have hfilled := sameWalk_fillTLV hdata hrow (by omega : tlv + 12 ≤ b)
    obtain ⟨k, hk₁, hk₂⟩ := hfilled.calls
    have hdata' : SameData src₁ src₂ (fillTLV src₁ row₁ tlv calls₁).calls
        (fillTLV src₂ row₂ tlv calls₂).calls := by
      rw [hk₁, hk₂]
      exact hdata.add k
    have hrest := ih hdata' hfilled.row (by omega : tlv + sizeofL1DataTLV + _ ≤ b)
    obtain ⟨l, hl₁, hl₂⟩ := hrest.calls
    refine ⟨hrest.row, ⟨k + l, ?_, ?_⟩, ?_⟩
    · rw [← Nat.add_assoc, ← hk₁]
      exact hl₁
    · rw [← Nat.add_assoc, ← hk₂]
      exact hl₂
    · have hslice : slice (fillTLV src₁ row₁ tlv calls₁).row tlv sizeofL1DataTLV =
          slice (fillTLV src₂ row₂ tlv calls₂).row tlv sizeofL1DataTLV :=
        slice_eq_iff.mpr fun a _ ha => hfilled.row a (by omega)
      exact congrArg₂ (· ++ ·) hslice hrest.copied

/-- Rows that agree up to the end of the PDUs are walked in the same way. -/
theorem sameWalk_walkPdus (hdata : SameData src₁ src₂ calls₁ calls₂)
    (hrow : ∀ a < b, row₁ a = row₂ a) (hb : base + pduEnd row₁ base numPDUs offset ≤ b)
    (hlt : pduEnd row₁ base numPDUs offset < 4294967296) :
    (walkPdus src₁ base numPDUs offset row₁ calls₁).1 =
        (walkPdus src₂ base numPDUs offset row₂ calls₂).1 ∧
      SameWalk b calls₁ calls₂ (walkPdus src₁ base numPDUs offset row₁ calls₁).2
        (walkPdus src₂ base numPDUs offset row₂ calls₂).2 := by
  have hsize : sizeofL1DataTLV = 12 := rfl
  induction numPDUs generalizing offset row₁ row₂ calls₁ calls₂ with
  | zero => exact ⟨rfl, hrow, ⟨0, rfl, rfl⟩, rfl⟩
  | succ numPDUs ih =>
    set pdu := base + offset with hpdu
    set numTLV := rd32 row₁ (pdu + 8) with hnumTLV
    have hle : offset + 12 + sizeofL1DataTLV * numTLV ≤ pduEnd row₁ base (numPDUs + 1) offset :=
      le_pduEnd
    have hnum : rd32 row₂ (pdu + 8) = numTLV := rd32_congr fun a _ ha => (hrow a (by omega)).symm
    have hnext : (offset + 12 + sizeofL1DataTLV * numTLV) % 4294967296 =
      offset + 12 + sizeofL1DataTLV * numTLV := Nat.mod_eq_of_lt (by omega)
    set next := offset + 12 + sizeofL1DataTLV * numTLV with hnextdef
    have htlvs := sameWalk_walkTLVs hdata hrow (by omega : pdu + 12 + sizeofL1DataTLV * numTLV ≤ b)
    set tlvs₁ := walkTLVs src₁ numTLV (pdu + 12) row₁ calls₁ with htlvs₁
    set tlvs₂ := walkTLVs src₂ numTLV (pdu + 12) row₂ calls₂ with htlvs₂
    obtain ⟨k, hk₁, hk₂⟩ := htlvs.calls
    have hdata' : SameData src₁ src₂ tlvs₁.calls tlvs₂.calls := by
      rw [hk₁, hk₂]
      exact hdata.add k
    -- the length of the PDU is written in front of its TLVs
    have hend : pduEnd (wr32 tlvs₁.row pdu (sub32 next offset)) base numPDUs next =
        pduEnd row₁ base numPDUs next := by
      apply pduEnd_congr
      intro a ha
      rw [wr32, store_of_not_mem (by rw [leBytes_length]; omega), htlvs₁, walkTLVs_row (by omega)]
    have hpduEnd : pduEnd row₁ base (numPDUs + 1) offset = pduEnd row₁ base numPDUs next := rfl
    have hrow' : ∀ a < b, wr32 tlvs₁.row pdu (sub32 next offset) a =
        wr32 tlvs₂.row pdu (sub32 next offset) a := fun a ha => store_congr (htlvs.row a ha)
    have hb' :
        base + pduEnd (wr32 tlvs₁.row pdu (sub32 next offset)) base numPDUs next ≤ b := by omega
    have hlt' : pduEnd (wr32 tlvs₁.row pdu (sub32 next offset)) base numPDUs next < 4294967296 := by
      omega
    obtain ⟨hoff, hrest⟩ := ih hdata' hrow' hb' hlt'
    obtain ⟨l, hl₁, hl₂⟩ := hrest.calls
    have hhead : slice tlvs₁.row pdu 12 = slice tlvs₂.row pdu 12 :=
      slice_eq_iff.mpr fun a _ ha => htlvs.row a (by omega)
    rw [walkPdus, walkPdus]
    simp only [← hpdu, ← hnumTLV, hnum, ← hnextdef, hnext, ← htlvs₁, ← htlvs₂]
    refine ⟨hoff, hrest.row, ⟨k + l, ?_, ?_⟩, ?_⟩
    · rw [← Nat.add_assoc, ← hk₁]
      exact hl₁
    · rw [← Nat.add_assoc, ← hk₂]
      exact hl₂
    · exact congrArg₂ (· ++ ·) (congrArg₂ (· ++ ·) hhead htlvs.copied) hrest.copied

end Walks

/-- The settings are the same, and the driver answers the same, from two numbers of calls
on. -/
structure SameSide (env₁ env₂ : Env) (calls₁ calls₂ : ℕ) : Prop where
  enable : env₁.macTxEnable = env₂.macTxEnable
  start : ∀ k, env₁.pcxxSendStart (calls₁ + k) = env₂.pcxxSendStart (calls₂ + k)
  ctrlAlloc : ∀ k, env₁.pcxxCtrlAlloc (calls₁ + k) = env₂.pcxxCtrlAlloc (calls₂ + k)
  ctrlSend : ∀ k, env₁.pcxxCtrlSend (calls₁ + k) = env₂.pcxxCtrlSend (calls₂ + k)
  dataAlloc : ∀ k, env₁.pcxxDataAlloc (calls₁ + k) = env₂.pcxxDataAlloc (calls₂ + k)

/-- Two cells in generator mode are in the same state. -/
structure SameControl (ctx₁ ctx₂ : MacContent) : Prop where
  generator₁ : ctx₁.runMode = .fapiGenerator
  generator₂ : ctx₂.runMode = .fapiGenerator
  state : ctx₁.state = ctx₂.state
  schState : ctx₁.schState = ctx₂.schState
  runttiPerTc : ctx₁.runttiPerTc = ctx₂.runttiPerTc

/-- Two cells in step: their clocks are related by `K`, and they have sent the same
requests since two logs. -/
structure Paired (env₁ env₂ : Env) (n : ℕ) (log₁ log₂ : List CellEvent)
    (K : SlotClock → SlotClock → Prop) (c₁ c₂ : Cell) : Prop where
  control : SameControl c₁.ctx c₂.ctx
  clock : K c₁.clock c₂.clock
  side : SameSide env₁ env₂ c₁.calls c₂.calls
  rows : SameRows n c₁.tables c₂.tables
  log : ∃ ms, requests c₁.log = requests log₁ ++ ms ∧ requests c₂.log = requests log₂ ++ ms

/-- Memory for a message has been taken. -/
structure SameMsg (c₁ c₂ : Cell) : Prop where
  start₁ : c₁.phyCtrlMsgCtxt.curMsgLen = 0
  start₂ : c₂.phyCtrlMsgCtxt.curMsgLen = 0
  room : c₁.phyCtrlMsgCtxt.maxRemLen = c₂.phyCtrlMsgCtxt.maxRemLen

theorem SameSide.add {calls₁ calls₂ : ℕ} (h : SameSide env₁ env₂ calls₁ calls₂) (k : ℕ) :
    SameSide env₁ env₂ (calls₁ + k) (calls₂ + k) := by
  constructor
  · exact h.enable
  all_goals
    intro l
    rw [Nat.add_assoc, Nat.add_assoc]
  · exact h.start (k + l)
  · exact h.ctrlAlloc (k + l)
  · exact h.ctrlSend (k + l)
  · exact h.dataAlloc (k + l)

section Senders

variable {log₁ log₂ : List CellEvent} {K : SlotClock → SlotClock → Prop} {c₁ c₂ : Cell}

theorem Paired.called (h : Paired env₁ env₂ n log₁ log₂ K c₁ c₂) :
    Paired env₁ env₂ n log₁ log₂ K c₁.called c₂.called :=
  ⟨h.control, h.clock, h.side.add 1, h.rows, h.log⟩

/-- A clock that is changed in both cells. -/
theorem Paired.withClock {K' : SlotClock → SlotClock → Prop} {clock₁ clock₂ : SlotClock}
    (h : Paired env₁ env₂ n log₁ log₂ K c₁ c₂) (hclock : K' clock₁ clock₂) :
    Paired env₁ env₂ n log₁ log₂ K' { c₁ with clock := clock₁ } { c₂ with clock := clock₂ } :=
  ⟨h.control, hclock, h.side, h.rows, h.log⟩

/-- Tables that are changed in both cells, and still agree. -/
theorem Paired.withTables {t₁ t₂ : TcTables} (h : Paired env₁ env₂ n log₁ log₂ K c₁ c₂)
    (hrows : SameRows n t₁ t₂) :
    Paired env₁ env₂ n log₁ log₂ K { c₁ with tables := t₁ } { c₂ with tables := t₂ } :=
  ⟨h.control, h.clock, h.side, hrows, h.log⟩

theorem together_pcxx {α β : Type} {answer₁ : ℕ → α} {answer₂ : ℕ → β}
    {R : α → Cell → β → Cell → Prop} :
    Together (pcxx answer₁) (pcxx answer₂) c₁ c₂ R ↔
      R (answer₁ c₁.calls) c₁.called (answer₂ c₂.calls) c₂.called :=
  together_pure (s := c₁.called) (t := c₂.called)

/-- A row is found in step. -/
theorem together_rowAt_bind {α β : Type} {i j : ℕ} {x : ℕ → CellM α} {y : ℕ → CellM β}
    {R : α → Cell → β → Cell → Prop} :
    Together (rowAt i j >>= x) (rowAt i j >>= y) c₁ c₂ R ↔
      Together (x (rowIndex i j)) (y (rowIndex i j)) (c₁.used [.row i j]) (c₂.used [.row i j]) R :=
  Iff.rfl

theorem Paired.used (h : Paired env₁ env₂ n log₁ log₂ K c₁ c₂) (us : List TableUse) :
    Paired env₁ env₂ n log₁ log₂ K (c₁.used us) (c₂.used us) :=
  ⟨h.control, h.clock, h.side, h.rows, h.log⟩

/-- Memory for a message is taken in step. -/
theorem Paired.alloc (h : Paired env₁ env₂ n log₁ log₂ K c₁ c₂) (size : ℕ) :
    Together (allocL1CtrlMsgMem env₁ size) (allocL1CtrlMsgMem env₂ size) c₁ c₂ fun _ d₁ _ d₂ =>
      Paired env₁ env₂ n log₁ log₂ K d₁ d₂ ∧ SameMsg d₁ d₂ := by
  have hroom : env₁.pcxxCtrlAlloc c₁.calls = env₂.pcxxCtrlAlloc c₂.calls := h.side.ctrlAlloc 0
  refine Together.of_finishes (fun Q => finishes_allocL1CtrlMsgMem.trans and_assoc.symm)
    (fun Q => finishes_allocL1CtrlMsgMem.trans and_assoc.symm) ?_ ?_
  · rw [hroom]
  · intro _ _
    refine ⟨⟨h.control, h.clock, h.side.add 1, h.rows, h.log⟩, rfl, rfl, ?_⟩
    rw [hroom]
    rfl

/-- A message is appended in step, when the bytes that are sent of it are the same. -/
theorem Paired.append (h : Paired env₁ env₂ n log₁ log₂ K c₁ c₂) (hmsg : SameMsg c₁ c₂)
    {msgId msgSize sfn slot msgType : ℕ} {body₁ body₂ : List UInt8}
    (hbytes :
      (l1Message msgId msgSize body₁).take ((msgSize + sizeofL1GeneralMsgHdr) % 4294967296) =
      (l1Message msgId msgSize body₂).take ((msgSize + sizeofL1GeneralMsgHdr) % 4294967296)) :
    Together (appendL1Msg env₁ msgId msgSize body₁ sfn slot msgType)
      (appendL1Msg env₂ msgId msgSize body₂ sfn slot msgType) c₁ c₂ fun _ d₁ _ d₂ =>
        Paired env₁ env₂ n log₁ log₂ K d₁ d₂ := by
  have hwith₁ : c₁.lenWith ((msgSize + sizeofL1GeneralMsgHdr) % 4294967296) =
      (msgSize + sizeofL1GeneralMsgHdr) % 4294967296 := by
    rw [Cell.lenWith, hmsg.start₁, Nat.zero_add, Nat.mod_mod]
  have hwith₂ : c₂.lenWith ((msgSize + sizeofL1GeneralMsgHdr) % 4294967296) =
      (msgSize + sizeofL1GeneralMsgHdr) % 4294967296 := by
    rw [Cell.lenWith, hmsg.start₂, Nat.zero_add, Nat.mod_mod]
  have hsend : env₁.pcxxCtrlSend c₁.calls = env₂.pcxxCtrlSend c₂.calls := h.side.ctrlSend 0
  have hform : ∀ (env : Env) (c : Cell) (bytes : List UInt8) (Q : Unit → Cell → Prop),
      Finishes (appendL1MsgToList env msgId bytes ((msgSize + sizeofL1GeneralMsgHdr) % 4294967296)
        sfn slot msgType) c Q ↔
      (sfn < 1024 ∧ slot < 160 ∧ msgType < 254 ∧
        c.lenWith ((msgSize + sizeofL1GeneralMsgHdr) % 4294967296) < c.phyCtrlMsgCtxt.maxRemLen) ∧
      Q () (c.appended (env.pcxxCtrlSend c.calls) msgId bytes
        ((msgSize + sizeofL1GeneralMsgHdr) % 4294967296)) := by
    intro env c bytes Q
    rw [finishes_appendL1MsgToList, and_assoc, and_assoc, and_assoc]
  refine Together.of_finishes (hform env₁ c₁ _) (hform env₂ c₂ _) ?_ ?_
  · rw [hwith₁, hwith₂, hmsg.room]
  · intro _ _
    obtain ⟨ms, hlog₁, hlog₂⟩ := h.log
    refine ⟨h.control, h.clock, h.side.add 1, h.rows, ?_⟩
    simp only [Cell.appended, hwith₁, hwith₂, hsend, hbytes]
    by_cases haccepted : env₂.pcxxCtrlSend c₂.calls = true
    · rw [if_pos haccepted, if_pos haccepted, requests_append, requests_append, hlog₁, hlog₂,
        List.append_assoc, List.append_assoc]
      exact ⟨_, rfl, rfl⟩
    · rw [if_neg haccepted, if_neg haccepted]
      exact ⟨ms, hlog₁, hlog₂⟩

/-- The header of a group is sent in step. -/
theorem Paired.header (h : Paired env₁ env₂ n log₁ log₂ K c₁ c₂) :
    Together (setL1CtrlMsgGrpHeader env₁) (setL1CtrlMsgGrpHeader env₂) c₁ c₂ fun _ d₁ _ d₂ =>
      Paired env₁ env₂ n log₁ log₂ K d₁ d₂ := by
  have hroom : env₁.pcxxCtrlAlloc c₁.calls = env₂.pcxxCtrlAlloc c₂.calls := h.side.ctrlAlloc 0
  refine Together.of_finishes (fun Q => finishes_setL1CtrlMsgGrpHeader.trans and_assoc.symm)
    (fun Q => finishes_setL1CtrlMsgGrpHeader.trans and_assoc.symm) ?_ ?_
  · rw [hroom]
  · intro _ _
    exact ⟨h.control, h.clock, h.side.add 2, h.rows, h.log⟩

/-- A group is sent in step when its messages are. -/
theorem Paired.l1MsgProc (h : Paired env₁ env₂ n log₁ log₂ K c₁ c₂) {body₁ body₂ : CellM Unit}
    (hbody : ∀ d₁ d₂, Paired env₁ env₂ n log₁ log₂ K d₁ d₂ →
      Together body₁ body₂ d₁ d₂ fun _ e₁ _ e₂ => Paired env₁ env₂ n log₁ log₂ K e₁ e₂) :
    Together (l1MsgProc env₁ body₁) (l1MsgProc env₂ body₂) c₁ c₂ fun _ d₁ _ d₂ =>
      Paired env₁ env₂ n log₁ log₂ K d₁ d₂ := by
  have hstart : env₁.pcxxSendStart c₁.calls = env₂.pcxxSendStart c₂.calls := h.side.start 0
  rw [TestMac.l1MsgProc, TestMac.l1MsgProc]
  refine Together.bind (R := fun a d₁ b d₂ => a = b ∧ Paired env₁ env₂ n log₁ log₂ K d₁ d₂)
    (together_pcxx.mpr ⟨hstart, h.called⟩) ?_
  rintro started d₁ _ d₂ ⟨rfl, hd⟩
  refine Together.when Iff.rfl ?_ fun _ _ => hd
  intro _ _
  refine hd.header.bind ?_
  intro _ e₁ _ e₂ he
  refine (hbody e₁ e₂ he).bind ?_
  intro _ f₁ _ f₂ hf
  refine Together.bind (R := fun _ d₁ _ d₂ => Paired env₁ env₂ n log₁ log₂ K d₁ d₂)
    (together_pcxx.mpr hf.called) ?_
  intro _ g₁ _ g₂ hg
  exact together_pure.mpr hg

/-- A request without a body is sent in step. -/
theorem Paired.sendHeaderOnly (h : Paired env₁ env₂ n log₁ log₂ K c₁ c₂) (msgId msgType : ℕ) :
    Together (sendHeaderOnly env₁ msgId msgType) (sendHeaderOnly env₂ msgId msgType) c₁ c₂
      fun _ d₁ _ d₂ => Paired env₁ env₂ n log₁ log₂ K d₁ d₂ := by
  refine h.l1MsgProc ?_
  intro d₁ d₂ hd
  refine (hd.alloc _).bind ?_
  rintro _ e₁ _ e₂ ⟨he, hmsg⟩
  exact he.append hmsg rfl

/-- What is sent of a row depends on the row up to its size. -/
theorem take_l1Message_congr {msgId msgSize size : ℕ} {row₁ row₂ : Mem}
    (hrow : ∀ a < size, row₁ a = row₂ a) :
    (l1Message msgId msgSize (slice row₁ 8 size)).take size =
      (l1Message msgId msgSize (slice row₂ 8 size)).take size := by
  have htake : ∀ row : Mem,
      (slice row 8 size).take (size - 8) = slice row 8 (size - 8) := fun row =>
    slice_drop_take row 8 size 0 (size - 8) (by omega)
  have hslice : slice row₁ 8 (size - 8) = slice row₂ 8 (size - 8) :=
    slice_eq_iff.mpr fun a _ ha => hrow a (by omega)
  have hheader : (leBytes 4 msgId ++ leBytes 4 msgSize).length = 8 := by simp
  have hmessage : ∀ row : Mem, (l1Message msgId msgSize (slice row 8 size)).take size =
      (leBytes 4 msgId ++ leBytes 4 msgSize).take size ++ slice row 8 (size - 8) := by
    intro row
    rw [l1Message, List.take_append, hheader, htake]
  rw [hmessage, hmessage, hslice]

/-- The configuration is sent in step. -/
theorem Paired.sendPhyConfigReq (h : Paired env₁ env₂ n log₁ log₂ K c₁ c₂) :
    Together (sendPhyConfigReq env₁) (sendPhyConfigReq env₂) c₁ c₂ fun _ d₁ _ d₂ =>
      Paired env₁ env₂ n log₁ log₂ K d₁ d₂ := by
  refine h.l1MsgProc ?_
  intro d₁ d₂ hd
  refine (hd.alloc _).bind ?_
  rintro _ e₁ _ e₂ ⟨he, hmsg⟩
  rw [together_read_bind, id_eq, id_eq, if_pos he.control.generator₁, if_pos he.control.generator₂,
    ← he.rows.config.size]
  apply he.append hmsg
  rw [sub32_eight he.rows.config.size_lt]
  exact take_l1Message_congr he.rows.config.row

/-- Rows with the SFN and the slot set agree as they did before. -/
theorem SameRow.stamp {size₁ size₂ : ℕ} {row₁ row₂ : Mem} (h : SameRow size₁ size₂ row₁ row₂)
    (sfn slot : ℕ) : SameRow size₁ size₂ (stamp row₁ 8 sfn slot) (stamp row₂ 8 sfn slot) :=
  ⟨h.size, h.size_lt, fun a ha => store_congr (store_congr (h.row a ha))⟩

/-- The request of a row is sent in step. -/
theorem Paired.sendTtiReq (h : Paired env₁ env₂ n log₁ log₂ K c₁ c₂) (r : TtiReq) (sfn : ℕ)
    {slot : ℕ} (hslot : slot < n) :
    Together (r.send env₁ sfn slot) (r.send env₂ sfn slot) c₁ c₂ fun _ d₁ _ d₂ =>
      Paired env₁ env₂ n log₁ log₂ K d₁ d₂ := by
  refine (h.alloc _).bind ?_
  rintro _ d₁ _ d₂ ⟨hd, hmsg⟩
  have hwindow := sfnWindow_lt sfn
  have hrow := hd.rows.tti r hwindow hslot
  have hstamped := hrow.stamp sfn slot
  have hset := (hd.used [.row (sfnWindow sfn) slot]).withTables (hd.rows.setTti r hstamped)
  rw [together_rowAt_bind, together_read_bind, id_eq, id_eq]
  simp only [used_ctx, used_tables, SlotTable.rows_rowIndex, hd.control.generator₁,
    hd.control.generator₂, if_true]
  apply together_update_bind.mpr
  rw [together_rowAt_bind, SlotTable.rows_rowIndex, SlotTable.rows_rowIndex, ← hrow.size]
  apply (hset.used _).append ⟨hmsg.start₁, hmsg.start₂, hmsg.room⟩
  rw [sub32_eight hrow.size_lt]
  exact take_l1Message_congr hstamped.row

/-- Two clocks have the same registers for the TX_DATA request. -/
structure SameRegisters (clock₁ clock₂ : SlotClock) : Prop where
  ticks : clock₁.gSystemTtiNum = clock₂.gSystemTtiNum
  rfn : clock₁.gMacTxRfn = clock₂.gMacTxRfn
  slot : clock₁.gMacTxSlot = clock₂.gMacTxSlot

/-- Rows that agree are walked in the same way, and agree afterwards. -/
theorem SameTx.walk {src₁ src₂ : PayloadSource} {row₁ row₂ : Mem} {calls₁ calls₂ : ℕ}
    (h : SameTx row₁ row₂) (hdata : SameData src₁ src₂ calls₁ calls₂) (sfn slot : ℕ) :
    (txWalk src₁ row₁ sfn slot calls₁).1 = (txWalk src₂ row₂ sfn slot calls₂).1 ∧
      SameWalk (txLength row₁) calls₁ calls₂ (txWalk src₁ row₁ sfn slot calls₁).2
        (txWalk src₂ row₂ sfn slot calls₂).2 ∧
      SameTx (txWalk src₁ row₁ sfn slot calls₁).2.row (txWalk src₂ row₂ sfn slot calls₂).2.row := by
  have hmin := sixteen_le_txLength row₁
  have hnum : rd16 row₁ 12 = rd16 row₂ 12 := rd16_congr fun a _ ha => h.row a (by omega)
  have hend : pduEnd (TestMac.stamp row₁ 8 sfn slot) 8 (rd16 row₁ 12) offsetofPdus + 8 =
      txLength row₁ := by
    rw [pduEnd_stamp]
    rfl
  have hlt := h.length_lt
  have hstamped : ∀ a < txLength row₁,
      TestMac.stamp row₁ 8 sfn slot a = TestMac.stamp row₂ 8 sfn slot a := fun a ha =>
    store_congr (store_congr (h.row a ha))
  obtain ⟨hoff, hwalk⟩ := sameWalk_walkPdus hdata hstamped (by rw [Nat.add_comm]; exact hend.le)
    (by omega)
  have hlength : txLength (txWalk src₁ row₁ sfn slot calls₁).2.row = txLength row₁ :=
    (txWalk_spec hlt).2.2
  rw [txWalk, txWalk, ← hnum]
  refine ⟨hoff, hwalk, ?_, ?_⟩
  · rw [txWalk] at hlength
    rw [hlength]
    exact hlt
  · rw [txWalk] at hlength
    rw [hlength]
    exact hwalk.row

/-- A TX_DATA request is sent in step, when the registers are the same. -/
theorem Paired.sendTxdataReq (h : Paired env₁ env₂ n log₁ log₂ SameRegisters c₁ c₂) (sfn : ℕ)
    {slot : ℕ} (hslot : slot < n) :
    Together (sendTxdataReq env₁ sfn slot) (sendTxdataReq env₂ sfn slot) c₁ c₂ fun _ d₁ _ d₂ =>
      Paired env₁ env₂ n log₁ log₂ SameRegisters d₁ d₂ := by
  refine (h.alloc _).bind ?_
  rintro _ d₁ _ d₂ ⟨hd, hmsg⟩
  have hwindow := sfnWindow_lt sfn
  rw [together_read_bind, id_eq, id_eq, if_pos hd.control.generator₁,
    if_pos hd.control.generator₂, together_rowAt_bind]
  replace hd := hd.used [.row (sfnWindow sfn) slot]
  replace hmsg : SameMsg (d₁.used [.row (sfnWindow sfn) slot])
    (d₂.used [.row (sfnWindow sfn) slot]) := ⟨hmsg.start₁, hmsg.start₂, hmsg.room⟩
  set e₁ := d₁.used [.row (sfnWindow sfn) slot]
  set e₂ := d₂.used [.row (sfnWindow sfn) slot]
  have hform : ∀ (env : Env) (c : Cell) (Q : ℕ × List UInt8 → Cell → Prop),
      Finishes (txdataParams env (rowIndex (sfnWindow sfn) slot) 8) c Q ↔ True ∧
        let row := c.tables.gL1TXDATAREQ (sfnWindow sfn) slot
        let walk := txWalk (c.payloads env) row c.clock.gMacTxRfn c.clock.gMacTxSlot c.calls
        Q (walk.1, slice (stamp row 8 c.clock.gMacTxRfn c.clock.gMacTxSlot) 8 offsetofPdus ++
          walk.2.copied) (c.walked (rowIndex (sfnWindow sfn) slot) walk.2) := by
    intro env c Q
    rw [finishes_txdataParams, true_and]
    simp only [rd16_stamp, txWalk, SlotTable.rows_rowIndex]
  refine Together.bind (R := fun a f₁ b f₂ => a = b ∧
    Paired env₁ env₂ n log₁ log₂ SameRegisters f₁ f₂ ∧ SameMsg f₁ f₂)
    (Together.of_finishes (hform env₁ e₁) (hform env₂ e₂) Iff.rfl ?_) ?_
  · intro _ _
    have hrow := hd.rows.txdata (sfnWindow sfn) hwindow slot hslot
    have hdata : SameData (e₁.payloads env₁) (e₂.payloads env₂) e₁.calls e₂.calls :=
      hd.side.dataAlloc
    rw [hd.clock.rfn, hd.clock.slot]
    obtain ⟨hend, hwalk, hwalked⟩ := hrow.walk hdata e₂.clock.gMacTxRfn e₂.clock.gMacTxSlot
    obtain ⟨k, hk₁, hk₂⟩ := hwalk.calls
    have hmin := sixteen_le_txLength (e₁.tables.gL1TXDATAREQ (sfnWindow sfn) slot)
    refine ⟨?_, ⟨hd.control, hd.clock, ?_, hd.rows.setTxdata hwalked, ?_⟩,
      hmsg.start₁, hmsg.start₂, hmsg.room⟩
    · have hhead : slice (stamp (e₁.tables.gL1TXDATAREQ (sfnWindow sfn) slot) 8
          e₂.clock.gMacTxRfn e₂.clock.gMacTxSlot) 8 offsetofPdus =
        slice (stamp (e₂.tables.gL1TXDATAREQ (sfnWindow sfn) slot) 8
          e₂.clock.gMacTxRfn e₂.clock.gMacTxSlot) 8 offsetofPdus := by
        rw [slice_eq_iff]
        intro a _ ha
        have hoff : offsetofPdus = 8 := rfl
        exact store_congr (store_congr (hrow.row a (by omega)))
      rw [hend, hhead, hwalk.copied]
    · rw [walked_calls, walked_calls, hk₁, hk₂]
      exact hd.side.add k
    · obtain ⟨ms, hlog₁, hlog₂⟩ := hd.log
      refine ⟨ms, ?_, ?_⟩
      · simp only [Cell.walked, requests_append, txWalk, requests_walkPdus, List.append_nil, hlog₁]
      · simp only [Cell.walked, requests_append, txWalk, requests_walkPdus, List.append_nil, hlog₂]
  · rintro out f₁ _ f₂ ⟨rfl, hf, hmsg'⟩
    exact hf.append hmsg' rfl

end Senders

end TestMac
