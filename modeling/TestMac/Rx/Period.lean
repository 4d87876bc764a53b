import TestMac.Mac.Period
import TestMac.Mac.SlotRun
import TestMac.Rx.Counters

/-!
# A test period between indications

What is received in the uplink only steps counters. Whatever of it comes between two slot
indications, the slots of a test period are counted, transmitted and ended as if the slot
indications had come alone.
-/

namespace TestMac

open Bytes Decoder Act

/-- The message is a slot indication, or one of the indications of what was received. -/
def PhyMsg.Indicates (msg : PhyMsg) : Prop := msg.msgId ∈
  [fapiSlotIndication, fapiCrcIndication, fapiPrachIndication, fapiSrsIndication,
    fapiRxDataIndication, fapiUciIndication]

instance (msg : PhyMsg) : Decidable msg.Indicates := inferInstanceAs (Decidable (_ ∈ _))

/-- The call leaves every cell as it is. -/
def RxCall.Counts : RxCall → Prop
  | .macTxStartIndHandle _ => False
  | .setPhyActive => False
  | .macRevCfgResonse _ => False
  | .macRevStopIndication => False
  | .macRevErrorIndication _ _ => False
  | _ => True

variable {fuel : ℕ} {env : Env} {ch : Channel} {r r' : Receiver} {msg : PhyMsg}
  {msgs : List PhyMsg}

/-- A call that only counts leaves the cells as they are. -/
theorem ensures_rxCall_counts {c : RxCall} (h : c.Counts) :
    Ensures (rxCall env ch.devIndex ch.cellId c) r fun _ r' => r'.cells = r.cells := by
  cases c with
  | macTxStartIndHandle slotInd => exact h.elim
  | setPhyActive => exact h.elim
  | macRevCfgResonse errorCode => exact h.elim
  | macRevStopIndication => exact h.elim
  | macRevErrorIndication messageId errorCode => exact h.elim
  | _ =>
    simp only [rxCall, accessUe, inPucchStats, inCellCtx, ensures_pure, ensures_update,
      ensures_assert, implies_true]

theorem ensures_forEach_counts {cs : List RxCall} (h : ∀ c ∈ cs, c.Counts) :
    Ensures (forEach (rxCall env ch.devIndex ch.cellId) cs) r fun _ r' => r'.cells = r.cells := by
  induction cs generalizing r with
  | nil => exact ensures_pure.mpr rfl
  | cons c cs ih =>
    rw [forEach, ensures_bind]
    refine (ensures_rxCall_counts (h c List.mem_cons_self)).mono ?_
    intro _ r₁ hr₁
    refine (ih fun c' hc' => h c' (List.mem_cons_of_mem c hc')).mono ?_
    intro _ r₂ hr₂
    exact hr₂.trans hr₁

/-- The calls of an indication of what was received only count. -/
theorem counts_of_indicates {c : RxCall} (hmsg : msg.Indicates) (hslot : msg.isSlot = false)
    (hc : c.Of msg.msgId) : c.Counts := by
  have hne : c.msgId ≠ fapiSlotIndication := by
    intro h
    simp [PhyMsg.isSlot, ← hc.msgId_eq, h] at hslot
  rw [PhyMsg.Indicates, ← hc.msgId_eq] at hmsg
  cases c with
  | macTxStartIndHandle slotInd => exact hne rfl
  | setPhyActive => exact hne rfl
  | macRevCfgResonse errorCode => exact absurd hmsg (show ¬ fapiConfigResponse ∈ _ by decide)
  | macRevStopIndication => exact absurd hmsg (by decide)
  | macRevErrorIndication messageId errorCode =>
    exact absurd hmsg (show ¬ fapiErrorIndication ∈ _ by decide)
  | _ => trivial

/-- What was received in the uplink leaves the cells as they are. -/
theorem ensures_hear_received (hmsg : msg.Indicates) (hslot : msg.isSlot = false) :
    Ensures (hear env fuel ch msg) r fun _ r' => r'.cells = r.cells := by
  have honly : ∀ c ∈ (fapiMsgDec fuel msg.l1MessageInput).calls msg.memory, c.Counts := by
    intro c hc
    exact counts_of_indicates hmsg hslot (only_fapiMsgDec c hc)
  rw [hear, ensures_bind]
  refine (ensures_forEach_counts honly).mono ?_
  intro _ r' hcells
  exact ensures_assert.mpr fun _ => hcells

/-- A slot indication is handled by the cell it is for. -/
theorem ensures_hear_slot (hslot : msg.isSlot = true) :
    Ensures (hear env fuel ch msg) r fun _ r' =>
      slotIndication env msg.slotInd (r.cells ch.devIndex ch.cellId) =
        some ((), r'.cells ch.devIndex ch.cellId) := by
  simp only [hear, calls_fapiMsgDec_slot hslot, forEach, rxCall, inCell, countSlot, ensures_bind,
    ensures_lift, ensures_update, ensures_pure, ensures_assert]
  intro _ c hc
  have hset : ∀ d : Cell, setPhyState .phyActive c = some ((), d) →
      slotIndication env msg.slotInd (r.cells ch.devIndex ch.cellId) = some ((), d) := by
    intro d hd
    rw [slotIndication]
    simp only [Bind.bind, hc, hd]
  split_ifs
  all_goals
    simp only [cells_set_same]
    intro _ d hd _
    exact hset d hd

/-- After some messages, the slots among them have been counted. -/
theorem ensures_hear_slotted {R k : ℕ} (hstart : ∀ n, env.pcxxSendStart n = true)
    (hsend : ∀ n, env.pcxxCtrlSend n = true) (hR : 0 < R)
    (h : (r.cells ch.devIndex ch.cellId).control.Slotted R k) (hmsgs : ∀ msg ∈ msgs, msg.Indicates)
    (hslots : k + slotsOf msgs < 4294967296) :
    Ensures (forEach (hear env fuel ch) msgs) r fun _ r' =>
      (r'.cells ch.devIndex ch.cellId).control.Slotted R (k + slotsOf msgs) := by
  induction msgs generalizing r k with
  | nil => exact ensures_pure.mpr h
  | cons msg msgs ih =>
    have htail := fun msg' hmsg' => hmsgs msg' (List.mem_cons_of_mem msg hmsg')
    rw [forEach, ensures_bind]
    cases hslot : msg.isSlot with
    | true =>
      rw [slotsOf, List.countP_cons_of_pos hslot, ← slotsOf] at hslots ⊢
      refine (ensures_hear_slot hslot).mono ?_
      intro _ r₁ hr₁
      obtain ⟨hctl, -⟩ := ensures_slotIndication_slotted hstart hsend hR h _ _ _ hr₁
      have hnext := h.slotIndication hR (by omega)
      rw [← hctl] at hnext
      rw [Nat.add_comm (slotsOf msgs), ← Nat.add_assoc]
      exact ih hnext htail (by omega)
    | false =>
      rw [slotsOf, List.countP_cons_of_neg (by simp [hslot]), ← slotsOf] at hslots ⊢
      refine (ensures_hear_received (hmsgs msg List.mem_cons_self) hslot).mono ?_
      intro _ r₁ hr₁
      rw [← hr₁] at h
      exact ih h htail hslots

/-- A configured cell hears slot indications, and between them what was received in the
uplink. The slot number `k`, counted from 0, shows one call of `macTtiTx` when it is one
of the first `runttiPerTc`, a stop request when it is a positive multiple of
`runttiPerTc`, and nothing else of the two; no other message shows any. -/
theorem testPeriod_exact (hstart : ∀ n, env.pcxxSendStart n = true)
    (hsend : ∀ n, env.pcxxCtrlSend n = true) {r r₁ r₂ : Receiver}
    (hinit : (r.cells ch.devIndex ch.cellId).ctx.state = .phyInit)
    (hR : 0 < (r.cells ch.devIndex ch.cellId).ctx.runttiPerTc)
    (hmsgs : ∀ msg' ∈ msgs ++ [msg], msg'.Indicates) (hslots : slotsOf (msgs ++ [msg]) < 4294967296)
    (hrun : forEach (hear env fuel ch) msgs r = some ((), r₁))
    (hnext : hear env fuel ch msg r₁ = some ((), r₂)) :
    ∃ es, (r₂.cells ch.devIndex ch.cellId).log = (r₁.cells ch.devIndex ch.cellId).log ++ es ∧
      es.countP CellEvent.isTtiTx =
        (if msg.isSlot = true ∧
          slotsOf msgs < (r.cells ch.devIndex ch.cellId).ctx.runttiPerTc then 1 else 0) ∧
      es.countP CellEvent.isStop =
        if msg.isSlot = true ∧ 0 < slotsOf msgs ∧
          slotsOf msgs % (r.cells ch.devIndex ch.cellId).ctx.runttiPerTc = 0 then 1 else 0 := by
  have hlast : msg.Indicates := hmsgs msg (by simp)
  have hfirst : ∀ msg' ∈ msgs, msg'.Indicates := fun msg' hmem => hmsgs msg' (by simp [hmem])
  have hsum : slotsOf (msgs ++ [msg]) = slotsOf msgs + slotsOf [msg] := List.countP_append
  have hzero : (r.cells ch.devIndex ch.cellId).control.Slotted
      (r.cells ch.devIndex ch.cellId).ctx.runttiPerTc 0 :=
    Control.slotted_zero (s := (r.cells ch.devIndex ch.cellId).control) hinit
  have hcounted : (r₁.cells ch.devIndex ch.cellId).control.Slotted
      (r.cells ch.devIndex ch.cellId).ctx.runttiPerTc (0 + slotsOf msgs) :=
    ensures_hear_slotted hstart hsend hR hzero hfirst (by omega) () r₁ hrun
  rw [Nat.zero_add] at hcounted
  cases hslot : msg.isSlot with
  | true =>
    obtain ⟨-, es, hlog, htx, hstop⟩ :=
      ensures_slotIndication_slotted hstart hsend hR hcounted _ _ _
      (ensures_hear_slot hslot _ _ hnext)
    refine ⟨es, hlog, ?_, ?_⟩
    · simpa using htx
    · simpa using hstop
  | false =>
    have hcells := ensures_hear_received hlast hslot _ _ hnext
    exact ⟨[], by simp [hcells], by simp, by simp⟩

/-- A message with a body of zeros. -/
def zeroMsg (msgId : ℕ) : PhyMsg := ⟨store (fun _ => 0) 1000 (leBytes 4 msgId), 1000⟩

/-- A configured cell of 30 kHz, for test cases of two slots. -/
def periodCell : Cell :=
  let c := generatingCell 0
  { c with ctx := { c.ctx with state := .phyInit, runttiPerTc := 2 } }

/-- Every cell is configured, and nothing has been counted. -/
def periodReceiver : Receiver where
  cells := .alike periodCell
  sMacCellCtx _ _ := macDumpCellUlInfo
  sSlotNum _ _ := 0
  sMacUeCtxt _ := ⟨0, 0⟩

/-- A run for the first cell without slots lies between two dumps. -/
theorem periodReceiver_betweenDumps (fuel : ℕ) (ds : List Delivery)
    (hslots : slotsOf (heard ⟨0, 0⟩ ds) = 0)
    (hrun : (forEach (deliver readyWorld fuel) ds periodReceiver).isSome = true) :
    ∃ r', BetweenDumps readyWorld fuel ⟨0, 0⟩ periodReceiver ds r' := by
  obtain ⟨⟨⟨⟩, r'⟩, hr'⟩ := Option.isSome_iff_exists.mp hrun
  exact ⟨r', rfl, by rw [hslots]; decide, hr'⟩

/-- Two slot indications, and what was received between them. -/
def twoSlots : List PhyMsg :=
  [zeroMsg fapiSlotIndication, zeroMsg fapiCrcIndication, zeroMsg fapiSlotIndication]

/-- With test cases of two slots the third slot shows a stop request. -/
theorem testPeriod_exact_two :
    ∃ r₁ r₂ es, forEach (hear (readyWorld.env 0 0) 1 ⟨0, 0⟩) twoSlots periodReceiver =
        some ((), r₁) ∧
      hear (readyWorld.env 0 0) 1 ⟨0, 0⟩ (zeroMsg fapiSlotIndication) r₁ = some ((), r₂) ∧
      (r₂.cells 0 0).log = (r₁.cells 0 0).log ++ es ∧
      es.countP CellEvent.isTtiTx = 0 ∧ es.countP CellEvent.isStop = 1 := by
  have hfirst : (forEach (hear (readyWorld.env 0 0) 1 ⟨0, 0⟩) twoSlots periodReceiver).isSome =
      true := by decide +kernel
  have hthird : ((forEach (hear (readyWorld.env 0 0) 1 ⟨0, 0⟩) twoSlots periodReceiver).bind
      fun out => hear (readyWorld.env 0 0) 1 ⟨0, 0⟩ (zeroMsg fapiSlotIndication) out.2).isSome =
      true := by decide +kernel
  obtain ⟨⟨⟨⟩, r₁⟩, hr₁⟩ := Option.isSome_iff_exists.mp hfirst
  rw [hr₁] at hthird
  obtain ⟨⟨⟨⟩, r₂⟩, hr₂⟩ := Option.isSome_iff_exists.mp hthird
  have hindicates : ∀ msg ∈ twoSlots ++ [zeroMsg fapiSlotIndication], msg.Indicates := by
    decide +kernel
  have hslots : slotsOf (twoSlots ++ [zeroMsg fapiSlotIndication]) < 4294967296 := by
    decide +kernel
  obtain ⟨es, hlog, htx, hstop⟩ := testPeriod_exact (fun _ => rfl) (fun _ => rfl)
    (rfl : (periodReceiver.cells 0 0).ctx.state = .phyInit) (by decide) hindicates hslots hr₁ hr₂
  exact ⟨r₁, r₂, es, hr₁, hr₂, hlog, htx, hstop⟩

end TestMac
