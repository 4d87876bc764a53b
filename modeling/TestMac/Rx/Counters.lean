import TestMac.Rx.Calls
import TestMac.Rx.Isolation

/-!
# The counters of a cell between two dumps

`macDumpCellUlInfo` sets the counters of a cell back. Until it is called again for this
cell, the counters are a fold over the calls that the messages of the cell lead to,
whatever the other cells hear in between.
-/

namespace TestMac

open Bytes Decoder Act

/-- `fapiMsgDec` is called for a message of a cell, and comes to its end. -/
def hear (env : Env) (fuel : ℕ) (ch : Channel) (msg : PhyMsg) : Act Receiver Unit := do
  forEach (rxCall env ch.devIndex ch.cellId) ((fapiMsgDec fuel msg.l1MessageInput).calls msg.memory)
  assert ((fapiMsgDec fuel msg.l1MessageInput msg.memory).2.returned = true)

/-- A message that reaches a channel. -/
structure Delivery where
  channel : Channel
  msg : PhyMsg

/-- A message is heard by the cell of its channel. -/
def deliver (w : World) (fuel : ℕ) (d : Delivery) : Act Receiver Unit :=
  hear (w.env d.channel.devIndex d.channel.cellId) fuel d.channel d.msg

/-- The messages of one channel, in their order. -/
def heard (ch : Channel) (ds : List Delivery) : List PhyMsg :=
  ds.filterMap fun d => if d.channel = ch then some d.msg else none

/-- The calls that a message leads to. -/
def PhyMsg.calls (fuel : ℕ) (msg : PhyMsg) : List RxCall :=
  (fapiMsgDec fuel msg.l1MessageInput).calls msg.memory

/-- The decoder of the message comes to its end. -/
def PhyMsg.Returned (fuel : ℕ) (msg : PhyMsg) : Prop :=
  (fapiMsgDec fuel msg.l1MessageInput msg.memory).2.returned = true

/-- What a call does to the counters of the cell it is made for. -/
def RxCall.count : RxCall → MacCellCtx → MacCellCtx
  | .puschCrcPass ta rssi sinr, ctx =>
    { ctx with puschStatsInfo := ctx.puschStatsInfo.crcPass ta rssi sinr }
  | .puschCrcFail ta, ctx => { ctx with puschStatsInfo := ctx.puschStatsInfo.crcFail ta }
  | .macRachPduInHdlr _ avgRssi, ctx =>
    { ctx with rachStatsInfo := ctx.rachStatsInfo.rssi avgRssi }
  | .macPreambleInHdlr _ preambleIndex ta, ctx =>
    { ctx with rachStatsInfo := ctx.rachStatsInfo.preamble preambleIndex ta }
  | .numPucchCrcPass, ctx => { ctx with pucchStatsInfo :=
    { ctx.pucchStatsInfo with
      numPucchCrcPass := (ctx.pucchStatsInfo.numPucchCrcPass + 1) % 4294967296 } }
  | .numPucchCrcFail, ctx => { ctx with pucchStatsInfo :=
    { ctx.pucchStatsInfo with
      numPucchCrcFail := (ctx.pucchStatsInfo.numPucchCrcFail + 1) % 4294967296 } }
  | .numPucchUciDetected, ctx => { ctx with pucchStatsInfo :=
    { ctx.pucchStatsInfo with
      numPucchUciDetected := (ctx.pucchStatsInfo.numPucchUciDetected + 1) % 4294967296 } }
  | .numPucchUciNotDetected, ctx => { ctx with pucchStatsInfo :=
    { ctx.pucchStatsInfo with
      numPucchUciNotDetected := (ctx.pucchStatsInfo.numPucchUciNotDetected + 1) % 4294967296 } }
  | _, ctx => ctx

/-- The counters after some calls. -/
def tally (cs : List RxCall) (ctx : MacCellCtx) : MacCellCtx :=
  cs.foldl (fun ctx c => c.count ctx) ctx

variable {env : Env} {w : World} {fuel : ℕ} {ch : Channel} {r r' : Receiver} {msg : PhyMsg}
  {cs : List RxCall} {ctx : MacCellCtx}

theorem tally_append (cs' : List RxCall) :
    tally (cs ++ cs') ctx = tally cs' (tally cs ctx) :=
  List.foldl_append

theorem tally_concat (c : RxCall) : tally (cs ++ [c]) ctx = c.count (tally cs ctx) := by
  rw [tally_append]
  rfl

/-- Only the end of a slot counts slots. -/
theorem ensures_rxCall_count {c : RxCall} (h : c ≠ .setPhyActive) :
    Ensures (rxCall env ch.devIndex ch.cellId c) r fun _ r' =>
      r'.sMacCellCtx ch.devIndex ch.cellId = c.count (r.sMacCellCtx ch.devIndex ch.cellId) ∧
        r'.sSlotNum = r.sSlotNum := by
  cases c with
  | setPhyActive => exact absurd rfl h
  | _ =>
    simp only [rxCall, RxCall.count, inCell, accessUe, inPucchStats, inCellCtx, ensures_pure,
      ensures_update, ensures_assert, ensures_lift, cellId_and_one, setEntry_same, and_self,
      implies_true]
    try exact fun _ _ _ => trivial

theorem ensures_forEach_count (h : ∀ c ∈ cs, c ≠ .setPhyActive) :
    Ensures (forEach (rxCall env ch.devIndex ch.cellId) cs) r fun _ r' =>
      r'.sMacCellCtx ch.devIndex ch.cellId = tally cs (r.sMacCellCtx ch.devIndex ch.cellId) ∧
        r'.sSlotNum = r.sSlotNum := by
  induction cs generalizing r with
  | nil => exact ensures_pure.mpr ⟨rfl, rfl⟩
  | cons c cs ih =>
    rw [forEach, ensures_bind]
    refine (ensures_rxCall_count (h c List.mem_cons_self)).mono ?_
    rintro _ r₁ ⟨hctx, hslots⟩
    refine (ih fun c' hc' => h c' (List.mem_cons_of_mem c hc')).mono ?_
    rintro _ r₂ ⟨hctx', hslots'⟩
    exact ⟨by rw [hctx', hctx]; rfl, hslots'.trans hslots⟩

/-- A slot is counted; before the 20000th the counters stay. -/
theorem ensures_countSlot
    (hslots : r.sSlotNum ch.devIndex ch.cellId + 1 < 20000) :
    Ensures (countSlot ch.devIndex ch.cellId) r fun _ r' =>
      r'.sMacCellCtx = r.sMacCellCtx ∧
        r'.sSlotNum ch.devIndex ch.cellId = r.sSlotNum ch.devIndex ch.cellId + 1 := by
  rw [countSlot, ensures_update]
  dsimp only
  rw [Nat.mod_eq_of_lt (by omega), if_neg (by omega)]
  exact ⟨rfl, setEntry_same _⟩

/-- A message is counted by the cell that hears it. -/
theorem ensures_hear_count
    (hslots : r.sSlotNum ch.devIndex ch.cellId + slotsOf [msg] < 20000) :
    Ensures (hear env fuel ch msg) r fun _ r' =>
      r'.sMacCellCtx ch.devIndex ch.cellId =
          tally (msg.calls fuel) (r.sMacCellCtx ch.devIndex ch.cellId) ∧
        r'.sSlotNum ch.devIndex ch.cellId =
          r.sSlotNum ch.devIndex ch.cellId + slotsOf [msg] ∧ msg.Returned fuel := by
  rw [hear, ensures_bind, ← PhyMsg.calls]
  cases hslot : msg.isSlot with
  | true =>
    have hone : slotsOf [msg] = 1 := by simp [slotsOf, hslot]
    rw [hone] at hslots ⊢
    rw [PhyMsg.calls, calls_fapiMsgDec_slot hslot]
    simp only [forEach, ensures_bind, ensures_pure, ensures_assert]
    refine (ensures_rxCall_count (by simp)).mono ?_
    rintro _ r₁ ⟨hctx₁, hslots₁⟩
    simp only [rxCall, inCell, ensures_bind, ensures_lift]
    refine (ensures_countSlot (by rw [hslots₁]; exact hslots)).mono ?_
    rintro _ r₂ ⟨hctx₂, hslots₂⟩ _ c _ hret
    exact ⟨by rw [hctx₂, hctx₁]; rfl, by rw [hslots₂, hslots₁], hret⟩
  | false =>
    have hnone : slotsOf [msg] = 0 := by simp [slotsOf, hslot]
    have hcalls : ∀ c ∈ msg.calls fuel, c ≠ .setPhyActive := by
      rintro c hc rfl
      have hid := (only_fapiMsgDec _ hc).msgId_eq
      have hslot' : msg.isSlot = true := beq_iff_eq.mpr hid.symm
      simp [hslot'] at hslot
    refine (ensures_forEach_count hcalls).mono ?_
    rintro _ r₁ ⟨hctx, hslots₁⟩
    rw [ensures_assert]
    intro hret
    exact ⟨hctx, by rw [hslots₁, hnone, Nat.add_zero], hret⟩

/-- The counters of a cell, and its number of slots. -/
def Receiver.counts (ch : Channel) (r : Receiver) : MacCellCtx × ℕ :=
  (r.sMacCellCtx ch.devIndex ch.cellId, r.sSlotNum ch.devIndex ch.cellId)

/-- A call for another cell counts nothing. -/
theorem keeps_counts_rxCall {ch' : Channel} (h : ch' ≠ ch) (c : RxCall) :
    Keeps (Receiver.counts ch') (rxCall env ch.devIndex ch.cellId c) := by
  have hother : ∀ {α : Type} {table : ℕ → ℕ → α} {v : α},
      setEntry table ch.devIndex ch.cellId v ch'.devIndex ch'.cellId =
        table ch'.devIndex ch'.cellId := setEntry_other (channel_ne h)
  intro r
  cases c with
  | setPhyActive =>
    simp only [rxCall, countSlot, inCell, ensures_bind, ensures_update, ensures_lift,
      cellId_and_one]
    intro _ c _
    split_ifs <;> simp only [Receiver.counts, hother]
  | _ =>
    simp only [rxCall, inCell, accessUe, inPucchStats, inCellCtx, Receiver.counts, ensures_pure,
      ensures_update, ensures_assert, ensures_lift, cellId_and_one, hother, implies_true]
    try exact fun _ _ _ => trivial

/-- A message to another cell counts nothing. -/
theorem keeps_counts_hear {ch' : Channel} (h : ch' ≠ ch) :
    Keeps (Receiver.counts ch') (hear env fuel ch msg) := by
  have hcalls : ∀ cs, Keeps (Receiver.counts ch')
      (forEach (rxCall env ch.devIndex ch.cellId) cs) := by
    intro cs
    induction cs with
    | nil => exact fun _ => ensures_pure.mpr rfl
    | cons c cs ih =>
      exact Within.bind (fun h h' => h'.trans h) (keeps_counts_rxCall h c) fun _ => ih
  exact Within.bind (fun h h' => h'.trans h) (hcalls _) fun _ _ => ensures_assert.mpr fun _ => rfl

theorem heard_cons_own {d : Delivery} {ds : List Delivery} (h : d.channel = ch) :
    heard ch (d :: ds) = d.msg :: heard ch ds := by
  simp [heard, h]

theorem heard_cons_other {d : Delivery} {ds : List Delivery} (h : d.channel ≠ ch) :
    heard ch (d :: ds) = heard ch ds := by
  simp [heard, h]

theorem slotsOf_cons (msgs : List PhyMsg) :
    slotsOf (msg :: msgs) = slotsOf [msg] + slotsOf msgs := by
  rw [slotsOf, ← List.singleton_append, List.countP_append, ← slotsOf, ← slotsOf]

/-- The calls that a cell makes for its messages, in their order. -/
def callsHeard (fuel : ℕ) (ch : Channel) (ds : List Delivery) : List RxCall :=
  (heard ch ds).flatMap (·.calls fuel)

/-- The counters of a cell after messages to all cells, with fewer than 20000 slots
counted. -/
theorem ensures_deliver_count {ds : List Delivery}
    (hslots : r.sSlotNum ch.devIndex ch.cellId + slotsOf (heard ch ds) < 20000) :
    Ensures (forEach (deliver w fuel) ds) r fun _ r' =>
      r'.sMacCellCtx ch.devIndex ch.cellId =
          tally (callsHeard fuel ch ds) (r.sMacCellCtx ch.devIndex ch.cellId) ∧
        ∀ msg ∈ heard ch ds, msg.Returned fuel := by
  induction ds generalizing r with
  | nil =>
    rw [forEach, ensures_pure]
    exact ⟨rfl, by simp [heard]⟩
  | cons d ds ih =>
    rw [forEach, ensures_bind]
    by_cases hd : d.channel = ch
    · rw [heard_cons_own hd, slotsOf_cons] at hslots
      rw [callsHeard, heard_cons_own hd, List.flatMap_cons, tally_append, ← callsHeard]
      rw [deliver, hd]
      refine (ensures_hear_count (by omega)).mono ?_
      rintro _ r₁ ⟨hctx, hslots₁, hret⟩
      rw [← hctx]
      refine (ih (by omega)).mono ?_
      rintro _ r₂ ⟨hctx₂, hret₂⟩
      exact ⟨hctx₂, List.forall_mem_cons.mpr ⟨hret, hret₂⟩⟩
    · rw [heard_cons_other hd] at hslots ⊢
      rw [callsHeard, heard_cons_other hd, ← callsHeard]
      refine (keeps_counts_hear (Ne.symm hd) r).mono ?_
      intro _ r₁ hcounts
      obtain ⟨hctx, hslots₁⟩ := Prod.mk.inj hcounts
      rw [← hctx]
      exact ih (by omega)

/-- What the cells hear between two dumps of the counters of one of them: the counters
have been set back, and fewer slot indications than lead to the next dump come for it. -/
structure BetweenDumps (w : World) (fuel : ℕ) (ch : Channel) (r : Receiver) (ds : List Delivery)
    (r' : Receiver) : Prop where
  dumped : r.sMacCellCtx ch.devIndex ch.cellId = macDumpCellUlInfo
  slots : r.sSlotNum ch.devIndex ch.cellId + slotsOf (heard ch ds) < 20000
  run : forEach (deliver w fuel) ds r = some ((), r')

theorem BetweenDumps.sMacCellCtx_eq {ds : List Delivery} (h : BetweenDumps w fuel ch r ds r') :
    r'.sMacCellCtx ch.devIndex ch.cellId = tally (callsHeard fuel ch ds) macDumpCellUlInfo := by
  rw [← h.dumped]
  exact (ensures_deliver_count h.slots () r' h.run).1

theorem BetweenDumps.returned {ds : List Delivery} (h : BetweenDumps w fuel ch r ds r') :
    ∀ msg ∈ heard ch ds, msg.Returned fuel :=
  (ensures_deliver_count h.slots () r' h.run).2

end TestMac
