import TestMac.Mac.TwoRuns
import TestMac.Mac.SlotRun

/-!
# Loading a test case replaces the one before

Two histories of loads and transmissions end with the same load. When its files give
everything that is sent, the requests sent afterwards do not depend on the history.
-/

namespace TestMac

open Bytes Act

variable {env₁ env₂ : Env} {n : ℕ} {log₁ log₂ : List CellEvent} {c₁ c₂ : Cell}

/-- The slots are counted alike. -/
def SameTicks (clock₁ clock₂ : SlotClock) : Prop := clock₁.gSystemTtiNum = clock₂.gSystemTtiNum

theorem Paired.ticks (h : Paired env₁ env₂ n log₁ log₂ SameRegisters c₁ c₂) :
    Paired env₁ env₂ n log₁ log₂ SameTicks c₁ c₂ :=
  ⟨h.control, h.clock.ticks, h.side, h.rows, h.log⟩

/-- The requests of a slot are sent in step. -/
theorem Paired.macTtiTx (h : Paired env₁ env₂ n log₁ log₂ SameRegisters c₁ c₂) (sfn : ℕ) {slot : ℕ}
    (hslot : slot < n) :
    Together (macTtiTx env₁ sfn slot) (macTtiTx env₂ sfn slot) c₁ c₂ fun _ d₁ _ d₂ =>
      Paired env₁ env₂ n log₁ log₂ SameRegisters d₁ d₂ := by
  have henable := h.side.enable
  refine h.l1MsgProc ?_
  intro d₁ d₂ hd
  refine Together.bind (Together.when (by rw [henable]) (fun _ _ => hd.sendTtiReq .dl sfn hslot)
    fun _ _ => hd) ?_
  intro _ e₁ _ e₂ he
  refine Together.bind (Together.when (by rw [henable]) (fun _ _ => he.sendTtiReq .ul sfn hslot)
    fun _ _ => he) ?_
  intro _ f₁ _ f₂ hf
  exact Together.when (by rw [henable]) (fun _ _ => hf.sendTxdataReq sfn hslot) fun _ _ => hf

/-- An event that is no request. -/
theorem Paired.logged {K : SlotClock → SlotClock → Prop}
    (h : Paired env₁ env₂ n log₁ log₂ K c₁ c₂) {event : CellEvent}
    (hevent : requests [event] = []) :
    Paired env₁ env₂ n log₁ log₂ K { c₁ with log := c₁.log ++ [event] }
      { c₂ with log := c₂.log ++ [event] } := by
  obtain ⟨ms, hlog₁, hlog₂⟩ := h.log
  refine ⟨h.control, h.clock, h.side, h.rows, ms, ?_, ?_⟩
  · rw [requests_append, hevent, List.append_nil, hlog₁]
  · rw [requests_append, hevent, List.append_nil, hlog₂]

/-- A slot is scheduled in step. -/
theorem Paired.macSchedule (h : Paired env₁ env₂ n log₁ log₂ SameRegisters c₁ c₂) (sfn : ℕ)
    {slot : ℕ} (hslot : slot < n) :
    Together (macSchedule env₁ sfn slot) (macSchedule env₂ sfn slot) c₁ c₂ fun _ d₁ _ d₂ =>
      Paired env₁ env₂ n log₁ log₂ SameRegisters d₁ d₂ := by
  apply together_read_bind.mpr
  refine Together.ite (by rw [h.control.schState]) (fun _ _ => together_pure.mpr h) ?_
  intro _ _
  apply together_update_bind.mpr
  have hlogged := h.logged (rfl : requests [.ttiTx sfn slot] = [])
  exact hlogged.macTtiTx sfn hslot

theorem SameRows.mask {t₁ t₂ : TcTables} (h : SameRows n t₁ t₂) (env : Env) :
    gsfnMask env t₁.gcurrentScs = n := by
  rcases h.spacing with ⟨hscs, hn⟩ | ⟨hscs, hn⟩
  · rw [hscs, hn]
    rfl
  · rw [hscs, hn]
    rfl

theorem SameRows.slots {t₁ t₂ : TcTables} (h : SameRows n t₁ t₂) : n = 10 ∨ n = 20 := by
  rcases h.spacing with ⟨-, hn⟩ | ⟨-, hn⟩
  · exact .inl hn
  · exact .inr hn

/-- `gsfnShift` in step: the slot that is found is the same. -/
theorem Paired.gsfnShift {K : SlotClock → SlotClock → Prop}
    (h : Paired env₁ env₂ n log₁ log₂ K c₁ c₂) (gsfn : SlotIndication) (shift : ℕ) :
    Together (gsfnShift env₁ gsfn shift c₁.tables.gcurrentScs)
      (gsfnShift env₂ gsfn shift c₂.tables.gcurrentScs) c₁ c₂ fun a d₁ b d₂ =>
        a = shifted n gsfn shift ∧ b = shifted n gsfn shift ∧ d₁ = c₁ ∧ d₂ = c₂ := by
  have hmask₁ := h.rows.mask env₁
  have hmask₂ : gsfnMask env₂ c₂.tables.gcurrentScs = n := by
    rw [← h.rows.scs]
    exact h.rows.mask env₂
  refine Together.of_finishes (fun Q => finishes_gsfnShift) (fun Q => finishes_gsfnShift) ?_ ?_
  · rw [hmask₁, hmask₂]
  · intro _ _
    rw [hmask₁, hmask₂]
    exact ⟨rfl, rfl, rfl, rfl⟩

/-- The end of a slot indication in step. -/
theorem Paired.prepareSlot (h : Paired env₁ env₂ n log₁ log₂ SameTicks c₁ c₂)
    {slotInd : SlotIndication} (hslot : slotInd.Slot < n) :
    Together (prepareSlot env₁ slotInd) (prepareSlot env₂ slotInd) c₁ c₂ fun _ d₁ _ d₂ =>
      Paired env₁ env₂ n log₁ log₂ SameTicks d₁ d₂ := by
  have hslots := h.rows.slots
  have htx := shifted_slot_lt hslot (by omega : 2 < n)
  have hnext : SameTicks (nextTti c₁.clock) (nextTti c₂.clock) :=
    congrArg (fun ticks => (ticks + 1) % 4294967296) h.clock
  have hd := h.withClock hnext
  apply together_update_bind.mpr
  apply together_read_bind.mpr
  refine Together.bind (hd.gsfnShift slotInd 2) ?_
  rintro _ _ _ _ ⟨rfl, rfl, rfl, rfl⟩
  refine Together.bind (hd.gsfnShift slotInd 2) ?_
  rintro _ _ _ _ ⟨rfl, rfl, rfl, rfl⟩
  refine Together.bind (hd.gsfnShift slotInd 1) ?_
  rintro _ _ _ _ ⟨rfl, rfl, rfl, rfl⟩
  apply together_update_bind.mpr
  have he : Paired env₁ env₂ n log₁ log₂ SameRegisters
      { c₁ with clock := c₁.clock.prepared n slotInd }
      { c₂ with clock := c₂.clock.prepared n slotInd } := h.withClock ⟨hnext, rfl, rfl⟩
  refine (he.macSchedule (shifted n slotInd 2).SFN ((Nat.mod_le _ 256).trans_lt htx)).mono ?_
  intro _ e₁ _ e₂ hsent
  exact hsent.ticks

/-- A slot indication in step. -/
theorem Paired.slotIndication (h : Paired env₁ env₂ n log₁ log₂ SameTicks c₁ c₂)
    {slotInd : SlotIndication} (hslot : slotInd.Slot < n) :
    Together (slotIndication env₁ slotInd) (slotIndication env₂ slotInd) c₁ c₂ fun _ d₁ _ d₂ =>
      Paired env₁ env₂ n log₁ log₂ SameTicks d₁ d₂ := by
  have hstart : Together (macTxStartIndHandle env₁ slotInd) (macTxStartIndHandle env₂ slotInd) c₁ c₂
      fun _ d₁ _ d₂ => Paired env₁ env₂ n log₁ log₂ SameTicks d₁ d₂ := by
    apply together_read_bind.mpr
    refine Together.bind (R := fun _ d₁ _ d₂ => Paired env₁ env₂ n log₁ log₂ SameTicks d₁ d₂)
      (Together.when (by rw [h.control.state]) ?_ fun _ _ => h) ?_
    · -- the first indication after a start makes the cell active
      intro _ _
      apply together_update_bind.mpr
      apply together_update_bind.mpr
      apply together_update.mpr
      exact ⟨⟨h.control.generator₁, h.control.generator₂, rfl, rfl, h.control.runttiPerTc⟩, rfl,
        h.side, h.rows, h.log⟩
    · intro _ d₁ _ d₂ hd
      apply together_read_bind.mpr
      refine Together.ite (by simp only [id_eq, hd.control.state])
        (fun _ _ => together_pure.mpr hd) ?_
      intro _ _
      apply together_update_bind.mpr
      have he : Paired env₁ env₂ n log₁ log₂ SameTicks
          { d₁ with clock := { d₁.clock with sMacLocalGSfn := slotInd } }
          { d₂ with clock := { d₂.clock with sMacLocalGSfn := slotInd } } := hd.withClock hd.clock
      have hticks : d₁.clock.gSystemTtiNum = d₂.clock.gSystemTtiNum := hd.clock
      refine Together.ite (by simp only [id_eq, hd.control.runttiPerTc, hticks]) ?_
        fun _ _ => he.prepareSlot hslot
      intro _ _
      refine (he.sendHeaderOnly _ _).bind ?_
      intro _ f₁ _ f₂ hf
      apply together_update_bind.mpr
      apply together_update.mpr
      have hnext : SameTicks (nextTti f₁.clock) (nextTti f₂.clock) :=
        congrArg (fun ticks => (ticks + 1) % 4294967296) hf.clock
      exact ⟨⟨hf.control.generator₁, hf.control.generator₂, hf.control.state, rfl,
        hf.control.runttiPerTc⟩, hnext, hf.side, hf.rows, hf.log⟩
  refine hstart.bind ?_
  intro _ d₁ _ d₂ hd
  apply together_update.mpr
  exact ⟨⟨hd.control.generator₁, hd.control.generator₂, rfl, hd.control.schState,
    hd.control.runttiPerTc⟩, hd.clock, hd.side, hd.rows, hd.log⟩

end TestMac
