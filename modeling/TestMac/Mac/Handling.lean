import TestMac.Mac.Requests
import TestMac.Mac.Sends
import TestMac.Mac.Slots

/-!
# What the handlers change

Every handler but the one that loads a test case is made of the senders and of a few changes
of its own. A relation between cells that goes along with these goes along with the handler.
The requests that are rows of the tables are left to the relation, for the slot that the
input prepares: what they do to their rows and to the data sent is what some relations are
about.
-/

namespace TestMac

open Bytes Act

/-- The event says what a cell learns or schedules; it is no request and no data. -/
def CellEvent.isControl : CellEvent → Bool
  | .sent _ _ => false
  | .dataSent _ _ => false
  | _ => true

/-- A relation between cells that goes along with the senders, except for the requests that
are rows, and with the changes that handlers make. -/
structure Handling (R : Cell → Cell → Prop) : Prop where
  sending (ids : List ℕ) : Sending ids R
  state (c : Cell) (state : MacStatus) : R c { c with ctx := { c.ctx with state := state } }
  schState (c : Cell) (schState : MacSchStatus) :
    R c { c with ctx := { c.ctx with schState := schState } }
  clock (c : Cell) (clock : SlotClock) : R c { c with clock := clock }
  event (c : Cell) {e : CellEvent} : e.isControl = true → R c { c with log := c.log ++ [e] }

/-- The slot that an input prepares: the one of a command for a single request, or the one
that a slot indication schedules. -/
def Cell.preparing (env : Env) (c : Cell) : CellInput → Option SlotIndication
  | .tcDlCase sfn slot => some ⟨sfn % 65536, slot % 65536⟩
  | .tcUlCase sfn slot => some ⟨sfn % 65536, slot % 65536⟩
  | .tcTxCase sfn slot => some ⟨sfn % 65536, slot % 65536⟩
  | .slotIndication slotInd => if c.Schedules then some (preparedSlot env c slotInd) else none
  | _ => none

/-- The cell is as the first part of a slot indication leaves it: it may have been started,
and its clock may have been set. -/
structure Cell.Starts (c c₁ : Cell) : Prop where
  control : c₁.control = c.control.started
  cell : ∃ state schState clock, c₁ = { c with
    ctx := { c.ctx with state := state, schState := schState }, clock := clock }

namespace Cell.Starts

variable {c c₁ : Cell}

theorem tables_eq (h : c.Starts c₁) : c₁.tables = c.tables := by
  obtain ⟨_, _, _, hc₁⟩ := h.cell
  rw [hc₁]

theorem preparedSlot_eq (h : c.Starts c₁) (env : Env) (slotInd : SlotIndication) :
    preparedSlot env c₁ slotInd = preparedSlot env c slotInd := by
  simp only [preparedSlot, h.tables_eq]

/-- The started cell schedules the slot unless its scheduler has been stopped. -/
theorem schedules_iff (h : c.Starts c₁) (hactive : c₁.control.state = .phyActive)
    (hover : ¬ c₁.control.Over) : c.Schedules ↔ c₁.ctx.schState ≠ .schStop := by
  rw [Cell.Schedules, Control.Schedules, ← h.control]
  exact ⟨fun hsch => hsch.2.2, fun hrunning => ⟨hactive, hover, hrunning⟩⟩

end Cell.Starts

/-- The first part of a slot indication starts the cell. -/
theorem ensures_start {g : Unit → CellM Unit} {c : Cell} {Q : Unit → Cell → Prop}
    (h : ∀ c₁ : Cell, c.Starts c₁ → Ensures (g ()) c₁ Q) :
    Ensures ((when (c.ctx.state = .phyInit) do
      setPhyState .phyActive
      setSchState .schNormal
      setClock fun clock => { clock with gSystemTtiNum := 0, sMacLocalGSfn := ⟨0, 0⟩ }) >>= g)
      c Q := by
  by_cases hinit : c.ctx.state = .phyInit
  · rw [when, if_pos hinit, ensures_bind]
    simp only [setPhyState, setSchState, setClock, ensures_bind, ensures_update]
    exact h _ ⟨(if_pos hinit).symm, _, _, _, rfl⟩
  · rw [when, if_neg hinit, ensures_bind, ensures_pure]
    exact h c ⟨(if_neg hinit).symm, _, _, _, rfl⟩

/-- A slot indication finds the started cell in one of three cases: it is not active, its test
case is over, or the slot is prepared. -/
theorem ensures_slotIndication_of {env : Env} {c : Cell} {slotInd : SlotIndication}
    {Q : Cell → Prop}
    (hactivated : ∀ c', Q c' → Q { c' with ctx := { c'.ctx with state := .phyActive } })
    (hwaits : ∀ c₁, c.Starts c₁ → c₁.control.state ≠ .phyActive → Q c₁)
    (hstops : ∀ c₁, c.Starts c₁ → c₁.control.state = .phyActive → c₁.control.Over →
      Ensures (do
        sendPhyStopReq env
        setSchState .schStop
        setClock nextTti) c₁ fun _ c' => Q c')
    (hprepares : ∀ c₁, c.Starts c₁ → c₁.control.state = .phyActive → ¬ c₁.control.Over →
      Ensures (prepareSlot env slotInd) c₁ fun _ c' => Q c') :
    Ensures (slotIndication env slotInd) c fun _ c' => Q c' := by
  rw [slotIndication, ensures_bind]
  suffices h : Ensures (macTxStartIndHandle env slotInd) c fun _ c' => Q c' by
    refine h.mono ?_
    intro _ c' hc'
    rw [setPhyState, ensures_update]
    exact hactivated c' hc'
  rw [macTxStartIndHandle, ensures_bind, ensures_read]
  apply ensures_start
  intro c₁ h
  rw [ensures_bind, ensures_read, ensures_ite]
  constructor
  · intro hwaiting
    rw [ensures_pure]
    exact hwaits c₁ h hwaiting
  · intro hactive
    rw [ensures_bind, setClock, ensures_update, ensures_ite]
    set c₂ : Cell := { c₁ with clock := { c₁.clock with sMacLocalGSfn := slotInd } } with hc₂
    have hstarts : c.Starts c₂ := by
      obtain ⟨state, schState, clock, hc₁⟩ := h.cell
      exact ⟨h.control, state, schState, c₂.clock, by rw [hc₂, hc₁]⟩
    constructor
    · intro hover
      exact hstops c₂ hstarts (not_not.mp hactive) hover
    · intro hover
      exact hprepares c₂ hstarts (not_not.mp hactive) hover

theorem TtiReq.ensures_send_calls {env : Env} {c : Cell} (r : TtiReq) (sfn slot : ℕ) :
    Ensures (r.send env sfn slot) c fun _ c' => c'.clock = c.clock ∧ c'.calls = c.calls + 2 := by
  simp only [TtiReq.send, ensures_bind, ensures_allocL1CtrlMsgMem, ensures_rowAt, ensures_read,
    ensures_ite, setTables, ensures_update, ensures_appendL1Msg]
  intro _ _
  constructor
  all_goals
    intro _ _ _ _ _
    exact ⟨rfl, rfl⟩

namespace Handling

variable {env : Env} {R : Cell → Cell → Prop} (hR : Handling R)

include hR

theorem bind {α β : Type} {x : CellM α} {f : α → CellM β} (hx : Within R x)
    (hf : ∀ a, Within R (f a)) : Within R (x >>= f) :=
  (hR.sending []).bind hx hf

theorem read {α : Type} (f : Cell → α) : Within R (Act.read f) := (hR.sending []).read f

theorem pure {α : Type} (a : α) : Within R (Pure.pure a) := (hR.sending []).pure a

theorem when {p : Prop} [Decidable p] {x : CellM Unit} (hx : Within R x) :
    Within R (Act.when p x) :=
  (hR.sending []).when hx

theorem setPhyState (state : MacStatus) : Within R (TestMac.setPhyState state) :=
  Within.update fun c => hR.state c state

theorem setSchState (schState : MacSchStatus) : Within R (TestMac.setSchState schState) :=
  Within.update fun c => hR.schState c schState

theorem setClock (f : SlotClock → SlotClock) : Within R (TestMac.setClock f) :=
  Within.update fun c => hR.clock c (f c.clock)

theorem logEvent {e : CellEvent} (he : e.isControl = true) : Within R (TestMac.logEvent e) :=
  Within.update fun c => hR.event c he

theorem sendHeaderOnly (msgId msgType : ℕ) : Within R (TestMac.sendHeaderOnly env msgId msgType) :=
  (hR.sending [msgId]).sendHeaderOnly (List.mem_singleton_self _)

theorem sendPhyConfigReq : Within R (TestMac.sendPhyConfigReq env) :=
  (hR.sending [_]).sendPhyConfigReq (List.mem_singleton_self _)

theorem l1MsgProc {body : CellM Unit} (h : Within R body) :
    Within R (TestMac.l1MsgProc env body) :=
  (hR.sending []).l1MsgProc h

theorem macRevErrorIndication (messageId errorCode : ℕ) :
    Within R (TestMac.macRevErrorIndication messageId errorCode) := by
  refine hR.bind (hR.logEvent rfl) fun _ => Within.ite ?_ (Within.ite ?_ (hR.pure _))
  · exact Within.ite (hR.setPhyState _) (hR.setPhyState _)
  · exact hR.setPhyState _

theorem macRevCfgResonse (errorCode : ℕ) :
    Within R (TestMac.macRevCfgResonse env errorCode) := by
  refine hR.bind (hR.logEvent rfl) fun _ => Within.ite ?_ (hR.setPhyState _)
  refine hR.bind (hR.setPhyState _) fun _ => hR.bind (hR.sendHeaderOnly _ _) fun _ => ?_
  refine hR.bind (hR.read _) fun ctx => hR.when (hR.bind (hR.setPhyState _) fun _ => hR.when ?_)
  exact hR.macRevErrorIndication _ _

theorem macRevStopIndication : Within R (TestMac.macRevStopIndication env) := by
  refine hR.bind (hR.logEvent rfl) fun _ => hR.bind (hR.setPhyState _) fun _ => ?_
  refine hR.bind (hR.read _) fun ctx => Within.ite (hR.pure _) ?_
  refine hR.bind hR.sendPhyConfigReq fun _ => hR.bind (hR.setPhyState _) fun _ => ?_
  exact hR.when (hR.macRevCfgResonse _)

theorem configForSwitch : Within R (TestMac.configForSwitch env) := by
  refine hR.bind hR.sendPhyConfigReq fun _ => hR.bind (hR.setPhyState _) fun _ => ?_
  exact hR.bind (hR.read _) fun ctx => hR.when (hR.macRevCfgResonse _)

theorem stopForSwitch : Within R (TestMac.stopForSwitch env) := by
  refine hR.bind (hR.sendHeaderOnly _ _) fun _ => hR.bind (hR.read _) fun ctx => ?_
  exact hR.when (hR.macRevErrorIndication _ _)

theorem startTest : Within R (TestMac.startTest env) := by
  refine hR.bind (hR.read _) fun ctx => hR.bind ?_ fun _ => hR.setSchState _
  refine Within.ite hR.stopForSwitch ?_
  exact hR.bind (hR.sendHeaderOnly _ _) fun _ => hR.configForSwitch

theorem tcConfigCase : Within R (TestMac.tcConfigCase env) := by
  refine hR.bind (hR.sendHeaderOnly _ _) fun _ => ?_
  exact hR.bind hR.sendPhyConfigReq fun _ => hR.setPhyState _

theorem tcStop : Within R (TestMac.tcStop env) :=
  hR.bind (hR.sendHeaderOnly _ _) fun _ => hR.setSchState _

/-- Switching the test case, after its tables have been loaded. -/
theorem switch : Within R (do
    let ctx ← Act.read Cell.ctx
    (if ctx.state ≠ .phyIdle then TestMac.stopForSwitch env else TestMac.configForSwitch env)
    TestMac.setSchState .schNormal) :=
  hR.bind (hR.read _) fun _ => hR.bind (Within.ite hR.stopForSwitch hR.configForSwitch) fun _ =>
    hR.setSchState _

section Rows

variable {c : Cell}

/-- A group of messages goes along when its body does, from a cell with the same registers. -/
theorem ensures_l1MsgProc {body : CellM Unit}
    (h : ∀ c₁ : Cell, c₁.clock = c.clock → Ensures body c₁ fun _ c' => R c₁ c') :
    Ensures (TestMac.l1MsgProc env body) c fun _ c' => R c c' := by
  have htrans : ∀ {c c' c'' : Cell}, R c c' → R c' c'' → R c c'' := (hR.sending []).trans
  have hcalled : ∀ c : Cell, R c c.called := fun c => (hR.sending []).calls c _
  have hheaded : ∀ (room : ℕ) (c : Cell), R c (c.headed room) := fun room c =>
    htrans ((hR.sending []).calls c (c.calls + 2))
      ((hR.sending []).ctxt _ (c.headed room).phyCtrlMsgCtxt)
  rw [TestMac.ensures_l1MsgProc]
  constructor
  · intro _
    rw [ensures_setL1CtrlMsgGrpHeader]
    intro _ _
    refine Ensures.mono (h (Cell.headed _ c.called) rfl) ?_
    intro _ c₂ hbody
    exact htrans (hcalled c) (htrans (hheaded _ _) (htrans hbody (hcalled c₂)))
  · intro _
    exact hcalled c

theorem ensures_macTtiTx {sfn slot : ℕ}
    (hdl : Within R (sendDlTTIReq env sfn slot)) (hul : Within R (sendUlTTIReq env sfn slot))
    (htx : ∀ c₁ : Cell, c₁.clock = c.clock →
      Ensures (sendTxdataReq env sfn slot) c₁ fun _ c' => R c₁ c') :
    Ensures (TestMac.macTtiTx env sfn slot) c fun _ c' => R c c' := by
  have hsame : ∀ {p : Prop} [Decidable p] (r : TtiReq), Within R (r.send env sfn slot) →
      ∀ c : Cell, Ensures (Act.when p (r.send env sfn slot)) c fun _ c' =>
        R c c' ∧ c'.clock = c.clock := by
    intro p _ r hr c
    refine (hR.when hr c).and ?_
    rw [ensures_when]
    exact ⟨fun _ => (r.ensures_send_calls sfn slot).mono fun _ _ h => h.1, fun _ => rfl⟩
  apply hR.ensures_l1MsgProc
  intro c₁ hclock
  rw [ensures_bind]
  refine (hsame .dl hdl c₁).mono ?_
  rintro _ c₂ ⟨hR₂, hclock₂⟩
  rw [ensures_bind]
  refine (hsame .ul hul c₂).mono ?_
  rintro _ c₃ ⟨hR₃, hclock₃⟩
  have htrans : ∀ {c c' c'' : Cell}, R c c' → R c' c'' → R c c'' := (hR.sending []).trans
  rw [ensures_when]
  constructor
  · intro _
    refine (htx c₃ (hclock₃.trans (hclock₂.trans hclock))).mono ?_
    intro _ c₄ hR₄
    exact htrans hR₂ (htrans hR₃ hR₄)
  · intro _
    exact htrans hR₂ hR₃

/-- A slot indication goes along when the requests of the slot do that it schedules. -/
theorem ensures_slotIndication {slotInd : SlotIndication}
    (hrows : c.Schedules → ∀ c₁ : Cell, c₁.clock.gL2TxGSfn = preparedSlot env c slotInd →
      Ensures (TestMac.macTtiTx env (preparedSlot env c slotInd).SFN
        ((preparedSlot env c slotInd).Slot % 256)) c₁ fun _ c' => R c₁ c') :
    Ensures (TestMac.slotIndication env slotInd) c fun _ c' => R c c' := by
  have htrans : ∀ {c c' c'' : Cell}, R c c' → R c' c'' → R c c'' := (hR.sending []).trans
  have hstarts : ∀ {c₁ : Cell}, c.Starts c₁ → R c c₁ := by
    intro c₁ h
    obtain ⟨state, schState, clock, hc₁⟩ := h.cell
    rw [hc₁]
    exact htrans (hR.state c state) (htrans (hR.schState _ schState) (hR.clock _ clock))
  apply ensures_slotIndication_of
  case hactivated => exact fun c' hc' => htrans hc' (hR.state c' _)
  case hwaits => exact fun c₁ h _ => hstarts h
  case hstops =>
    intro c₁ h _ _
    have hstop : Within R (do
        sendPhyStopReq env
        TestMac.setSchState .schStop
        TestMac.setClock nextTti) :=
      hR.bind (hR.sendHeaderOnly _ _) fun _ => hR.bind (hR.setSchState _) fun _ => hR.setClock _
    exact (hstop c₁).mono fun _ c' hc' => htrans (hstarts h) hc'
  case hprepares =>
    intro c₁ h hactive hover
    suffices hsent : Ensures (prepareSlot env slotInd) c₁ fun _ c' => R c₁ c' from
      hsent.mono fun _ c' hc' => htrans (hstarts h) hc'
    -- the slot is prepared, and goes to the scheduler
    apply ensures_prepareSlot_of
    rw [h.preparedSlot_eq, macSchedule, ensures_bind, ensures_read, ensures_ite]
    constructor
    · intro _
      rw [ensures_pure]
      exact hR.clock _ _
    · intro hrunning
      have hsch : c.Schedules := (h.schedules_iff hactive hover).mpr hrunning
      rw [ensures_bind, TestMac.logEvent, ensures_update]
      refine (hrows hsch _ (h.preparedSlot_eq env slotInd)).mono ?_
      intro _ c' hc'
      exact htrans (hR.clock _ _) (htrans (hR.event _ rfl) hc')

/-- Every input but the loading of a test case goes along when the requests of the slot do
that it prepares. -/
theorem ensures_cellAction {i : CellInput} (hi : ∀ files, i ≠ .txCase files)
    (hdl : ∀ g, c.preparing env i = some g → Within R (sendDlTTIReq env g.SFN (g.Slot % 256)))
    (hul : ∀ g, c.preparing env i = some g → Within R (sendUlTTIReq env g.SFN (g.Slot % 256)))
    (htx : ∀ g, c.preparing env i = some g → ∀ c₁ : Cell, c₁.clock.gL2TxGSfn = g →
      Ensures (sendTxdataReq env g.SFN (g.Slot % 256)) c₁ fun _ c' => R c₁ c') :
    Ensures (TestMac.cellAction env i) c fun _ c' => R c c' := by
  have htrans : ∀ {c c' c'' : Cell}, R c c' → R c' c'' → R c c'' := (hR.sending []).trans
  have hslot : ∀ slot : ℕ, slot % 65536 % 256 = slot % 256 :=
    fun slot => Nat.mod_mod_of_dvd slot (by decide)
  cases i with
  | tcConfigCase =>
    refine hR.bind (hR.sendHeaderOnly _ _) (fun _ => ?_) c
    exact hR.bind hR.sendPhyConfigReq fun _ => hR.setPhyState _
  | tcDlCase sfn slot =>
    have hsend := hdl _ rfl
    rw [hslot] at hsend
    exact hR.bind (hR.setClock _) (fun _ => hR.l1MsgProc hsend) c
  | tcUlCase sfn slot =>
    have hsend := hul _ rfl
    rw [hslot] at hsend
    exact hR.bind (hR.setClock _) (fun _ => hR.l1MsgProc hsend) c
  | tcTxCase sfn slot =>
    rw [TestMac.cellAction, tcTxCase, ensures_bind, TestMac.setClock, ensures_update]
    refine Ensures.mono (hR.ensures_l1MsgProc ?_) fun _ c' h => htrans (hR.clock c _) h
    intro c₁ hclock
    have hsend := htx _ rfl c₁ (by rw [hclock])
    rwa [hslot] at hsend
  | txCase files => exact absurd rfl (hi files)
  | tcStop => exact hR.tcStop c
  | startTest => exact hR.startTest c
  | cfgResponse errorCode => exact hR.macRevCfgResonse errorCode c
  | errorIndication messageId errorCode => exact hR.macRevErrorIndication messageId errorCode c
  | stopIndication => exact hR.macRevStopIndication c
  | slotIndication slotInd =>
    apply hR.ensures_slotIndication
    intro hsch c₁ hgsfn
    have hprep : c.preparing env (.slotIndication slotInd) = some (preparedSlot env c slotInd) :=
      if_pos hsch
    refine hR.ensures_macTtiTx (hdl _ hprep) (hul _ hprep) ?_
    intro c₂ hclock
    exact htx _ hprep c₂ (by rw [hclock, hgsfn])

/-- The same for all slots. -/
theorem cellAction {i : CellInput} (hi : ∀ files, i ≠ .txCase files)
    (hdl : ∀ sfn slot, Within R (sendDlTTIReq env sfn slot))
    (hul : ∀ sfn slot, Within R (sendUlTTIReq env sfn slot))
    (htx : ∀ sfn slot, Within R (sendTxdataReq env sfn slot)) :
    Within R (TestMac.cellAction env i) := fun _ =>
  hR.ensures_cellAction hi (fun _ _ => hdl _ _) (fun _ _ => hul _ _) fun _ _ c₁ _ => htx _ _ c₁

end Rows

end Handling

end TestMac
