import TestMac.App.AppQueue
import TestMac.Mac.ControlPlane
import TestMac.Mac.Handover
import TestMac.Ring.QuickMsgRingCapacity

/-!
# The application, the rings and the MAC

The application posts commands, the MAC polls the rings and hears from the PHY, in any
order. Seen from outside, the rings are queues that refuse a command only when many
others wait, and the whole is a run of the MAC on the commands that were posted and the
messages of the PHY. What its cells do next follows from the order of these inputs
alone, whatever the driver answers and whatever the files hold.
-/

namespace TestMac

open Act QuickMsgRing Framing

namespace QuickMsgRing

variable {pBuf n L : ℕ} {r : QuickMsgRing} {q : List Msg}

/-- A ring whose users hold nothing, with the messages `q` lying tightly. -/
abbrev TightIdle (pBuf n L : ℕ) (r : QuickMsgRing) (q : List Msg) : Prop :=
  TightRep pBuf n L { ring := r, resv := none, recv := none } q

/-- A message of at most `L` words joins the queue, or the ring has no room for three
more. -/
theorem sendMsg_tight (hn : n < 4294967296) (hidle : TightIdle pBuf n L r q) {pMsg : ℕ}
    {data : List UInt8} (hext : (Call.sendMsg pMsg data).External pBuf n)
    (hend : (Call.sendMsg pMsg data).OffEnd pBuf n)
    (hw : tmpWordCnt data.length + reservLen ≤ L) :
    if (r.sendMsg pMsg data).2 = success
      then TightIdle pBuf n L (r.sendMsg pMsg data).1 (q ++ [packed data.length data])
      else TightIdle pBuf n L (r.sendMsg pMsg data).1 q ∧ n < L * (q.length + 3) := by
  obtain ⟨q', haccepts, hidle'⟩ := tight_sendMsg hn hidle hext hend hw
  simp only [step] at haccepts hidle'
  split_ifs with hret
  · rw [if_pos hret] at haccepts
    obtain ⟨q'', hstep, hnil⟩ := Steps.cons_inv haccepts
    cases hstep
    rw [← hnil.eq_of_nil] at hidle'
    exact hidle'
  · rw [if_neg hret] at haccepts
    rw [← Steps.eq_of_nil haccepts] at hidle'
    refine ⟨hidle', ?_⟩
    by_contra hroom
    obtain ⟨idx, hidx⟩ :=
      Option.isSome_iff_exists.mp (getBuf_of_tight hidle hw (Nat.le_of_not_lt hroom))
    apply hret
    unfold sendMsg
    split_ifs
    · cases hget : r.getBuf data.length with
      | mk r' msg =>
        rw [hget] at hidx
        obtain rfl : msg = some idx := hidx
        rfl
    · rfl

theorem recvMsgWithUnpackFunc_nil_tight {σ : Type} (hn : n < 4294967296)
    (hidle : TightIdle pBuf n L r []) (pFunc : List UInt8 → ℕ → σ → ℤ × σ) (s : σ) :
    TightIdle pBuf n L (r.recvMsgWithUnpackFunc pFunc s).1 [] := by
  obtain ⟨o, i, h, -, -, htight, -⟩ := hidle
  obtain ⟨got, k, heq, hgot, -⟩ := beginRecvMsg_spec (r := r) h hn
  have hnone : got = none := by simpa using hgot
  simp only [recvMsgWithUnpackFunc, heq, hnone]
  exact ⟨o, i, { h with }, trivial, trivial, htight, trivial⟩

theorem recvMsgWithUnpackFunc_cons_tight {σ : Type} {m : Msg} (hn : n < 4294967296)
    (hidle : TightIdle pBuf n L r (m :: q)) (pFunc : List UInt8 → ℕ → σ → ℤ × σ) (s : σ) :
    TightIdle pBuf n L (r.recvMsgWithUnpackFunc pFunc s).1
      (if (pFunc m.payload m.msgLen s).1 = 0 then q else m :: q) := by
  obtain ⟨o, i, h, -, -, htight, -⟩ := hidle
  obtain ⟨got, k, heq, hgot, hrecv⟩ := beginRecvMsg_spec (r := r) h hn
  have h' : Holds pBuf n { r with nextOut := k } (m :: q) o i := { h with }
  cases got with
  | none => simp at hgot
  | some held =>
    obtain ⟨q', o', hq, -, h'', htight'⟩ := complete_tight h' hrecv htight
    obtain ⟨hm, hq'⟩ := List.cons.inj hq
    have hmsgLen : held.2 = m.msgLen := by
      rw [hm]
      rfl
    have hpayload : Bytes.slice r.buf (4 * held.1) (4 * m.msgLen) = m.payload := by
      rw [hm]
      rfl
    simp only [recvMsgWithUnpackFunc, heq, hpayload, hmsgLen]
    by_cases hret : (pFunc m.payload m.msgLen s).1 = 0
    · simp only [hret, ne_eq, not_true_eq_false, if_false, if_true]
      rw [hq']
      exact ⟨o', i, h'', trivial, trivial, htight', trivial⟩
    · simp only [ne_eq, hret, not_false_eq_true, if_true, if_false]
      exact ⟨o, i, h', trivial, trivial, htight, trivial⟩

end QuickMsgRing

/-- The MAC behind queues of commands. -/
structure QueuedMac where
  queues : ℕ → ℕ → List CtrlMsg
  mac : Mac

variable {pBuf : ℕ → ℕ → ℕ} (w : World) (cfg : AppCfg)

/-- A step of the queued MAC, with the input that the MAC handles in it. A command is
refused only when 168 others wait for the same cell. -/
inductive QueuedMac.Step : QueuedMac → AppEvent pBuf × Option Input → QueuedMac → Prop
  | quiet {t : QueuedMac} {c : AppCall} {repMsg : StackAddr pBuf} : c.posting cfg = none →
      Step t (.call c repMsg, none) t
  | posted {t : QueuedMac} {c : AppCall} {repMsg : StackAddr pBuf} {p : Posting} :
      c.posting cfg = some p →
      Step t (.call c repMsg, none) { t with
        queues := setEntry t.queues p.devIndex p.cellId (t.queues p.devIndex p.cellId ++ [p.msg]) }
  | refused {t : QueuedMac} {c : AppCall} {repMsg : StackAddr pBuf} {p : Posting} :
      c.posting cfg = some p → 168 ≤ (t.queues p.devIndex p.cellId).length →
      Step t (.call c repMsg, none) t
  | idle {t : QueuedMac} {dev cell : ℕ} : t.queues dev cell = [] →
      Step t (.poll dev cell, none) t
  | handed {t : QueuedMac} {dev cell : ℕ} {msg : CtrlMsg} {rest : List CtrlMsg} {m : Mac} :
      t.queues dev cell = msg :: rest → Handles w t.mac (.appMsg msg) m →
      Step t (.poll dev cell, some (.appMsg msg))
        { queues := setEntry t.queues dev cell rest, mac := m }
  | phy {t : QueuedMac} {i : Input} {m : Mac} : (∀ msg, i ≠ .appMsg msg) → Handles w t.mac i m →
      Step t (.phy i, some i) { t with mac := m }

/-- The commands handed over from one ring. -/
def commandsFrom (dev cell : ℕ) : List (AppEvent pBuf × Option Input) → List CtrlMsg
  | [] => []
  | (.poll dev' cell', some (.appMsg msg)) :: ls =>
    if dev = dev' ∧ cell = cell' then msg :: commandsFrom dev cell ls else commandsFrom dev cell ls
  | _ :: ls => commandsFrom dev cell ls

/-- The system is the queued MAC, as long as the MAC is there. -/
structure Simulates (pBuf : ℕ → ℕ → ℕ) (s : AppSys) (t : QueuedMac) : Prop where
  mac : s.mac = some t.mac
  accounts : ∀ dev cell, s.posted dev cell = s.handed dev cell ++ t.queues dev cell
  known : ∀ dev cell, ∀ msg ∈ t.queues dev cell, msg.Fits ∧ msg.Known
  ring : ∀ dev cell,
    TightIdle (pBuf dev cell) 1024 6 (s.rings dev cell) ((t.queues dev cell).map CtrlMsg.queued)

variable {w : World} {cfg : AppCfg} {s s' : AppSys} {t : QueuedMac}

theorem simulates_initial (h : s.Initial pBuf) {m : Mac} (hm : s.mac = some m) :
    Simulates pBuf s { queues := fun _ _ => [], mac := m } where
  mac := hm
  accounts dev cell := by rw [h.posted, h.handed, List.append_nil]
  known := by simp
  ring dev cell := tightRep_init (h.rings dev cell)

/-- Every posting is accepted by its queue, or by none when many others wait. -/
theorem Simulates.call (h : Simulates pBuf s t) {c : AppCall} {repMsg : StackAddr pBuf}
    {p : Posting} (hp : c.posting cfg = some p) (hknown : ¬ c.Unhandled cfg) :
    ∃ t', QueuedMac.Step w cfg t (.call c repMsg, none) t' ∧
      Simulates pBuf (macAppMgrSend s p repMsg.addr) t' := by
  have hout := repMsg.outside p.devIndex p.cellId
  have hpos := repMsg.ne_null
  have hsent := sendMsg_tight (by decide) (h.ring p.devIndex p.cellId)
    (show (Call.sendMsg repMsg.addr p.msg.bytes).External (pBuf p.devIndex p.cellId) 1024 by
      simp only [Call.External, CtrlMsg.bytes_length]
      omega)
    (show (Call.sendMsg repMsg.addr p.msg.bytes).OffEnd (pBuf p.devIndex p.cellId) 1024 by
      simp only [Call.OffEnd]
      omega)
    (by rw [CtrlMsg.bytes_length]; decide)
  by_cases hret : ((s.rings p.devIndex p.cellId).sendMsg repMsg.addr p.msg.bytes).2 = success
  · rw [if_pos hret] at hsent
    refine ⟨_, .posted hp, h.mac, ?_, ?_, ?_⟩ <;> intro dev cell <;>
      by_cases hcell : dev = p.devIndex ∧ cell = p.cellId
    · obtain ⟨rfl, rfl⟩ := hcell
      simp [macAppMgrSend, hret, h.accounts]
    · simp [macAppMgrSend, hret, setEntry_other hcell, h.accounts]
    · obtain ⟨rfl, rfl⟩ := hcell
      intro msg hmsg
      simp only [setEntry_same, List.mem_append, List.mem_singleton] at hmsg
      rcases hmsg with hold | rfl
      · exact h.known _ _ msg hold
      · exact ⟨AppCall.posting_fits hp, AppCall.posting_known hp hknown⟩
    · simpa only [setEntry_other hcell] using h.known dev cell
    · obtain ⟨rfl, rfl⟩ := hcell
      simpa [macAppMgrSend, CtrlMsg.queued] using hsent
    · simpa [macAppMgrSend, setEntry_other hcell] using h.ring dev cell
  · rw [if_neg hret] at hsent
    obtain ⟨hidle, hfull⟩ := hsent
    rw [List.length_map] at hfull
    refine ⟨t, .refused hp (by omega), h.mac, ?_, h.known, ?_⟩
    · intro dev cell
      simpa [macAppMgrSend, hret] using h.accounts dev cell
    · intro dev cell
      by_cases hcell : dev = p.devIndex ∧ cell = p.cellId
      · obtain ⟨rfl, rfl⟩ := hcell
        simpa [macAppMgrSend] using hidle
      · simpa [macAppMgrSend, setEntry_other hcell] using h.ring dev cell

/-- What a poll finds in a ring. -/
theorem Simulates.recv (h : Simulates pBuf s t) {dev cell : ℕ}
    (halive : (macRevAppCtrlMsg w s dev cell).mac.isSome = true) :
    (t.queues dev cell = [] ∧
      ((s.rings dev cell).recvMsgWithUnpackFunc (unpackMsg w) (s.mac, [])).2 = (0, s.mac, [])) ∨
    ∃ msg rest m, t.queues dev cell = msg :: rest ∧ Handles w t.mac (.appMsg msg) m ∧
      ((s.rings dev cell).recvMsgWithUnpackFunc (unpackMsg w) (s.mac, [])).2 =
        (0, some m, [msg]) := by
  have hidle : Idle (pBuf dev cell) 1024 (s.rings dev cell)
      ((t.queues dev cell).map CtrlMsg.queued) := by
    obtain ⟨o, i, h', hresv, hrecv, -⟩ := h.ring dev cell
    exact ⟨o, i, h', hresv, hrecv⟩
  cases hq : t.queues dev cell with
  | nil =>
    rw [hq] at hidle
    exact .inl ⟨rfl,
      (recvMsgWithUnpackFunc_nil (by decide) hidle (unpackMsg w) (s.mac, [])).1⟩
  | cons msg rest =>
    rw [hq] at hidle
    obtain ⟨heq, -⟩ := recvMsgWithUnpackFunc_cons (by decide) hidle (unpackMsg w) (s.mac, [])
    obtain ⟨hfits, hknown⟩ := h.known dev cell msg (by simp [hq])
    rw [h.mac, unpackMsg_queued hfits] at heq
    cases hrun : appMgrMsgqHRecv w msg t.mac with
    | none => simp [macRevAppCtrlMsg, h.mac, heq, hrun] at halive
    | some out =>
      obtain ⟨ret, m⟩ := out
      obtain rfl := (ensures_appMgrMsgqHRecv_returns w msg t.mac ret m hrun).mpr hknown
      rw [hrun] at heq
      exact .inr ⟨msg, rest, m, rfl, bind_of_eq_some hrun, by rw [h.mac, heq]⟩

/-- A poll hands over the command that waits first, if there is one. -/
theorem Simulates.poll (h : Simulates pBuf s t) (dev cell : ℕ)
    (halive : (macRevAppCtrlMsg w s dev cell).mac.isSome = true) :
    ∃ inp t', QueuedMac.Step w cfg t ((.poll dev cell : AppEvent pBuf), inp) t' ∧
      Simulates pBuf (macRevAppCtrlMsg w s dev cell) t' ∧
      ∀ dev' cell', (macRevAppCtrlMsg w s dev cell).handed dev' cell' = s.handed dev' cell' ++
        commandsFrom dev' cell' [((.poll dev cell : AppEvent pBuf), inp)] := by
  have hring := h.ring dev cell
  rcases h.recv halive with ⟨hq, heq⟩ | ⟨msg, rest, m, hq, hhandles, heq⟩
  · rw [hq] at hring
    have hring' := recvMsgWithUnpackFunc_nil_tight (by decide) hring (unpackMsg w) (s.mac, [])
    have hhanded : (macRevAppCtrlMsg w s dev cell).handed = s.handed := by
      simp [macRevAppCtrlMsg, heq, setEntry_self]
    refine ⟨none, t, .idle hq, ⟨?_, ?_, h.known, ?_⟩, ?_⟩
    · simpa [macRevAppCtrlMsg, heq] using h.mac
    · rw [hhanded]
      exact h.accounts
    · intro dev' cell'
      by_cases hcell : dev' = dev ∧ cell' = cell
      · obtain ⟨rfl, rfl⟩ := hcell
        rw [hq]
        simpa [macRevAppCtrlMsg] using hring'
      · simpa [macRevAppCtrlMsg, setEntry_other hcell] using h.ring dev' cell'
    · simp [hhanded, commandsFrom]
  · rw [hq] at hring
    have hring' := recvMsgWithUnpackFunc_cons_tight (by decide) hring (unpackMsg w) (s.mac, [])
    have hret : (unpackMsg w msg.queued.payload msg.queued.msgLen (s.mac, [])).1 = 0 := by
      have hidle : Idle (pBuf dev cell) 1024 (s.rings dev cell)
          (msg.queued :: rest.map CtrlMsg.queued) := by
        obtain ⟨o, i, h', hresv, hrecv, -⟩ := hring
        exact ⟨o, i, h', hresv, hrecv⟩
      rw [← (recvMsgWithUnpackFunc_cons (by decide) hidle (unpackMsg w) (s.mac, [])).1, heq]
    simp only [hret, if_true] at hring'
    refine ⟨_, _, .handed hq hhandles, ⟨?_, ?_, ?_, ?_⟩, ?_⟩
    · simp [macRevAppCtrlMsg, heq]
    all_goals
      intro dev' cell'
      by_cases hcell : dev' = dev ∧ cell' = cell
    · obtain ⟨rfl, rfl⟩ := hcell
      simp [macRevAppCtrlMsg, heq, h.accounts, hq]
    · simp [macRevAppCtrlMsg, setEntry_other hcell, h.accounts]
    · obtain ⟨rfl, rfl⟩ := hcell
      simpa using fun msg' hmsg' => h.known dev' cell' msg' (by simp [hq, hmsg'])
    · simpa [setEntry_other hcell] using h.known dev' cell'
    · obtain ⟨rfl, rfl⟩ := hcell
      simpa [macRevAppCtrlMsg] using hring'
    · simpa [macRevAppCtrlMsg, setEntry_other hcell] using h.ring dev' cell'
    · simp [macRevAppCtrlMsg, heq, hcell, commandsFrom]
    · simp [macRevAppCtrlMsg, setEntry_other hcell, hcell, commandsFrom]

/-- One event of the system is one step of the queued MAC. -/
theorem Simulates.step (h : Simulates pBuf s t) {e : AppEvent pBuf} (hs : AppStep w cfg s e s')
    (hknown : ¬ e.Unhandled cfg) (halive : s'.mac.isSome = true) :
    ∃ inp t', QueuedMac.Step w cfg t (e, inp) t' ∧ Simulates pBuf s' t' ∧
      ∀ dev cell, s'.handed dev cell = s.handed dev cell ++ commandsFrom dev cell [(e, inp)] := by
  cases e with
  | call c repMsg =>
    simp only [AppStep, appStep, h.mac, Option.isSome_some, if_true] at hs
    cases hp : c.posting cfg with
    | none =>
      rw [hp] at hs
      cases hs
      exact ⟨none, t, .quiet hp, h, by simp [commandsFrom]⟩
    | some p =>
      rw [hp] at hs
      cases hs
      obtain ⟨t', hstep, hsim⟩ := h.call hp hknown
      exact ⟨none, t', hstep, hsim, by simp [macAppMgrSend, commandsFrom]⟩
  | poll dev cell =>
    simp only [AppStep, appStep, h.mac, Option.isSome_some, if_true] at hs
    cases hs
    exact h.poll dev cell halive
  | phy i =>
    obtain ⟨-, m', rfl⟩ := phy_keeps hs
    obtain ⟨m, rfl⟩ := Option.isSome_iff_exists.mp halive
    have hi : ∀ msg, i ≠ .appMsg msg := by
      rintro msg rfl
      simp [AppStep, appStep, h.mac] at hs
    have hmac : (handle w i t.mac).map Prod.snd = some m := by
      simp only [AppStep, appStep, h.mac] at hs
      cases i with
      | appMsg msg => exact absurd rfl (hi msg)
      | _ => exact congrArg AppSys.mac (Option.some.inj hs)
    obtain ⟨⟨⟩, hrun⟩ : ∃ u, handle w i t.mac = some (u, m) := by simpa using hmac
    exact ⟨some i, { t with mac := m }, .phy hi hrun,
      ⟨rfl, h.accounts, h.known, h.ring⟩, by simp [commandsFrom]⟩

/-- Events happen only as long as the MAC is there. -/
theorem alive_of_step {e : AppEvent pBuf} (hs : AppStep w cfg s e s') : s.mac.isSome = true := by
  cases e with
  | phy i => exact (phy_keeps hs).1
  | _ =>
    simp only [AppStep, appStep] at hs
    split_ifs at hs with halive
    exact halive

theorem alive_of_run {es : List (AppEvent pBuf)} (hrun : Steps (AppStep w cfg) s es s')
    (halive : s'.mac.isSome = true) : s.mac.isSome = true := by
  cases hrun with
  | nil => exact halive
  | cons hs _ => exact alive_of_step hs

theorem commandsFrom_append (dev cell : ℕ) (ls ls' : List (AppEvent pBuf × Option Input)) :
    commandsFrom dev cell (ls ++ ls') = commandsFrom dev cell ls ++ commandsFrom dev cell ls' := by
  fun_induction commandsFrom dev cell ls <;> simp_all [commandsFrom]

/-- A run of the system is a run of the queued MAC. -/
theorem Simulates.run (h : Simulates pBuf s t) {es : List (AppEvent pBuf)}
    (hrun : Steps (AppStep w cfg) s es s') (hknown : ∀ e ∈ es, ¬ e.Unhandled cfg)
    (halive : s'.mac.isSome = true) :
    ∃ ls t', ls.map Prod.fst = es ∧ Steps (QueuedMac.Step w cfg) t ls t' ∧ Simulates pBuf s' t' ∧
      ∀ dev cell, s'.handed dev cell = s.handed dev cell ++ commandsFrom dev cell ls := by
  induction hrun generalizing t with
  | nil => exact ⟨[], t, rfl, .nil t, h, by simp [commandsFrom]⟩
  | @cons s s₁ s' e es hs hrest ih =>
    have halive₁ := alive_of_run hrest halive
    obtain ⟨inp, t₁, hstep, hsim, hhanded⟩ := h.step hs (hknown e (List.mem_cons_self ..)) halive₁
    obtain ⟨ls, t', hls, hsteps, hsim', hhanded'⟩ :=
      ih hsim (fun e' he' => hknown e' (List.mem_cons_of_mem e he')) halive
    refine ⟨(e, inp) :: ls, t', by rw [List.map_cons, hls], .cons hstep hsteps, hsim', ?_⟩
    intro dev cell
    rw [hhanded', hhanded, List.append_assoc, ← commandsFrom_append, List.singleton_append]

/-- What the queued MAC does is a run of the MAC. -/
theorem QueuedMac.handles {t t' : QueuedMac} {ls : List (AppEvent pBuf × Option Input)}
    (hrun : Steps (QueuedMac.Step w cfg) t ls t') :
    Steps (Handles w) t.mac (ls.filterMap Prod.snd) t'.mac := by
  induction hrun with
  | nil => exact .nil _
  | cons hs _ ih =>
    cases hs with
    | quiet _ => exact ih
    | posted _ => exact ih
    | refused _ _ => exact ih
    | idle _ => exact ih
    | handed _ hhandles => exact .cons hhandles ih
    | phy _ hhandles => exact .cons hhandles ih

/-- In every run without a command unknown to the handler, in any order of posting,
polling and messages of the PHY, the rings are queues that refuse a command only when
168 others wait, and the MAC runs on the commands that it takes from the queues and the
messages of the PHY, in the order of the polls and messages. -/
theorem appSys_refines_queuedMac {s₀ : AppSys} {m₀ m : Mac} {es : List (AppEvent pBuf)}
    (hinit : s₀.Initial pBuf) (hm₀ : s₀.mac = some m₀) (hrun : Steps (AppStep w cfg) s₀ es s)
    (hknown : ∀ e ∈ es, ¬ e.Unhandled cfg) (hm : s.mac = some m) :
    ∃ ls t, ls.map Prod.fst = es ∧
      Steps (QueuedMac.Step w cfg) { queues := fun _ _ => [], mac := m₀ } ls t ∧
      (∀ dev cell, s.handed dev cell = commandsFrom dev cell ls ∧
        s.posted dev cell = s.handed dev cell ++ t.queues dev cell) ∧
      Steps (Handles w) m₀ (ls.filterMap Prod.snd) m := by
  obtain ⟨ls, t, hls, hsteps, hsim, hhanded⟩ :=
    (simulates_initial hinit hm₀).run hrun hknown (by rw [hm]; rfl)
  have hmac : t.mac = m := Option.some.inj (hsim.mac.symm.trans hm)
  refine ⟨ls, t, hls, hsteps, ?_, hmac ▸ QueuedMac.handles hsteps⟩
  intro dev cell
  refine ⟨?_, hsim.accounts dev cell⟩
  rw [hhanded, hinit.handed, List.nil_append]

/-- A configuration and a stop are posted, a slot is indicated in between the polls, and
the MAC runs on both commands. -/
theorem appSys_refines_queuedMac_two :
    ∃ (ls : List (AppEvent storages × Option Input)) (m : Mac), ls.length = 5 ∧
      commandsFrom 0 0 ls = [⟨appTcConfigCase, 7, 0, 0, 0⟩, ⟨appTcStop, 7, 0, 0, 0⟩] ∧
      Steps (Handles readyWorld) (restingMac .manual 0) (ls.filterMap Prod.snd) m := by
  have hruns : (([.call (.appTcConfigCase 7 0 0) lowStack, .call (.appTcStop 7 0 0) lowStack,
        .poll 0 0, .phy (.slotIndication 0 0 ⟨5, 3⟩), .poll 0 0] :
        List (AppEvent storages)).foldlM (appStep readyWorld ⟨.manual, false⟩) bootedSys).map
      (fun s => (s.mac.isSome, s.handed 0 0)) =
      some (true, [⟨appTcConfigCase, 7, 0, 0, 0⟩, ⟨appTcStop, 7, 0, 0, 0⟩]) := by
    decide +kernel
  obtain ⟨s, hs, hend⟩ := Option.map_eq_some_iff.mp hruns
  simp only [Prod.mk.injEq] at hend
  obtain ⟨halive, hhanded⟩ := hend
  obtain ⟨m, hm⟩ := Option.isSome_iff_exists.mp halive
  obtain ⟨ls, t, hls, -, hrings, hrun⟩ := appSys_refines_queuedMac bootedSys_initial rfl
    (Steps.of_foldlM hs) (by simp [AppEvent.Unhandled, AppCall.Unhandled]) hm
  have hlen : ls.length = (ls.map Prod.fst).length := List.length_map .. |>.symm
  exact ⟨ls, m, by rw [hlen, hls]; rfl, by rw [← (hrings 0 0).1, hhanded], hrun⟩

/-- Two systems that differ at most in what the drivers answered and the files held. -/
structure Alike (s s' : AppSys) : Prop where
  rings : s.rings = s'.rings
  posted : s.posted = s'.posted
  handed : s.handed = s'.handed
  plane : s.mac.map Mac.controlPlane = s'.mac.map Mac.controlPlane

theorem alike_initial {s s' : AppSys} (h : s.Initial pBuf) (h' : s'.Initial pBuf)
    (hplane : s.mac.map Mac.controlPlane = s'.mac.map Mac.controlPlane) : Alike s s' where
  rings := by
    funext dev cell
    exact Option.some.inj ((h.rings dev cell).symm.trans (h'.rings dev cell))
  posted := by
    funext dev cell
    rw [h.posted, h'.posted]
  handed := by
    funext dev cell
    rw [h.handed, h'.handed]
  plane := hplane

/-- The callback decides on the ring by its result only. -/
theorem recvMsgWithUnpackFunc_ring {σ τ : Type} {r : QuickMsgRing}
    {f : List UInt8 → ℕ → σ → ℤ × σ} {g : List UInt8 → ℕ → τ → ℤ × τ} {x : σ} {y : τ}
    (h : (r.recvMsgWithUnpackFunc f x).2.1 = (r.recvMsgWithUnpackFunc g y).2.1) :
    (r.recvMsgWithUnpackFunc f x).1 = (r.recvMsgWithUnpackFunc g y).1 := by
  unfold recvMsgWithUnpackFunc at h ⊢
  generalize r.beginRecvMsg = begun at h ⊢
  rcases begun with ⟨r', _ | ⟨idx, msgLen⟩⟩
  · rfl
  · simp only at h ⊢
    split_ifs at h ⊢ with hf hg hg
    · rfl
    · exact absurd h hf
    · exact absurd h.symm hg
    · rfl

variable {w' : World} {s₁ s₁' : AppSys} {t' : QueuedMac}

theorem Alike.poll (h : Alike s s') (hsim : Simulates pBuf s t) (hsim' : Simulates pBuf s' t')
    {dev cell : ℕ} (halive : (macRevAppCtrlMsg w s dev cell).mac.isSome = true)
    (halive' : (macRevAppCtrlMsg w' s' dev cell).mac.isSome = true) :
    Alike (macRevAppCtrlMsg w s dev cell) (macRevAppCtrlMsg w' s' dev cell) := by
  have hqueue : t.queues dev cell = t'.queues dev cell := by
    have hposted := hsim.accounts dev cell
    rw [h.posted, h.handed, hsim'.accounts dev cell] at hposted
    exact (List.append_cancel_left hposted).symm
  have hplane : t.mac.controlPlane = t'.mac.controlPlane := by
    simpa [hsim.mac, hsim'.mac] using h.plane
  have hfound : ((s.rings dev cell).recvMsgWithUnpackFunc (unpackMsg w) (s.mac, [])).2.1 =
        ((s'.rings dev cell).recvMsgWithUnpackFunc (unpackMsg w') (s'.mac, [])).2.1 ∧
      ((s.rings dev cell).recvMsgWithUnpackFunc (unpackMsg w) (s.mac, [])).2.2.2 =
        ((s'.rings dev cell).recvMsgWithUnpackFunc (unpackMsg w') (s'.mac, [])).2.2.2 ∧
      ((s.rings dev cell).recvMsgWithUnpackFunc (unpackMsg w) (s.mac, [])).2.2.1.map
          Mac.controlPlane =
        ((s'.rings dev cell).recvMsgWithUnpackFunc (unpackMsg w') (s'.mac, [])).2.2.1.map
          Mac.controlPlane := by
    rcases hsim.recv halive with ⟨hq, heq⟩ | ⟨msg, rest, m, hq, hhandles, heq⟩ <;>
      rcases hsim'.recv halive' with ⟨hq', heq'⟩ | ⟨msg', rest', m', hq', hhandles', heq'⟩ <;>
      rw [hq, hq'] at hqueue
    · rw [heq, heq']
      exact ⟨rfl, rfl, h.plane⟩
    · cases hqueue
    · cases hqueue
    · cases hqueue
      rw [heq, heq']
      refine ⟨rfl, rfl, ?_⟩
      rw [Option.map_some, Option.map_some, hhandles.controlPlane, hhandles'.controlPlane, hplane,
        ControlPlane.next_world w w']
  obtain ⟨hret, hmsgs, hmac⟩ := hfound
  rw [h.rings] at hret hmsgs hmac
  constructor
  · simp only [macRevAppCtrlMsg, h.rings]
    rw [recvMsgWithUnpackFunc_ring hret]
  · exact h.posted
  · simp only [macRevAppCtrlMsg, h.rings, h.handed]
    rw [hmsgs]
  · simp only [macRevAppCtrlMsg, h.rings]
    exact hmac

/-- One event keeps two systems alike, as long as both are there. -/
theorem Alike.step (h : Alike s s') (hsim : Simulates pBuf s t) (hsim' : Simulates pBuf s' t')
    {e : AppEvent pBuf} (hs : AppStep w cfg s e s₁) (hs' : AppStep w' cfg s' e s₁')
    (halive : s₁.mac.isSome = true) (halive' : s₁'.mac.isSome = true) : Alike s₁ s₁' := by
  cases e with
  | call c repMsg =>
    simp only [AppStep, appStep, hsim.mac, hsim'.mac, Option.isSome_some, if_true] at hs hs'
    cases hp : c.posting cfg with
    | none =>
      rw [hp] at hs hs'
      cases hs
      cases hs'
      exact h
    | some p =>
      rw [hp] at hs hs'
      cases hs
      cases hs'
      constructor
      · simp only [macAppMgrSend, h.rings]
      · simp only [macAppMgrSend, h.rings, h.posted]
      · exact h.handed
      · exact h.plane
  | poll dev cell =>
    simp only [AppStep, appStep, hsim.mac, hsim'.mac, Option.isSome_some, if_true] at hs hs'
    cases hs
    cases hs'
    exact h.poll hsim hsim' halive halive'
  | phy i =>
    obtain ⟨inp, t₁, hstep, hsim₁, -⟩ := hsim.step hs (fun hunhandled => hunhandled) halive
    obtain ⟨inp', t₁', hstep', hsim₁', -⟩ := hsim'.step hs' (fun hunhandled => hunhandled) halive'
    obtain ⟨-, m, rfl⟩ := phy_keeps hs
    obtain ⟨-, m', rfl⟩ := phy_keeps hs'
    have hplane : t.mac.controlPlane = t'.mac.controlPlane := by
      simpa [hsim.mac, hsim'.mac] using h.plane
    refine ⟨h.rings, h.posted, h.handed, ?_⟩
    cases hstep with
    | phy _ hhandles =>
      cases hstep' with
      | phy _ hhandles' =>
        rw [hsim₁.mac, hsim₁'.mac, Option.map_some, Option.map_some, hhandles.controlPlane,
          hhandles'.controlPlane, hplane, ControlPlane.next_world w w']

theorem Alike.run (h : Alike s s') (hsim : Simulates pBuf s t) (hsim' : Simulates pBuf s' t')
    {es : List (AppEvent pBuf)} (hrun : Steps (AppStep w cfg) s es s₁)
    (hrun' : Steps (AppStep w' cfg) s' es s₁') (hknown : ∀ e ∈ es, ¬ e.Unhandled cfg)
    (halive : s₁.mac.isSome = true) (halive' : s₁'.mac.isSome = true) : Alike s₁ s₁' := by
  induction hrun generalizing s' t t' with
  | nil =>
    rw [← hrun'.eq_of_nil]
    exact h
  | @cons s s₂ s₁ e es hs hrest ih =>
    obtain ⟨s₂', hs', hrest'⟩ := hrun'.cons_inv
    have halive₂ := alive_of_run hrest halive
    have halive₂' := alive_of_run hrest' halive'
    have he := hknown e (List.mem_cons_self ..)
    obtain ⟨-, t₂, -, hsim₂, -⟩ := hsim.step hs he halive₂
    obtain ⟨-, t₂', -, hsim₂', -⟩ := hsim'.step hs' he halive₂'
    exact ih (h.step hsim hsim' hs hs' halive₂ halive₂') hsim₂ hsim₂' hrest'
      (fun e' he' => hknown e' (List.mem_cons_of_mem e he')) halive

/-- Which commands are posted, refused and handed over, and the control states of all
cells, follow from the calls, polls and messages of the PHY alone: neither what the
driver accepts or refuses nor what the files hold changes them. -/
theorem appSys_control_determined {s₀ s₀' : AppSys} {es : List (AppEvent pBuf)}
    (hinit : s₀.Initial pBuf) (hinit' : s₀'.Initial pBuf) {m₀ m₀' m m' : Mac}
    (hm₀ : s₀.mac = some m₀) (hm₀' : s₀'.mac = some m₀')
    (hplane : m₀.controlPlane = m₀'.controlPlane) (hrun : Steps (AppStep w cfg) s₀ es s)
    (hrun' : Steps (AppStep w' cfg) s₀' es s') (hknown : ∀ e ∈ es, ¬ e.Unhandled cfg)
    (hm : s.mac = some m) (hm' : s'.mac = some m') :
    s.posted = s'.posted ∧ s.handed = s'.handed ∧ s.rings = s'.rings ∧
      m.controlPlane = m'.controlPlane := by
  have halike : Alike s s' :=
    (alike_initial hinit hinit' (by rw [hm₀, hm₀', Option.map_some, Option.map_some, hplane])).run
      (simulates_initial hinit hm₀) (simulates_initial hinit' hm₀') hrun hrun' hknown
      (by rw [hm]; rfl) (by rw [hm']; rfl)
  refine ⟨halike.posted, halike.handed, halike.rings, ?_⟩
  simpa [hm, hm'] using halike.plane

/-- A driver that refuses everything changes what is sent, not how the cells move. -/
theorem appSys_control_determined_refusing : ∃ m m' : Mac,
    ((m.cells 0 0).log.length, (m'.cells 0 0).log.length) = (2, 0) ∧
      m.controlPlane = m'.controlPlane := by
  let es : List (AppEvent storages) :=
    [.call (.appTcConfigCase 7 0 0) lowStack, .poll 0 0, .call (.appTcStop 7 0 0) lowStack]
  have hruns : (es.foldlM (appStep readyWorld ⟨.manual, false⟩) bootedSys).map
      (fun s => (s.mac.map fun m => (m.cells 0 0).log.length)) = some (some 2) := by
    decide +kernel
  have hruns' : (es.foldlM (appStep refusingWorld ⟨.manual, false⟩) bootedSys).map
      (fun s => (s.mac.map fun m => (m.cells 0 0).log.length)) = some (some 0) := by
    decide +kernel
  obtain ⟨s, hs, hend⟩ := Option.map_eq_some_iff.mp hruns
  obtain ⟨s', hs', hend'⟩ := Option.map_eq_some_iff.mp hruns'
  obtain ⟨m, hm, hlog⟩ := Option.map_eq_some_iff.mp hend
  obtain ⟨m', hm', hlog'⟩ := Option.map_eq_some_iff.mp hend'
  obtain ⟨-, -, -, hplane⟩ := appSys_control_determined bootedSys_initial bootedSys_initial rfl rfl
    rfl (Steps.of_foldlM hs) (Steps.of_foldlM hs')
    (by simp [es, AppEvent.Unhandled, AppCall.Unhandled]) hm hm'
  exact ⟨m, m', by rw [hlog, hlog'], hplane⟩

end TestMac
