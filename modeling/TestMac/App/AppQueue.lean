import TestMac.App.Post
import TestMac.Ring.QuickMsgRingFifo
import TestMac.Mac.Runs

/-!
# Commands pass through the rings

The application posts commands to the ring of a cell, the MAC polls the ring and
hands what it finds to the handler. A command that the handler knows is handed
over once, in the order of posting. A command that it does not know stays in the
ring and is handed over again and again.
-/

namespace TestMac

open Act QuickMsgRing

namespace QuickMsgRing

/-- The ring represents a queue while neither of its users holds anything. -/
abbrev Idle (pBuf n : ℕ) (r : QuickMsgRing) (q : List Msg) : Prop :=
  Rep pBuf n { ring := r, resv := none, recv := none } q

variable {pBuf n : ℕ} {r : QuickMsgRing} {q : List Msg}

/-- A message copied into the ring is appended to the queue when the send succeeds. -/
theorem sendMsg_spec (hn : n < 4294967296) (hidle : Idle pBuf n r q) {pMsg : ℕ}
    {data : List UInt8} (hext : (Call.sendMsg pMsg data).External pBuf n)
    (hend : (Call.sendMsg pMsg data).OffEnd pBuf n) :
    Idle pBuf n (r.sendMsg pMsg data).1
      (if (r.sendMsg pMsg data).2 = success then q ++ [packed data.length data] else q) := by
  obtain ⟨q', haccepts, hidle'⟩ := permitted_sendMsg hn hidle hext hend
  simp only [step] at haccepts hidle'
  by_cases hret : (r.sendMsg pMsg data).2 = success
  · rw [if_pos hret] at haccepts ⊢
    obtain ⟨q'', hstep, hnil⟩ := Steps.cons_inv haccepts
    cases hstep
    rw [← hnil.eq_of_nil] at hidle'
    exact hidle'
  · rw [if_neg hret] at haccepts ⊢
    rw [← Steps.eq_of_nil haccepts] at hidle'
    exact hidle'

theorem recvMsgWithUnpackFunc_nil {σ : Type} (hn : n < 4294967296) (hidle : Idle pBuf n r [])
    (pFunc : List UInt8 → ℕ → σ → ℤ × σ) (s : σ) :
    (r.recvMsgWithUnpackFunc pFunc s).2 = (0, s) ∧
      Idle pBuf n (r.recvMsgWithUnpackFunc pFunc s).1 [] := by
  obtain ⟨o, i, h, -, -⟩ := hidle
  obtain ⟨got, k, heq, hgot, -⟩ := beginRecvMsg_spec (r := r) h hn
  have hnone : got = none := by simpa using hgot
  have hidle' : Idle pBuf n { r with nextOut := k } [] := ⟨o, i, { h with }, trivial, trivial⟩
  simp only [recvMsgWithUnpackFunc, heq, hnone]
  exact ⟨trivial, hidle'⟩

/-- The callback works on the first message, which leaves the ring when it returns zero. -/
theorem recvMsgWithUnpackFunc_cons {σ : Type} {m : Msg} (hn : n < 4294967296)
    (hidle : Idle pBuf n r (m :: q)) (pFunc : List UInt8 → ℕ → σ → ℤ × σ) (s : σ) :
    (r.recvMsgWithUnpackFunc pFunc s).2 = pFunc m.payload m.msgLen s ∧
      Idle pBuf n (r.recvMsgWithUnpackFunc pFunc s).1
        (if (pFunc m.payload m.msgLen s).1 = 0 then q else m :: q) := by
  obtain ⟨o, i, h, -, -⟩ := hidle
  obtain ⟨got, k, heq, hgot, hrecv⟩ := beginRecvMsg_spec (r := r) h hn
  have h' : Holds pBuf n { r with nextOut := k } (m :: q) o i := { h with }
  cases got with
  | none => simp at hgot
  | some held =>
    obtain ⟨q', o', hq, -, h''⟩ := hrecv.complete h'
    obtain ⟨hm, hq'⟩ := List.cons.inj hq
    have hmsgLen : held.2 = m.msgLen := by
      rw [hm]
      rfl
    have hpayload : Bytes.slice r.buf (4 * held.1) (4 * m.msgLen) = m.payload := by
      rw [hm]
      rfl
    have hstays : Idle pBuf n { r with nextOut := k } (m :: q) := ⟨o, i, h', trivial, trivial⟩
    have hleaves : Idle pBuf n { r with nextOut := k }.recvMsgComplete q := by
      rw [hq']
      exact ⟨o', i, h'', trivial, trivial⟩
    simp only [recvMsgWithUnpackFunc, heq, hpayload, hmsgLen]
    by_cases hret : (pFunc m.payload m.msgLen s).1 = 0
    · simp only [hret, ne_eq, not_true_eq_false, if_false, if_true]
      exact ⟨Prod.ext hret.symm rfl, hleaves⟩
    · simp only [ne_eq, hret, not_false_eq_true, if_true, if_false]
      exact ⟨trivial, hstays⟩

/-- A ring in which nothing waits gives nothing. -/
theorem beginRecvMsg_nil (hn : n < 4294967296) (hidle : Idle pBuf n r []) :
    r.beginRecvMsg.2 = none := by
  obtain ⟨o, i, h, -, -⟩ := hidle
  obtain ⟨got, k, heq, hgot, -⟩ := beginRecvMsg_spec (r := r) h hn
  rw [heq]
  simpa using hgot

end QuickMsgRing

/-- The address of a command on the stack, away from the storage of every ring. The
storage of a ring is an allocation of 4160 bytes. -/
structure StackAddr (pBuf : ℕ → ℕ → ℕ) where
  addr : ℕ
  ne_null : addr ≠ 0
  outside : ∀ dev cell, addr + 20 ≤ pBuf dev cell ∨ pBuf dev cell + 4160 ≤ addr

/-- The rings `msgqApp` and the MAC, with the commands that were posted and handed
over so far, and the devices and cells that `macAppMgrSend` has used. The MAC is gone once
an assertion has failed. -/
structure AppSys where
  rings : ℕ → ℕ → QuickMsgRing
  mac : Option Mac
  posted : ℕ → ℕ → List CtrlMsg
  handed : ℕ → ℕ → List CtrlMsg
  cellUses : List (ℕ × ℕ)

/-- What happens to the rings and the MAC. -/
inductive AppEvent (pBuf : ℕ → ℕ → ℕ)
  /-- A function of the application is called. -/
  | call (c : AppCall) (repMsg : StackAddr pBuf)
  /-- `macRevAppCtrlMsg`. -/
  | poll (dev cell : ℕ)
  /-- The PHY responds or indicates something. -/
  | phy (i : Input)

variable {pBuf : ℕ → ℕ → ℕ} (w : World) (cfg : AppCfg)

/-- `macAppMgrSend` of a command. -/
def macAppMgrSend (s : AppSys) (p : Posting) (pMsg : ℕ) : AppSys :=
  let (r, ret) := (s.rings p.devIndex p.cellId).sendMsg pMsg p.msg.bytes
  { s with
    rings := setEntry s.rings p.devIndex p.cellId r
    posted := if ret = success
      then setEntry s.posted p.devIndex p.cellId (s.posted p.devIndex p.cellId ++ [p.msg])
      else s.posted
    cellUses := s.cellUses ++ [(p.devIndex, p.cellId)] }

/-- `appMgrMsgqHRecv` of a message found in a ring. -/
def recvMsg (msgLen : ℕ) (msg : CtrlMsg) : Act Mac ℤ := do
  assert (0 < msgLen)
  appMgrMsgqHRecv w msg

/-- The callback of the rings, on the MAC and the commands handed over. -/
def unpackMsg (data : List UInt8) (msgLen : ℕ) (s : Option Mac × List CtrlMsg) :
    ℤ × Option Mac × List CtrlMsg :=
  let msg := CtrlMsg.ofBytes data
  match s.1.bind (recvMsg w msgLen msg) with
  | none => (-1, none, s.2 ++ [msg])
  | some (ret, m) => (ret, some m, s.2 ++ [msg])

/-- `macRevAppCtrlMsg`. -/
def macRevAppCtrlMsg (s : AppSys) (dev cell : ℕ) : AppSys :=
  let (r, _, mac, msgs) := (s.rings dev cell).recvMsgWithUnpackFunc (unpackMsg w) (s.mac, [])
  { s with
    rings := setEntry s.rings dev cell r
    mac := mac
    handed := setEntry s.handed dev cell (s.handed dev cell ++ msgs) }

/-- One event, as long as the MAC is there. -/
def appStep (s : AppSys) : AppEvent pBuf → Option AppSys
  | .call c repMsg =>
    if s.mac.isSome then
      match c.posting cfg with
      | none => some s
      | some p => some (macAppMgrSend s p repMsg.addr)
    else none
  | .poll dev cell => if s.mac.isSome then some (macRevAppCtrlMsg w s dev cell) else none
  | .phy i =>
    match s.mac, i with
    | none, _ => none
    | some _, .appMsg _ => none
    | some m, i => some { s with mac := (handle w i m).map Prod.snd }

/-- An event happens. -/
def AppStep (s : AppSys) (e : AppEvent pBuf) (s' : AppSys) : Prop := appStep w cfg s e = some s'

/-- The rings as `initCtrlMgrMsgqH` leaves them. -/
structure AppSys.Initial (pBuf : ℕ → ℕ → ℕ) (s : AppSys) : Prop where
  rings : ∀ dev cell, initQuickMsgRing (pBuf dev cell) 4096 = some (s.rings dev cell)
  posted : ∀ dev cell, s.posted dev cell = []
  handed : ∀ dev cell, s.handed dev cell = []

/-- A call that posts a command unknown to the handler. -/
def AppEvent.Unhandled : AppEvent pBuf → Prop
  | call c _ => c.Unhandled cfg
  | _ => False

/-- A call of the application. -/
def AppEvent.IsCall : AppEvent pBuf → Prop
  | call _ _ => True
  | _ => False

/-- The polls of one ring. -/
def polls (dev cell : ℕ) : List (AppEvent pBuf) → ℕ
  | [] => 0
  | .poll dev' cell' :: es => (if dev' = dev ∧ cell' = cell then 1 else 0) + polls dev cell es
  | _ :: es => polls dev cell es

/-- A command as a message of the ring. -/
def CtrlMsg.queued (msg : CtrlMsg) : Msg := packed 20 msg.bytes

/-- The commands `pending` were posted to a ring and not handed over yet. They wait in
the ring as long as the MAC is there, and the handler knows them all. -/
structure Serves (pBuf : ℕ → ℕ → ℕ) (s : AppSys) (dev cell : ℕ) (pending : List CtrlMsg) :
    Prop where
  accounts : s.posted dev cell = s.handed dev cell ++ pending
  known : ∀ msg ∈ pending, msg.Fits ∧ msg.Known
  ring : s.mac.isSome = true →
    Idle (pBuf dev cell) 1024 (s.rings dev cell) (pending.map CtrlMsg.queued)

variable {w : World} {cfg : AppCfg} {s s' : AppSys} {dev cell : ℕ} {pending : List CtrlMsg}

theorem serves_initial (h : s.Initial pBuf) (dev cell : ℕ) : Serves pBuf s dev cell [] := by
  refine ⟨?_, by simp, ?_⟩
  · rw [h.posted, h.handed, List.append_nil]
  · intro _
    exact rep_init (h.rings dev cell)

/-- What the callback does with a command of the ring. -/
theorem unpackMsg_queued {msg : CtrlMsg} (h : msg.Fits) (m : Mac) :
    unpackMsg w msg.queued.payload msg.queued.msgLen (some m, []) =
      match appMgrMsgqHRecv w msg m with
      | none => (-1, none, [msg])
      | some (ret, m') => (ret, some m', [msg]) := by
  have hmsg : CtrlMsg.ofBytes msg.queued.payload = msg := CtrlMsg.ofBytes_bytes h _
  have hrecv : (some m).bind (recvMsg w msg.queued.msgLen msg) = appMgrMsgqHRecv w msg m := rfl
  simp only [unpackMsg, hmsg, hrecv, List.nil_append]

/-- A command posted to a ring waits there behind the others. -/
theorem Serves.macAppMgrSend {p : Posting} (h : Serves pBuf s dev cell pending) (hfits : p.msg.Fits)
    (hknown : p.msg.Known) (halive : s.mac.isSome = true) (repMsg : StackAddr pBuf) :
    ∃ new, Serves pBuf (macAppMgrSend s p repMsg.addr) dev cell (pending ++ new) := by
  by_cases hcell : dev = p.devIndex ∧ cell = p.cellId
  · obtain ⟨rfl, rfl⟩ := hcell
    have hout := repMsg.outside p.devIndex p.cellId
    have hpos := repMsg.ne_null
    have hidle := sendMsg_spec (by decide) (h.ring halive)
      (show (Call.sendMsg repMsg.addr p.msg.bytes).External (pBuf p.devIndex p.cellId) 1024 by
        simp only [Call.External, CtrlMsg.bytes_length]
        omega)
      (show (Call.sendMsg repMsg.addr p.msg.bytes).OffEnd (pBuf p.devIndex p.cellId) 1024 by
        simp only [Call.OffEnd]
        omega)
    by_cases hret : ((s.rings p.devIndex p.cellId).sendMsg repMsg.addr p.msg.bytes).2 = success
    · rw [if_pos hret] at hidle
      refine ⟨[p.msg], ?_, ?_, ?_⟩
      · simp [TestMac.macAppMgrSend, hret, h.accounts]
      · intro msg hmsg
        rcases List.mem_append.mp hmsg with hold | hnew
        · exact h.known msg hold
        · rw [List.mem_singleton.mp hnew]
          exact ⟨hfits, hknown⟩
      · intro _
        simpa [TestMac.macAppMgrSend, CtrlMsg.queued] using hidle
    · rw [if_neg hret] at hidle
      refine ⟨[], ?_, ?_, ?_⟩
      · simp [TestMac.macAppMgrSend, hret, h.accounts]
      · simpa using h.known
      · intro _
        simpa [TestMac.macAppMgrSend] using hidle
  · refine ⟨[], ?_, ?_, ?_⟩
    · by_cases hret : ((s.rings p.devIndex p.cellId).sendMsg repMsg.addr p.msg.bytes).2 = success
      · simp [TestMac.macAppMgrSend, hret, setEntry_other hcell, h.accounts]
      · simp [TestMac.macAppMgrSend, hret, h.accounts]
    · simpa using h.known
    · intro _
      simpa [TestMac.macAppMgrSend, setEntry_other hcell] using h.ring halive

/-- A poll hands over the first command that waits, if there is one. -/
theorem Serves.macRevAppCtrlMsg (h : Serves pBuf s dev cell pending)
    (halive : s.mac.isSome = true) :
    Serves pBuf (macRevAppCtrlMsg w s dev cell) dev cell (pending.drop 1) ∧
      (macRevAppCtrlMsg w s dev cell).handed dev cell = s.handed dev cell ++ pending.take 1 := by
  obtain ⟨m, hm⟩ := Option.isSome_iff_exists.mp halive
  have hidle := h.ring halive
  cases pending with
  | nil =>
    obtain ⟨heq, hidle'⟩ := recvMsgWithUnpackFunc_nil (by decide) hidle (unpackMsg w) (s.mac, [])
    have hhanded : (macRevAppCtrlMsg w s dev cell).handed dev cell = s.handed dev cell := by
      simp [TestMac.macRevAppCtrlMsg, heq]
    refine ⟨⟨?_, by simp, ?_⟩, ?_⟩
    · rw [hhanded]
      exact h.accounts
    · intro _
      simpa [TestMac.macRevAppCtrlMsg] using hidle'
    · simpa using hhanded
  | cons msg pending =>
    obtain ⟨heq, hidle'⟩ := recvMsgWithUnpackFunc_cons (by decide) hidle (unpackMsg w) (s.mac, [])
    obtain ⟨hfits, hknown⟩ := h.known msg (List.mem_cons_self ..)
    rw [hm, unpackMsg_queued hfits] at heq hidle'
    have hrest : ∀ msg' ∈ pending, msg'.Fits ∧ msg'.Known :=
      fun msg' hmsg' => h.known msg' (List.mem_cons_of_mem msg hmsg')
    cases hrun : appMgrMsgqHRecv w msg m with
    | none =>
      -- the handler has been called, but the process ends with it
      rw [hrun] at heq
      refine ⟨⟨?_, hrest, ?_⟩, ?_⟩
      · simp [TestMac.macRevAppCtrlMsg, hm, heq, h.accounts]
      · intro hstill
        simp [TestMac.macRevAppCtrlMsg, hm, heq] at hstill
      · simp [TestMac.macRevAppCtrlMsg, hm, heq]
    | some out =>
      obtain ⟨ret, m'⟩ := out
      have hret : ret = 0 := (ensures_appMgrMsgqHRecv_returns w msg m ret m' hrun).mpr hknown
      rw [hrun] at heq hidle'
      refine ⟨⟨?_, hrest, ?_⟩, ?_⟩
      · simp [TestMac.macRevAppCtrlMsg, hm, heq, h.accounts]
      · intro _
        simpa [TestMac.macRevAppCtrlMsg, hm, hret] using hidle'
      · simp [TestMac.macRevAppCtrlMsg, hm, heq]

/-- A poll of another ring. -/
theorem Serves.macRevAppCtrlMsg_other {dev' cell' : ℕ} (h : Serves pBuf s dev cell pending)
    (halive : s.mac.isSome = true) (hcell : ¬ (dev' = dev ∧ cell' = cell)) :
    Serves pBuf (TestMac.macRevAppCtrlMsg w s dev' cell') dev cell pending ∧
      (TestMac.macRevAppCtrlMsg w s dev' cell').handed dev cell = s.handed dev cell := by
  have hother : ¬ (dev = dev' ∧ cell = cell') := fun hsame => hcell ⟨hsame.1.symm, hsame.2.symm⟩
  have hhanded : (TestMac.macRevAppCtrlMsg w s dev' cell').handed dev cell = s.handed dev cell := by
    simp [TestMac.macRevAppCtrlMsg, setEntry_other hother]
  refine ⟨⟨?_, h.known, ?_⟩, hhanded⟩
  · rw [hhanded]
    exact h.accounts
  · intro _
    simpa [TestMac.macRevAppCtrlMsg, setEntry_other hother] using h.ring halive

/-- What the PHY sends reaches the MAC only. -/
theorem phy_keeps {i : Input} (hs : AppStep w cfg s (.phy i : AppEvent pBuf) s') :
    s.mac.isSome = true ∧ ∃ m', s' = { s with mac := m' } := by
  simp only [AppStep, appStep] at hs
  cases hm : s.mac with
  | none => simp [hm] at hs
  | some m =>
    rw [hm] at hs
    cases i <;> cases hs <;> exact ⟨rfl, _, rfl⟩

/-- One event takes the first command when it is a poll of the ring, and adds at most
what a call posts. -/
theorem Serves.step {e : AppEvent pBuf} (h : Serves pBuf s dev cell pending)
    (hknown : ¬ e.Unhandled cfg) (hs : AppStep w cfg s e s') :
    ∃ new, Serves pBuf s' dev cell (pending.drop (polls dev cell [e]) ++ new) ∧
      s'.handed dev cell = s.handed dev cell ++ pending.take (polls dev cell [e]) ∧
      (¬ e.IsCall → new = []) := by
  cases e with
  | call c repMsg =>
    simp only [AppStep, appStep] at hs
    split_ifs at hs with halive
    cases hp : c.posting cfg with
    | none =>
      rw [hp] at hs
      cases hs
      exact ⟨[], by simpa [polls] using h, by simp [polls], fun _ => rfl⟩
    | some p =>
      rw [hp] at hs
      cases hs
      obtain ⟨new, hnew⟩ := h.macAppMgrSend (AppCall.posting_fits hp)
        (AppCall.posting_known hp hknown) halive repMsg
      exact ⟨new, by simpa [polls] using hnew, by simp [polls, TestMac.macAppMgrSend],
        fun hcall => absurd trivial hcall⟩
  | poll dev' cell' =>
    simp only [AppStep, appStep] at hs
    split_ifs at hs with halive
    cases hs
    by_cases hcell : dev' = dev ∧ cell' = cell
    · obtain ⟨rfl, rfl⟩ := hcell
      obtain ⟨hserves, hhanded⟩ := h.macRevAppCtrlMsg halive
      exact ⟨[], by simpa [polls] using hserves, by simpa [polls] using hhanded, fun _ => rfl⟩
    · obtain ⟨hserves, hhanded⟩ := h.macRevAppCtrlMsg_other (w := w) halive hcell
      exact ⟨[], by simpa [polls, hcell] using hserves, by simpa [polls, hcell] using hhanded,
        fun _ => rfl⟩
  | phy i =>
    obtain ⟨halive, m', rfl⟩ := phy_keeps hs
    refine ⟨[], ?_, by simp [polls], fun _ => rfl⟩
    simp only [polls, List.drop_zero, List.append_nil]
    exact ⟨h.accounts, h.known, fun _ => h.ring halive⟩

/-- A run takes commands from the front and adds what is posted behind. It takes as
many as there are polls, or all that waited at first. -/
theorem serves_run {es : List (AppEvent pBuf)} (h : Serves pBuf s dev cell pending)
    (hrun : Steps (AppStep w cfg) s es s') (hknown : ∀ e ∈ es, ¬ e.Unhandled cfg) :
    ∃ taken new pending', Serves pBuf s' dev cell pending' ∧
      s'.handed dev cell = s.handed dev cell ++ taken ∧ pending ++ new = taken ++ pending' ∧
      min (polls dev cell es) pending.length ≤ taken.length ∧
      ((∀ e ∈ es, ¬ e.IsCall) → new = []) := by
  induction hrun generalizing pending with
  | nil => exact ⟨[], [], pending, h, by simp, by simp, by simp [polls], fun _ => rfl⟩
  | @cons s s₁ s' e es hs hrun ih =>
    obtain ⟨new₁, hserves, hhanded, hquiet₁⟩ := h.step (hknown e (List.mem_cons_self ..)) hs
    obtain ⟨taken, new, pending', hserves', hhanded', heq, hlen, hquiet⟩ :=
      ih hserves fun e' he' => hknown e' (List.mem_cons_of_mem e he')
    have hpolls : polls dev cell (e :: es) = polls dev cell [e] + polls dev cell es := by
      cases e <;> simp [polls]
    refine ⟨pending.take (polls dev cell [e]) ++ taken, new₁ ++ new, pending', hserves', ?_, ?_,
      ?_, ?_⟩
    · rw [hhanded', hhanded, List.append_assoc]
    · rw [List.append_assoc, ← heq, List.append_assoc, ← List.append_assoc,
        ← List.append_assoc (pending.take _), List.take_append_drop, List.append_assoc]
    · rw [hpolls]
      simp only [List.length_append, List.length_take, List.length_drop] at hlen ⊢
      omega
    · intro hcalls
      rw [hquiet₁ (hcalls e (List.mem_cons_self ..)),
        hquiet fun e' he' => hcalls e' (List.mem_cons_of_mem e he'), List.append_nil]

/-- In every run without a command unknown to the handler, the commands posted to a ring
are those handed over, in order, and those that wait. When as many polls follow as
commands wait, all of them are handed over; when nothing is posted meanwhile, the ring
is empty then. -/
theorem appQueue_delivers {s₀ : AppSys} {es es' : List (AppEvent pBuf)} (hinit : s₀.Initial pBuf)
    (hrun : Steps (AppStep w cfg) s₀ es s) (hlater : Steps (AppStep w cfg) s es' s')
    (hknown : ∀ e ∈ es ++ es', ¬ e.Unhandled cfg) (dev cell : ℕ) :
    ∃ pending, s.posted dev cell = s.handed dev cell ++ pending ∧
      (pending.length ≤ polls dev cell es' →
        s.posted dev cell <+: s'.handed dev cell ∧
        ((∀ e ∈ es', ¬ e.IsCall) → s'.handed dev cell = s'.posted dev cell ∧
          (s'.mac.isSome = true → (s'.rings dev cell).beginRecvMsg.2 = none))) := by
  obtain ⟨taken, new, pending, hserves, -⟩ := serves_run (serves_initial hinit dev cell) hrun
    fun e he => hknown e (List.mem_append_left es' he)
  obtain ⟨taken', new', pending', hserves', hhanded', heq, hlen, hquiet⟩ :=
    serves_run hserves hlater fun e he => hknown e (List.mem_append_right es he)
  refine ⟨pending, hserves.accounts, ?_⟩
  intro hpolls
  rw [min_eq_right hpolls] at hlen
  have hprefix : pending <+: taken' :=
    List.prefix_of_prefix_length_le ⟨new', heq⟩ ⟨pending', rfl⟩ hlen
  constructor
  · rw [hserves.accounts, hhanded']
    exact (List.prefix_append_right_inj _).mpr hprefix
  · intro hcalls
    have hnone : pending' = [] := by
      rw [hquiet hcalls, List.append_nil] at heq
      rw [heq, List.length_append] at hlen
      exact List.length_eq_zero_iff.mp (by omega)
    subst hnone
    constructor
    · rw [hserves'.accounts, List.append_nil]
    · intro halive
      exact beginRecvMsg_nil (by decide) (hserves'.ring halive)

/-- The storages of some rings. -/
def storages (dev cell : ℕ) : ℕ := 100000 + 10000 * (2 * dev + cell)

/-- A ring with nothing in it. -/
def emptyRing (dev cell : ℕ) : QuickMsgRing where
  pBuf := storages dev cell
  buf _ := 0
  emptyFlag := true
  size := 1024
  nextIn := 0
  nextOut := 0
  inIdx := 0
  outIdx := 0

def bootedSys : AppSys where
  rings := emptyRing
  mac := some (restingMac .manual 0)
  posted _ _ := []
  handed _ _ := []
  cellUses := []

theorem bootedSys_initial : bootedSys.Initial storages :=
  ⟨fun _ _ => rfl, fun _ _ => rfl, fun _ _ => rfl⟩

/-- A command at the bottom of the stack. -/
def lowStack : StackAddr storages :=
  ⟨1000, by decide, fun _ _ => .inl (by unfold storages; omega)⟩

/-- A configuration and a stop are posted, and two polls hand both over. -/
theorem appQueue_delivers_two :
    ∃ s s', Steps (AppStep readyWorld ⟨.manual, false⟩) bootedSys
        [.call (.appTcConfigCase 7 0 0) lowStack, .call (.appTcStop 7 0 0) lowStack] s ∧
      Steps (AppStep readyWorld ⟨.manual, false⟩) s
        ([.poll 0 0, .poll 0 0] : List (AppEvent storages)) s' ∧
      (s.posted 0 0).length = 2 ∧ s'.handed 0 0 = s'.posted 0 0 ∧
      (s'.rings 0 0).beginRecvMsg.2 = none := by
  have hruns : (([.call (.appTcConfigCase 7 0 0) lowStack, .call (.appTcStop 7 0 0) lowStack] :
        List (AppEvent _)).foldlM (appStep readyWorld ⟨.manual, false⟩) bootedSys).bind (fun s =>
      (([.poll 0 0, .poll 0 0] : List (AppEvent storages)).foldlM
        (appStep readyWorld ⟨.manual, false⟩) s).map fun s' =>
      ((s.posted 0 0).length, (s.handed 0 0).length, s'.mac.isSome)) = some (2, 0, true) := by
    decide +kernel
  obtain ⟨s, hs, hrest⟩ := Option.bind_eq_some_iff.mp hruns
  obtain ⟨s', hs', hend⟩ := Option.map_eq_some_iff.mp hrest
  obtain ⟨hposted, hhanded, halive⟩ : (s.posted 0 0).length = 2 ∧ (s.handed 0 0).length = 0 ∧
      s'.mac.isSome = true := by simpa using hend
  obtain ⟨pending, haccounts, hlater⟩ := appQueue_delivers bootedSys_initial (Steps.of_foldlM hs)
    (Steps.of_foldlM hs') (by simp [AppEvent.Unhandled, AppCall.Unhandled]) 0 0
  have hpending : pending.length = 2 := by
    rw [haccounts, List.length_append, hhanded] at hposted
    omega
  obtain ⟨-, hquiet⟩ := hlater (by rw [hpending]; decide)
  obtain ⟨hall, hempty⟩ := hquiet (by simp [AppEvent.IsCall])
  exact ⟨s, s', Steps.of_foldlM hs, Steps.of_foldlM hs', hposted, hall, hempty halive⟩

/-- The stop of a test is unknown to the handler: two polls hand it over twice, and the
command behind it waits for ever. -/
theorem unknown_command_blocks :
    ∃ s s', bootedSys.Initial storages ∧
      Steps (AppStep readyWorld ⟨.manual, false⟩) bootedSys
        [.call (.appTestStop 7 0 0) lowStack, .call (.appTcStop 7 0 0) lowStack] s ∧
      Steps (AppStep readyWorld ⟨.manual, false⟩) s
        ([.poll 0 0, .poll 0 0] : List (AppEvent storages)) s' ∧
      s.posted 0 0 = [⟨appStopTest, 7, 0, 0, 0⟩, ⟨appTcStop, 7, 0, 0, 0⟩] ∧ s.handed 0 0 = [] ∧
      s'.handed 0 0 = [⟨appStopTest, 7, 0, 0, 0⟩, ⟨appStopTest, 7, 0, 0, 0⟩] ∧
      (s'.rings 0 0).beginRecvMsg.2 ≠ none := by
  have hruns : (([.call (.appTestStop 7 0 0) lowStack, .call (.appTcStop 7 0 0) lowStack] :
        List (AppEvent _)).foldlM (appStep readyWorld ⟨.manual, false⟩) bootedSys).bind (fun s =>
      (([.poll 0 0, .poll 0 0] : List (AppEvent storages)).foldlM
        (appStep readyWorld ⟨.manual, false⟩) s).map fun s' =>
      (s.posted 0 0, s.handed 0 0, s'.handed 0 0, (s'.rings 0 0).beginRecvMsg.2)) =
      some ([⟨appStopTest, 7, 0, 0, 0⟩, ⟨appTcStop, 7, 0, 0, 0⟩], [],
        [⟨appStopTest, 7, 0, 0, 0⟩, ⟨appStopTest, 7, 0, 0, 0⟩], some (1, 5)) := by
    decide +kernel
  obtain ⟨s, hs, hrest⟩ := Option.bind_eq_some_iff.mp hruns
  obtain ⟨s', hs', hend⟩ := Option.map_eq_some_iff.mp hrest
  simp only [Prod.mk.injEq] at hend
  obtain ⟨hposted, hhanded, hhanded', hring⟩ := hend
  refine ⟨s, s', bootedSys_initial, Steps.of_foldlM hs, Steps.of_foldlM hs', hposted, hhanded,
    hhanded', ?_⟩
  rw [hring]
  exact Option.some_ne_none _

end TestMac
