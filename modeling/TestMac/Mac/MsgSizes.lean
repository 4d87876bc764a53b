import TestMac.Mac.Generator
import TestMac.Mac.RowSizes

/-!
# The sizes of requests that were loaded

The size recorded for a request is that of the file that was read for it last, or zero. The
senders take eight from it for the header of the file, whatever it is, and add eight for the
header of the message. The size in the header of a request is therefore the one of its body
exactly when there is a file with the eight bytes.
-/

namespace TestMac

open Bytes Act

/-- The requests that are taken from files in generator mode. -/
inductive TcRequest
  | config
  | dltti (sfn slot : ℕ)
  | ultti (sfn slot : ℕ)

/-- The configuration file that was read last. -/
def configFile (history : List TcFiles) : Option (List UInt8) :=
  (history.filterMap fun files => files .config).getLast?

namespace TcRequest

/-- The sender of a request. -/
def send (env : Env) : TcRequest → CellM Unit
  | config => sendPhyConfigReq env
  | dltti sfn slot => sendDlTTIReq env sfn slot
  | ultti sfn slot => sendUlTTIReq env sfn slot

def msgId : TcRequest → ℕ
  | config => fapiConfigRequest
  | dltti _ _ => fapiDlTtiRequest
  | ultti _ _ => fapiUlTtiRequest

/-- The request is for a slot that a message may have. -/
def InRange : TcRequest → Prop
  | config => True
  | dltti sfn slot => sfn < 1024 ∧ slot < 160
  | ultti sfn slot => sfn < 1024 ∧ slot < 160

/-- The size recorded for a request. -/
def recorded (t : TcTables) : TcRequest → ℕ
  | config => t.gL1ConfigReqSize
  | dltti sfn slot => t.gL1DlttiReqSize (sfn % 4) slot
  | ultti sfn slot => t.gL1UlttiReqSize (sfn % 4) slot

/-- The file whose length stands for a request of a cell, after some loads of the cells: for
the configuration the last file of the cell itself, for a slot the last file that led any of
them to its row. -/
def file (envs : ℕ → ℕ → Env) (history : List TcLoad) (cells : Cells) (dev cell : ℕ) :
    TcRequest → Option (List UInt8)
  | config => configFile (filesOf dev cell history)
  | dltti sfn slot =>
    fileFor envs .dl (firstRow dev cell + rowIndex (sfn % 4) slot) history cells none
  | ultti sfn slot =>
    fileFor envs .ul (firstRow dev cell + rowIndex (sfn % 4) slot) history cells none

end TcRequest

/-- Every request that a sender has sent has the size of its body in its header, which is that
of the file without the header of the file, and was appended with the eight bytes of its own
header. -/
def WellSized (msgId : ℕ) (file : Option (List UInt8)) (c c' : Cell) : Prop :=
  ∀ es bytes, c'.log = c.log ++ es → .sent msgId bytes ∈ es →
    ∃ body, bytes = l1Message msgId body.length body ∧ body.length < 4294967296 ∧
      (∀ contents, file = some contents → body.length + 8 = contents.length) ∧
      c'.phyCtrlMsgCtxt.curMsgLen = 8 + body.length

/-- The cells as they are before anything has been loaded. -/
structure Cells.Unloaded (cells : Cells) : Prop where
  config : ∀ dev cell, (cells dev cell).tables.gL1ConfigReqSize = 0
  sizes : ∀ r p, (cells.sizes r).rows p = 0

/-- The cell has the configuration and the recorded sizes that some loads of the cells leave
it. -/
def Cell.LoadedBy (envs : ℕ → ℕ → Env) (history : List TcLoad) (cells : Cells) (dev cell : ℕ)
    (c : Cell) : Prop :=
  c.tables.config = ((loadCells envs history cells) dev cell).tables.config ∧
    ∀ r : TtiReq, r.sizes c.tables = r.sizes ((loadCells envs history cells) dev cell).tables

variable {env : Env} {envs : ℕ → ℕ → Env} {history : List TcLoad} {cells : Cells} {c c' : Cell}
  {w : World} {dev cell n : ℕ}

/-- Every cell of every state of a run is loaded by the loads of the run. -/
theorem run_loadedBy {m m' : Mac} {is : List Input} (hrun : Steps (Handles w) m is m')
    (dev cell : ℕ) :
    (m'.cells dev cell).LoadedBy w.env (is.filterMap (Input.load w)) m.cells dev cell := by
  have hsame := run_sameLoads hrun
  refine ⟨hsame.config dev cell, fun r => ?_⟩
  rw [sizes_cell, sizes_cell, hsame.sizes]

section Recorded

theorem Cell.LoadedBy.recorded (h : c.LoadedBy envs history cells dev cell) (r : TcRequest) :
    r.recorded c.tables = r.recorded ((loadCells envs history cells) dev cell).tables := by
  cases r with
  | config => exact congrArg CellConfig.gL1ConfigReqSize h.1
  | dltti sfn slot => exact congrArg (fun table => table.row (sfn % 4) slot) (h.2 .dl)
  | ultti sfn slot => exact congrArg (fun table => table.row (sfn % 4) slot) (h.2 .ul)

/-- The configuration of a cell is the one that its own loads leave it. -/
theorem config_loadCells : ((loadCells envs history cells) dev cell).tables.config =
    (loads (envs dev cell) (filesOf dev cell history) (cells dev cell).tables).config := by
  induction history generalizing cells with
  | nil => rfl
  | cons l history ih =>
    have hcons : loadCells envs (l :: history) cells =
        loadCells envs history (l.apply envs cells) := rfl
    rw [hcons, ih, filesOf]
    split_ifs with hcell
    · obtain ⟨rfl, rfl⟩ := hcell
      rw [loads_cons, TcLoad.apply]
      refine config_loads ?_
      rw [config_set, if_pos ⟨rfl, rfl⟩]
      rfl
    · refine config_loads ?_
      rw [TcLoad.apply, config_set, if_neg hcell]

theorem loadConfig_size (files : TcFiles) (t : TcTables) :
    (loadConfig files t).gL1ConfigReqSize =
      ((files .config).map fun bytes => bytes.length % 4294967296).getD t.gL1ConfigReqSize := by
  unfold loadConfig
  cases files .config <;> rfl

/-- The size recorded for the configuration is that of the file read last. -/
theorem loads_configSize {history : List TcFiles} {t : TcTables} (h : t.gL1ConfigReqSize = 0) :
    (loads env history t).gL1ConfigReqSize = recordedSize (configFile history) := by
  induction history using List.reverseRecOn with
  | nil => exact h
  | append_singleton history files ih =>
    have hkept := (clearTables_config (loads env history t)).2.1
    rw [loads_snoc, (loadTables_config env files _).2.1, loadConfig_size, hkept, ih, configFile,
      configFile, List.filterMap_append]
    cases hfile : files .config with
    | none => simp [hfile]
    | some bytes => simp [hfile, recordedSize]

/-- The size recorded for a row of a cell. -/
theorem loadCells_rowSize (h : cells.Unloaded) (r : TtiReq) (sfn slot : ℕ) :
    r.sizes ((loadCells envs history cells) dev cell).tables sfn slot =
      recordedSize (fileFor envs r (firstRow dev cell + rowIndex sfn slot) history cells none) := by
  rw [sizes_cell]
  exact loadCells_sizes history (h.sizes r _)

theorem loadCells_recorded (h : cells.Unloaded) (r : TcRequest) :
    r.recorded ((loadCells envs history cells) dev cell).tables =
      recordedSize (r.file envs history cells dev cell) := by
  cases r with
  | config =>
    refine Eq.trans ?_ (@loads_configSize (envs dev cell) _ _ (h.config dev cell))
    exact congrArg CellConfig.gL1ConfigReqSize config_loadCells
  | dltti sfn slot => exact loadCells_rowSize h .dl (sfn % 4) slot
  | ultti sfn slot => exact loadCells_rowSize h .ul (sfn % 4) slot

end Recorded

section Sent

/-- The bytes that are sent of a file of a recorded size, which lies in memory. -/
def sentOf (msgId size : ℕ) (m : Mem) (a : ℕ) : List UInt8 :=
  (l1Message msgId (sub32 size 8) (slice m a size)).take size

/-- A file of a recorded size has been sent at most. -/
def SendsFile (msgId size : ℕ) (c c' : Cell) : Prop :=
  c'.log = c.log ∨ ∃ m a, c'.log = c.log ++ [.sent msgId (sentOf msgId size m a)] ∧
    c'.phyCtrlMsgCtxt.curMsgLen = size

/-- A file appended to memory that has been taken for it. -/
theorem sendsFile_appended {c₁ : Cell} {accepted : Bool} {msgId size a : ℕ} {m : Mem}
    (hlog : c₁.log = c.log) (hlen : c₁.phyCtrlMsgCtxt.curMsgLen = 0) (h : size < 4294967296) :
    SendsFile msgId size c (c₁.appended accepted msgId
      (l1Message msgId (sub32 size 8) (slice m a size))
      ((sub32 size 8 + sizeofL1GeneralMsgHdr) % 4294967296)) := by
  have hwith : c₁.lenWith ((sub32 size 8 + sizeofL1GeneralMsgHdr) % 4294967296) = size := by
    rw [sub32_eight h, Cell.lenWith, hlen, Nat.zero_add, Nat.mod_eq_of_lt h]
  cases accepted with
  | false => exact .inl hlog
  | true =>
    refine .inr ⟨m, a, ?_, hwith⟩
    rw [sentOf, ← hlog, Cell.appended, if_pos rfl, hwith]

theorem TtiReq.sendsFile_send (r : TtiReq) (hgen : c.ctx.runMode = .fapiGenerator) {sfn slot : ℕ}
    (h : r.sizes c.tables (sfn % 4) slot < 4294967296) :
    Ensures (r.send env sfn slot) c fun _ c' =>
      SendsFile r.msgId (r.sizes c.tables (sfn % 4) slot) c c' := by
  simp only [TtiReq.send, ensures_bind, ensures_allocL1CtrlMsgMem, ensures_rowAt, ensures_read,
    ensures_ite, setTables, ensures_update, ensures_appendL1Msg, sfnWindow_eq]
  intro _ _
  constructor
  · intro _ _ _ _ _
    exact sendsFile_appended rfl rfl h
  · intro hmode
    exact absurd hgen hmode

theorem sendsFile_send (hgen : c.ctx.runMode = .fapiGenerator) {r : TcRequest}
    (hsize : r.recorded c.tables = n) (h : n < 4294967296) :
    Ensures (r.send env) c fun _ c' => SendsFile r.msgId n c c' := by
  subst hsize
  cases r with
  | config =>
    simp only [TcRequest.send, sendPhyConfigReq, ensures_l1MsgProc, ensures_setL1CtrlMsgGrpHeader,
      ensures_bind, ensures_allocL1CtrlMsgMem, ensures_read, ensures_ite, ensures_appendL1Msg]
    constructor
    · intro _ _ _ _ _
      constructor
      · intro _ _ _ _ _
        exact sendsFile_appended rfl rfl h
      · intro hmode
        exact absurd hgen hmode
    · intro _
      exact .inl rfl
  | dltti sfn slot =>
    rw [TcRequest.send, sendDlTTIReq_eq]
    exact TtiReq.dl.sendsFile_send hgen h
  | ultti sfn slot =>
    rw [TcRequest.send, sendUlTTIReq_eq]
    exact TtiReq.ul.sendsFile_send hgen h

/-- A file with the eight bytes of its header is sent with the size of what follows them. -/
theorem SendsFile.wellSized {msgId : ℕ} {file : Option (List UInt8)} (h : SendsFile msgId n c c')
    (hmin : 8 ≤ n) (hmax : n < 4294967296)
    (hfile : ∀ contents, file = some contents → n = contents.length) :
    WellSized msgId file c c' := by
  intro es bytes hlog hmem
  rcases h with hnone | ⟨m, a, hsent, hlen⟩
  · have hempty : es = [] := List.append_right_eq_self.mp (hlog.symm.trans hnone)
    rw [hempty] at hmem
    exact absurd hmem List.not_mem_nil
  · have hone : es = [.sent msgId (sentOf msgId n m a)] :=
      List.append_cancel_left (hlog.symm.trans hsent)
    rw [hone, List.mem_singleton] at hmem
    obtain ⟨-, rfl⟩ := CellEvent.sent.inj hmem
    have hbody : (slice m a (n - 8)).length = n - 8 := slice_length _ _ _
    refine ⟨slice m a (n - 8), ?_, by omega, ?_, by omega⟩
    · rw [hbody, sentOf, take_l1Message m a hmin hmax]
    · intro contents hcontents
      have hlength := hfile contents hcontents
      omega

/-- A driver that accepts every message of less than `2 ^ 32` bytes. -/
def acceptingEnv : Env := { readyWorld.env 0 0 with pcxxCtrlAlloc := fun _ => some 4294967296 }

theorem acceptingEnv_accepts : Accepts acceptingEnv 4294967296 where
  start _ := rfl
  alloc _ := ⟨_, rfl, le_rfl⟩
  send _ := rfl

/-- With such a driver the file is sent. -/
theorem finishes_send (hgen : c.ctx.runMode = .fapiGenerator) {r : TcRequest} (hr : r.InRange)
    (hsize : r.recorded c.tables = n) (h : n < 4294967296) :
    Finishes (r.send acceptingEnv) c fun _ c' =>
      ∃ m a, c'.log = c.log ++ [.sent r.msgId (sentOf r.msgId n m a)] := by
  have haccepts := acceptingEnv_accepts
  subst hsize
  cases r with
  | config =>
    have hfits : (sub32 c.tables.gL1ConfigReqSize 8 + sizeofL1GeneralMsgHdr) % 4294967296 <
        4294967296 := Nat.mod_lt _ (by decide)
    rw [TcRequest.send, sendPhyConfigReq, finishes_l1MsgProc (haccepts.start _),
      finishes_setL1CtrlMsgGrpHeader]
    refine ⟨rfl, (by decide : 32 < 4294967296), ?_⟩
    rw [finishes_bind, finishes_allocL1CtrlMsgMem]
    refine ⟨rfl, (by decide : 8 ≤ 4294967296), ?_⟩
    rw [finishes_bind, finishes_read, finishes_ite]
    refine ⟨fun _ => ?_, fun hmode => absurd hgen hmode⟩
    refine (haccepts.finishes_request (by decide) (by decide) (by decide) hfits rfl le_rfl).mono ?_
    rintro _ c' ⟨-, -, -, -, hlog⟩
    have hsize : (sub32 c.tables.gL1ConfigReqSize 8 + sizeofL1GeneralMsgHdr) % 4294967296 =
        c.tables.gL1ConfigReqSize := sub32_eight h
    rw [hsize] at hlog
    exact ⟨_, _, hlog⟩
  | dltti sfn slot =>
    refine (haccepts.finishes_sendDlTTIReq hr.1 hr.2 hgen le_rfl (by decide) h).mono ?_
    rintro _ c' ⟨-, -, -, -, hlog⟩
    exact ⟨_, _, hlog⟩
  | ultti sfn slot =>
    refine (haccepts.finishes_sendUlTTIReq hr.1 hr.2 hgen le_rfl (by decide) h).mono ?_
    rintro _ c' ⟨-, -, -, -, hlog⟩
    exact ⟨_, _, hlog⟩

theorem l1Message_length (msgId msgSize : ℕ) (body : List UInt8) :
    (l1Message msgId msgSize body).length = 8 + body.length := by
  simp only [l1Message, List.length_append, leBytes_length]

theorem sentOf_length (msgId a : ℕ) (m : Mem) : (sentOf msgId n m a).length = n := by
  rw [sentOf, List.length_take, l1Message_length, slice_length]
  omega

end Sent

/-- After any loads of the cells, every request that is sent has the size of its body in its
header exactly when there is a file whose length stands for it, and that file holds the eight
bytes of its header and its length is a 32-bit number. -/
theorem wellSized_iff (envs : ℕ → ℕ → Env) (history : List TcLoad) (cells₀ : Cells)
    (dev cell : ℕ) (r : TcRequest) (h₀ : cells₀.Unloaded) (hr : r.InRange) :
    (∀ env c, c.LoadedBy envs history cells₀ dev cell → c.ctx.runMode = .fapiGenerator →
      Ensures (r.send env) c fun _ c' =>
        WellSized r.msgId (r.file envs history cells₀ dev cell) c c') ↔
    ∃ contents, r.file envs history cells₀ dev cell = some contents ∧
      8 ≤ contents.length ∧ contents.length < 4294967296 := by
  have hrecorded : ∀ {c : Cell}, c.LoadedBy envs history cells₀ dev cell →
      r.recorded c.tables = recordedSize (r.file envs history cells₀ dev cell) := fun hc =>
    (hc.recorded r).trans (loadCells_recorded h₀ r)
  set file := r.file envs history cells₀ dev cell with hfile
  have hmax := recordedSize_lt file
  constructor
  · intro hsized
    set c : Cell := { restingCell .auto 0 with
      tables := ((loadCells envs history cells₀) dev cell).tables } with hc
    have hloaded : c.LoadedBy envs history cells₀ dev cell := ⟨rfl, fun _ => rfl⟩
    obtain ⟨_, c', hrun, m, a, hlog⟩ :=
      finishes_send rfl hr (hrecorded hloaded) hmax
    obtain ⟨body, hbytes, -, hcontents, -⟩ := hsized acceptingEnv c hloaded rfl () c' hrun _ _ hlog
      (List.mem_singleton_self _)
    have hlength : recordedSize file = 8 + body.length := by
      have hlen := congrArg List.length hbytes
      rwa [sentOf_length, l1Message_length] at hlen
    cases hread : file with
    | none =>
      rw [hread, recordedSize] at hlength
      omega
    | some contents =>
      have hbody := hcontents contents hread
      rw [hread, recordedSize] at hlength
      exact ⟨contents, rfl, by omega, by omega⟩
  · rintro ⟨contents, hread, hmin, hlt⟩ env c hloaded hgen
    have hsize : recordedSize file = contents.length := by
      rw [hread]
      exact Nat.mod_eq_of_lt hlt
    refine (sendsFile_send hgen ((hrecorded hloaded).trans hsize) hlt).mono ?_
    intro _ c' hsends
    refine hsends.wellSized hmin hlt ?_
    intro contents' hread'
    rw [Option.some.inj (hread.symm.trans hread')]

section Example

/-- All cells are at rest, and nothing is loaded. -/
def restingCells : Cells := .alike (restingCell .auto 0)

theorem unloaded_restingCells : restingCells.Unloaded where
  config _ _ := rfl
  sizes r _ := by cases r <;> rfl

/-- A test case of a 60 kHz cell with a DL_TTI file of sixteen bytes for slot 20 of frame 3. -/
def wideFiles : TcFiles := fun file =>
  if file = .config then some sixtyFile
  else if file = .dltti 3 20 then some (List.replicate 16 1) else none

/-- The next cell after the first one has loaded it. -/
def nextCell : Cell := (loadCells readyWorld.env [⟨0, 0, wideFiles⟩] restingCells) 0 1

/-- The file has led to the first row of the next cell, whose request now has its size. -/
theorem wellSized_iff_next : ∃ c', sendDlTTIReq acceptingEnv 0 0 nextCell = some ((), c') ∧
    WellSized fapiDlTtiRequest (some (List.replicate 16 1)) nextCell c' := by
  have hfile : TcRequest.file readyWorld.env [⟨0, 0, wideFiles⟩] restingCells 0 1 (.dltti 0 0) =
      some (List.replicate 16 1) := by decide +kernel
  have hsized := (wellSized_iff readyWorld.env [⟨0, 0, wideFiles⟩] restingCells 0 1
    (.dltti 0 0) unloaded_restingCells ⟨by decide, by decide⟩).mpr
      ⟨List.replicate 16 1, hfile, by decide, by decide⟩
  rw [hfile] at hsized
  have hruns : (sendDlTTIReq acceptingEnv 0 0 nextCell).isSome = true := by decide +kernel
  obtain ⟨⟨⟨⟩, c'⟩, hrun⟩ := Option.isSome_iff_exists.mp hruns
  exact ⟨c', hrun, hsized acceptingEnv nextCell ⟨rfl, fun _ => rfl⟩ rfl () c' hrun⟩

/-- Without a file the size wraps: the header of the DL_TTI request says `2 ^ 32 - 8`, and the
length with which it is appended is zero. -/
theorem dltti_size_wraps : ∃ c', sendDlTTIReq acceptingEnv 0 0 (restingCell .auto 0) =
      some ((), c') ∧
    sub32 ((restingCell .auto 0).tables.gL1DlttiReqSize 0 0) 8 = 4294967288 ∧
    c'.log = [.sent fapiDlTtiRequest []] ∧ c'.phyCtrlMsgCtxt.curMsgLen = 0 ∧
    ¬ WellSized fapiDlTtiRequest none (restingCell .auto 0) c' := by
  have hseen : (sendDlTTIReq acceptingEnv 0 0 (restingCell .auto 0)).map (fun r =>
      (r.2.log, r.2.phyCtrlMsgCtxt.curMsgLen)) = some ([.sent fapiDlTtiRequest []], 0) := by
    decide +kernel
  obtain ⟨⟨⟨⟩, c'⟩, hrun, hlog⟩ := Option.map_eq_some_iff.mp hseen
  obtain ⟨hlog, hlen⟩ := Prod.mk.inj hlog
  refine ⟨c', hrun, by decide, hlog, hlen, ?_⟩
  intro hsized
  obtain ⟨body, hbytes, -⟩ := hsized _ [] hlog (List.mem_singleton_self _)
  have hlength := congrArg List.length hbytes
  rw [l1Message_length, List.length_nil] at hlength
  omega

end Example

end TestMac
