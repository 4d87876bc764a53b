import TestMac.Mac.Handling
import TestMac.Mac.Refines

/-!
# Runs of the MAC

Every input reaches a cell in one way at most, also the commands that loop over
the cells of a device. A cell that it does not reach keeps what is its own; its rows may
be written by a cell in front of it. A run of the MAC is therefore, for every single cell,
a run of the control machine.
-/

namespace TestMac

open Act

/-- An input is handled, and no assertion fails. -/
def Handles (w : World) (m : Mac) (i : Input) (m' : Mac) : Prop := handle w i m = some ((), m')

/-- What a command does to the cell it is addressed to. -/
def CtrlMsg.addressed (w : World) (cell : ℕ) (msg : CtrlMsg) : Option CellInput :=
  if msg.msgId = appTcConfigCase then some .tcConfigCase
  else if msg.msgId = appTcDlCase then some (.tcDlCase msg.para0 msg.para1)
  else if msg.msgId = appTcUlCase then some (.tcUlCase msg.para0 msg.para1)
  else if msg.msgId = appTcTxCase then some (.tcTxCase msg.para0 msg.para1)
  else if msg.msgId = appTxCase then some (.txCase (w.files (msg.para0 % 65536) cell))
  else none

/-- What a command does to a cell, given the number of cells. Two commands are for
all cells of a device. -/
def CtrlMsg.atCell (w : World) (cellNum dev cell : ℕ) (msg : CtrlMsg) : Option CellInput :=
  if msg.msgId = appTcStop then
    if msg.devIndex = dev ∧ cell < cellNum then some .tcStop else none
  else if msg.msgId = appStartTest then
    if msg.devIndex = dev ∧ cell < cellNum then some .startTest else none
  else if msg.devIndex = dev ∧ msg.cellId = cell then msg.addressed w cell
  else none

/-- What an input does to a cell, given the number of cells. -/
def Input.atCell (w : World) (cellNum dev cell : ℕ) : Input → Option CellInput
  | .appMsg msg => msg.atCell w cellNum dev cell
  | .cfgResponse dev' cell' errorCode =>
    if dev' = dev ∧ cell' = cell then some (.cfgResponse errorCode) else none
  | .errorIndication dev' cell' messageId errorCode =>
    if dev' = dev ∧ cell' = cell then some (.errorIndication messageId errorCode) else none
  | .stopIndication dev' cell' => if dev' = dev ∧ cell' = cell then some .stopIndication else none
  | .slotIndication dev' cell' slotInd =>
    if dev' = dev ∧ cell' = cell then some (.slotIndication slotInd) else none

/-- A cell handles what reaches it, and keeps what is its own when nothing does. -/
def CellHandles (env : Env) : Option CellInput → Cell → Cell → Prop
  | none, c, c' => c'.own = c.own
  | some i, c, c' => cellAction env i c = some ((), c')

/-- Every cell handles what reaches it, and one cell at most writes rows. -/
structure Reaches (w : World) (reach : ℕ → ℕ → Option CellInput) (m m' : Mac) : Prop where
  cells (dev cell : ℕ) :
    CellHandles (w.env dev cell) (reach dev cell) (m.cells dev cell) (m'.cells dev cell)
  rows : m'.cells.rows = m.cells.rows ∨ ∃ dev cell, reach dev cell ≠ none ∧
    m'.cells.rows = m.cells.rows.put (firstRow dev cell) (m'.cells dev cell).tables.toTcRows

/-- The rows that a cell sees are kept. -/
def KeepsRows (c c' : Cell) : Prop := c'.tables.toTcRows = c.tables.toTcRows

theorem keepsRows_handling : Handling KeepsRows where
  sending _ :=
    { refl := fun _ => rfl
      trans := fun h h' => h'.trans h
      calls := fun _ _ => rfl
      ctxt := fun _ _ => rfl
      sent := fun _ _ _ _ => rfl }
  state _ _ := rfl
  schState _ _ := rfl
  clock _ _ := rfl
  event _ _ _ := rfl

variable {w : World} {dev cell : ℕ}

/-- An action of one cell, seen by any cell. -/
theorem ensures_onCell (dev cell : ℕ) {dev' cell' : ℕ} {x : CellM Unit} {m : Mac} :
    Ensures (onCell dev' cell' x) m fun _ m' => m'.cellNum = m.cellNum ∧
      (dev' = dev ∧ cell' = cell → x (m.cells dev cell) = some ((), m'.cells dev cell)) ∧
      (¬ (dev' = dev ∧ cell' = cell) → (m'.cells dev cell).own = (m.cells dev cell).own) := by
  rw [onCell, ensures_lift]
  intro _ c hx
  refine ⟨rfl, ?_, ?_⟩
  · rintro ⟨rfl, rfl⟩
    simpa using hx
  · intro hne
    exact cells_set_own fun h => hne ⟨h.1.symm, h.2.symm⟩

/-- An action of one cell that keeps the rows leaves the other cells alone. -/
theorem ensures_onCell_rows {dev' cell' : ℕ} {x : CellM Unit} {m : Mac} (hx : Within KeepsRows x)
    (h : ¬ (dev' = dev ∧ cell' = cell)) :
    Ensures (onCell dev' cell' x) m fun _ m' => m'.cells dev cell = m.cells dev cell := by
  rw [onCell, ensures_lift]
  refine (hx _).mono ?_
  intro _ c hrows
  exact cells_set_other hrows fun h' => h ⟨h'.1.symm, h'.2.symm⟩

theorem ensures_forEach_rows {dev' : ℕ} {x : ℕ → CellM Unit}
    (hx : ∀ cell, Within KeepsRows (x cell)) (cs : List ℕ) (m : Mac) :
    Ensures (forEach (fun cell' => onCell dev' cell' (x cell')) cs) m fun _ m' =>
      m'.cells.rows = m.cells.rows := by
  induction cs generalizing m with
  | nil => simp [forEach]
  | cons k cs ih =>
    rw [forEach, ensures_bind, onCell, ensures_lift]
    refine (hx k _).mono ?_
    intro _ c hrows
    refine (ih _).mono ?_
    intro _ m' hm'
    exact hm'.trans (cells_set_rows hrows)

/-- An action of one cell, as what reaches the cells. -/
theorem reaches_onCell {dev' cell' : ℕ} {x : CellM Unit} {i : CellInput} {m : Mac}
    (hx : x = cellAction (w.env dev' cell') i) :
    Ensures (onCell dev' cell' x) m fun _ m' =>
      Reaches w (fun dev cell => if dev' = dev ∧ cell' = cell then some i else none) m m' := by
  intro _ m' hrun
  constructor
  · intro dev cell
    obtain ⟨-, hsame, hother⟩ := ensures_onCell dev cell _ _ hrun
    by_cases hcell : dev' = dev ∧ cell' = cell
    · rw [if_pos hcell]
      obtain ⟨rfl, rfl⟩ := hcell
      rw [CellHandles, ← hx]
      exact hsame ⟨rfl, rfl⟩
    · rw [if_neg hcell]
      exact hother hcell
  · have hrows : Ensures (onCell dev' cell' x) m fun _ m' => m'.cells.rows =
        m.cells.rows.put (firstRow dev' cell') (m'.cells dev' cell').tables.toTcRows := by
      rw [onCell, ensures_lift]
      intro _ c _
      rw [cells_set_same]
      rfl
    exact .inr ⟨dev', cell', by simp, hrows _ _ hrun⟩

/-- The loop over some cells, each of which keeps the rows, seen by any cell. -/
theorem ensures_forEach_onCell (dev cell : ℕ) {dev' : ℕ} {x : ℕ → CellM Unit}
    (hx : ∀ cell, Within KeepsRows (x cell)) {cs : List ℕ} (hnodup : cs.Nodup) (m : Mac) :
    Ensures (forEach (fun cell' => onCell dev' cell' (x cell')) cs) m fun _ m' =>
      (dev' = dev ∧ cell ∈ cs → x cell (m.cells dev cell) = some ((), m'.cells dev cell)) ∧
      (¬ (dev' = dev ∧ cell ∈ cs) → m'.cells dev cell = m.cells dev cell) := by
  induction cs generalizing m with
  | nil => simp [forEach]
  | cons k cs ih =>
    obtain ⟨hk, hcs⟩ := List.nodup_cons.mp hnodup
    rw [forEach, ensures_bind]
    by_cases hcell : dev' = dev ∧ k = cell
    · refine (ensures_onCell dev cell).mono ?_
      intro _ m₁ hm₁
      refine (ih hcs m₁).mono ?_
      intro _ m₂ hm₂
      obtain ⟨-, hsame, -⟩ := hm₁
      obtain ⟨hin, hout⟩ := hm₂
      have hnot : ¬ (dev' = dev ∧ cell ∈ cs) := by
        rintro ⟨-, hmem⟩
        exact hk (hcell.2 ▸ hmem)
      rw [hout hnot]
      have hrun := hsame hcell
      rw [hcell.2] at hrun
      exact ⟨fun _ => hrun, fun hne => absurd ⟨hcell.1, by simp [hcell.2]⟩ hne⟩
    · refine (ensures_onCell_rows (hx k) hcell).mono ?_
      intro _ m₁ hother
      refine (ih hcs m₁).mono ?_
      intro _ m₂ hm₂
      rw [← hother]
      have hmem : dev' = dev ∧ cell ∈ k :: cs ↔ dev' = dev ∧ cell ∈ cs := by
        constructor
        · rintro ⟨hdev, hmem⟩
          rcases List.mem_cons.mp hmem with hk' | hmem
          · exact absurd ⟨hdev, hk'.symm⟩ hcell
          · exact ⟨hdev, hmem⟩
        · rintro ⟨hdev, hmem⟩
          exact ⟨hdev, List.mem_cons_of_mem k hmem⟩
      rw [hmem]
      exact hm₂

/-- The commands for all cells of a device, as what reaches the cells. -/
theorem reaches_onCells {dev' : ℕ} {x : ℕ → CellM Unit} {i : CellInput} {m : Mac}
    (hx : ∀ cell, x cell = cellAction (w.env dev' cell) i) (hi : i = .tcStop ∨ i = .startTest) :
    Ensures (onCells dev' x) m fun _ m' =>
      Reaches w (fun dev cell => if dev' = dev ∧ cell < m.cellNum then some i else none) m m' := by
  have hrows : ∀ cell, Within KeepsRows (x cell) := by
    intro cell
    rw [hx cell]
    rcases hi with rfl | rfl
    · exact keepsRows_handling.tcStop
    · exact keepsRows_handling.startTest
  rw [onCells, ensures_bind, ensures_read]
  intro _ m' hrun
  refine ⟨fun dev cell => ?_, .inl (ensures_forEach_rows hrows _ m _ _ hrun)⟩
  obtain ⟨hsame, hother⟩ := ensures_forEach_onCell dev cell hrows List.nodup_range m _ _ hrun
  rw [List.mem_range] at hsame hother
  by_cases hcell : dev' = dev ∧ cell < m.cellNum
  · rw [if_pos hcell, CellHandles, ← hcell.1, ← hx, hcell.1]
    exact hsame hcell
  · rw [if_neg hcell, hother hcell]
    exact rfl

/-- A command for one cell is none of the two for all cells. -/
theorem CtrlMsg.atCell_of_addressed {msg : CtrlMsg} {i : CellInput} (cellNum : ℕ)
    (hi : msg.addressed w msg.cellId = some i) :
    msg.atCell w cellNum dev cell =
      if msg.devIndex = dev ∧ msg.cellId = cell then some i else none := by
  have hstop : msg.msgId ≠ appTcStop := by
    intro h
    simp [CtrlMsg.addressed, h, appTcStop, appTcConfigCase, appTcDlCase, appTcUlCase, appTcTxCase,
      appTxCase] at hi
  have hstart : msg.msgId ≠ appStartTest := by
    intro h
    simp [CtrlMsg.addressed, h, appStartTest, appTcConfigCase, appTcDlCase, appTcUlCase,
      appTcTxCase, appTxCase] at hi
  rw [CtrlMsg.atCell, if_neg hstop, if_neg hstart]
  split_ifs with hcell
  · rw [← hcell.2, hi]
  · rfl

theorem reaches_addressed {msg : CtrlMsg} {x : CellM Unit} {i : CellInput} {m : Mac}
    (hx : x = cellAction (w.env msg.devIndex msg.cellId) i)
    (hi : msg.addressed w msg.cellId = some i) :
    Ensures (do onCell msg.devIndex msg.cellId x; pure (0 : ℤ)) m fun _ m' =>
      Reaches w (fun dev cell => msg.atCell w m.cellNum dev cell) m m' := by
  simp only [CtrlMsg.atCell_of_addressed m.cellNum hi, ensures_bind, ensures_pure]
  exact reaches_onCell hx

/-- A test case is loaded and switched, after the numbers of cells have been set. -/
theorem reaches_recvTxCase {msg : CtrlMsg} {m : Mac} (h : msg.msgId = appTxCase) :
    Ensures (recvTxCase w msg) m fun _ m' =>
      Reaches w (fun dev cell => msg.atCell w m.cellNum dev cell) m m' := by
  have hi : msg.addressed w msg.cellId =
      some (.txCase (w.files (msg.para0 % 65536) msg.cellId)) := by
    simp [CtrlMsg.addressed, h, appTxCase, appTcConfigCase, appTcDlCase, appTcUlCase, appTcTxCase]
  simp only [CtrlMsg.atCell_of_addressed m.cellNum hi]
  -- the numbers of cells are no part of what reaches a cell
  have hcells : ∀ {m₁ : Mac}, m₁.cells = m.cells →
      Ensures (onCell msg.devIndex msg.cellId (txCase (w.env msg.devIndex msg.cellId)
        (w.files (msg.para0 % 65536) msg.cellId))) m₁ fun _ m' =>
      Reaches w (fun dev cell => if msg.devIndex = dev ∧ msg.cellId = cell then
        some (.txCase (w.files (msg.para0 % 65536) msg.cellId)) else none) m m' := by
    intro m₁ hm₁ r m' hrun
    obtain ⟨hall, hrows⟩ := reaches_onCell (i := .txCase _) rfl r m' hrun
    rw [hm₁] at hall hrows
    exact ⟨hall, hrows⟩
  unfold recvTxCase
  simp only [ensures_bind, ensures_when, ensures_update]
  exact ⟨fun _ => hcells rfl, fun _ => hcells rfl⟩

theorem CtrlMsg.reaches_atCell (msg : CtrlMsg) (m : Mac) :
    Ensures (appMgrMsgqHRecv w msg) m fun _ m' =>
      Reaches w (fun dev cell => msg.atCell w m.cellNum dev cell) m m' := by
  unfold appMgrMsgqHRecv
  split_ifs with h₁ h₂ h₃ h₄ h₅ h₆ h₇
  · have hi : msg.addressed w msg.cellId = some .tcConfigCase := by
      rw [CtrlMsg.addressed, if_pos h₁]
    exact reaches_addressed rfl hi
  · have hi : msg.addressed w msg.cellId = some (.tcDlCase msg.para0 msg.para1) := by
      rw [CtrlMsg.addressed, if_neg h₁, if_pos h₂]
    exact reaches_addressed rfl hi
  · have hi : msg.addressed w msg.cellId = some (.tcUlCase msg.para0 msg.para1) := by
      rw [CtrlMsg.addressed, if_neg h₁, if_neg h₂, if_pos h₃]
    exact reaches_addressed rfl hi
  · have hi : msg.addressed w msg.cellId = some (.tcTxCase msg.para0 msg.para1) := by
      rw [CtrlMsg.addressed, if_neg h₁, if_neg h₂, if_neg h₃, if_pos h₄]
    exact reaches_addressed rfl hi
  · simp only [ensures_bind, ensures_pure]
    exact reaches_recvTxCase h₅
  · simp only [CtrlMsg.atCell, if_pos h₆, ensures_bind, ensures_pure]
    exact reaches_onCells (fun _ => rfl) (.inl rfl)
  · simp only [CtrlMsg.atCell, if_neg h₆, if_pos h₇, ensures_bind, ensures_update, ensures_pure]
    intro r m' hrun
    obtain ⟨hall, hrows⟩ := reaches_onCells (fun _ => rfl) (.inr rfl) r m' hrun
    exact ⟨hall, hrows⟩
  · simp only [CtrlMsg.atCell, if_neg h₆, if_neg h₇, CtrlMsg.addressed, if_neg h₁, if_neg h₂,
      if_neg h₃, if_neg h₄, if_neg h₅, ite_self, ensures_pure]
    exact ⟨fun _ _ => rfl, .inl rfl⟩

/-- Every input reaches a cell in one way at most. -/
theorem Handles.reaches {m m' : Mac} {i : Input} (h : Handles w m i m') :
    Reaches w (fun dev cell => i.atCell w m.cellNum dev cell) m m' := by
  have hall : Ensures (handle w i) m fun _ m' =>
      Reaches w (fun dev cell => i.atCell w m.cellNum dev cell) m m' := by
    cases i with
    | appMsg msg =>
      simp only [handle, ensures_bind, ensures_pure]
      exact msg.reaches_atCell m
    | cfgResponse dev' cell' errorCode => exact reaches_onCell rfl
    | errorIndication dev' cell' messageId errorCode => exact reaches_onCell rfl
    | stopIndication dev' cell' => exact reaches_onCell rfl
    | slotIndication dev' cell' slotInd => exact reaches_onCell rfl
  exact hall () m' h

theorem Handles.atCell {m m' : Mac} {i : Input} (h : Handles w m i m') (dev cell : ℕ) :
    CellHandles (w.env dev cell) (i.atCell w m.cellNum dev cell) (m.cells dev cell)
      (m'.cells dev cell) :=
  h.reaches.cells dev cell

/-- Every input moves every cell as the control machine says, or leaves it alone. -/
theorem Handles.moves {m m' : Mac} {i : Input} (h : Handles w m i m') (dev cell : ℕ) :
    (i.atCell w m.cellNum dev cell = none ∧
      (m'.cells dev cell).own = (m.cells dev cell).own) ∨
    ∃ ci, i.atCell w m.cellNum dev cell = some ci ∧
      Moves ((m.cells dev cell).control.next ci) ((m.cells dev cell).control.trace ci)
        (m.cells dev cell) (m'.cells dev cell) := by
  have hcell := h.atCell dev cell
  cases hi : i.atCell w m.cellNum dev cell with
  | none =>
    rw [hi] at hcell
    exact .inl ⟨rfl, hcell⟩
  | some ci =>
    rw [hi] at hcell
    exact .inr ⟨ci, rfl, moves_cellAction ci _ () _ hcell⟩

theorem Handles.unique {m m' m'' : Mac} {i : Input} (h : Handles w m i m')
    (h' : Handles w m i m'') : m' = m'' :=
  (Prod.mk.inj (Option.some.inj (h.symm.trans h'))).2

/-- The log of a cell only grows. -/
theorem Handles.log_grows {m m' : Mac} {i : Input} (h : Handles w m i m') (dev cell : ℕ) :
    ∃ es, (m'.cells dev cell).log = (m.cells dev cell).log ++ es := by
  rcases h.moves dev cell with ⟨-, hsame⟩ | ⟨ci, -, -, es, hlog, -⟩
  · exact ⟨[], by rw [own_log hsame, List.append_nil]⟩
  · exact ⟨es, hlog⟩

theorem run_log_grows {m m' : Mac} {is : List Input} (hrun : Steps (Handles w) m is m')
    (dev cell : ℕ) : ∃ es, (m'.cells dev cell).log = (m.cells dev cell).log ++ es := by
  induction hrun with
  | nil => exact ⟨[], by simp⟩
  | cons hs _ ih =>
    obtain ⟨es, hlog⟩ := hs.log_grows dev cell
    obtain ⟨es', hlog'⟩ := ih
    exact ⟨es ++ es', by rw [hlog', hlog, List.append_assoc]⟩

/-- An invariant of what is a cell's own, kept by every move of the control machine that
meets a condition, holds at the end of every run whose steps all meet it. -/
theorem run_invariant {P : Mac → Input → Prop} (Inv : Cell → Prop)
    (hown : ∀ {c c' : Cell}, c'.own = c.own → Inv c → Inv c')
    (hstep : ∀ {m i ci c'}, Inv (m.cells dev cell) → P m i →
      i.atCell w m.cellNum dev cell = some ci →
      Moves ((m.cells dev cell).control.next ci) ((m.cells dev cell).control.trace ci)
        (m.cells dev cell) c' → Inv c')
    {m m' : Mac} {is : List Input} (hrun : Steps (Handles w) m is m')
    (hmeets : Steps.Meets (Handles w) P m is) (hm : Inv (m.cells dev cell)) :
    Inv (m'.cells dev cell) := by
  refine Steps.invariant (fun m => Inv (m.cells dev cell)) ?_ hrun hmeets hm
  intro a l b ha hP hs
  rcases hs.moves dev cell with ⟨-, hsame⟩ | ⟨ci, hci, hmoves⟩
  · exact hown hsame ha
  · exact hstep ha hP hci hmoves

/-- The cells as `macInit` leaves them, before anything has happened. -/
def Mac.Initial (m : Mac) : Prop :=
  ∀ dev cell, (m.cells dev cell).ctx.state = .phyIdle ∧
    (m.cells dev cell).ctx.schState = .schStop ∧ (m.cells dev cell).log = []

/-- Only a slot indication for the cell reaches it as one. -/
theorem atCell_slotIndication {m : Mac} {i : Input} {slotInd : SlotIndication}
    (h : i.atCell w m.cellNum dev cell = some (.slotIndication slotInd)) :
    i = .slotIndication dev cell slotInd := by
  cases i with
  | appMsg msg =>
    simp only [Input.atCell, CtrlMsg.atCell, CtrlMsg.addressed] at h
    split_ifs at h
    all_goals cases h
  | cfgResponse dev' cell' errorCode => simp [Input.atCell] at h
  | errorIndication dev' cell' messageId errorCode => simp [Input.atCell] at h
  | stopIndication dev' cell' => simp [Input.atCell] at h
  | slotIndication dev' cell' slotInd' =>
    simp only [Input.atCell] at h
    split_ifs at h with hcell
    cases h
    rw [hcell.1, hcell.2]

/-- A run computed, as long as its steps meet a condition and no assertion fails. -/
def runInputs (w : World) (P : Mac → Input → Prop) [∀ m i, Decidable (P m i)] :
    Mac → List Input → Option Mac
  | m, [] => some m
  | m, i :: is =>
    if P m i then
      match handle w i m with
      | none => none
      | some (_, m') => runInputs w P m' is
    else none

theorem path_of_runInputs {P : Mac → Input → Prop} [∀ m i, Decidable (P m i)] {m m' : Mac}
    {is : List Input} (h : runInputs w P m is = some m') :
    Steps (Handles w) m is m' ∧ Steps.Meets (Handles w) P m is := by
  induction is generalizing m with
  | nil =>
    cases h
    refine ⟨.nil _, ?_⟩
    intro ms l ns b hls
    simp at hls
  | cons i is ih =>
    rw [runInputs] at h
    split_ifs at h with hP
    match hi : handle w i m with
    | none => simp [hi] at h
    | some ((), m₁) =>
      rw [hi] at h
      obtain ⟨hrun, hmeets⟩ := ih h
      refine ⟨.cons hi hrun, Steps.Meets.cons hP ?_⟩
      intro m₂ hi₂
      rw [Handles, hi] at hi₂
      cases hi₂
      exact hmeets

/-- A cell before anything has happened, with empty tables. -/
def restingCell (operMode : TestMacOperMode) (runttiPerTc : ℕ) : Cell where
  ctx :=
    { runMode := .fapiGenerator, state := .phyIdle, schState := .schStop, operMode := operMode,
      pdschMode := .autoMode, phyStub := false, runttiPerTc := runttiPerTc }
  clock :=
    { gSystemTtiNum := 0, sMacLocalGSfn := ⟨0, 0⟩, gL2TxGSfn := ⟨0, 0⟩, gL2RxGSfn := ⟨0, 0⟩,
      gMacTxRfn := 0, gMacTxSlot := 0, gMacRxRfn := 0, gMacRxSlot := 0 }
  tables :=
    { gL1ConfigRequest := fun _ => 0, gL1ConfigReqSize := 0, gL1DLTTIReq := ⟨fun _ _ => 0⟩,
      gL1DlttiReqSize := ⟨fun _ => 0⟩, gL1ULTTI := ⟨fun _ _ => 0⟩,
      gL1UlttiReqSize := ⟨fun _ => 0⟩, gL1TXDATAREQ := ⟨fun _ _ => 0⟩,
      gL1TxdataReqSize := ⟨fun _ => 0⟩, gcurrentScs := 0 }
  phyCtrlMsgCtxt := { msgNum := 0, curMsgLen := 0, maxRemLen := 0, totalLen := 0 }
  calls := 0
  log := []
  uses := []

/-- One resting cell on every device. -/
def restingMac (operMode : TestMacOperMode) (runttiPerTc : ℕ) : Mac where
  cells := .alike (restingCell operMode runttiPerTc)
  cellNum := 1
  gCellNum := 1
  sTcIdInRunning := 0
  cellUses := []

/-- A driver that accepts everything, and no files. Of an item that a file does not fill,
the library stores what fits in its buffer. -/
def readyWorld : World where
  env _ _ :=
    { pcxxSendStart := fun _ => true
      pcxxCtrlAlloc := fun _ => some 262144
      pcxxCtrlSend := fun _ => true
      pcxxSendEnd := fun _ => true
      pcxxDataAlloc := fun _ => some 0
      macTxEnable := ⟨1, 1, 1⟩
      predefineDataBuf := fun _ _ _ => 0
      rctParams := fun _ _ m => (m, [])
      fread := fun _ _ _ len => if len < 4096 then len else 0
      unsetMask := 20 }
  files _ _ _ := none

theorem restingMac_initial (operMode : TestMacOperMode) (runttiPerTc : ℕ) :
    (restingMac operMode runttiPerTc).Initial :=
  fun _ _ => ⟨rfl, rfl, rfl⟩

end TestMac
