import TestMac.Mac.Runs

/-!
# The control plane of the MAC

The control states of all cells and the number of cells move with every input as a
machine of their own. Neither the answers of the driver nor the tables nor the files of
a test case take part.
-/

namespace TestMac

open Act

/-- The control states of all cells, and the number of cells a device has. -/
structure ControlPlane where
  controls : ℕ → ℕ → Control
  cellNum : ℕ

/-- The control plane in the globals of the MAC. -/
def Mac.controlPlane (m : Mac) : ControlPlane where
  controls dev cell := (m.cells dev cell).control
  cellNum := m.cellNum

/-- The number of cells after an input: a test case may set it. -/
def Input.cellNumAfter (cellNum : ℕ) : Input → ℕ
  | .appMsg msg =>
    if msg.msgId = appTxCase ∧ msg.para1 ≠ 0 ∧ msg.para1 ≤ macMaxCellNum then msg.para1
    else cellNum
  | _ => cellNum

/-- The control plane after an input. -/
def ControlPlane.next (w : World) (s : ControlPlane) (i : Input) : ControlPlane where
  controls dev cell :=
    match i.atCell w s.cellNum dev cell with
    | none => s.controls dev cell
    | some ci => (s.controls dev cell).next ci
  cellNum := i.cellNumAfter s.cellNum

variable {w w' : World}

/-- What a command does to a cell, apart from the files it loads. -/
theorem CtrlMsg.addressed_world (w w' : World) (cell : ℕ) (msg : CtrlMsg) (s : Control) :
    (msg.addressed w cell).map s.next = (msg.addressed w' cell).map s.next := by
  unfold CtrlMsg.addressed
  split_ifs <;> rfl

theorem CtrlMsg.atCell_world (w w' : World) (cellNum dev cell : ℕ) (msg : CtrlMsg) (s : Control) :
    (msg.atCell w cellNum dev cell).map s.next = (msg.atCell w' cellNum dev cell).map s.next := by
  unfold CtrlMsg.atCell
  split_ifs
  · rfl
  · rfl
  · rfl
  · rfl
  · exact CtrlMsg.addressed_world w w' cell msg s
  · rfl

/-- The control plane does not depend on the driver and the files. -/
theorem ControlPlane.next_world (w w' : World) (s : ControlPlane) (i : Input) :
    s.next w i = s.next w' i := by
  have hnext : ∀ (x : World) dev cell, (s.next x i).controls dev cell =
      ((i.atCell x s.cellNum dev cell).map (s.controls dev cell).next).getD
        (s.controls dev cell) := by
    intro x dev cell
    simp only [ControlPlane.next]
    cases i.atCell x s.cellNum dev cell <;> rfl
  have hsame : (s.next w i).controls = (s.next w' i).controls := by
    funext dev cell
    rw [hnext, hnext]
    cases i with
    | appMsg msg =>
      simp only [Input.atCell]
      rw [CtrlMsg.atCell_world w w']
    | _ => rfl
  exact congrArg (fun controls => (⟨controls, i.cellNumAfter s.cellNum⟩ : ControlPlane)) hsame

/-- The actions of cells leave the number of cells alone. -/
theorem ensures_onCell_cellNum {dev cell : ℕ} {x : CellM Unit} {m : Mac} :
    Ensures (onCell dev cell x) m fun _ m' => m'.cellNum = m.cellNum := by
  rw [onCell, ensures_lift]
  exact fun _ _ _ => rfl

theorem ensures_onCells_cellNum {dev : ℕ} {x : ℕ → CellM Unit} {m : Mac} :
    Ensures (onCells dev x) m fun _ m' => m'.cellNum = m.cellNum := by
  rw [onCells, ensures_bind, ensures_read]
  generalize List.range m.cellNum = cells
  induction cells generalizing m with
  | nil => simp [forEach]
  | cons cell cells ih =>
    rw [forEach, ensures_bind]
    refine ensures_onCell_cellNum.mono ?_
    intro _ m₁ hm₁
    rw [← hm₁]
    exact ih

theorem CtrlMsg.ensures_cellNum (msg : CtrlMsg) (m : Mac) :
    Ensures (appMgrMsgqHRecv w msg) m fun _ m' =>
      m'.cellNum = Input.cellNumAfter m.cellNum (.appMsg msg) := by
  have hcell : ∀ {x : CellM Unit}, msg.msgId ≠ appTxCase →
      Ensures (do onCell msg.devIndex msg.cellId x; pure (0 : ℤ)) m fun _ m' =>
        m'.cellNum = Input.cellNumAfter m.cellNum (.appMsg msg) := by
    intro x hne
    simp only [ensures_bind, ensures_pure, Input.cellNumAfter, hne, false_and, if_false]
    exact ensures_onCell_cellNum
  unfold appMgrMsgqHRecv
  split_ifs with h₁ h₂ h₃ h₄ h₅ h₆ h₇
  · exact hcell (by rw [h₁]; decide)
  · exact hcell (by rw [h₂]; decide)
  · exact hcell (by rw [h₃]; decide)
  · exact hcell (by rw [h₄]; decide)
  · simp only [recvTxCase, ensures_bind, ensures_when, ensures_update, ensures_pure,
      Input.cellNumAfter, h₅, true_and]
    constructor
    · intro hset
      rw [if_pos hset]
      exact ensures_onCell_cellNum
    · intro hset
      rw [if_neg hset]
      exact ensures_onCell_cellNum
  · have hne : msg.msgId ≠ appTxCase := h₅
    simp only [ensures_bind, ensures_pure, Input.cellNumAfter, hne, false_and, if_false]
    exact ensures_onCells_cellNum
  · have hne : msg.msgId ≠ appTxCase := h₅
    simp only [ensures_bind, ensures_update, ensures_pure, Input.cellNumAfter, hne, false_and,
      if_false]
    exact ensures_onCells_cellNum
  · have hne : msg.msgId ≠ appTxCase := h₅
    simp only [ensures_pure, Input.cellNumAfter, hne, false_and, if_false]

/-- Every input moves the control plane as the machine says. -/
theorem Handles.controlPlane {m m' : Mac} {i : Input} (h : Handles w m i m') :
    m'.controlPlane = m.controlPlane.next w i := by
  have hcontrols : m'.controlPlane.controls = (m.controlPlane.next w i).controls := by
    funext dev cell
    rcases h.moves dev cell with ⟨hnone, hsame⟩ | ⟨ci, hci, hmoves, -⟩
    · simpa [Mac.controlPlane, ControlPlane.next, hnone] using own_control hsame
    · simpa [Mac.controlPlane, ControlPlane.next, hci] using hmoves
  have hcellNum : m'.cellNum = i.cellNumAfter m.cellNum := by
    have hall : Ensures (handle w i) m fun _ m' => m'.cellNum = i.cellNumAfter m.cellNum := by
      cases i with
      | appMsg msg =>
        simp only [handle, ensures_bind, ensures_pure]
        exact msg.ensures_cellNum m
      | cfgResponse dev cell errorCode => exact ensures_onCell_cellNum
      | errorIndication dev cell messageId errorCode => exact ensures_onCell_cellNum
      | stopIndication dev cell => exact ensures_onCell_cellNum
      | slotIndication dev cell slotInd => exact ensures_onCell_cellNum
    exact hall () m' h
  have hmk : m'.controlPlane = ⟨m'.controlPlane.controls, m'.cellNum⟩ := rfl
  rw [hmk, hcontrols, hcellNum]
  rfl

/-- A run moves the control plane as the machine says, whatever the world answers. -/
theorem run_controlPlane (w' : World) {m m' : Mac} {is : List Input}
    (hrun : Steps (Handles w) m is m') :
    m'.controlPlane = is.foldl (ControlPlane.next w') m.controlPlane := by
  induction hrun with
  | nil => rfl
  | cons hs _ ih => rw [ih, List.foldl_cons, hs.controlPlane, ControlPlane.next_world w w']

end TestMac
