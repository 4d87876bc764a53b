import TestMac.Mac.LoadMode
import TestMac.Mac.LoadSteps
import TestMac.Mac.OwnRows

/-!
# Runs of a test case in load mode

Every entry of the TX_DATA table is transmitted again and again. The data of each
transmission is taken from the place that the test case says as long as the driver finds
that same place for it, since its answer replaces what the test case says. No other cell
may write the rows of the cell meanwhile.
-/

namespace TestMac

open Bytes Act

/-- The size of an entry of `Predefine_Data_Buf`. -/
def predefineDataBufSize : ℕ := 262144

/-- The data sent for TLVs lies within an entry of `Predefine_Data_Buf`. -/
def DataInBuf (env : Env) (calls : ℕ) (tlvs : List L1DataTLV) : Prop :=
  ∀ tc ∈ dataCalls calls tlvs, (env.pcxxDataAlloc tc.2).isSome = true →
    tc.1.value + tc.1.length ≤ predefineDataBufSize

/-- The TLVs of all entries of a table, and the lengths of their messages, are those of
the table that was loaded. -/
def AsLoaded (loaded table : SlotTable Mem) : Prop :=
  ∀ i < 4, ∀ j < 20, txTLVs (table i j) 8 = txTLVs (loaded i j) 8 ∧
    txLength (table i j) = txLength (loaded i j)

/-- A transmission finds its entry within the table, the message of the entry is shorter
than `2 ^ 32` bytes, and for every TLV with tag 2 the data lies within the buffer and the
driver finds the offset that was loaded for it. -/
def TransmitsInPlace (env : Env) (loaded : SlotTable Mem) : Option Transmission → Prop
  | none => True
  | some x => x.gL2TxGSfn.Slot < 20 ∧ txLength (loaded x.frame x.slot) < 4294967296 ∧
    AllocsConfigured env x.calls (txTLVs (loaded x.frame x.slot) 8) ∧
    DataInBuf env x.calls (txTLVs (loaded x.frame x.slot) 8)

/-- The data of a transmission is taken from the buffer of its entry, from the offsets that
were loaded, and lies within it. -/
def SendsConfigured (env : Env) (loaded : SlotTable Mem) (data data' : List CellEvent) :
    Option Transmission → Prop
  | none => data' = data
  | some x => DataInBuf env x.calls (txTLVs (loaded x.frame x.slot) 8) ∧
    data' = data ++ configuredData env (env.predefineDataBuf x.frame x.slot) x.calls
      (txTLVs (loaded x.frame x.slot) 8)

variable {env : Env} {loaded : SlotTable Mem} {s : TxState}

/-- All events of configured data are of data. -/
theorem filter_configuredData {buf : Mem} {calls : ℕ} {tlvs : List L1DataTLV} :
    (configuredData env buf calls tlvs).filter CellEvent.isData =
      configuredData env buf calls tlvs := by
  rw [List.filter_eq_self]
  intro e he
  obtain ⟨tc, -, he⟩ := List.mem_filterMap.mp he
  obtain ⟨dest, -, rfl⟩ := Option.map_eq_some_iff.mp he
  rfl

/-- The frame number and the slot in front of a request are no part of its TLVs. -/
theorem pduTLVs_stamp {row : Mem} {sfn slot numPDUs : ℕ} :
    pduTLVs (stamp row 8 sfn slot) 8 numPDUs offsetofPdus = pduTLVs row 8 numPDUs offsetofPdus :=
  pduTLVs_congr fun a ha => stamp_of_not_mem (.inr (by simp [offsetofPdus] at ha; omega))

/-- The walk of a request whose TLVs are given the offsets that stand in them. -/
theorem txWalk_kept {src : PayloadSource} {row : Mem} {sfn slot calls : ℕ}
    (hload : src.pdschMode = .loadMode) (hlen : txLength row < 4294967296)
    (halloc : AllocsConfigured src.env calls (txTLVs row 8)) :
    (txWalk src row sfn slot calls).2.events =
      configuredData src.env src.dataBuf calls (txTLVs row 8) ∧
    txTLVs (txWalk src row sfn slot calls).2.row 8 = txTLVs row 8 := by
  have hoff : offsetofPdus = 8 := rfl
  have hend : pduEnd (stamp row 8 sfn slot) 8 (rd16 row 12) offsetofPdus < 4294967296 := by
    rw [pduEnd_stamp]
    exact (Nat.le_add_right _ _).trans_lt hlen
  have htlvs : pduTLVs (stamp row 8 sfn slot) 8 (rd16 row 12) offsetofPdus = txTLVs row 8 :=
    pduTLVs_stamp
  rw [← htlvs] at halloc ⊢
  obtain ⟨hevents, hkept⟩ := walkPdus_kept hload hend halloc
  refine ⟨hevents, ?_⟩
  have hbefore : ∀ a, a < 8 + offsetofPdus →
      (txWalk src row sfn slot calls).2.row a = stamp row 8 sfn slot a :=
    (walkPdus_spec hend).2.1
  have hstamp : rd16 (stamp row 8 sfn slot) (8 + 4) = rd16 row 12 := rd16_stamp
  have hnum : rd16 (txWalk src row sfn slot calls).2.row (8 + 4) = rd16 row 12 := by
    rw [← hstamp]
    exact rd16_congr fun a ha ha' => hbefore a (by omega)
  rw [txTLVs, hnum]
  exact hkept

/-- A transmission in place sends the configured data and leaves the TLVs as they were loaded. -/
theorem TxState.after_inPlace (hload : s.pdschMode = .loadMode)
    (htable : AsLoaded loaded s.gL1TXDATAREQ)
    {x : Option Transmission} (hx : TransmitsInPlace env loaded x) :
    AsLoaded loaded (s.after env x).gL1TXDATAREQ ∧
      SendsConfigured env loaded s.data (s.after env x).data x := by
  cases x with
  | none => exact ⟨htable, rfl⟩
  | some x =>
    obtain ⟨hslot, hlen, halloc, hbuf⟩ := hx
    have hbyte : x.slot = x.gL2TxGSfn.Slot := Nat.mod_eq_of_lt (by omega)
    have hlt : x.slot < 20 := by omega
    obtain ⟨htlvs, hlength⟩ := htable x.frame (sfnWindow_lt _) x.slot hlt
    rw [← hlength] at hlen
    rw [← htlvs] at halloc
    obtain ⟨hevents, hkept⟩ : (s.walk env x).events = configuredData env
        (env.predefineDataBuf (sfnWindow x.gL2TxGSfn.SFN) x.gL2TxGSfn.Slot) x.calls
          (txTLVs (s.gL1TXDATAREQ x.frame x.slot) 8) ∧
        txTLVs (s.walk env x).row 8 = txTLVs (s.gL1TXDATAREQ x.frame x.slot) 8 :=
      txWalk_kept hload hlen halloc
    refine ⟨?_, hbuf, ?_⟩
    · intro i hi j hj
      by_cases hentry : i = x.frame ∧ j = x.slot
      · obtain ⟨rfl, rfl⟩ := hentry
        have hsame : txLength (s.walk env x).row = txLength (s.gL1TXDATAREQ x.frame x.slot) :=
          (txWalk_spec hlen).2.2
        rw [after_gL1TXDATAREQ, SlotTable.set_same, hkept, hsame]
        exact ⟨htlvs, hlength⟩
      · rw [after_gL1TXDATAREQ, SlotTable.set_other (rowIndex_ne hlt hj hentry)]
        exact htable i hi j hj
    · rw [after_data, hevents, filter_configuredData, htlvs, hbyte]
      rfl

section Run

variable {w : World} {dev cell : ℕ}

/-- What an input transmits from a cell. -/
def Input.transmission (w : World) (dev cell : ℕ) (m : Mac) (i : Input) : Option Transmission :=
  (i.atCell w m.cellNum dev cell).bind ((m.cells dev cell).transmission (w.env dev cell))

/-- Every input stays in the rows of the cells that it reaches. None loads another test case
for the cell, which is one of the process, and what it transmits is transmitted in place. -/
def StaysInPlace (w : World) (dev cell : ℕ) (loaded : SlotTable Mem) (m : Mac) (i : Input) : Prop :=
  cell < macMaxCellNum ∧ i.InRows w m ∧
    (∀ files, i.atCell w m.cellNum dev cell ≠ some (.txCase files)) ∧
    TransmitsInPlace (w.env dev cell) loaded (i.transmission w dev cell m)

/-- What an input sends from a cell is the configured data, whatever comes of it. -/
def StepSendsConfigured (w : World) (dev cell : ℕ) (loaded : SlotTable Mem) (m : Mac) (i : Input) :
    Prop :=
  ∀ m', Handles w m i m' → SendsConfigured (w.env dev cell) loaded
    (m.cells dev cell).txState.data (m'.cells dev cell).txState.data (i.transmission w dev cell m)

/-- A cell that runs a test case in load mode, with the TLVs that were loaded. -/
structure RunsLoaded (loaded : SlotTable Mem) (c : Cell) : Prop where
  generator : c.ctx.runMode = .fapiGenerator
  loadMode : c.ctx.pdschMode = .loadMode
  table : AsLoaded loaded c.tables.gL1TXDATAREQ

/-- The entries of a table are those of its first rows. -/
theorem AsLoaded.congr {table table' : SlotTable Mem} (h : AsLoaded loaded table)
    (hrows : ∀ k < ownRows, table'.rows k = table.rows k) : AsLoaded loaded table' := by
  intro i hi j hj
  have hplace : rowIndex i j < ownRows := by
    unfold rowIndex ownRows
    omega
  rw [← table'.rows_rowIndex, hrows _ hplace]
  exact h i hi j hj

/-- What is handled by a cell that runs a test case changes it by what is transmitted. -/
theorem RunsLoaded.handled {c c' : Cell} {ci : CellInput} (hcell : RunsLoaded loaded c)
    (hload : ∀ files, ci ≠ .txCase files)
    (hx : TransmitsInPlace (w.env dev cell) loaded (c.transmission (w.env dev cell) ci))
    (h : cellAction (w.env dev cell) ci c = some ((), c')) :
    RunsLoaded loaded c' ∧ SendsConfigured (w.env dev cell) loaded c.txState.data c'.txState.data
      (c.transmission (w.env dev cell) ci) := by
  have hafter := ensures_cellAction hcell.generator hload () _ h
  have hloadMode : c.txState.pdschMode = .loadMode := hcell.loadMode
  have hloaded : AsLoaded loaded c.txState.gL1TXDATAREQ := hcell.table
  obtain ⟨htable, hsends⟩ := TxState.after_inPlace hloadMode hloaded hx
  have hmodes : c'.txState.runMode = c.txState.runMode ∧
      c'.txState.pdschMode = c.txState.pdschMode := by
    rw [hafter]
    exact after_modes
  rw [← hafter] at htable hsends
  exact ⟨⟨hmodes.1.trans hcell.generator, hmodes.2.trans hcell.loadMode, htable⟩, hsends⟩

/-- One input whose transmission is in place. -/
theorem RunsLoaded.step {m m' : Mac} {i : Input} (hcell : RunsLoaded loaded (m.cells dev cell))
    (hi : StaysInPlace w dev cell loaded m i) (h : Handles w m i m') :
    RunsLoaded loaded (m'.cells dev cell) ∧ SendsConfigured (w.env dev cell) loaded
      (m.cells dev cell).txState.data (m'.cells dev cell).txState.data
      (i.transmission w dev cell m) := by
  obtain ⟨hproc, hrows, hload, hx⟩ := hi
  have hhandled := h.atCell dev cell
  unfold Input.transmission at hx ⊢
  cases hat : i.atCell w m.cellNum dev cell with
  | none =>
    rw [hat] at hhandled
    have hctx := own_ctx hhandled
    refine ⟨⟨?_, ?_, hcell.table.congr (h.sameOwn hrows hproc hat).txdata⟩, ?_⟩
    · rw [hctx]
      exact hcell.generator
    · rw [hctx]
      exact hcell.loadMode
    · exact congrArg (List.filter CellEvent.isData) (own_log hhandled)
  | some ci =>
    rw [hat] at hhandled hload hx
    exact hcell.handled (fun files hci => hload files (congrArg some hci)) hx hhandled

end Run

/-- In every run of a test case in load mode whose transmissions are all in place, every
transmission sends the data that was configured, and the table has the TLVs that were
loaded afterwards. -/
theorem load_mode_transmissions (w : World) (dev cell : ℕ) (m m' : Mac) (is : List Input)
    (hgen : (m.cells dev cell).ctx.runMode = .fapiGenerator)
    (hload : (m.cells dev cell).ctx.pdschMode = .loadMode) (hrun : Steps (Handles w) m is m')
    (hmeets : Steps.Meets (Handles w)
      (StaysInPlace w dev cell (m.cells dev cell).tables.gL1TXDATAREQ) m is) :
    AsLoaded (m.cells dev cell).tables.gL1TXDATAREQ (m'.cells dev cell).tables.gL1TXDATAREQ ∧
      Steps.Meets (Handles w)
        (StepSendsConfigured w dev cell (m.cells dev cell).tables.gL1TXDATAREQ) m is := by
  have hstart : RunsLoaded (m.cells dev cell).tables.gL1TXDATAREQ (m.cells dev cell) :=
    ⟨hgen, hload, fun _ _ _ _ => ⟨rfl, rfl⟩⟩
  have hend : ∀ {js : List Input} {m₁ : Mac}, Steps (Handles w) m js m₁ →
      Steps.Meets (Handles w)
        (StaysInPlace w dev cell (m.cells dev cell).tables.gL1TXDATAREQ) m js →
      RunsLoaded (m.cells dev cell).tables.gL1TXDATAREQ (m₁.cells dev cell) := by
    intro js m₁ hpath hjs
    exact hpath.invariant (fun m₂ => RunsLoaded _ (m₂.cells dev cell))
      (fun hcell hi h => (hcell.step hi h).1) hjs hstart
  refine ⟨(hend hrun hmeets).table, ?_⟩
  intro js i ks m₁ hsplit hpath m₂ h
  have hin := hmeets js i ks m₁ hsplit hpath
  rw [hsplit] at hmeets
  exact ((hend hpath hmeets.left).step hin h).2

section Example

/-- A cell in load mode whose requests have one TLV each, with data at the offset 0. -/
def loadMac : Mac :=
  let onePdu := onePduCell 24
  { restingMac .auto 0 with
    cells := .alike { onePdu with ctx := { onePdu.ctx with pdschMode := .loadMode } } }

/-- A driver that finds the same offset for all data, and buffers that hold 1 up to the
offset 64 and 2 behind it. -/
def loadWorld (dest : ℕ) : World where
  env dev cell := { readyWorld.env dev cell with
    pcxxDataAlloc := fun _ => some dest
    predefineDataBuf := fun _ _ a => if a < 64 then 1 else 2 }
  files := readyWorld.files

/-- The command to transmit the entry of frame 0 and slot 3. -/
def transmitThree : Input := .appMsg ⟨appTcTxCase, 0, 3, 0, 0⟩

theorem atCell_transmitThree {w : World} {n : ℕ} :
    transmitThree.atCell w n 0 0 = some (.tcTxCase 0 3) := rfl

theorem loadMac_tlvs (i j : ℕ) :
    txTLVs ((loadMac.cells 0 0).tables.gL1TXDATAREQ i j) 8 = [⟨2, 4, 0⟩] :=
  (by decide +kernel : txTLVs (onePduRow 24) 8 = [⟨2, 4, 0⟩])

theorem transmission_transmitThree {dest : ℕ} {m : Mac} :
    transmitThree.transmission (loadWorld dest) 0 0 m = some ⟨⟨0, 3⟩,
      (m.cells 0 0).clock.gMacTxRfn, (m.cells 0 0).clock.gMacTxSlot, (m.cells 0 0).calls + 4⟩ := by
  rw [Input.transmission, atCell_transmitThree]
  rfl

/-- The command reaches the first cell only, and stays in its rows. -/
theorem inRows_transmitThree (w : World) (m : Mac) : transmitThree.InRows w m := by
  intro dev cell ci hci
  have haddressed : CtrlMsg.addressed w 0 ⟨appTcTxCase, 0, 3, 0, 0⟩ = some (.tcTxCase 0 3) := rfl
  rw [transmitThree, Input.atCell, CtrlMsg.atCell_of_addressed m.cellNum haddressed] at hci
  split_ifs at hci with hcell
  obtain rfl := Option.some.inj hci
  refine ⟨by rw [← hcell.2]; decide, ?_, ?_⟩
  · intro g hg
    obtain rfl := Option.some.inj hg
    decide
  · intro files hload
    cases hload

theorem load_mode_transmissions_twice :
    ∃ m', Steps (Handles (loadWorld 0)) loadMac [transmitThree, transmitThree] m' ∧
      AsLoaded (loadMac.cells 0 0).tables.gL1TXDATAREQ (m'.cells 0 0).tables.gL1TXDATAREQ ∧
      Steps.Meets (Handles (loadWorld 0))
        (StepSendsConfigured (loadWorld 0) 0 0 (loadMac.cells 0 0).tables.gL1TXDATAREQ) loadMac
        [transmitThree, transmitThree] := by
  have hruns : (runInputs (loadWorld 0) (fun _ _ => True) loadMac
      [transmitThree, transmitThree]).isSome = true := by
    decide +kernel
  obtain ⟨m', hm'⟩ := Option.isSome_iff_exists.mp hruns
  obtain ⟨hrun, -⟩ := path_of_runInputs hm'
  refine ⟨m', hrun, load_mode_transmissions (loadWorld 0) 0 0 loadMac m' _ rfl rfl hrun ?_⟩
  intro js i ks m hsplit _
  have hi : i = transmitThree := by
    have hmem : i ∈ [transmitThree, transmitThree] := by simp [hsplit]
    simpa using hmem
  rw [hi, StaysInPlace, atCell_transmitThree, transmission_transmitThree]
  have hlen : txLength (onePduRow 24) < 4294967296 := by decide +kernel
  refine ⟨by decide, inRows_transmitThree _ m,
    fun files h => CellInput.noConfusion (Option.some.inj h), (by decide : 3 < 20), hlen, ?_, ?_⟩
  · rw [loadMac_tlvs, AllocsConfigured, dataCalls_data rfl]
    simp [dataCalls, loadWorld]
  · rw [loadMac_tlvs, DataInBuf, dataCalls_data rfl]
    simp [dataCalls, predefineDataBufSize]

/-- A driver that finds the offset 64 leaves it in the TLV, and the second transmission of
the entry sends what stands there. -/
theorem load_mode_offset_overwritten : ∃ m₁ m₂, Handles (loadWorld 64) loadMac transmitThree m₁ ∧
    Handles (loadWorld 64) m₁ transmitThree m₂ ∧
    ¬ AsLoaded (loadMac.cells 0 0).tables.gL1TXDATAREQ (m₁.cells 0 0).tables.gL1TXDATAREQ ∧
    ¬ SendsConfigured ((loadWorld 64).env 0 0) (loadMac.cells 0 0).tables.gL1TXDATAREQ
      (m₁.cells 0 0).txState.data (m₂.cells 0 0).txState.data
      (transmitThree.transmission (loadWorld 64) 0 0 m₁) := by
  have hfirst : (handle (loadWorld 64) transmitThree loadMac).map (fun r =>
      (txTLVs ((r.2.cells 0 0).tables.gL1TXDATAREQ 0 3) 8, (r.2.cells 0 0).txState.data)) =
      some ([⟨2, 4, 64⟩], [.dataSent 64 [1, 1, 1, 1]]) := by
    decide +kernel
  have hsecond : ((handle (loadWorld 64) transmitThree loadMac).bind fun r =>
      (handle (loadWorld 64) transmitThree r.2).map fun r => (r.2.cells 0 0).txState.data) =
      some [.dataSent 64 [1, 1, 1, 1], .dataSent 64 [2, 2, 2, 2]] := by
    decide +kernel
  obtain ⟨⟨⟨⟩, m₁⟩, hm₁, hseen⟩ := Option.map_eq_some_iff.mp hfirst
  rw [hm₁, Option.bind_some] at hsecond
  obtain ⟨⟨⟨⟩, m₂⟩, hm₂, hdata₂⟩ := Option.map_eq_some_iff.mp hsecond
  obtain ⟨htlvs, hdata₁⟩ := Prod.mk.inj hseen
  refine ⟨m₁, m₂, hm₁, hm₂, ?_, ?_⟩
  · intro hloaded
    have hentry := (hloaded 0 (by decide) 3 (by decide)).1
    rw [htlvs, loadMac_tlvs] at hentry
    exact absurd hentry (by decide)
  · rw [hdata₁, hdata₂, transmission_transmitThree, SendsConfigured]
    rintro ⟨-, hdata⟩
    rw [loadMac_tlvs, configuredData, dataCalls_data rfl] at hdata
    simp [dataCalls, loadWorld] at hdata
    exact absurd hdata (by decide)

end Example

end TestMac
