import TestMac.Lib.Copies

/-!
# The serialiser of CONFIG requests: `ConfigReqParams`

The members of a `L1ConfigRequest_t` stand at fixed places, as if all of its lists were
empty. A packed request has its lists in between. The serialiser copies the members and
the lists behind them from their fixed places, except for the tables of beams and of
precoding matrices: the elements of these are copied from as far in the request as the
output has come. The offset it returns is the number of bytes it has written, and is
taken not to pass 2³².
-/

namespace TestMac

open Bytes Block

/-- The loop over the PRACH configurations, with the loop over the FD occasions of each. -/
def prachConfigurations (m : Mem) (configReq : ℕ) : List Block :=
  (List.range (rd16 m (configReq + 68))).flatMap fun i =>
    let prachConfiguration := configReq + 72 + 12 * i
    ⟨prachConfiguration, 12⟩ :: row (prachConfiguration + 12) 16 (rd8 m (prachConfiguration + 6))

/-- The loop over the UCI maps, with the loop over the part 1 parameters of each. -/
def uciMaps (m : Mem) (configReq : ℕ) : List Block :=
  (List.range (rd16 m (configReq + 1288))).flatMap fun i =>
    let mapIndex := configReq + 1292 + 6 * i
    ⟨mapIndex, 6⟩ :: row (mapIndex + 6) 1 (rd8 m mapIndex)

/-- The loops over the CORESET and the PRB-symbol rate match patterns, whose members of
`L1PrbSym_t` share an address. -/
def rateMatchPatterns (m : Mem) (configReq : ℕ) : List Block :=
  row (configReq + 1296) 12 (rd8 m (configReq + 1293)) ++
    row (configReq + 1296) 44 (rd8 m (configReq + 1292))

/-- The loop over the digital beams, with the loop over the baseband ports of each. -/
def digBeams (numBasebandPorts : ℕ) : ℕ → ℕ → List Block
  | 0, _ => []
  | numDigBeams + 1, offset =>
    ⟨offset, 4⟩ :: row (offset + 4) 4 numBasebandPorts ++
      digBeams numBasebandPorts numDigBeams (offset + 4 + 4 * numBasebandPorts)

/-- The loops over the layers of a precoding matrix and over the ports of each layer. -/
def pmLayers (numAntPorts : ℕ) : ℕ → ℕ → List Block
  | 0, _ => []
  | numLayers + 1, offset =>
    row offset 4 numAntPorts ++ pmLayers numAntPorts numLayers (offset + 4 * numAntPorts)

/-- The loop over the precoding matrices. -/
def pmTables (m : Mem) : ℕ → ℕ → List Block
  | 0, _ => []
  | numPMTables + 1, offset =>
    let numLayers := rd16 m (offset + 2)
    let numAntPorts := rd16 m (offset + 4)
    ⟨offset, 8⟩ :: pmLayers numAntPorts numLayers (offset + 8) ++
      pmTables m numPMTables (offset + 8 + 4 * (numLayers * numAntPorts))

/-- The blocks copied up to the PRACH configurations. -/
def upToPrach (m : Mem) (configReq : ℕ) : List Block :=
  ⟨configReq, 72⟩ :: prachConfigurations m configReq

/-- The blocks copied up to the UCI maps: the SSB and the TDD table, the measurement and
the UCI configuration are in between. -/
def upToMaps (m : Mem) (configReq : ℕ) : List Block :=
  upToPrach m configReq ++ ⟨configReq + 72, 88⟩ :: ⟨configReq + 160, 1124⟩ ::
    ⟨configReq + 1284, 4⟩ :: ⟨configReq + 1288, 4⟩ :: uciMaps m configReq

/-- The blocks copied up to the rate match patterns. -/
def upToPatterns (m : Mem) (configReq : ℕ) : List Block :=
  upToMaps m configReq ++ ⟨configReq + 1292, 4⟩ :: rateMatchPatterns m configReq

/-- The blocks copied up to the UL BWPs. -/
def upToBwps (m : Mem) (configReq : ℕ) : List Block :=
  upToPatterns m configReq ++
    ⟨configReq + 1296, 4⟩ :: row (configReq + 1300) 4 (rd8 m (configReq + 1296))

/-- The blocks copied up to the digital beams, with the PDSCH configuration. -/
def upToBeams (m : Mem) (configReq : ℕ) : List Block :=
  let upToDbt := upToBwps m configReq ++ [⟨configReq + 1300, 4⟩, ⟨configReq + 1304, 4⟩]
  upToDbt ++ digBeams (rd16 m (configReq + 1306)) (rd16 m (configReq + 1304))
    (configReq + Block.total upToDbt)

/-- The blocks that `ConfigReqParams` copies. -/
def configBlocks (m : Mem) (configReq : ℕ) : List Block :=
  upToBeams m configReq ++ ⟨configReq + 1308, 4⟩ ::
    pmTables m (rd16 m (configReq + 1308)) (configReq + Block.total (upToBeams m configReq) + 4)

/-- `ConfigReqParams`. -/
def configReqParams (m : Mem) (configReq : ℕ) : List UInt8 := copied m (configBlocks m configReq)

/-- A PRACH configuration by its number of FD occasions: the packed length. -/
def prachLen (prach : List ℕ) : ℕ := (prach.map fun occasions => 12 + 16 * occasions).sum

/-- The memory holds packed PRACH configurations. -/
def PrachAt (m : Mem) : ℕ → List ℕ → Prop
  | _, [] => True
  | a, occasions :: prach => rd8 m (a + 6) = occasions ∧ PrachAt m (a + 12 + 16 * occasions) prach

/-- A UCI map by its number of part 1 parameters: the packed length. -/
def mapsLen (maps : List ℕ) : ℕ := (maps.map fun params => 6 + params).sum

/-- The memory holds packed UCI maps. -/
def MapsAt (m : Mem) : ℕ → List ℕ → Prop
  | _, [] => True
  | a, params :: maps => rd8 m a = params ∧ MapsAt m (a + 6 + params) maps

/-- A precoding matrix by its numbers of layers and ports: the packed length. -/
def matricesLen (matrices : List (ℕ × ℕ)) : ℕ :=
  (matrices.map fun matrix => 8 + 4 * (matrix.1 * matrix.2)).sum

/-- The memory holds packed precoding matrices. -/
def MatricesAt (m : Mem) : ℕ → List (ℕ × ℕ) → Prop
  | _, [] => True
  | a, matrix :: matrices => rd16 m (a + 2) = matrix.1 ∧ rd16 m (a + 4) = matrix.2 ∧
    MatricesAt m (a + 8 + 4 * (matrix.1 * matrix.2)) matrices

/-- The shape of a request: the numbers that give its packed length. -/
structure ConfigShape where
  prach : List ℕ
  maps : List ℕ
  coresetRmPatterns : ℕ
  prbSymbPatterns : ℕ
  ulBwpIds : ℕ
  digBeams : ℕ
  basebandPorts : ℕ
  matrices : List (ℕ × ℕ)

namespace ConfigShape

variable (r : ConfigShape)

/-- The length of the lists up to the UCI maps. -/
def mapsEnd : ℕ := prachLen r.prach + mapsLen r.maps

/-- The length of the lists up to the rate match patterns. -/
def patternsEnd : ℕ := r.mapsEnd + 12 * r.coresetRmPatterns + 44 * r.prbSymbPatterns

/-- The length of the lists up to the UL BWPs. -/
def bwpsEnd : ℕ := r.patternsEnd + 4 * r.ulBwpIds

/-- The length of the lists up to the digital beams. -/
def beamsEnd : ℕ := r.bwpsEnd + r.digBeams * (4 + 4 * r.basebandPorts)

/-- The packed length. -/
def len : ℕ := 1312 + r.beamsEnd + matricesLen r.matrices

/-- The memory holds a packed request of the shape. -/
structure At (m : Mem) (a : ℕ) : Prop where
  numPrachConfigurations : rd16 m (a + 68) = r.prach.length
  prach : PrachAt m (a + 72) r.prach
  numUci2Maps : rd16 m (a + 1288 + prachLen r.prach) = r.maps.length
  maps : MapsAt m (a + 1292 + prachLen r.prach) r.maps
  numberOfPrbSymbRateMatchPatterns : rd8 m (a + 1292 + r.mapsEnd) = r.prbSymbPatterns
  numCoresetRmPatterns : rd8 m (a + 1293 + r.mapsEnd) = r.coresetRmPatterns
  numUlBwpIds : rd8 m (a + 1296 + r.patternsEnd) = r.ulBwpIds
  numDigBeams : rd16 m (a + 1304 + r.bwpsEnd) = r.digBeams
  numBasebandPorts : rd16 m (a + 1306 + r.bwpsEnd) = r.basebandPorts
  numPMTables : rd16 m (a + 1308 + r.beamsEnd) = r.matrices.length
  matrices : MatricesAt m (a + 1312 + r.beamsEnd) r.matrices

/-- The bytes are a packed request of the shape. -/
def Packs (request : List UInt8) : Prop := ∃ m a, r.At m a ∧ slice m a r.len = request

/-- The request has no lists but precoding matrices. -/
structure InPlace : Prop where
  prach : r.prach = []
  maps : r.maps = []
  coresetRmPatterns : r.coresetRmPatterns = 0
  prbSymbPatterns : r.prbSymbPatterns = 0
  ulBwpIds : r.ulBwpIds = 0
  digBeams : r.digBeams = 0

end ConfigShape

variable {m : Mem} {a ports layers n : ℕ} {matrices : List (ℕ × ℕ)} {r : ConfigShape}

theorem matricesLen_cons (matrix : ℕ × ℕ) (matrices : List (ℕ × ℕ)) :
    matricesLen (matrix :: matrices) = 8 + 4 * (matrix.1 * matrix.2) + matricesLen matrices := by
  simp [matricesLen]

@[simp] theorem total_digBeams : Block.total (digBeams ports n a) = n * (4 + 4 * ports) := by
  induction n generalizing a with
  | zero => simp [digBeams]
  | succ n ih =>
    rw [digBeams, List.cons_append, total_cons, total_append, total_row, ih]
    ring

theorem chained_pmLayers : Chained a (pmLayers ports layers a) := by
  induction layers generalizing a with
  | zero => trivial
  | succ layers ih =>
    rw [pmLayers, chained_append, total_row]
    exact ⟨chained_row _ _ _, ih⟩

@[simp] theorem total_pmLayers : Block.total (pmLayers ports layers a) = 4 * (layers * ports) := by
  induction layers generalizing a with
  | zero => simp [pmLayers]
  | succ layers ih =>
    rw [pmLayers, total_append, total_row, ih]
    ring

/-- The precoding matrices are copied from where they are packed, whatever they are. -/
theorem chained_pmTables (hm : MatricesAt m a matrices) :
    Chained a (pmTables m matrices.length a) ∧
      Block.total (pmTables m matrices.length a) = matricesLen matrices := by
  induction matrices generalizing a with
  | nil => exact ⟨trivial, rfl⟩
  | cons matrix matrices ih =>
    obtain ⟨hlayers, hports, hmatrices⟩ := hm
    obtain ⟨hchained, htotal⟩ := ih hmatrices
    rw [List.length_cons, pmTables, hlayers, hports, List.cons_append]
    constructor
    · rw [chained_cons, chained_append, total_pmLayers]
      exact ⟨rfl, chained_pmLayers, hchained⟩
    · rw [total_cons, total_append, total_pmLayers, htotal, matricesLen_cons]
      exact (Nat.add_assoc _ _ _).symm

end TestMac
