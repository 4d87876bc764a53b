import TestMac.Rct.ConfigSerial
import TestMac.Mac.Generator
import TestMac.Mac.Runs

/-!
# What `sendPhyConfigReq` sends in `RUNMODE_RCT_MODE`

`ConfigReqParams` is given the address of the entry of `gL1ConfigRequest`, which is a
pointer to the request. It serialises the table of pointers.
-/

namespace TestMac

open Bytes Block Act

/-- The pointer in an entry of `gL1ConfigRequest`. -/
def configPointer (m : Mem) (gL1ConfigRequest : ℕ) : ℕ := leValue (slice m gL1ConfigRequest 8)

/-- The entry points to the request. -/
def ConfigStored (m : Mem) (gL1ConfigRequest : ℕ) (request : List UInt8) : Prop :=
  Holds m (configPointer m gL1ConfigRequest) request

/-- `ConfigReqParams(&gL1ConfigRequest[dev_index][cellId], …)`, for an entry in a memory. -/
def RctConfig (env : Env) (m : Mem) (gL1ConfigRequest : ℕ) : Prop :=
  ∀ clock request,
    (env.rctParams fapiConfigRequest clock request).2 = configReqParams m gL1ConfigRequest

/-- The message sent for an entry. -/
def configReqMessage (m : Mem) (gL1ConfigRequest : ℕ) : List UInt8 :=
  let body := configReqParams m gL1ConfigRequest
  l1Message fapiConfigRequest (body.length % 4294967296) body

/-- In `RUNMODE_RCT_MODE` the request that the entry points to is sent, by a driver that
accepts the message. -/
def RctSends (m : Mem) (gL1ConfigRequest : ℕ) (request : List UInt8) : Prop :=
  ∀ (env : Env) (room : ℕ) (c : Cell), Accepts env room → room ≤ 4294967296 → 32 < room →
    (configReqParams m gL1ConfigRequest).length + sizeofL1GeneralMsgHdr < room →
    RctConfig env m gL1ConfigRequest → c.ctx.runMode = .rctMode →
    Finishes (sendPhyConfigReq env) c fun _ c' =>
      c'.log = c.log ++
        [.sent fapiConfigRequest (l1Message fapiConfigRequest request.length request)]

variable {env : Env} {c : Cell} {room gL1ConfigRequest : ℕ} {m : Mem} {request : List UInt8}

/-- `sendPhyConfigReq` in `RUNMODE_RCT_MODE`. -/
theorem Accepts.finishes_sendPhyConfigReq (haccepts : Accepts env room) (hroom : room ≤ 4294967296)
    (hmin : 32 < room)
    (hfits : (configReqParams m gL1ConfigRequest).length + sizeofL1GeneralMsgHdr < room)
    (hrct : RctConfig env m gL1ConfigRequest) (hmode : c.ctx.runMode = .rctMode) :
    Finishes (sendPhyConfigReq env) c fun _ c' =>
      c'.log = c.log ++ [.sent fapiConfigRequest (configReqMessage m gL1ConfigRequest)] := by
  obtain ⟨r₁, halloc₁, hr₁⟩ := haccepts.alloc (c.calls + 1)
  obtain ⟨r₂, halloc₂, hr₂⟩ := haccepts.alloc (c.calls + 3)
  have hsize : sizeofL1GeneralMsgHdr = 8 := rfl
  have hlen : (configReqParams m gL1ConfigRequest).length % 4294967296 =
      (configReqParams m gL1ConfigRequest).length := Nat.mod_eq_of_lt (by omega)
  have hwhole : ((configReqParams m gL1ConfigRequest).length + sizeofL1GeneralMsgHdr) % 4294967296 =
      (configReqMessage m gL1ConfigRequest).length := by
    rw [Nat.mod_eq_of_lt (by omega), configReqMessage, l1Message]
    simp only [List.length_append, leBytes_length]
    omega
  rw [sendPhyConfigReq, finishes_l1MsgProc (haccepts.start _), finishes_setL1CtrlMsgGrpHeader]
  simp only [called_calls, halloc₁, Option.isSome_some, Option.getD_some, finishes_bind,
    finishes_allocL1CtrlMsgMem, headed_calls, halloc₂, finishes_read, finishes_ite, id_eq, hrct _ _]
  refine ⟨trivial, by omega, trivial, by omega, ?_, ?_⟩
  · intro hgen
    rw [allocated_ctx, headed_ctx, called_ctx, hmode] at hgen
    cases hgen
  · intro _
    rw [hlen]
    refine (haccepts.finishes_request (by decide) (by decide) (by decide) ?_ rfl ?_).mono ?_
    · rw [Nat.mod_eq_of_lt (by omega)]
      exact hfits
    · exact hr₂
    · intro _ c' hc'
      obtain ⟨-, -, -, -, hlog⟩ := hc'
      rw [called_log, hlog, hwhole]
      simp only [allocated_log, headed_log, called_log, configReqMessage, hlen, List.take_length]

/-- The body starts with the pointer. -/
theorem take_configReqParams (m : Mem) (gL1ConfigRequest : ℕ) :
    (configReqParams m gL1ConfigRequest).take 8 = slice m gL1ConfigRequest 8 := by
  obtain ⟨rest, hrest⟩ : ∃ rest, configBlocks m gL1ConfigRequest = ⟨gL1ConfigRequest, 72⟩ :: rest :=
    ⟨_, rfl⟩
  rw [configReqParams, hrest, copied_cons, List.take_append_of_le_length (by simp)]
  exact slice_drop_take m gL1ConfigRequest 72 0 8 (by omega)

/-- A request is sent wrongly wherever the pointer to it does not happen to be its first
eight bytes. -/
theorem configReqMessage_ne
    (hpointer : configPointer m gL1ConfigRequest ≠ leValue (request.take 8)) :
    configReqMessage m gL1ConfigRequest ≠ l1Message fapiConfigRequest request.length request := by
  intro heq
  have hbody : configReqParams m gL1ConfigRequest = request := by
    rw [configReqMessage, l1Message, l1Message] at heq
    exact (List.append_inj heq (by simp)).2
  rw [← hbody, take_configReqParams] at hpointer
  exact hpointer rfl

/-- A memory with a request at an address, and behind it an entry that points to it. -/
def configAt (address : ℕ) (request : List UInt8) : Mem :=
  store (store (fun _ => 0) address request) (address + request.length) (leBytes 8 address)

theorem configPointer_configAt {address : ℕ} (haddress : address < 65536) :
    configPointer (configAt address request) (address + request.length) = address := by
  rw [configPointer, configAt, slice_store_eq (leBytes_length 8 address), leValue_leBytes]
  exact Nat.mod_eq_of_lt (by omega)

theorem configStored_configAt {address : ℕ} (haddress : address < 65536) :
    ConfigStored (configAt address request) (address + request.length) request := by
  rw [ConfigStored, configPointer_configAt haddress, Holds, configAt,
    slice_store_disjoint (.inl (Nat.le_refl _)), slice_store_eq rfl]

/-- The shape of a request without any lists. -/
def emptyConfig : ConfigShape := ⟨[], [], 0, 0, 0, 0, 0, []⟩

theorem emptyConfig_at {a : ℕ} (hzero : ∀ i, a + 68 ≤ i → m i = 0) : emptyConfig.At m a := by
  have hrd8 : ∀ y, a + 68 ≤ y → rd8 m y = 0 := by
    intro y hy
    have hsame : rd8 m y = rd8 (fun _ => 0) y := rd8_congr fun i _ _ => hzero i (by omega)
    exact hsame
  have hrd16 : ∀ y, a + 68 ≤ y → rd16 m y = 0 := by
    intro y hy
    have hsame : rd16 m y = rd16 (fun _ => 0) y := rd16_congr fun i _ _ => hzero i (by omega)
    exact hsame
  constructor
  · exact hrd16 _ (by omega)
  · trivial
  · exact hrd16 _ (by omega)
  · trivial
  · exact hrd8 _ (by omega)
  · exact hrd8 _ (by omega)
  · exact hrd8 _ (by omega)
  · exact hrd16 _ (by omega)
  · exact hrd16 _ (by omega)
  · exact hrd16 _ (by omega)
  · trivial

theorem length_configReqParams_configAt (address : ℕ) (request : List UInt8) :
    (configReqParams (configAt address request) (address + request.length)).length = 1312 := by
  have hzero : ∀ i, address + request.length + 68 ≤ i → configAt address request i = 0 := by
    intro i hi
    rw [configAt, store_of_not_mem (.inr (by rw [leBytes_length]; omega)),
      store_of_not_mem (.inr (by omega))]
  rw [configReqParams_of_empty (emptyConfig_at hzero) rfl, slice_length]
  rfl

/-- A driver that accepts everything, for a cell whose table of requests is in a memory. -/
def rctEnv (m : Mem) (gL1ConfigRequest : ℕ) : Env :=
  { readyWorld.env 0 0 with rctParams := fun _ _ row => (row, configReqParams m gL1ConfigRequest) }

/-- A cell in `RUNMODE_RCT_MODE`. -/
def rctCell : Cell :=
  { restingCell .auto 0 with
    ctx := { (restingCell .auto 0).ctx with runMode := .rctMode } }

theorem not_rctSends (hfits : (configReqParams m gL1ConfigRequest).length = 1312)
    (hpointer : configPointer m gL1ConfigRequest ≠ leValue (request.take 8)) :
    ¬ RctSends m gL1ConfigRequest request := by
  intro hsends
  have haccepts : Accepts (rctEnv m gL1ConfigRequest) 262144 :=
    ⟨fun _ => rfl, fun _ => ⟨262144, rfl, Nat.le_refl _⟩, fun _ => rfl⟩
  have hsize : sizeofL1GeneralMsgHdr = 8 := rfl
  have hroom : (configReqParams m gL1ConfigRequest).length + sizeofL1GeneralMsgHdr < 262144 := by
    omega
  obtain ⟨_, c, hrun, hlog⟩ := hsends _ _ rctCell haccepts (by omega) (by omega) hroom
    (fun _ _ => rfl) rfl
  obtain ⟨_, c', hrun', hlog'⟩ := haccepts.finishes_sendPhyConfigReq (c := rctCell) (by omega)
    (by omega) hroom (fun _ _ => rfl) rfl
  cases hrun.symm.trans hrun'
  have hmessage := List.append_cancel_left (hlog'.symm.trans hlog)
  simp only [List.cons.injEq, CellEvent.sent.injEq, true_and, and_true] at hmessage
  exact configReqMessage_ne hpointer hmessage

/-- No request is sent in `RUNMODE_RCT_MODE`: a message is sent that differs from it,
wherever the pointer to it does not happen to be its first eight bytes. -/
theorem sendPhyConfigReq_rct_never (request : List UInt8) :
    (∀ m gL1ConfigRequest, ConfigStored m gL1ConfigRequest request →
      configPointer m gL1ConfigRequest ≠ leValue (request.take 8) →
      configReqMessage m gL1ConfigRequest ≠ l1Message fapiConfigRequest request.length request) ∧
    ¬ ∀ m gL1ConfigRequest, ConfigStored m gL1ConfigRequest request →
      RctSends m gL1ConfigRequest request := by
  constructor
  · intro m gL1ConfigRequest _ hpointer
    exact configReqMessage_ne hpointer
  · intro hall
    obtain ⟨address, haddress, hne⟩ : ∃ address < 65536, address ≠ leValue (request.take 8) := by
      by_cases h : 16 = leValue (request.take 8)
      · exact ⟨32, by omega, by omega⟩
      · exact ⟨16, by omega, h⟩
    apply not_rctSends (length_configReqParams_configAt address request) _
      (hall _ _ (configStored_configAt haddress))
    rwa [configPointer_configAt haddress]

/-- A request without any lists, all of whose bytes are zero. -/
def zeroConfig : List UInt8 := List.replicate 1312 0

/-- It is not sent from the address 16. -/
theorem zeroConfig_not_sent :
    emptyConfig.Packs zeroConfig ∧
      ConfigStored (configAt 16 zeroConfig) (16 + zeroConfig.length) zeroConfig ∧
      ¬ RctSends (configAt 16 zeroConfig) (16 + zeroConfig.length) zeroConfig := by
  refine ⟨⟨fun _ => 0, 0, emptyConfig_at fun _ _ => rfl, ?_⟩,
    configStored_configAt (by decide), ?_⟩
  · rw [slice, List.map_const', List.length_range]
    rfl
  · apply not_rctSends (length_configReqParams_configAt 16 zeroConfig)
    rw [configPointer_configAt (by decide), zeroConfig, List.take_replicate]
    decide

end TestMac
