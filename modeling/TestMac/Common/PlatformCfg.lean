import TestMac.Common.MsgDesc

/-!
# The platform configuration: `platformCfgDes.c`, `cmmApiInit.c`

The structures of the configuration, the tables that describe them, and the configuration
that `cmmApiInit` fills in and prints.
-/

namespace TestMac

open Bytes CString Decoder

/-- A field whose type needs no description. -/
def plainVar (name : String) (type : VarType) (offset : ℕ) (option : VarOption) (aCnt : ℕ) :
    VarDesc :=
  ⟨literal name, type, 0, offset, option, aCnt⟩

/-- A field with one value of a type that is described. -/
def typeVar (name : String) (defAddr offset : ℕ) : VarDesc :=
  ⟨literal name, .tType, defAddr, offset, .data, 0⟩

/-- `TraceType_e_def`. -/
def traceTypeDef : ContainerTypeDef where
  type := .tEnum
  size := 4
  aliasType := .tInt
  ref := 0
  var := [plainVar "TRACE_FALSE" .tUint 0 .data 0, plainVar "TRACE_TERMINAL" .tUint 0 .data 0,
    plainVar "TRACE_FILE" .tUint 0 .data 0, plainVar "TRACE_UDP" .tUint 0 .data 0,
    plainVar "TRACE_SYS_LOG" .tUint 0 .data 0, plainVar "TraceType_e_cnt" .tUint 0 .data 0]

/-- `TraceCfg_s_def`. -/
def traceCfgDef : ContainerTypeDef where
  type := .tStruct
  size := 36
  aliasType := .tType
  ref := 0
  var := [typeVar "type" 1 0, plainVar "port" .tU16 4 .data 0, plainVar "str" .tChar 6 .arrayF 30]

/-- `PlatformCfg_s_def`. -/
def platformCfgDef : ContainerTypeDef where
  type := .tStruct
  size := 248
  aliasType := .tType
  ref := 0
  var := [typeVar "modMsgTrace" 2 0, typeVar "phyTrace" 2 36, typeVar "uuTrace" 2 72,
    typeVar "debugCfg" 2 108, plainVar "rmtSvrIp" .tChar 144 .arrayF 30,
    typeVar "monSvrIp" 2 176, plainVar "dbgLevPresent" .tBool 212 .data 0,
    plainVar "dbgLev" .tU8 216 .arrayF 32]

/-- The tables of `platformCfgDes.c`, at addresses 1 to 3. -/
def platformCfgDescs : Descs
  | 1 => some traceTypeDef
  | 2 => some traceCfgDef
  | 3 => some platformCfgDef
  | _ => none

/-- `platformCfg` at an address, as `cmmApiInit` sets it. The traces other than that of the
PHY are off. -/
def platformCfg (cfg : ℕ) (ipAddress : List UInt8) : Mem :=
  let m := zero (fun _ => 0) cfg 248
  let m := wr16 (wr32 m cfg 0) (cfg + 4) 0
  let m := wr16 (wr32 m (cfg + 36) 3) (cfg + 40) 6882
  let m := store m (cfg + 42) (ipAddress ++ [0])
  let m := wr16 (wr32 m (cfg + 72) 0) (cfg + 76) 0
  let m := wr16 (wr32 m (cfg + 108) 0) (cfg + 112) 0
  let m := wr16 (wr32 m (cfg + 176) 0) (cfg + 180) 0
  wr32 m (cfg + 212) 0

/-- What `cmmApiInit` prints. -/
def platformCfgPrint (fuel : ℕ) : Printer Unit :=
  snprintfData platformCfgDescs fuel 1 (literal "platformCfg") 3 1000

/-- The configuration with a local address. -/
def localPlatformCfg : Mem := platformCfg 1000 (literal "127.0.0.1")

/-- A property of the names in the tables. -/
theorem platformCfgDescs_names {okName : List UInt8 → Prop}
    (h : ∀ var ∈ traceTypeDef.var ++ traceCfgDef.var ++ platformCfgDef.var, okName var.name) :
    ∀ defAddr container, platformCfgDescs defAddr = some container →
      ∀ var ∈ container.var, okName var.name := by
  intro defAddr container hcontainer var hvar
  apply h
  simp only [List.mem_append]
  unfold platformCfgDescs at hcontainer
  split at hcontainer
  · obtain rfl := Option.some.inj hcontainer
    exact .inl (.inl hvar)
  · obtain rfl := Option.some.inj hcontainer
    exact .inl (.inr hvar)
  · obtain rfl := Option.some.inj hcontainer
    exact .inr hvar
  · exact nomatch hcontainer

end TestMac
