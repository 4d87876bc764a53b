import TestMac.Lib.Decoder
import TestMac.Common.SnprintfBuf

/-!
# Data printed by its description: `cmmMsgDesc.c`

A type is described by a structure that other descriptions point to. `snprintfData` follows
the description of some data and puts one element after the other into a buffer, each with
the name of a field. Here the printer walks through the memory and records what it asks of
`snprintfBuf`; a description that is missing, or a choice between fields that are not there,
ends it like a failed assertion.
-/

namespace TestMac

open Bytes CString Decoder

/-- `VarType_e`. -/
inductive VarType
  | tUint | tInt | tI64 | tU64 | tI32 | tU32 | tI16 | tU16 | tI8 | tU8 | tChar | tBool
  | tOctArr28 | tOctStr | tBitArr64 | tBitStr | tPdu
  /-- For a type with a description of its own. -/
  | tType
  deriving DecidableEq

/-- `ContainerType_e`. -/
inductive ContainerType
  | tChoice | tEnum | tStruct | tRef | tAlias
  deriving DecidableEq

/-- `VarOption_e`. -/
inductive VarOption
  | data | dataP | arrayF | arrayVF | arrayV | arrayP | pArrayF | pArrayVF | pArrayV | pArrayP
  | dataPP
  deriving DecidableEq

/-- `VarDesc_s`, with the address of the description of its type. -/
structure VarDesc where
  name : List UInt8
  type : VarType
  defAddr : ℕ
  offset : ℕ
  option : VarOption
  aCnt : ℕ

/-- `ContainerTypeDef_s`. Its own name is never printed. -/
structure ContainerTypeDef where
  type : ContainerType
  size : ℕ
  aliasType : VarType
  ref : ℕ
  var : List VarDesc

/-- The descriptions, by their addresses. -/
abbrev Descs := ℕ → Option ContainerTypeDef

/-- The formats given to `snprintfBuf`, with their arguments. -/
inductive MsgFormat
  /-- `" %d"` -/
  | int (n : ℤ)
  /-- `" %u"` and `" %lu"` -/
  | unsigned (n : ℕ)
  /-- `" %l"` -/
  | i64 (n : ℤ)
  /-- `"false "` and `"true "` -/
  | bool (b : Bool)
  /-- `"<%s>"` -/
  | start (name : List UInt8)
  /-- `"<%s>\n"` -/
  | startLine (name : List UInt8)
  /-- `"<%s itemCnt = \"%u\">"` -/
  | startCnt (name : List UInt8) (cnt : ℕ)
  /-- `"<%s itemCnt = \"%d\">"` -/
  | startItems (name : List UInt8) (cnt : ℤ)
  /-- `"<%s itemCnt = \"%d\">\n"` -/
  | startItemLines (name : List UInt8) (cnt : ℤ)
  /-- `"<%s type=\"%s\">\n"` -/
  | startType (name type : List UInt8)
  /-- `"</%s>\n"` -/
  | stop (name : List UInt8)
  /-- `"%x "` -/
  | hex (n : ℕ)
  /-- `"%d "` -/
  | octet (n : ℕ)
  /-- `"<%s>%s</%s>\n"` -/
  | str (name data : List UInt8)
  /-- `"<%s>value outrange(%d)</%s> "` -/
  | outrange (name : List UInt8) (t : ℤ)
  /-- `"NULL_ADDR\n"` -/
  | nullAddr
  /-- `"VarOption %d not be supported"` -/
  | notSupported (option : ℕ)
  /-- `"\nA invlalid Msg, ID: %d\n"` -/
  | invalidMsg (msgId : ℤ)
  /-- `"\nMsg-%s, ID(%d) :\n"` -/
  | msg (name : List UInt8) (msgId : ℤ)
  deriving DecidableEq

/-- A tag that opens an element. -/
def startTag (name attributes : List UInt8) : List UInt8 := 60 :: (name ++ attributes) ++ [62]

/-- A tag that closes an element. -/
def stopTag (name : List UInt8) : List UInt8 := 60 :: 47 :: name ++ [62]

/-- What a format and its arguments come to. The conversion `" %l"` names no type: the C
library fails behind the space. -/
def MsgFormat.text : MsgFormat → Conversion
  | .int n => .text (32 :: decimal n)
  | .unsigned n => .text (32 :: spell 10 n)
  | .i64 _ => .error [32] 0
  | .bool b => .text (literal (if b then "true " else "false "))
  | .start name => .text (startTag name [])
  | .startLine name => .text (startTag name [] ++ [10])
  | .startCnt name cnt =>
    .text (startTag name (literal " itemCnt = \"" ++ spell 10 cnt ++ literal "\""))
  | .startItems name cnt =>
    .text (startTag name (literal " itemCnt = \"" ++ decimal cnt ++ literal "\""))
  | .startItemLines name cnt =>
    .text (startTag name (literal " itemCnt = \"" ++ decimal cnt ++ literal "\"") ++ [10])
  | .startType name type =>
    .text (startTag name (literal " type=\"" ++ type ++ literal "\"") ++ [10])
  | .stop name => .text (stopTag name ++ [10])
  | .hex n => .text (spell 16 n ++ [32])
  | .octet n => .text (spell 10 n ++ [32])
  | .str name data => .text (startTag name [] ++ data ++ stopTag name ++ [10])
  | .outrange name t =>
    .text (startTag name [] ++ (literal "value outrange(" ++ decimal t ++ literal ")") ++
      stopTag name ++ [32])
  | .nullAddr => .text (literal "NULL_ADDR\n")
  | .notSupported option =>
    .text (literal "VarOption " ++ spell 10 option ++ literal " not be supported")
  | .invalidMsg msgId => .text (literal "\nA invlalid Msg, ID: " ++ decimal msgId ++ [10])
  | .msg name msgId =>
    .text (literal "\nMsg-" ++ name ++ literal ", ID(" ++ decimal msgId ++ literal ") :\n")

/-- A call of `snprintfBuf`: the indents, and the format with its arguments. -/
structure Piece where
  spare : ℕ
  format : MsgFormat
  deriving DecidableEq

/-- The call, with the text worked out. -/
def Piece.snprintfCall (p : Piece) : SnprintfCall := ⟨p.spare, p.format.text⟩

/-- A printer: what it asks of `snprintfBuf`, and how it ends. -/
abbrev Printer := Decoder Piece

/-- The call `snprintfBuf(buf, spare, format, ...)`. -/
def put (spare : ℕ) (format : MsgFormat) : Printer Unit := call ⟨spare, format⟩

/-- A number of `len` bytes as one with a sign. -/
def signed (len v : ℕ) : ℤ := (v : ℤ).bmod (256 ^ len)

/-- `_snprintfInt`, `_snprintfI32`, `_snprintfI16` and `_snprintfI8`. -/
def snprintfSigned (len spare data : ℕ) : Printer Unit := do
  let v ← read len data
  put spare (.int (signed len v))

/-- `_snprintfUint`, `_snprintfU64`, `_snprintfU32`, `_snprintfU16` and `_snprintfU8`. -/
def snprintfUnsigned (len spare data : ℕ) : Printer Unit := do
  let v ← read len data
  put spare (.unsigned v)

def snprintfI64 (spare data : ℕ) : Printer Unit := do
  let v ← read 8 data
  put spare (.i64 (signed 8 v))

def snprintfBool (spare data : ℕ) : Printer Unit := do
  let tgt ← read 4 data
  put spare (.bool (tgt ≠ 0))

def snprintfStr (fuel spare : ℕ) (name : List UInt8) (data : ℕ) : Printer Unit := do
  let s ← readStr fuel data
  put spare (.str name s)

/-- `SN_PRINTF_ARR_TH` and `SN_PRINTF_BIT_ARR_TH`: the count, and the items at an address. -/
def snPrintfArrTh (item : ℕ → MsgFormat) (spare : ℕ) (name : List UInt8) (cnt items data : ℕ) :
    Printer Unit := do
  put spare (.startCnt name cnt)
  each (fun itemCnt => do
    let v ← read 1 (data + itemCnt)
    put 0 (item v)) (List.range items)
  put 0 (.stop name)

/-- The number of bytes that hold some bits, in the arithmetic of `unsigned`. -/
def bitBytes (bitCnt : ℕ) : ℕ := (bitCnt + 7) % 4294967296 / 8

def snprintfOctStr (spare : ℕ) (name : List UInt8) (tgt : ℕ) : Printer Unit := do
  let octCnt ← read 4 tgt
  let data ← read 8 (tgt + 8)
  snPrintfArrTh .hex spare name octCnt octCnt data

def snprintfOctArr28 (spare : ℕ) (name : List UInt8) (tgt : ℕ) : Printer Unit := do
  let octCnt ← read 4 tgt
  snPrintfArrTh .hex spare name octCnt octCnt (tgt + 4)

/-- The data of a `CmmPdu_s` is where that of an `OctString_s` is. -/
def snprintfPdu (spare : ℕ) (name : List UInt8) (tgt : ℕ) : Printer Unit :=
  snprintfOctStr spare name tgt

def snprintfBitStr (spare : ℕ) (name : List UInt8) (tgt : ℕ) : Printer Unit := do
  let bitCnt ← read 4 tgt
  let data ← read 8 (tgt + 8)
  snPrintfArrTh .octet spare name bitCnt (bitBytes bitCnt) data

def snprintfBitArr64 (spare : ℕ) (name : List UInt8) (tgt : ℕ) : Printer Unit := do
  let bitCnt ← read 4 tgt
  snPrintfArrTh .octet spare name bitCnt (bitBytes bitCnt) (tgt + 4)

/-- `_varSzT`. -/
def varSzT : VarType → ℕ
  | .tUint | .tInt | .tI32 | .tU32 | .tBool => 4
  | .tI64 | .tU64 => 8
  | .tI16 | .tU16 => 2
  | .tI8 | .tU8 | .tChar => 1
  | .tOctArr28 => 32
  | .tOctStr | .tBitStr | .tPdu => 16
  | .tBitArr64 => 12
  | .tType => 0

/-- `cmmPrintFun`, for the types before `T_OCTARR28`. -/
def cmmPrintFun : VarType → Option (ℕ → ℕ → Printer Unit)
  | .tUint | .tU32 => some (snprintfUnsigned 4)
  | .tInt | .tI32 => some (snprintfSigned 4)
  | .tI64 => some snprintfI64
  | .tU64 => some (snprintfUnsigned 8)
  | .tI16 => some (snprintfSigned 2)
  | .tU16 => some (snprintfUnsigned 2)
  | .tI8 | .tChar => some (snprintfSigned 1)
  | .tU8 => some (snprintfUnsigned 1)
  | .tBool => some snprintfBool
  | .tOctArr28 | .tOctStr | .tBitArr64 | .tBitStr | .tPdu | .tType => none

/-- `depPrintf`, for the types from `T_OCTARR28` on and before `T_TYPE`. -/
def depPrintf : VarType → Option (ℕ → List UInt8 → ℕ → Printer Unit)
  | .tOctArr28 => some snprintfOctArr28
  | .tOctStr => some snprintfOctStr
  | .tBitArr64 => some snprintfBitArr64
  | .tBitStr => some snprintfBitStr
  | .tPdu => some snprintfPdu
  | _ => none

/-- The number of a `VarOption_e`. -/
def VarOption.number : VarOption → ℕ
  | .data => 0
  | .dataP => 1
  | .arrayF => 2
  | .arrayVF => 3
  | .arrayV => 4
  | .arrayP => 5
  | .pArrayF => 6
  | .pArrayVF => 7
  | .pArrayV => 8
  | .pArrayP => 9
  | .dataPP => 10

section Descriptions

variable (descs : Descs)

def getContainerRootType : ℕ → ℕ → Printer VarType
  | 0, _ => outOfFuel
  | fuel + 1, defAddr => do
    let container ← deref (descs defAddr)
    match container.type with
    | .tRef => if container.ref ≠ 0 then getContainerRootType fuel container.ref else pure .tType
    | .tAlias => pure container.aliasType
    | .tChoice | .tEnum | .tStruct => pure .tType

def getVarRootType (fuel : ℕ) (var : VarDesc) : Printer VarType :=
  if var.type ≠ .tType then pure var.type
  else do
    assert (var.defAddr ≠ 0)
    getContainerRootType descs fuel var.defAddr

/-- The size of an object, as it is computed in `_snprintfVar`. -/
def objSize (var : VarDesc) : Printer ℕ :=
  if var.type ≠ .tType then pure (varSzT var.type)
  else do
    let container ← deref (descs var.defAddr)
    pure container.size

section Var

variable (fuel : ℕ) (snprintfData : ℕ → List UInt8 → ℕ → ℕ → Printer Unit)

/-- `_snprintfVarItem`, which calls `snprintfData` for a type with a description. -/
def snprintfVarItem (spare : ℕ) (name : List UInt8) (var : VarDesc) (data : ℕ) :
    Printer Unit := do
  let rootType ← getVarRootType descs fuel var
  if data = 0 then put spare .nullAddr
  else match cmmPrintFun rootType with
    | some print =>
      if VarOption.dataP.number < var.option.number then print 0 data
      else if name.take 3 = literal "rev" then pure ()
      else do
        put spare (.start name)
        print 0 data
        put 0 (.stop name)
    | none =>
      match depPrintf rootType with
      | some print => print spare name data
      | none => snprintfData spare name var.defAddr data

/-- The part of `_snprintfVar` that the arrays share: the items are found by `objAddr`. -/
def snprintfItems (spare : ℕ) (var : VarDesc) (rootType : VarType) (cnt : ℕ)
    (objAddr : ℕ → Printer ℕ) : Printer Unit :=
  if rootType = .tChar then do
    let addr ← objAddr 0
    snprintfStr fuel spare var.name addr
  else match cmmPrintFun rootType with
    | some print => do
      put spare (.startItems var.name (signed 4 cnt))
      each (fun objNum => do
        let addr ← objAddr objNum
        print 0 addr) (List.range cnt)
      put 0 (.stop var.name)
    | none => do
      put spare (.startItemLines var.name (signed 4 cnt))
      each (fun objNum => do
        let addr ← objAddr objNum
        snprintfVarItem descs fuel snprintfData (spare + 1) (literal "item") var addr)
        (List.range cnt)
      put spare (.stop var.name)

/-- `_snprintfVar`. -/
def snprintfVar (spare : ℕ) (var : VarDesc) (data : ℕ) : Printer Unit := do
  let rootType ← getVarRootType descs fuel var
  let size ← objSize descs var
  let items := snprintfItems descs fuel snprintfData spare var rootType
  match var.option with
  | .data => snprintfVarItem descs fuel snprintfData spare var.name var data
  | .dataP => do
    let objAddr ← read 8 data
    snprintfVarItem descs fuel snprintfData spare var.name var objAddr
  | .arrayF => items var.aCnt fun objNum => pure (data + objNum * size)
  | .arrayV => do
    let objCnt ← read 4 data
    items objCnt fun objNum => pure (data + 8 + objNum * size)
  | .arrayVF => do
    let objCnt ← read 4 data
    if var.aCnt < objCnt then pure ()
    else items objCnt fun objNum => pure (data + 8 + objNum * size)
  | .pArrayV => do
    let objCnt ← read 4 data
    items objCnt fun objNum => read 8 (data + 8 + 8 * objNum)
  | .pArrayVF => do
    let objCnt ← read 4 data
    if var.aCnt < objCnt then pure ()
    else items objCnt fun objNum => read 8 (data + 8 + 8 * objNum)
  | .arrayP | .pArrayF | .pArrayP | .dataPP => do
    put spare (.startLine var.name)
    put (spare + 1) (.notSupported var.option.number)
    put spare (.stop var.name)

end Var

/-- `snprintfData`, to a depth. -/
def snprintfData : ℕ → ℕ → List UInt8 → ℕ → ℕ → Printer Unit
  | 0, _, _, _, _ => outOfFuel
  | fuel + 1, spare, name, defAddr, data => do
    let t ← read 4 data
    let container ← deref (descs defAddr)
    match container.type with
    | .tRef => snprintfData fuel spare name container.ref data
    | .tChoice => do
      let var ← deref container.var[t]?
      put spare (.startType name var.name)
      snprintfVar descs fuel (snprintfData fuel) (spare + 1) var (data + 4)
      put spare (.stop name)
    | .tEnum =>
      match container.var[t]? with
      | some var => put spare (.str name var.name)
      | none => put spare (.outrange name (signed 4 t))
    | .tAlias =>
      match cmmPrintFun container.aliasType with
      | some print => do
        put spare (.start name)
        print 0 data
        put 0 (.stop name)
      | none =>
        match depPrintf container.aliasType with
        | some print => print spare name data
        | none => pure ()
    | .tStruct => do
      put spare (.startLine name)
      each (fun var =>
        snprintfVar descs fuel (snprintfData fuel) (spare + 1) var (data + var.offset))
        container.var
      put spare (.stop name)

end Descriptions

/-- `MsgDesc_s`. -/
structure MsgDesc where
  msgId : ℕ
  name : List UInt8
  defAddr : ℕ

/-- `snprintfMessageSep`, for the octets of a message. -/
def snprintfMessageSep (descs : Descs) (fuel : ℕ) (desc : List MsgDesc) (octCnt data msgId : ℕ) :
    Printer Unit :=
  match desc.find? (·.msgId = msgId) with
  | none => do
    put 0 (.invalidMsg (signed 4 msgId))
    snPrintfArrTh .hex 1 (literal "msgBody") octCnt octCnt data
  | some msgDef => do
    put 0 (.msg msgDef.name (signed 4 msgId))
    snprintfData descs fuel 1 (literal "MsgBody") msgDef.defAddr data

/-- `snprintfMessage`, for a `cmmMsg_s`. -/
def snprintfMessage (descs : Descs) (fuel : ℕ) (desc : List MsgDesc) (msg : ℕ) :
    Printer Unit := do
  let msgIdx ← read 2 msg
  let octCnt ← read 2 (msg + 2)
  snprintfMessageSep descs fuel desc octCnt (msg + 4) msgIdx

end TestMac
