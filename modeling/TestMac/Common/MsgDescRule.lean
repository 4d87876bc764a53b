import TestMac.Common.MsgDesc

/-!
# A rule for everything that is printed

A print is made of values, of lines that carry a name, and of elements: an opening tag, what
stands inside, and the closing tag. What holds of these three, and of decoders in sequence,
holds of every print.
-/

namespace TestMac

open Bytes CString Decoder

/-- The formats that print a value without a name. -/
def MsgFormat.IsValue : MsgFormat → Prop
  | .int _ | .unsigned _ | .i64 _ | .bool _ | .hex _ | .octet _ | .nullAddr
  | .notSupported _ => True
  | _ => False

/-- The formats that open an element with a name. -/
inductive MsgFormat.Starts (okName : List UInt8 → Prop) (name : List UInt8) : MsgFormat → Prop
  | start : Starts okName name (.start name)
  | startLine : Starts okName name (.startLine name)
  | startCnt (cnt : ℕ) : Starts okName name (.startCnt name cnt)
  | startItems (cnt : ℤ) : Starts okName name (.startItems name cnt)
  | startItemLines (cnt : ℤ) : Starts okName name (.startItemLines name cnt)
  | startType {type : List UInt8} : okName type → Starts okName name (.startType name type)

/-- The formats that print an element on one line. -/
inductive MsgFormat.IsLine (okName : List UInt8 → Prop) (name : List UInt8) : MsgFormat → Prop
  | str {data : List UInt8} : okName data → IsLine okName name (.str name data)
  | outrange (t : ℤ) : IsLine okName name (.outrange name t)

/-- What a property of printers must satisfy, when the names satisfy `okName`. -/
structure PrinterRule (okName : List UInt8 → Prop) (Φ : ∀ {α : Type}, Printer α → Prop) :
    Prop where
  closed : Closed Φ
  outOfFuel : ∀ {α : Type}, Φ (outOfFuel : Printer α)
  deref_then : ∀ {α β : Type} {o : Option α} {f : α → Printer β}, (∀ a, o = some a → Φ (f a)) →
    Φ (deref o >>= f)
  value : ∀ {f : MsgFormat} (spare : ℕ), f.IsValue → Φ (put spare f)
  line : ∀ {name : List UInt8} {f : MsgFormat} (spare : ℕ), okName name → f.IsLine okName name →
    Φ (put spare f)
  str : ∀ {name : List UInt8} (fuel spare data : ℕ), okName name →
    Φ (snprintfStr fuel spare name data)
  element : ∀ {name : List UInt8} {f : MsgFormat} {body : Printer Unit} (spare spare' : ℕ),
    okName name → f.Starts okName name → Φ body → Φ (do
      put spare f
      body
      put spare' (.stop name))

/-- The names in the descriptions satisfy `okName`. -/
def NamesOk (okName : List UInt8 → Prop) (descs : Descs) : Prop :=
  ∀ defAddr container, descs defAddr = some container → ∀ var ∈ container.var, okName var.name

section Rule

variable {okName : List UInt8 → Prop} {Φ : ∀ {α : Type}, Printer α → Prop} {descs : Descs}
  {α : Type} {name : List UInt8} {fuel : ℕ}

theorem PrinterRule.pure (h : PrinterRule okName Φ) (a : α) : Φ (Pure.pure a : Printer α) :=
  h.closed.pure a

theorem PrinterRule.read_then (h : PrinterRule okName Φ) {len addr : ℕ} {f : ℕ → Printer α}
    (hf : ∀ v, Φ (f v)) : Φ (read len addr >>= f) :=
  h.closed.bind (h.closed.read len addr) hf

theorem PrinterRule.each (h : PrinterRule okName Φ) {body : α → Printer Unit} {as : List α}
    (hbody : ∀ a ∈ as, Φ (body a)) : Φ (each body as) := by
  induction as with
  | nil => exact h.pure ()
  | cons a as ih =>
    exact h.closed.bind (hbody a List.mem_cons_self) fun _ =>
      ih fun a' ha' => hbody a' (List.mem_cons_of_mem a ha')

theorem PrinterRule.cmmPrintFun (h : PrinterRule okName Φ) {t : VarType}
    {print : ℕ → ℕ → Printer Unit} (hprint : cmmPrintFun t = some print) (spare data : ℕ) :
    Φ (print spare data) := by
  cases t <;> simp only [TestMac.cmmPrintFun, reduceCtorEq, Option.some.injEq] at hprint <;>
    subst hprint <;> exact h.read_then fun _ => h.value spare trivial

theorem PrinterRule.snPrintfArrTh (h : PrinterRule okName Φ) {item : ℕ → MsgFormat}
    (hname : okName name) (hitem : ∀ v, (item v).IsValue) (spare cnt items data : ℕ) :
    Φ (snPrintfArrTh item spare name cnt items data) :=
  h.element spare 0 hname (.startCnt cnt) (h.each fun _ _ =>
    h.read_then fun v => h.value 0 (hitem v))

theorem PrinterRule.depPrintf (h : PrinterRule okName Φ) {t : VarType}
    {print : ℕ → List UInt8 → ℕ → Printer Unit} (hprint : depPrintf t = some print)
    (hname : okName name) (spare data : ℕ) : Φ (print spare name data) := by
  have hhex : ∀ cnt items addr, Φ (TestMac.snPrintfArrTh .hex spare name cnt items addr) :=
    h.snPrintfArrTh hname (fun v => show (MsgFormat.hex v).IsValue from trivial) spare
  have hoctet : ∀ cnt items addr, Φ (TestMac.snPrintfArrTh .octet spare name cnt items addr) :=
    h.snPrintfArrTh hname (fun v => show (MsgFormat.octet v).IsValue from trivial) spare
  cases t <;> simp only [TestMac.depPrintf, reduceCtorEq, Option.some.injEq] at hprint <;>
    subst hprint
  case tOctArr28 => exact h.read_then fun _ => hhex _ _ _
  case tOctStr => exact h.read_then fun _ => h.read_then fun _ => hhex _ _ _
  case tBitArr64 => exact h.read_then fun _ => hoctet _ _ _
  case tBitStr => exact h.read_then fun _ => h.read_then fun _ => hoctet _ _ _
  case tPdu => exact h.read_then fun _ => h.read_then fun _ => hhex _ _ _

theorem PrinterRule.getContainerRootType (h : PrinterRule okName Φ) (fuel defAddr : ℕ) :
    Φ (getContainerRootType descs fuel defAddr) := by
  induction fuel generalizing defAddr with
  | zero => exact h.outOfFuel
  | succ fuel ih =>
    refine h.deref_then fun container _ => ?_
    cases container.type with
    | tRef => exact h.closed.ite (ih _) (h.pure _)
    | _ => exact h.pure _

theorem PrinterRule.getVarRootType (h : PrinterRule okName Φ) (fuel : ℕ) (var : VarDesc) :
    Φ (getVarRootType descs fuel var) :=
  h.closed.ite (h.pure _) (h.closed.bind (h.closed.assert _) fun _ => h.getContainerRootType fuel _)

theorem PrinterRule.objSize (h : PrinterRule okName Φ) (var : VarDesc) : Φ (objSize descs var) :=
  h.closed.ite (h.pure _) (h.deref_then fun _ _ => h.pure _)

section Var

variable {sub : ℕ → List UInt8 → ℕ → ℕ → Printer Unit} {var : VarDesc}

theorem PrinterRule.snprintfVarItem (h : PrinterRule okName Φ)
    (hsub : ∀ spare name defAddr data, okName name → Φ (sub spare name defAddr data))
    (hname : okName name) (spare data : ℕ) :
    Φ (snprintfVarItem descs fuel sub spare name var data) := by
  refine h.closed.bind (h.getVarRootType fuel var) fun rootType => ?_
  refine h.closed.ite (h.value spare trivial) ?_
  cases hcmm : TestMac.cmmPrintFun rootType with
  | some print =>
    have hprint := h.cmmPrintFun hcmm 0 data
    exact h.closed.ite hprint (h.closed.ite (h.pure ()) (h.element spare 0 hname .start hprint))
  | none =>
    cases hdep : TestMac.depPrintf rootType with
    | some print => exact h.depPrintf hdep hname spare data
    | none => exact hsub spare name var.defAddr data hname

theorem PrinterRule.snprintfItems (h : PrinterRule okName Φ) (hitem : okName (literal "item"))
    (hsub : ∀ spare name defAddr data, okName name → Φ (sub spare name defAddr data))
    (hname : okName var.name) (spare : ℕ) (rootType : VarType) (cnt : ℕ) {objAddr : ℕ → Printer ℕ}
    (haddr : ∀ i, Φ (objAddr i)) :
    Φ (snprintfItems descs fuel sub spare var rootType cnt objAddr) := by
  refine h.closed.ite (h.closed.bind (haddr 0) fun addr => h.str fuel spare addr hname) ?_
  cases hcmm : TestMac.cmmPrintFun rootType with
  | some print =>
    exact h.element spare 0 hname (.startItems _) (h.each fun i _ =>
      h.closed.bind (haddr i) fun addr => h.cmmPrintFun hcmm 0 addr)
  | none =>
    exact h.element spare spare hname (.startItemLines _) (h.each fun i _ =>
      h.closed.bind (haddr i) fun addr => h.snprintfVarItem hsub hitem (spare + 1) addr)

theorem PrinterRule.snprintfVar (h : PrinterRule okName Φ) (hitem : okName (literal "item"))
    (hsub : ∀ spare name defAddr data, okName name → Φ (sub spare name defAddr data))
    (hname : okName var.name) (spare data : ℕ) : Φ (snprintfVar descs fuel sub spare var data) := by
  refine h.closed.bind (h.getVarRootType fuel var) fun rootType =>
    h.closed.bind (h.objSize var) fun size => ?_
  have hunsupported : ∀ option, Φ (do
      put spare (.startLine var.name)
      put (spare + 1) (.notSupported option)
      put spare (.stop var.name)) := fun option =>
    h.element spare spare hname .startLine (h.value _ trivial)
  have hitems : ∀ cnt, ∀ objAddr : ℕ → Printer ℕ, (∀ i, Φ (objAddr i)) →
      Φ (TestMac.snprintfItems descs fuel sub spare var rootType cnt objAddr) :=
    fun cnt objAddr haddr => h.snprintfItems hitem hsub hname spare rootType cnt haddr
  cases var.option with
  | data => exact h.snprintfVarItem hsub hname spare data
  | dataP => exact h.read_then fun objAddr => h.snprintfVarItem hsub hname spare objAddr
  | arrayF => exact hitems _ _ fun _ => h.pure _
  | arrayV => exact h.read_then fun _ => hitems _ _ fun _ => h.pure _
  | arrayVF =>
    exact h.read_then fun _ => h.closed.ite (h.pure ()) (hitems _ _ fun _ => h.pure _)
  | pArrayV => exact h.read_then fun _ => hitems _ _ fun _ => h.closed.read _ _
  | pArrayVF =>
    exact h.read_then fun _ => h.closed.ite (h.pure ()) (hitems _ _ fun _ => h.closed.read _ _)
  | _ => exact hunsupported _

end Var

/-- The rule, for the whole printer. -/
theorem PrinterRule.snprintfData (h : PrinterRule okName Φ) (hitem : okName (literal "item"))
    (hdescs : NamesOk okName descs) (fuel spare : ℕ) (hname : okName name) (defAddr data : ℕ) :
    Φ (snprintfData descs fuel spare name defAddr data) := by
  induction fuel generalizing spare name defAddr data with
  | zero => exact h.outOfFuel
  | succ fuel ih =>
    have hsub : ∀ spare name defAddr data, okName name →
        Φ (TestMac.snprintfData descs fuel spare name defAddr data) :=
      fun spare name defAddr data hname => ih spare hname defAddr data
    refine h.read_then fun t => h.deref_then fun container hdef => ?_
    have hvar := hdescs defAddr container hdef
    cases container.type with
    | tRef => exact ih spare hname _ data
    | tChoice =>
      refine h.deref_then fun var ht => ?_
      have htype := hvar var (List.mem_of_getElem? ht)
      exact h.element spare spare hname (.startType htype)
        (h.snprintfVar hitem hsub htype (spare + 1) _)
    | tEnum =>
      cases ht : container.var[t]? with
      | some var => exact h.line spare hname (.str (hvar var (List.mem_of_getElem? ht)))
      | none => exact h.line spare hname (.outrange _)
    | tAlias =>
      cases hcmm : TestMac.cmmPrintFun container.aliasType with
      | some print => exact h.element spare 0 hname .start (h.cmmPrintFun hcmm 0 data)
      | none =>
        cases hdep : TestMac.depPrintf container.aliasType with
        | some print => exact h.depPrintf hdep hname spare data
        | none => exact h.pure ()
    | tStruct =>
      exact h.element spare spare hname .startLine (h.each fun var hmem =>
        h.snprintfVar hitem hsub (hvar var hmem) (spare + 1) _)

end Rule

end TestMac
