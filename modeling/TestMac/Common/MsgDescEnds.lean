import TestMac.Common.PlatformCfg

/-!
# Printing data comes to its end

The depth of a print is bounded by how far the descriptions lead from one to another. When
none of them leads back to itself and every string in the memory is terminated, the printer
ends, and it fails only where a description is missing or a choice has no such field.
-/

namespace TestMac

open Bytes CString Decoder

/-- The descriptions that a description points to. -/
def ContainerTypeDef.pointers (container : ContainerTypeDef) : List ℕ :=
  match container.type with
  | .tRef => [container.ref]
  | .tChoice | .tStruct => (container.var.filter (·.type = .tType)).map (·.defAddr)
  | .tEnum | .tAlias => []

/-- The description at the second address points to the one at the first. -/
def Refers (descs : Descs) (defAddr defAddr' : ℕ) : Prop :=
  ∃ container, descs defAddr' = some container ∧ defAddr ∈ container.pointers

/-- There are no choices, and every pointer leads to a description. -/
def Complete (descs : Descs) : Prop :=
  ∀ defAddr container, descs defAddr = some container → container.type ≠ .tChoice ∧
    ∀ pointer ∈ container.pointers, pointer ≠ 0 ∧ (descs pointer).isSome = true

variable {descs : Descs} {sound : Prop} {m : Mem} {defAddr spare data : ℕ} {name : List UInt8}

theorem type_eq_of_no_print {t : VarType} (hcmm : cmmPrintFun t = none)
    (hdep : depPrintf t = none) : t = .tType := by
  cases t <;> simp only [cmmPrintFun, depPrintf, reduceCtorEq] at hcmm hdep ⊢

section Printers

theorem Settles.put (spare : ℕ) (f : MsgFormat) : Settles sound m fun _ => put spare f :=
  Settles.call _

theorem settles_cmmPrintFun {t : VarType} {print : ℕ → ℕ → Printer Unit}
    (h : cmmPrintFun t = some print) (spare data : ℕ) :
    Settles sound m fun _ => print spare data := by
  cases t <;> simp only [cmmPrintFun, reduceCtorEq, Option.some.injEq] at h <;> subst h <;>
    exact Settles.read_then fun _ => Settles.put _ _

theorem settles_snPrintfArrTh (item : ℕ → MsgFormat) (cnt items data : ℕ) :
    Settles sound m fun _ => snPrintfArrTh item spare name cnt items data := by
  refine Settles.bind (Settles.put _ _) fun _ => Settles.bind (Settles.each fun i _ => ?_) fun _ =>
    Settles.put _ _
  exact Settles.read_then fun _ => Settles.put _ _

theorem settles_depPrintf {t : VarType} {print : ℕ → List UInt8 → ℕ → Printer Unit}
    (h : depPrintf t = some print) (spare : ℕ) (name : List UInt8) (data : ℕ) :
    Settles sound m fun _ => print spare name data := by
  cases t <;> simp only [depPrintf, reduceCtorEq, Option.some.injEq] at h <;> subst h
  case tOctArr28 => exact Settles.read_then fun _ => settles_snPrintfArrTh _ _ _ _
  case tBitArr64 => exact Settles.read_then fun _ => settles_snPrintfArrTh _ _ _ _
  all_goals
    exact Settles.read_then fun _ => Settles.read_then fun _ => settles_snPrintfArrTh _ _ _ _

/-- Descriptions that only rename others are followed to the end. -/
theorem settles_getContainerRootType (hwf : WellFounded (Refers descs))
    (hcomplete : sound → Complete descs) (hdef : sound → (descs defAddr).isSome = true) :
    Settles sound m fun fuel => getContainerRootType descs fuel defAddr := by
  induction defAddr using hwf.induction with
  | _ defAddr ih =>
    refine Settles.succ (Settles.deref_then hdef fun container hcontainer => ?_)
    cases htype : container.type with
    | tRef =>
      have hpointer : container.ref ∈ container.pointers := by
        simp [ContainerTypeDef.pointers, htype]
      refine Settles.ite (ih _ ⟨container, hcontainer, hpointer⟩ fun hsound => ?_) (Settles.pure _)
      exact ((hcomplete hsound _ _ hcontainer).2 _ hpointer).2
    | _ => exact Settles.pure _

section Var

variable {sub : ℕ → ℕ → List UInt8 → ℕ → ℕ → Printer Unit} {var : VarDesc}

theorem settles_getVarRootType (hwf : WellFounded (Refers descs))
    (hcomplete : sound → Complete descs)
    (hpointer : var.type = .tType → sound → var.defAddr ≠ 0 ∧ (descs var.defAddr).isSome = true) :
    Settles sound m fun fuel => getVarRootType descs fuel var := by
  by_cases htype : var.type = .tType
  · simp only [getVarRootType, htype, ne_eq, not_true_eq_false, if_false]
    exact (Settles.assert fun hsound => (hpointer htype hsound).1).bind fun _ =>
      settles_getContainerRootType hwf hcomplete fun hsound => (hpointer htype hsound).2
  · simp only [getVarRootType, if_pos htype]
    exact Settles.pure _

theorem settles_objSize
    (hpointer : var.type = .tType → sound → var.defAddr ≠ 0 ∧ (descs var.defAddr).isSome = true) :
    Settles sound m fun _ => objSize descs var := by
  by_cases htype : var.type = .tType
  · simp only [objSize, htype, ne_eq, not_true_eq_false, if_false]
    exact Settles.deref_then (fun hsound => (hpointer htype hsound).2) fun _ _ => Settles.pure _
  · simp only [objSize, if_pos htype]
    exact Settles.pure _

theorem settles_snprintfVarItem (hwf : WellFounded (Refers descs))
    (hcomplete : sound → Complete descs)
    (hpointer : var.type = .tType → sound → var.defAddr ≠ 0 ∧ (descs var.defAddr).isSome = true)
    (hsub : var.type = .tType → ∀ spare name data,
      Settles sound m fun fuel => sub fuel spare name var.defAddr data)
    (spare : ℕ) (name : List UInt8) (data : ℕ) :
    Settles sound m fun fuel => snprintfVarItem descs fuel (sub fuel) spare name var data := by
  refine (settles_getVarRootType hwf hcomplete hpointer).bind_of fun rootType ⟨n, hroot⟩ => ?_
  refine Settles.ite (Settles.put _ _) ?_
  cases hcmm : cmmPrintFun rootType with
  | some print =>
    have hprint : Settles sound m fun _ => print 0 data := settles_cmmPrintFun hcmm 0 data
    refine Settles.ite hprint (Settles.ite (Settles.pure ()) ?_)
    exact (Settles.put _ _).bind fun _ => hprint.bind fun _ => Settles.put _ _
  | none =>
    cases hdep : depPrintf rootType with
    | some print => exact settles_depPrintf hdep spare name data
    | none =>
      refine hsub ?_ spare name data
      by_contra htype
      have hself := hroot n le_rfl
      rw [getVarRootType, if_pos htype] at hself
      rw [← Outcome.ok.inj hself] at hcmm hdep
      exact htype (type_eq_of_no_print hcmm hdep)

theorem settles_snprintfItems (hwf : WellFounded (Refers descs))
    (hcomplete : sound → Complete descs)
    (hpointer : var.type = .tType → sound → var.defAddr ≠ 0 ∧ (descs var.defAddr).isSome = true)
    (hsub : var.type = .tType → ∀ spare name data,
      Settles sound m fun fuel => sub fuel spare name var.defAddr data)
    (hstr : ∀ addr, ∃ k, m (addr + k) = 0) (rootType : VarType) (cnt : ℕ)
    {objAddr : ℕ → Printer ℕ} (haddr : ∀ i, Settles sound m fun _ => objAddr i) :
    Settles sound m fun fuel =>
      snprintfItems descs fuel (sub fuel) spare var rootType cnt objAddr := by
  refine Settles.ite ?_ ?_
  · refine (haddr 0).bind fun addr => (Settles.readStr (hstr addr)).bind fun data => ?_
    exact Settles.put _ _
  · cases hcmm : cmmPrintFun rootType with
    | some print =>
      refine (Settles.put _ _).bind fun _ => (Settles.each fun i _ => ?_).bind fun _ =>
        Settles.put _ _
      exact (haddr i).bind fun addr => settles_cmmPrintFun hcmm 0 addr
    | none =>
      refine (Settles.put _ _).bind fun _ => (Settles.each fun i _ => ?_).bind fun _ =>
        Settles.put _ _
      exact (haddr i).bind fun addr =>
        settles_snprintfVarItem hwf hcomplete hpointer hsub _ _ addr

theorem settles_snprintfVar (hwf : WellFounded (Refers descs))
    (hcomplete : sound → Complete descs)
    (hpointer : var.type = .tType → sound → var.defAddr ≠ 0 ∧ (descs var.defAddr).isSome = true)
    (hsub : var.type = .tType → ∀ spare name data,
      Settles sound m fun fuel => sub fuel spare name var.defAddr data)
    (hstr : ∀ addr, ∃ k, m (addr + k) = 0) (spare data : ℕ) :
    Settles sound m fun fuel => snprintfVar descs fuel (sub fuel) spare var data := by
  refine (settles_getVarRootType hwf hcomplete hpointer).bind fun rootType =>
    (settles_objSize hpointer).bind fun size => ?_
  have hitems : ∀ cnt, ∀ objAddr : ℕ → Printer ℕ, (∀ i, Settles sound m fun _ => objAddr i) →
      Settles sound m fun fuel =>
        snprintfItems descs fuel (sub fuel) spare var rootType cnt objAddr :=
    fun cnt objAddr haddr =>
      settles_snprintfItems hwf hcomplete hpointer hsub hstr rootType cnt haddr
  have hunsupported : ∀ option, Settles sound m fun _ => (do
      put spare (.startLine var.name)
      put (spare + 1) (.notSupported option)
      put spare (.stop var.name) : Printer Unit) := fun option =>
    (Settles.put _ _).bind fun _ => (Settles.put _ _).bind fun _ => Settles.put _ _
  cases var.option with
  | data => exact settles_snprintfVarItem hwf hcomplete hpointer hsub spare var.name data
  | dataP =>
    exact Settles.read_then fun objAddr =>
      settles_snprintfVarItem hwf hcomplete hpointer hsub spare var.name objAddr
  | arrayF => exact hitems _ _ fun _ => Settles.pure _
  | arrayV => exact Settles.read_then fun _ => hitems _ _ fun _ => Settles.pure _
  | arrayVF =>
    exact Settles.read_then fun _ => Settles.ite (Settles.pure ())
      (hitems _ _ fun _ => Settles.pure _)
  | pArrayV => exact Settles.read_then fun _ => hitems _ _ fun _ => Settles.read _ _
  | pArrayVF =>
    exact Settles.read_then fun _ => Settles.ite (Settles.pure ())
      (hitems _ _ fun _ => Settles.read _ _)
  | _ => exact hunsupported _

end Var

end Printers

/-- With descriptions that do not lead back to themselves and strings that are terminated,
the printer ends, at every depth large enough in the same way. When the descriptions are
complete it ends without a failure. -/
theorem snprintfData_settles (hwf : WellFounded (Refers descs))
    (hstr : ∀ addr, ∃ k, m (addr + k) = 0) (spare : ℕ) (name : List UInt8) (defAddr data : ℕ) :
    Settles (Complete descs ∧ (descs defAddr).isSome = true) m fun fuel =>
      snprintfData descs fuel spare name defAddr data := by
  obtain ⟨sound, hsound⟩ : ∃ p, p = (Complete descs ∧ (descs defAddr).isSome = true) := ⟨_, rfl⟩
  have hcomplete : sound → Complete descs := fun h => (hsound ▸ h).1
  have hdef : sound → (descs defAddr).isSome = true := fun h => (hsound ▸ h).2
  rw [← hsound]
  clear hsound
  induction defAddr using hwf.induction generalizing spare name data with
  | _ defAddr ih =>
    refine Settles.succ (Settles.read_then fun t =>
      Settles.deref_then hdef fun container hcontainer => ?_)
    have hsome : ∀ pointer ∈ container.pointers, sound →
        pointer ≠ 0 ∧ (descs pointer).isSome = true := fun pointer hmem hs =>
      (hcomplete hs _ _ hcontainer).2 pointer hmem
    have hsub : ∀ pointer ∈ container.pointers, ∀ spare name data,
        Settles sound m fun fuel => snprintfData descs fuel spare name pointer data :=
      fun pointer hmem spare name data => ih pointer ⟨container, hcontainer, hmem⟩ spare name data
        fun hs => (hsome pointer hmem hs).2
    have hvar : container.type = .tChoice ∨ container.type = .tStruct → ∀ var ∈ container.var,
        ∀ spare data, Settles sound m fun fuel =>
          snprintfVar descs fuel (snprintfData descs fuel) spare var data := by
      intro htype var hmem spare data
      have hpointer : var.type = .tType → var.defAddr ∈ container.pointers := by
        intro hvartype
        rcases htype with htype | htype <;>
          simpa [ContainerTypeDef.pointers, htype] using ⟨var, ⟨hmem, hvartype⟩, rfl⟩
      exact settles_snprintfVar hwf hcomplete (fun h => hsome _ (hpointer h))
        (fun h => hsub _ (hpointer h)) hstr spare data
    cases htype : container.type with
    | tRef =>
      exact hsub container.ref (by simp [ContainerTypeDef.pointers, htype]) spare name data
    | tChoice =>
      have hnot : sound → container.type ≠ .tChoice := fun hs => (hcomplete hs _ _ hcontainer).1
      refine Settles.deref_then (fun hs => absurd htype (hnot hs)) fun var ht => ?_
      exact (Settles.put _ _).bind fun _ =>
        (hvar (.inl htype) var (List.mem_of_getElem? ht) _ _).bind fun _ => Settles.put _ _
    | tEnum =>
      cases container.var[t]? with
      | some var => exact Settles.put _ _
      | none => exact Settles.put _ _
    | tAlias =>
      cases hcmm : cmmPrintFun container.aliasType with
      | some print =>
        exact (Settles.put _ _).bind fun _ => (settles_cmmPrintFun hcmm 0 data).bind fun _ =>
          Settles.put _ _
      | none =>
        cases hdep : depPrintf container.aliasType with
        | some print => exact settles_depPrintf hdep spare name data
        | none => exact Settles.pure ()
    | tStruct =>
      exact (Settles.put _ _).bind fun _ =>
        (Settles.each fun var hmem => hvar (.inr htype) var hmem _ _).bind fun _ => Settles.put _ _

theorem platformCfgDescs_wellFounded : WellFounded (Refers platformCfgDescs) := by
  have hlt : ∀ {p q}, Refers platformCfgDescs p q → p < q := by
    rintro p q ⟨container, hcontainer, hmem⟩
    unfold platformCfgDescs at hcontainer
    split at hcontainer
    · obtain rfl := Option.some.inj hcontainer
      exact absurd hmem List.not_mem_nil
    · obtain rfl := Option.some.inj hcontainer
      revert p
      decide
    · obtain rfl := Option.some.inj hcontainer
      revert p
      decide
    · exact nomatch hcontainer
  exact Subrelation.wf hlt Nat.lt_wfRel.wf

/-- The platform configuration is printed to its end. -/
theorem snprintfData_settles_platformCfg :
    Settles (Complete platformCfgDescs ∧ (platformCfgDescs 3).isSome = true) localPlatformCfg
      fun fuel => platformCfgPrint fuel := by
  refine snprintfData_settles platformCfgDescs_wellFounded (fun addr => ⟨2000, ?_⟩) _ _ _ _
  have hfar : ∀ (m : Mem) (a : ℕ) (l : List UInt8), a + l.length ≤ 2000 →
      store m a l (addr + 2000) = m (addr + 2000) := by
    intro m a l hend
    exact store_of_not_mem (.inr (by omega))
  simp only [localPlatformCfg, platformCfg, wr32, wr16, zero]
  repeat rw [hfar _ _ _ (by decide +kernel)]

end TestMac
