import KotlinTree.Proofs.Binding.Property
import KotlinTree.Proofs.Binding.Unit
import KotlinTree.Proofs.Types.Consistent
import KotlinTree.Proofs.Types.Stub

/-!
What is declared stays consistent when files are bound: each pass keeps it so. Main statement: once an
environment is frozen that has been built from the builtins by stubs and by binding files, what it
declares is well formed.
-/

namespace KotlinTree

/-- What each step keeps is kept by all of them. -/
theorem foldlM_keeps {ε α β : Type} {p : β → Prop} {step : β → α → Except ε β} {xs : List α}
    {b after : β} (hstep : ∀ x ∈ xs, ∀ b b', p b → step b x = .ok b' → p b') (hp : p b)
    (h : xs.foldlM step b = .ok after) : p after := by
  induction xs generalizing b with
  | nil =>
    cases h
    exact hp
  | cons x xs ih =>
    rw [List.foldlM_cons] at h
    cases hx : step b x with
    | error e =>
      rw [hx] at h
      cases h
    | ok next =>
      rw [hx] at h
      exact ih (fun y hy => hstep y (List.mem_cons_of_mem _ hy))
        (hstep x List.mem_cons_self b next hp hx) h

namespace Binding
open Environment

variable {env after : Environment} {file : File}

theorem declareSite_consistent (h : env.Consistent) {package : String} {site : ClassSite}
    (hd : declareSite package env site = .ok after) : after.Consistent := by
  unfold declareSite at hd
  split at hd
  · cases hd
  · rename_i next hadd
    obtain ⟨hnext, -, hkind⟩ := h.addClass ⟨fun m hm => absurd hm List.not_mem_nil,
      fun m hm => absurd hm List.not_mem_nil, fun c hc => absurd hc (Option.some_ne_none c).symm⟩ hadd
    split at hd
    · -- The companion is there before it is noted at the class around it.
      rename_i outer hcompanion houter
      cases hd
      refine And.left (hnext.modifyClass outer _ (fun _ => rfl) (fun _ => rfl) (fun _ => rfl)
        (fun _ => rfl) fun info c hc => .inr ?_)
      cases hc
      rw [hkind, hcompanion]
    · cases hd
      exact hnext

theorem declareClasses_consistent (h : env.Consistent)
    (hd : declareClasses env file = .ok after) : after.Consistent :=
  foldlM_keeps (p := Consistent) (fun _ _ _ _ h hd => declareSite_consistent h hd)
    (h.addPackage file.scope.package) hd

theorem resolveSite_consistent (h : env.Consistent) (site : ClassSite) :
    (resolveSite file env site).Consistent := by
  unfold resolveSite
  exact And.left (h.modifyClass site.name _ (fun _ => rfl) (fun _ => rfl) (fun _ => rfl)
    (fun _ => rfl) fun _ _ hc => .inl hc)

theorem resolveSupertypes_consistent (h : env.Consistent) (files : List File) :
    (files.foldl resolveSupertypes env).Consistent := by
  have hsites (file : File) (sites : List ClassSite) (env : Environment) (h : env.Consistent) :
      (sites.foldl (resolveSite file) env).Consistent := by
    induction sites generalizing env with
    | nil => exact h
    | cons site sites ih => exact ih _ (resolveSite_consistent h site)
  induction files generalizing env with
  | nil => exact h
  | cons file files ih => exact ih (hsites file file.sites env h)

theorem declareMembers_consistent (h : env.Consistent) {id : NodeId}
    (hd : declareMembers file env id = .ok after) : after.Consistent := by
  -- A class's members are added one by one, each consistent with what is there.
  have hclass (source : SignatureSource)
      (hd : (source.classMembers file.classNames [] id).foldlM
        (fun env m => env.addMember m.owner m) env = .ok after) : after.Consistent :=
    foldlM_keeps (p := Consistent) (fun m hm _ _ h hadd =>
      (h.addMember (SignatureSource.isSynthetic_of_mem_classMembers hm) hadd).1) h hd
  unfold declareMembers at hd
  dsimp only at hd
  split at hd
  · exact hclass _ hd
  · exact hclass _ hd
  · split at hd
    · rename_i m hm
      cases hd
      exact (h.addTopLevel _ (SignatureSource.owner_of_member? hm).2 _).1
    · cases hd
      exact h
  · split at hd
    · rename_i m hm
      cases hd
      exact (h.addTopLevel _ (SignatureSource.owner_of_member? hm).2 _).1
    · cases hd
      exact h
  · cases hd
    exact h

end Binding

open Environment

/-- What is declared stays consistent when files are bound. -/
theorem bindUnits_consistent {env after : Environment} (h : env.Consistent)
    {units : List ParsedUnit} {defaultImports : List String} {bound : List BoundUnit}
    (hb : bindUnits env units defaultImports = .ok (after, bound)) : after.Consistent := by
  obtain ⟨-, declared, hclasses, hmembers⟩ := bindUnits_ok hb
  have hdeclared : declared.Consistent := foldlM_keeps (p := Consistent)
    (fun _ _ _ _ h hd => Binding.declareClasses_consistent h hd) h hclasses
  refine foldlM_keeps (p := Consistent) (fun file _ e e' he hd => ?_)
    (Binding.resolveSupertypes_consistent hdeclared _) hmembers
  exact foldlM_keeps (p := Consistent)
    (fun _ _ _ _ h hd => Binding.declareMembers_consistent h hd) he hd

namespace Environment

/-- What comes of the builtins by any number of stubs and of files that are bound together. -/
inductive Built : Environment → Prop where
  | builtins : Built Builtins.environment
  | stub {env after : Environment} (stub : StubFile) :
    Built env → env.addStub stub = (after, none) → Built after
  | bind {env after : Environment} (units : List ParsedUnit) (defaultImports : List String)
    {bound : List BoundUnit} :
    Built env → bindUnits env units defaultImports = .ok (after, bound) → Built after

/-- Classes, members of files and packages as they are found by name. -/
structure WellFormed (env : Environment) : Prop where
  name_eq : ∀ name info, env.classInfo? name = some info → info.name = name
  member : ∀ name info, env.classInfo? name = some info → ∀ key, ∀ m ∈ info.membersNamed key,
    m.name = key ∧ m.owner = name
  companion : ∀ name info, env.classInfo? name = some info → ∀ c, info.companion = some c →
    ∃ companion, env.classInfo? c = some companion ∧ companion.kind = .companionObject
  supertype : ∀ name info, env.classInfo? name = some info → ∀ t ∈ info.supertypes,
    (env.classInfo? t).isSome
  topLevel_owner : ∀ package name, ∀ m ∈ env.topLevel package name, m.name = name ∧
    (env.ownerOrigin? m.owner).isSome
  extension_owner : ∀ name, ∀ m ∈ env.extensions.getD name [], m.name = name ∧
    (env.ownerOrigin? m.owner).isSome
  class_package : ∀ name info, env.classInfo? name = some info → env.DeclaresPackage info.package
  topLevel_package : ∀ package name, env.topLevel package name ≠ [] → env.DeclaresPackage package

section
variable {env frozen : Environment}

theorem Built.consistent (h : env.Built) : env.Consistent := by
  induction h with
  | builtins => exact Builtins.environment_consistent
  | stub _ _ ha ih => exact ih.addStub ha
  | bind _ _ _ hb ih => exact bindUnits_consistent ih hb

/-- What is consistent, and complete as freezing finds, is well formed. -/
theorem Consistent.wellFormed (h : env.Consistent) (hf : env.freeze = .ok frozen) :
    frozen.WellFormed := by
  rw [← eq_of_freeze hf]
  refine ⟨fun name info hi => (h.classes name info hi).name_eq, fun name info hi key m hm => ?_,
    fun name info hi c hc => ?_, fun name info hi t ht => ?_, fun package name m hm => ?_,
    fun name m hm => ?_, fun name info hi => (h.classes name info hi).package, h.package⟩
  · obtain ⟨hmem, hkey⟩ := List.mem_filter.mp hm
    exact ⟨of_decide_eq_true hkey, (h.classes name info hi).owner m hmem⟩
  · have hkind := (h.classes name info hi).companion c hc
    rwa [kindOf?, Option.map_eq_some_iff] at hkind
  · exact isSome_classInfo?.mpr
      (freeze_eq_ok_iff.mp ⟨frozen, hf⟩ name (h.ordered name info hi) info hi t ht)
  · have hfits := h.topLevel package name m hm
    exact ⟨hfits.name_eq, hfits.owner⟩
  · have hfits := h.extensions name m hm
    exact ⟨hfits.name_eq, hfits.owner⟩

/-- What is built from the builtins and can be frozen is well formed. -/
theorem Built.wellFormed_freeze (h : env.Built) (hf : env.freeze = .ok frozen) : frozen.WellFormed :=
  h.consistent.wellFormed hf

end

/-- Classes that extend builtins and clash with none are declared after these, and nothing is missing
then. -/
theorem exists_addStub_builtins (stub : StubFile) (infos : List ClassInfo)
    (hinfos : stub.classes.flatMap (·.classInfos (stub.origin.getD .platform)) = infos)
    (hs : ∀ info ∈ infos, ∀ t ∈ info.supertypes, t ∈ Builtins.names)
    (hc : ∀ a ∈ Builtins.declared ++ infos.map fun info => (info.name, info.kind),
      ∀ b ∈ infos.map fun info => (info.name, info.kind), a.1 = b.1 → a.2 = b.2) :
    ∃ after ds, Builtins.environment.addStub stub = (after, none) ∧ after.Declares ds (ds.map Prod.fst) ∧
      Ty.anyName ∈ ds.map Prod.fst ∧ ∀ info ∈ infos, (info.name, info.kind) ∈ ds := by
  obtain ⟨after, ha, hd⟩ := Builtins.environment_declares.addStub stub infos hinfos hs
    fun name first second h => h.ne (hc _ h.first_mem _ h.second_mem rfl)
  have hsub : Builtins.names ⊆
      (Builtins.declared ++ infos.map fun info => (info.name, info.kind)).map Prod.fst := by
    rw [List.map_append]
    exact List.subset_append_left _ _
  exact ⟨after, _, ha, hd.mono hsub, hsub Builtins.anyName_mem_names,
    fun info hi => List.mem_append_right _ (List.mem_map_of_mem hi)⟩

/-- A class with a companion in a package within another one, and a function beside it. -/
def nestedStub : StubFile :=
  { classes := [{ name := "p.q.C", supertypes := ["kotlin.Comparable"], companion := some {} }]
    functions := [{ name := "f", facade := "p.q.FKt" }] }

/-- With a stub and a file after it, the environment is well formed. -/
theorem Built.wellFormed_freeze_nestedStub : ∃ env frozen : Environment, env.Built ∧ env.freeze = .ok frozen ∧
    (frozen.classInfo? "p.q.C$Companion").isSome ∧ frozen.WellFormed := by
  obtain ⟨first, ds, hstub, hd, hany, hmem⟩ := exists_addStub_builtins nestedStub _ rfl
    (by decide +kernel) (by decide +kernel)
  have hclass := hmem { name := "p.q.C$Companion", package := "p.q", kind := .companionObject
                        origin := .platform } (by decide +kernel)
  have hnil : declaredClasses [.ofSource "f.kt" "fun f() = 1"] [] = [] := by decide +kernel
  rcases bindUnits_cases hd hany [.ofSource "f.kt" "fun f() = 1"] [] with
    ⟨after, hbind, hafter⟩ | ⟨name, first, second, -, hc⟩
  · have hbuilt : after.Built := .bind _ _ (.stub _ .builtins hstub) hbind
    have hfreeze := hafter.freeze (List.Subset.refl _)
    obtain ⟨info, hi, -⟩ := hafter.exists_info (List.mem_append_left _ hclass)
    exact ⟨after, after, hbuilt, hfreeze, Option.isSome_iff_exists.mpr ⟨info, hi⟩,
      hbuilt.wellFormed_freeze hfreeze⟩
  · rw [hnil] at hc
    exact absurd hc.second_mem List.not_mem_nil

/-- The package of a class is the front of its binary name. -/
theorem packageOf_isPrefix (name : String) : (packageOf name).toList <+: name.toList := by
  have hfirst : (Text.beforeFirst (· = '$') name).toList <+: name.toList := by
    rw [Text.beforeFirst, String.toList_ofList]
    exact List.takeWhile_prefix _
  refine List.IsPrefix.trans ?_ hfirst
  unfold packageOf
  generalize Text.beforeFirst (· = '$') name = outermost
  unfold Text.beforeLast?
  split
  · simp
  · rename_i point front hfront
    have hsuffix : front <:+ outermost.toList.reverse :=
      (List.suffix_cons point front).trans (hfront ▸ List.dropWhile_suffix _)
    rw [Option.getD_some, String.toList_ofList]
    exact List.reverse_suffix.mp (by rwa [List.reverse_reverse])

theorem not_isDottedFront_empty {package : String} (hne : package ≠ "")
    (hpoint : package.toList.head? ≠ some '.') : ¬ IsDottedFront "" package := by
  rintro (rfl | ⟨back, rfl⟩)
  · exact hne rfl
  · exact hpoint (by simp)

/-- Without a binary name that starts with a point, no package has an empty name. -/
theorem not_hasPackage_empty {stub : StubFile} {env after : Environment}
    (h : env.addStub stub = (after, none)) (henv : ¬ env.hasPackage "")
    (hstub : ∀ name ∈ stub.classes.map ClassStub.name ++ stub.functions.map FunctionStub.facade,
      name.toList.head? ≠ some '.') : ¬ after.hasPackage "" := by
  intro hname
  rcases hasPackage_addStub h "" hname with hbefore | ⟨package, hpackage, hne, hfront⟩
  · exact henv hbefore
  · obtain ⟨name, hmem, rfl⟩ : ∃ name ∈ stub.classes.map ClassStub.name ++
        stub.functions.map FunctionStub.facade, packageOf name = package := by
      rcases List.mem_append.mp hpackage with hpackage | hpackage
      · obtain ⟨c, hc, rfl⟩ := List.mem_map.mp hpackage
        exact ⟨c.name, List.mem_append_left _ (List.mem_map_of_mem hc), rfl⟩
      · obtain ⟨f, hf, rfl⟩ := List.mem_map.mp hpackage
        exact ⟨f.facade, List.mem_append_right _ (List.mem_map_of_mem hf), rfl⟩
    refine not_isDottedFront_empty hne (fun hpoint => hstub name hmem ?_) hfront
    obtain ⟨rest, hrest⟩ := packageOf_isPrefix name
    rw [← hrest, List.head?_append, hpoint, Option.some_or]

def lonelyClass : ClassInfo :=
  { name := "A", package := "", kind := .plainClass, origin := .platform }

/-- The package of a class without one is not declared. -/
theorem Built.exists_not_hasPackage : ∃ env frozen : Environment, env.Built ∧
    env.freeze = .ok frozen ∧ frozen.classInfo? "A" = some lonelyClass ∧
      ¬ frozen.hasPackage lonelyClass.package := by
  let stub : StubFile := { classes := [{ name := "A" }] }
  obtain ⟨after, ds, hstub, hd, -, -⟩ := exists_addStub_builtins stub [lonelyClass]
    (by decide +kernel) (by decide +kernel) (by decide +kernel)
  have hbuilt : after.Built := .stub _ .builtins hstub
  -- The stub is complete: every supertype is in it or built in, so it freezes as it is.
  refine ⟨after, after, hbuilt, hd.freeze (List.Subset.refl _), ?_, ?_⟩
  · have hclasses : Builtins.environment.addClasses [lonelyClass] = (after, none) := by
      unfold addStub at hstub
      dsimp only at hstub
      rw [show stub.classes.flatMap (·.classInfos (stub.origin.getD .platform)) = [lonelyClass] by
        decide +kernel] at hstub
      split at hstub
      · cases hstub
      · rename_i mid hmid
        cases hstub
        exact hmid
    obtain ⟨-, result, hdefines, hresult⟩ := redefines_addClass (addClasses_singleton hclasses)
    rcases hresult with ⟨-, rfl⟩ | ⟨first, hfirst, -⟩
    · exact (hdefines.puts "A").trans (if_pos rfl)
    · have hmem := Builtins.environment_declares.mem_of_info hfirst
      have hnone : ∀ d ∈ Builtins.declared, d.1 ≠ lonelyClass.name := by decide +kernel
      exact absurd rfl (hnone _ hmem)
  -- Nothing in the stub or among what is built in is in the package without a name.
  · have hempty : ¬ ({} : Environment).hasPackage "" := by
      unfold hasPackage
      simp
    refine not_hasPackage_empty hstub ?_ (by decide +kernel)
    exact not_hasPackage_empty Builtins.addStub_stub.1 hempty (by decide +kernel)

end Environment

end KotlinTree
