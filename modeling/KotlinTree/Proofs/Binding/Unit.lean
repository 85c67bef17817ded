import Mathlib.Data.List.Basic
import KotlinTree.Binding.Signature
import KotlinTree.Binding.Unit
import KotlinTree.Proofs.Binding.Site
import KotlinTree.Proofs.Scope.Path
import KotlinTree.Proofs.Types.Declared

/-!
Who owns the members that a file declares, and what they are made of. Binding fails only where class
declarations conflict, and leaves nothing undeclared.
-/

namespace KotlinTree.SignatureSource

variable {s : SignatureSource} {owner : String} {context : TypeContext} {id : NodeId} {m : Member}

theorem owner_of_property? {d : PropertyDeclaration} (h : s.property? owner context d = some m) :
    m.owner = owner ∧ m.isSynthetic = false := by
  unfold property? at h
  obtain ⟨name, -, rfl⟩ := Option.map_eq_some_iff.mp h
  exact ⟨rfl, rfl⟩

theorem owner_of_function? {d : FunctionDeclaration} (h : s.function? owner context d = some m) :
    m.owner = owner ∧ m.isSynthetic = false := by
  unfold function? at h
  obtain ⟨name, -, rfl⟩ := Option.map_eq_some_iff.mp h
  exact ⟨rfl, rfl⟩

/-- What is declared belongs to its owner, and is no accessor. -/
theorem owner_of_member? (h : s.member? owner context id = some m) :
    m.owner = owner ∧ m.isSynthetic = false := by
  unfold member? at h
  split at h
  · exact owner_of_property? h
  · exact owner_of_function? h
  · cases h
    exact ⟨rfl, rfl⟩
  · cases h

theorem owner_of_mem_primaryMembers {id : Option NodeId}
    (h : m ∈ s.primaryMembers owner context id) : m.owner = owner ∧ m.isSynthetic = false := by
  unfold primaryMembers at h
  split at h
  · dsimp only at h
    rcases List.mem_cons.mp h with rfl | hfield
    · exact ⟨rfl, rfl⟩
    · obtain ⟨parameter, -, rfl⟩ := List.mem_map.mp hfield
      exact ⟨rfl, rfl⟩
  · exact absurd h List.not_mem_nil

/-- What is declared in a class: by its primary constructor, or by a declaration in its body. -/
def DeclaresIn (s : SignatureSource) (owner : String) (context : TypeContext) (m : Member) : Prop :=
  (∃ primary, m ∈ s.primaryMembers owner context primary) ∨
    ∃ id, s.member? owner context id = some m

theorem DeclaresIn.owner_eq (h : s.DeclaresIn owner context m) :
    m.owner = owner ∧ m.isSynthetic = false := by
  rcases h with ⟨primary, h⟩ | ⟨id, h⟩
  · exact owner_of_mem_primaryMembers h
  · exact owner_of_member? h

section
variable {names : List (NodeId × String)} {enclosing : List String}

/-- The members of a class and of those in it are declared in classes that have names. -/
theorem exists_of_mem_classMembers (h : m ∈ s.classMembers names enclosing id) :
    ∃ node owner context, (node, owner) ∈ names ∧ s.DeclaresIn owner context m := by
  -- The induction is on the node; nested classes declare members in their own name.
  induction id using Nat.strongRecOn generalizing enclosing with
  | ind id ih =>
    rw [classMembers] at h
    split at h
    · rename_i owner d hlookup hd
      have howner : (id, owner) ∈ names := by
        obtain ⟨before, after, rfl, -⟩ := List.lookup_eq_some_iff.mp hlookup
        exact List.mem_append_right before List.mem_cons_self
      rcases List.mem_append.mp h with hprimary | hbody
      · exact ⟨id, owner, _, howner, .inl ⟨_, hprimary⟩⟩
      · obtain ⟨member, -, hm⟩ := List.mem_flatMap.mp hbody
        have hnested (hm : m ∈ if _ : member < id then
            s.classMembers names (enclosing ++ [owner]) member else []) :
            ∃ node owner context, (node, owner) ∈ names ∧ s.DeclaresIn owner context m := by
          split at hm
          · rename_i hlt
            exact ih member hlt hm
          · exact absurd hm List.not_mem_nil
        split at hm
        · exact hnested hm
        · exact hnested hm
        · have hmember := (List.mem_filter.mp hm).1
          rw [Option.mem_toList] at hmember
          exact ⟨id, owner, _, howner, .inr ⟨member, hmember⟩⟩
    · exact absurd h List.not_mem_nil

/-- The members of a class and of those in it belong to classes that have names. -/
theorem owner_of_mem_classMembers (h : m ∈ s.classMembers names enclosing id) :
    ∃ node, (node, m.owner) ∈ names := by
  obtain ⟨node, owner, context, hnode, hm⟩ := exists_of_mem_classMembers h
  exact ⟨node, hm.owner_eq.1 ▸ hnode⟩

theorem isSynthetic_of_mem_classMembers (h : m ∈ s.classMembers names enclosing id) :
    m.isSynthetic = false := by
  obtain ⟨node, owner, context, -, hm⟩ := exists_of_mem_classMembers h
  exact hm.owner_eq.2

end

end KotlinTree.SignatureSource

namespace KotlinTree

namespace Binding
open Environment

/-- The classes that a file declares. -/
def File.declared (file : File) : List (String × ClassKind) := file.sites.map ClassSite.declared

section
variable {env : Environment} {ds : List (String × ClassKind)} {known : List String}

theorem declareSite_outcome (h : env.Declares ds known) (package : String) (site : ClassSite) :
    Outcome known ds [site.declared] (declareSite package env site) := by
  unfold declareSite
  rcases h.addClass { name := site.name, package, kind := site.kind, origin := .source }
    (fun t ht => absurd ht List.not_mem_nil) with ⟨after, ha, hd⟩ | ⟨after, first, ha, hc⟩
  · rw [ha]
    dsimp only
    split
    · exact hd.modifyClass _ _ (fun _ => rfl) fun info hi => hd.supertypes _ info hi
    · exact hd
  · rw [ha]
    exact ⟨site.name, first, site.kind, rfl, hc⟩

theorem declareClasses_outcome (h : env.Declares ds known) (file : File) :
    Outcome known ds file.declared (declareClasses env file) := by
  have hpackage : (env.addPackage file.scope.package).Declares ds known :=
    h.of_classInfo? (env.classInfo?_addPackage file.scope.package)
  rw [File.declared, List.map_eq_flatMap]
  exact outcome_foldlM (fun site => [site.declared]) hpackage fun env' ds' _ hd site _ =>
    declareSite_outcome hd file.scope.package site

/-- A supertype that is noted is declared: it resolves to a class, or it is a type parameter and
stands for the root. -/
theorem mem_known_of_mem_supertypesOf (h : env.Declares ds known) (hk : ds.map Prod.fst ⊆ known)
    (hany : Ty.anyName ∈ known) {file : File} {site : ClassSite} {t : String}
    (ht : t ∈ supertypesOf env file site) : t ∈ known := by
  -- A supertype is written in one of the entries, constructed or not.
  have hfound : ∃ entry isConstructed, supertypeOf? env file site entry = some (isConstructed, t) := by
    unfold supertypesOf at ht
    obtain ⟨⟨isConstructed, name⟩, hmem, rfl⟩ := List.mem_map.mp ht
    have hfilter : (isConstructed, name) ∈
        site.supertypes.toList.filterMap (supertypeOf? env file site) := by
      rcases List.mem_append.mp hmem with hmem | hmem
      · exact (List.mem_filter.mp hmem).1
      · exact (List.mem_filter.mp hmem).1
    obtain ⟨entry, -, he⟩ := List.mem_filterMap.mp hfilter
    exact ⟨entry, isConstructed, he⟩
  obtain ⟨entry, isConstructed, he⟩ := hfound
  unfold supertypeOf? at he
  split at he
  · dsimp only at he
    split at he
    · rename_i name hname
      split at he
      · cases he
      · rw [Option.some.injEq, Prod.mk.injEq] at he
        -- A supertype is a class that was declared before, or the root of all.
        rcases FileScope.isClass_or_any_of_resolveType hname with hclass | hroot
        · exact he.2 ▸ hk ((h.hasClass_iff name).mp hclass)
        · exact he.2 ▸ hroot ▸ hany
    · cases he
  · cases he

theorem resolveSite_declares (h : env.Declares ds known) (hk : ds.map Prod.fst ⊆ known)
    (hany : Ty.anyName ∈ known) (file : File) (site : ClassSite) :
    (resolveSite file env site).Declares ds known := by
  refine h.modifyClass site.name _ (fun _ => rfl) ?_
  intro info hi t ht
  rcases ClassInfo.mem_of_mem_foldl_add ht with hbefore | hadded
  · exact h.supertypes _ info hi t hbefore
  · exact mem_known_of_mem_supertypesOf h hk hany hadded

theorem resolveSupertypes_declares (h : env.Declares ds known) (hk : ds.map Prod.fst ⊆ known)
    (hany : Ty.anyName ∈ known) (files : List File) :
    (files.foldl resolveSupertypes env).Declares ds known := by
  have hsites (file : File) (sites : List ClassSite) (env : Environment)
      (h : env.Declares ds known) : (sites.foldl (resolveSite file) env).Declares ds known := by
    induction sites generalizing env with
    | nil => exact h
    | cons site sites ih => exact ih _ (resolveSite_declares h hk hany file site)
  induction files generalizing env with
  | nil => exact h
  | cons file files ih => exact ih (hsites file file.sites env h)

/-- The owner of every member has been declared, so that no member is lost. -/
theorem declareMembers_outcome (h : env.Declares ds known) {file : File}
    (hf : file.declared ⊆ ds) (id : NodeId) : Outcome known ds [] (declareMembers file env id) := by
  have hclass (source : SignatureSource) :
      Outcome known ds [] ((source.classMembers file.classNames [] id).foldlM
        (fun env m => env.addMember m.owner m) env) := by
    refine outcome_foldlM_nil h ?_
    intro env' ds' hsub hd m hm
    -- The owner is the name of a class site of this file, which is among the declared classes.
    obtain ⟨node, hnode⟩ := SignatureSource.owner_of_mem_classMembers hm
    obtain ⟨site, hsite, hpair⟩ := List.mem_map.mp hnode
    obtain ⟨-, howner⟩ := Prod.mk.inj hpair
    have hdeclared : (m.owner, site.kind) ∈ ds' := by
      apply hsub
      apply hf
      exact howner ▸ List.mem_map_of_mem hsite
    obtain ⟨info, hi, -⟩ := hd.exists_info hdeclared
    obtain ⟨after, ha, hp⟩ := addMember_of_some hi m
    rw [ha]
    exact (hd.changes hi hp rfl (hd.supertypes _ info hi)).outcome_nil
  unfold declareMembers
  dsimp only
  split
  · exact hclass _
  · exact hclass _
  · split
    · exact (h.of_classInfo? (env.classInfo?_addTopLevel _ _ _)).outcome_nil
    · exact h.outcome_nil
  · split
    · exact (h.of_classInfo? (env.classInfo?_addTopLevel _ _ _)).outcome_nil
    · exact h.outcome_nil
  · exact h.outcome_nil

theorem declareFileMembers_outcome (h : env.Declares ds known) {file : File}
    (hf : file.declared ⊆ ds) : Outcome known ds [] (declareFileMembers env file) :=
  outcome_foldlM_nil h fun _ _ hsub hd id _ =>
    declareMembers_outcome hd (List.Subset.trans hf hsub) id

end

end Binding

open Environment

/-- The classes that some files declare. -/
def declaredClasses (units : List ParsedUnit) (defaultImports : List String) :
    List (String × ClassKind) :=
  (units.map (Binding.File.ofParsed defaultImports)).flatMap Binding.File.declared

/-- Imports that are there by default do not change the package. -/
theorem package_ofParsed (defaultImports : List String) (u : ParsedUnit) :
    (Binding.File.ofParsed defaultImports u).scope.package =
      (FileScope.ofFile u.forest u.root).package := rfl

theorem mem_declared_ofParsed {u : ParsedUnit} (hu : u.forest.Linked) (defaultImports : List String)
    (name : String) (kind : ClassKind) :
    (name, kind) ∈ (Binding.File.ofParsed defaultImports u).declared ↔
      ∃ id d, u.forest.IsBound (FileScope.ofFile u.forest u.root).package u.root id name d ∧
        d.kind = kind :=
  Forest.mem_declared_fileClassSites hu
    ((FileScope.ofFile u.forest u.root).addDefaultImports defaultImports) u.root name kind

/-- Files are bound, or two class declarations conflict. -/
theorem bindUnits_cases {env : Environment} {ds : List (String × ClassKind)}
    (h : env.Declares ds (ds.map Prod.fst)) (hany : Ty.anyName ∈ ds.map Prod.fst)
    (units : List ParsedUnit) (defaultImports : List String) :
    (∃ after, bindUnits env units defaultImports =
        .ok (after, units.map fun u => (Binding.File.ofParsed defaultImports u).boundUnit) ∧
      after.Declares (ds ++ declaredClasses units defaultImports)
        ((ds ++ declaredClasses units defaultImports).map Prod.fst)) ∨
    ∃ name first second, bindUnits env units defaultImports =
        .error (.conflictingClassKind name first second) ∧
      Conflict ds (declaredClasses units defaultImports) name first second := by
  unfold declaredClasses
  generalize hfiles : units.map (Binding.File.ofParsed defaultImports) = files
  have hunits : units.map (fun u => (Binding.File.ofParsed defaultImports u).boundUnit) =
      files.map Binding.File.boundUnit := by
    rw [← hfiles, List.map_map]
    rfl
  rw [hunits]
  generalize hknown : (ds ++ files.flatMap Binding.File.declared).map Prod.fst = known
  have hsub : ds.map Prod.fst ⊆ known := by
    rw [← hknown, List.map_append]
    exact List.subset_append_left _ _
  have hclasses := outcome_foldlM Binding.File.declared (h.mono hsub)
    fun env' ds' _ hd (file : Binding.File) (_ : file ∈ files) =>
      Binding.declareClasses_outcome hd file
  unfold bindUnits
  rw [hfiles]
  dsimp only
  cases hc : files.foldlM Binding.declareClasses env with
  | error e =>
    rw [hc] at hclasses
    obtain ⟨name, first, second, rfl, hconf⟩ := hclasses
    exact .inr ⟨name, first, second, rfl, hconf⟩
  | ok declared =>
    rw [hc] at hclasses
    -- The supertypes are resolved only after all classes are there.
    have hsupertypes := Binding.resolveSupertypes_declares hclasses
      (hknown ▸ List.Subset.refl _) (hsub hany) files
    have hmembers := outcome_foldlM_nil hsupertypes
      fun env' ds' hds hd (file : Binding.File) (hfile : file ∈ files) =>
        Binding.declareFileMembers_outcome hd fun d hdecl =>
          hds (List.mem_append_right ds (List.mem_flatMap.mpr ⟨file, hfile, hdecl⟩))
    obtain ⟨after, ha, hd⟩ := hmembers.of_nil
    refine .inl ⟨after, ?_, hd⟩
    change (do
      let env ← files.foldlM Binding.declareFileMembers
        (files.foldl Binding.resolveSupertypes declared)
      return (env, files.map Binding.File.boundUnit) : Except EnvironmentError _) = _
    rw [ha]
    rfl

end KotlinTree
