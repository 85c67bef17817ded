import KotlinTree.Proofs.Binding.WellFormed
import KotlinTree.Proofs.Scope.Path
import KotlinTree.Proofs.Types.Stored

/-!
Types that binding gives to members. Main statement: they are of classes that are there in the end. What
constructors yield: a class that a source declares is what its constructors yield, so that binding leaves it
so wherever it is so of the classes that are known before.
-/

namespace KotlinTree

section

/-- A literal is of a built-in class. -/
theorem Forest.literalType?_within {f : Forest} {id : Option NodeId} {t : Ty}
    (h : f.literalType? id = some t) : t.Within (· ∈ Builtins.names) := by
  -- Every class that a number can be of is built in.
  have hnumber (text : String) : numberClass text ∈ Builtins.names := by
    unfold numberClass
    dsimp only
    split
    · decide +kernel
    split
    · decide +kernel
    split
    · decide +kernel
    · decide +kernel
  unfold literalType? at h
  split at h
  · cases h
    exact Ty.within_of (hnumber _)
  · cases h
    exact Ty.within_of (by decide +kernel)
  · cases h
    exact Ty.within_of (by decide +kernel)
  · cases h
    exact Ty.within_of (by decide +kernel)
  · cases h
    exact Ty.within_of (by decide +kernel)
  · cases h
    exact Ty.within_nothing (by decide +kernel) true
  · cases h

namespace SignatureSource

section
variable {s : SignatureSource} {names : String → Prop} {owner : String} {context : TypeContext}
  {m : Member}

theorem writtenType_within (hclass : ∀ n, s.isClass n → names n)
    (hbuiltin : ∀ n ∈ Builtins.names, names n) (id : Option NodeId) (context : TypeContext) :
    (s.writtenType id context).Within names := by
  intro name hname
  rcases FileScope.isClass_or_any_of_resolveType hname with hknown | rfl
  · exact hclass name hknown
  · exact hbuiltin _ Builtins.anyName_mem_names

theorem initializerType_within (hclass : ∀ n, s.isClass n → names n)
    (hbuiltin : ∀ n ∈ Builtins.names, names n) (enclosing : List String) (id : NodeId) :
    (s.initializerType enclosing id).Within names := by
  have htruth : (Ty.of Ty.booleanName).Within names :=
    Ty.within_of (hbuiltin _ (by decide +kernel))
  induction id using Nat.strongRecOn with
  | ind id ih =>
    -- A value inside another one comes before it, as in the recursion.
    rw [initializerType]
    split
    · rename_i t ht
      exact fun name hname => hbuiltin name (Forest.literalType?_within ht name hname)
    split
    · split
      · rename_i hlt
        exact ih _ hlt
      · exact Ty.within_unknown
    · split
      · exact htruth
      split
      · split
        · rename_i hlt
          exact ih _ hlt
        · exact Ty.within_unknown
      · exact Ty.within_unknown
    · exact htruth
    · split
      · exact htruth
      · exact Ty.within_unknown
    · split
      · refine Ty.within_getD (fun t ht => ?_) Ty.within_unknown
        obtain ⟨name, hname, rfl⟩ := Option.map_eq_some_iff.mp ht
        exact Ty.within_of (hclass name (FileScope.isClass_of_resolveClass? hname))
      · exact Ty.within_unknown
    · exact Ty.within_unknown

theorem typeOrInitializer_within (hclass : ∀ n, s.isClass n → names n)
    (hbuiltin : ∀ n ∈ Builtins.names, names n) (typeRef value : Option NodeId) :
    (s.typeOrInitializer typeRef value context).Within names := by
  unfold typeOrInitializer
  split
  · exact writtenType_within hclass hbuiltin _ _
  · refine Ty.within_getD (fun t ht => ?_) Ty.within_unknown
    obtain ⟨id, -, rfl⟩ := Option.map_eq_some_iff.mp ht
    exact initializerType_within hclass hbuiltin _ id

/-- Only a constructor has the type of the class that it belongs to. -/
theorem member?_within (hclass : ∀ n, s.isClass n → names n)
    (hbuiltin : ∀ n ∈ Builtins.names, names n) {id : NodeId}
    (howner : s.forest.kind? (some id) = some (.node .secondaryConstructor) → names owner)
    (h : s.member? owner context id = some m) : m.type.Within names := by
  unfold member? at h
  split at h
  · obtain ⟨name, -, rfl⟩ := Option.map_eq_some_iff.mp h
    exact typeOrInitializer_within hclass hbuiltin _ _
  · obtain ⟨name, -, rfl⟩ := Option.map_eq_some_iff.mp h
    change (s.returnType _ _).Within names
    unfold returnType
    split
    · exact typeOrInitializer_within hclass hbuiltin _ _
    · exact Ty.within_of (hbuiltin _ (by decide +kernel))
  · rename_i hkind _
    cases h
    exact Ty.within_of (howner hkind)
  · cases h

theorem DeclaresIn.within (hclass : ∀ n, s.isClass n → names n)
    (hbuiltin : ∀ n ∈ Builtins.names, names n) (howner : names owner)
    (h : s.DeclaresIn owner context m) : m.type.Within names := by
  rcases h with ⟨primary, h⟩ | ⟨id, h⟩
  · unfold primaryMembers at h
    split at h
    · dsimp only at h
      rcases List.mem_cons.mp h with rfl | hfield
      · exact Ty.within_of howner
      · obtain ⟨parameter, -, rfl⟩ := List.mem_map.mp hfield
        exact writtenType_within hclass hbuiltin _ _
    · exact absurd h List.not_mem_nil
  · exact member?_within hclass hbuiltin (fun _ => howner) h

end

end SignatureSource

namespace Binding
open Environment

variable {env after : Environment} {file : File} {P : Member → Prop} {names : String → Prop}

theorem declareClasses_hasOnly (h : env.HasOnly P) (hd : declareClasses env file = .ok after) :
    after.HasOnly P := by
  refine foldlM_keeps (p := fun env => env.HasOnly P) (fun site _ env after henv hsite => ?_)
    (h.addPackage file.scope.package) hd
  unfold declareSite at hsite
  split at hsite
  · cases hsite
  · rename_i next hadd
    have hnext := henv.addClass (fun m hm => absurd hm List.not_mem_nil) hadd
    split at hsite
    · cases hsite
      exact hnext.modifyClass _ _ (fun _ => rfl) (fun _ => rfl)
    · cases hsite
      exact hnext

theorem resolveSupertypes_hasOnly (h : env.HasOnly P) (files : List File) :
    (files.foldl resolveSupertypes env).HasOnly P := by
  refine List.foldlRecOn (motive := fun env : Environment => env.HasOnly P) files _ h
    fun env henv file _ => ?_
  exact List.foldlRecOn (motive := fun env : Environment => env.HasOnly P) file.sites _ henv
    fun env henv site _ => henv.modifyClass _ _ (fun _ => rfl) (fun _ => rfl)

/-- While members are declared the classes stay the same, and the types of what is declared are of
these classes. -/
theorem declareMembers_within (h : env.Within names) (hbuiltin : ∀ n ∈ Builtins.names, names n)
    {id : NodeId} (hd : declareMembers file env id = .ok after) : after.Within names := by
  have hsame := (declareMembers_grows hd).hasClass
  refine ⟨fun n hn => h.hasClass n (hsame n ▸ hn), ?_⟩
  have hclassMembers (hd : ((file.signatures env).classMembers file.classNames [] id).foldlM
      (fun env m => env.addMember m.owner m) env = .ok after) :
      after.HasOnly fun m => m.type.Within names := by
    -- The owner of a member is there, or it could not have been added.
    refine And.left (foldlM_keeps (p := fun e => (e.HasOnly fun m => m.type.Within names) ∧
      ∀ n, e.hasClass n → names n) (fun m hm e e' he hadd => ?_) ⟨h.member, h.hasClass⟩ hd)
    obtain ⟨node, owner, context, -, hin⟩ := SignatureSource.exists_of_mem_classMembers hm
    obtain ⟨first, hfirst, -⟩ := redefines_addMember hadd
    have howner : names m.owner :=
      he.2 _ (isSome_classInfo?.mp (Option.isSome_iff_exists.mpr ⟨first, hfirst⟩))
    rw [hin.owner_eq.1] at howner
    refine ⟨he.1.addMember (hin.within h.hasClass hbuiltin howner) hadd, fun n hn => he.2 n ?_⟩
    exact (addMember_grows hadd).1.hasClass n ▸ hn
  have htopLevel {m : Member} (hm : (file.signatures env).member? file.facade {} id = some m)
      (hkind : file.parsed.forest.kind? (some id) ≠ some (.node .secondaryConstructor)) :
      (env.addTopLevel file.scope.package m .source).HasOnly fun m => m.type.Within names :=
    h.member.addTopLevel _
      (SignatureSource.member?_within h.hasClass hbuiltin (fun hk => absurd hk hkind) hm) _
  unfold declareMembers at hd
  dsimp only at hd
  split at hd
  · exact hclassMembers hd
  · exact hclassMembers hd
  · rename_i hkind
    split at hd
    · rename_i m hm
      cases hd
      exact htopLevel hm (by rw [hkind]; exact nofun)
    · cases hd
      exact h.member
  · rename_i hkind
    split at hd
    · rename_i m hm
      cases hd
      exact htopLevel hm (by rw [hkind]; exact nofun)
    · cases hd
      exact h.member
  · cases hd
    exact h.member

end Binding

open Environment

/-- What binding declares has types of the classes that are there then. -/
theorem bindUnits_within {env after : Environment} {names : String → Prop} {units : List ParsedUnit}
    {defaultImports : List String} {bound : List BoundUnit}
    (h : env.HasOnly fun m => m.type.Within names) (hbuiltin : ∀ n ∈ Builtins.names, names n)
    (hb : bindUnits env units defaultImports = .ok (after, bound))
    (hclass : ∀ n, after.hasClass n → names n) : after.Within names := by
  obtain ⟨-, declared, hclasses, hmembers⟩ := bindUnits_ok hb
  have hdeclared : declared.HasOnly fun m => m.type.Within names :=
    foldlM_keeps (p := fun e => e.HasOnly fun m => m.type.Within names)
      (fun _ _ _ _ h hd => Binding.declareClasses_hasOnly h hd) h hclasses
  obtain ⟨hgrows, -⟩ :=
    foldlM_grows (fun _ _ _ _ he => Binding.declareFileMembers_grows he) hmembers
  refine foldlM_keeps (p := fun e => e.Within names) (fun file _ e e' he hd => ?_)
    ⟨fun n hn => hclass n (hgrows.hasClass n ▸ hn), Binding.resolveSupertypes_hasOnly hdeclared _⟩
    hmembers
  exact foldlM_keeps (p := fun e => e.Within names)
    (fun _ _ _ _ h hd => Binding.declareMembers_within h hbuiltin hd) he hd

end

/-- A constructor yields the class that declares it. -/
def Member.YieldsOwner (m : Member) : Prop := m.kind = .constructor → m.type = .of m.owner

theorem Builtins.environment_yieldsOwner : environment.HasOnly Member.YieldsOwner := by
  have hclasses : ∀ info ∈ infos, ∀ m ∈ info.members,
      m.kind = .constructor → m.type = .of m.owner := by
    decide +kernel
  have hfunctions : ∀ f ∈ stub.functions, f.member.kind ≠ .constructor := by decide +kernel
  refine Environment.hasOnly_empty.addStub ?_ ?_ addStub_stub.1
  · exact fun info hi m hm => hclasses info hi m hm
  · exact fun f hf hkind => absurd hkind (hfunctions f hf)

namespace SignatureSource

variable {s : SignatureSource} {owner : String} {context : TypeContext} {m : Member}

theorem yieldsOwner_of_member? {id : NodeId} (h : s.member? owner context id = some m) :
    m.YieldsOwner := by
  unfold member? at h
  split at h
  · obtain ⟨name, -, rfl⟩ := Option.map_eq_some_iff.mp h
    exact nofun
  · obtain ⟨name, -, rfl⟩ := Option.map_eq_some_iff.mp h
    exact nofun
  · cases h
    exact fun _ => rfl
  · cases h

theorem DeclaresIn.yieldsOwner (h : s.DeclaresIn owner context m) : m.YieldsOwner := by
  rcases h with ⟨primary, h⟩ | ⟨id, h⟩
  · unfold primaryMembers at h
    split at h
    · rcases List.mem_cons.mp h with rfl | hfield
      · exact fun _ => rfl
      · obtain ⟨parameter, -, rfl⟩ := List.mem_map.mp hfield
        exact nofun
    · exact absurd h List.not_mem_nil
  · exact yieldsOwner_of_member? h

end SignatureSource

namespace Binding
open Environment

variable {env after : Environment} {file : File}

theorem declareMembers_yieldsOwner (h : env.HasOnly Member.YieldsOwner) {id : NodeId}
    (hd : declareMembers file env id = .ok after) : after.HasOnly Member.YieldsOwner := by
  have hclassMembers (hd : ((file.signatures env).classMembers file.classNames [] id).foldlM
      (fun env m => env.addMember m.owner m) env = .ok after) : after.HasOnly Member.YieldsOwner := by
    refine foldlM_keeps (p := fun e => e.HasOnly Member.YieldsOwner) (fun m hm e e' he hadd => ?_) h hd
    obtain ⟨node, owner, context, -, hin⟩ := SignatureSource.exists_of_mem_classMembers hm
    exact he.addMember hin.yieldsOwner hadd
  have hmember {m : Member} (hm : (file.signatures env).member? file.facade {} id = some m) :
      (env.addTopLevel file.scope.package m .source).HasOnly Member.YieldsOwner :=
    h.addTopLevel _ (SignatureSource.yieldsOwner_of_member? hm) _
  unfold declareMembers at hd
  -- Classes and objects declare members of their own; functions and properties are members of the
  -- facade.
  dsimp only at hd
  split at hd
  · exact hclassMembers hd
  · exact hclassMembers hd
  · split at hd
    · rename_i m hm
      cases hd
      exact hmember hm
    · cases hd
      exact h
  · split at hd
    · rename_i m hm
      cases hd
      exact hmember hm
    · cases hd
      exact h
  · cases hd
    exact h

end Binding

open Environment

/-- What is declared beside some constructors that yield their classes does so, too. -/
theorem bindUnits_yieldsOwner {env after : Environment} {units : List ParsedUnit}
    {defaultImports : List String} {bound : List BoundUnit} (hyields : env.HasOnly Member.YieldsOwner)
    (hb : bindUnits env units defaultImports = .ok (after, bound)) : after.HasOnly Member.YieldsOwner := by
  obtain ⟨-, declared, hclasses, hmembers⟩ := bindUnits_ok hb
  have hdeclared : declared.HasOnly Member.YieldsOwner :=
    foldlM_keeps (p := fun e => e.HasOnly Member.YieldsOwner)
      (fun _ _ _ _ h hd => Binding.declareClasses_hasOnly h hd) hyields hclasses
  refine foldlM_keeps (p := fun e => e.HasOnly Member.YieldsOwner) (fun file _ e e' he hd => ?_)
    (Binding.resolveSupertypes_hasOnly hdeclared _) hmembers
  exact foldlM_keeps (p := fun e => e.HasOnly Member.YieldsOwner)
    (fun _ _ _ _ h hd => Binding.declareMembers_yieldsOwner h hd) he hd

end KotlinTree
