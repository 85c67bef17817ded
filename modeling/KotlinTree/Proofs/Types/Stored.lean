import KotlinTree.Proofs.Types.Stub
import KotlinTree.Types.Subtyping

/-!
Types whose class is among some names, and the members that an environment has: what holds of all of
them holds after a declaration, if it held before and holds of the members that the declaration brings.
Main statements: supertypes and least types above two lead to no names but those that classes declare,
and the types of the built-in members are of built-in classes.
-/

namespace KotlinTree

namespace Ty

/-- The class of a type, if it has one, has one of some names. -/
def Within (names : String → Prop) (t : Ty) : Prop := ∀ name, t.name? = some name → names name

section
variable {names : String → Prop} {t : Ty} {name : String}

theorem within_unknown : Ty.unknown.Within names := by
  intro name h
  cases h

theorem within_named {n : Nullability} (h : names name) : (Ty.named name n).Within names := by
  intro name' hname
  cases hname
  exact h

theorem within_of (h : names name) : (Ty.of name).Within names := within_named h

theorem within_nothing (h : names nothingName) (isNullable : Bool) :
    (Ty.nothing isNullable).Within names := by
  intro name hname
  cases hname
  exact h

theorem Within.withNullability (h : t.Within names) (n : Nullability) :
    (t.withNullability n).Within names := by
  intro name hname
  rw [name?_withNullability] at hname
  exact h name hname

theorem Within.nullable (h : t.Within names) : t.nullable.Within names := h.withNullability _

theorem Within.notNull (h : t.Within names) : t.notNull.Within names := h.withNullability _

/-- Nothing is asked of an unknown type in place of one that is not there. -/
theorem within_getD {t? : Option Ty} {other : Ty} (h : ∀ t, t? = some t → t.Within names)
    (hother : other.Within names) : (t?.getD other).Within names := by
  cases t? with
  | none => exact hother
  | some t => exact h t rfl

end

end Ty

namespace Environment

variable {env : Environment} {names : String → Prop}

/-- A walk meets only what it starts from and what classes declare as supertypes. -/
theorem mem_walkFrom {start t : String} {found queue : List String}
    (h : t ∈ env.walkFrom start found queue) :
    t ∈ found ∨ t ∈ queue ∨ ∃ sub, t ∈ env.supertypes sub := by
  fun_induction env.walkFrom start found queue with
  | case1 found => exact .inl (List.mem_reverse.mp h)
  | case2 found name rest _ => exact .inl (List.mem_reverse.mp h)
  | case3 found name rest _ _ ih =>
    rcases ih h with hfound | hrest | hsuper
    · exact .inl hfound
    · exact .inr (.inl (List.mem_cons_of_mem _ hrest))
    · exact .inr (.inr hsuper)
  | case4 found name rest _ _ ih =>
    rcases ih h with hfound | hqueue | hsuper
    · rcases List.mem_cons.mp hfound with rfl | hfound
      · exact .inr (.inl List.mem_cons_self)
      · exact .inl hfound
    · rcases List.mem_append.mp hqueue with hrest | hnext
      · exact .inr (.inl (List.mem_cons_of_mem _ hrest))
      · exact .inr (.inr ⟨name, hnext⟩)
    · exact .inr (.inr hsuper)

theorem exists_of_mem_supertypeWalk {t name : String} (h : t ∈ env.supertypeWalk name) :
    ∃ sub, t ∈ env.supertypes sub := by
  rcases mem_walkFrom h with hfound | hqueue | hsuper
  · exact absurd hfound List.not_mem_nil
  · exact ⟨name, hqueue⟩
  · exact hsuper

/-- The least class above two is one of them, or declared as a supertype, or the root. -/
theorem leastAbove_within (hsuper : ∀ sub, ∀ t ∈ env.supertypes sub, names t)
    (hany : names Ty.anyName) {left right : String} (hleft : names left) (hright : names right) :
    names (env.leastAbove left right) := by
  unfold leastAbove
  split
  · exact hright
  split
  · exact hleft
  cases hfind : (env.supertypeWalk left).find? fun name => env.isSubtype (.of right) (.of name) with
  | none => exact hany
  | some t =>
    obtain ⟨sub, ht⟩ := exists_of_mem_supertypeWalk (List.mem_of_find?_eq_some hfind)
    exact hsuper sub t ht

/-- The least type above two leads to no other names. -/
theorem leastUpperBound_within (hsuper : ∀ sub, ∀ t ∈ env.supertypes sub, names t)
    (hany : names Ty.anyName) {left right : Ty} (hleft : left.Within names)
    (hright : right.Within names) : (env.leastUpperBound left right).Within names := by
  fun_cases env.leastUpperBound left right with
  | case1 | case2 => exact Ty.within_unknown
  | case3 => exact hright.nullable
  | case4 => exact hright
  | case5 => exact hleft.nullable
  | case6 => exact hleft
  | case7 l n r k =>
    apply Ty.within_named
    split
    · exact hleft l rfl
    · exact leastAbove_within hsuper hany (hleft l rfl) (hright r rfl)

end Environment

namespace Environment

/-- A member is stored under a name: in a class, in the files of a package, or as an extension. -/
inductive Has (env : Environment) (name : String) : Member → Prop where
  | ofClass {owner : String} {info : ClassInfo} {m : Member} :
    env.classInfo? owner = some info → m ∈ info.membersNamed name → env.Has name m
  | topLevel {package : String} {m : Member} : m ∈ env.topLevel package name → env.Has name m
  | isExtension {m : Member} : m ∈ env.extensions.getD name [] → env.Has name m

/-- Something holds of every member that is stored. -/
def HasOnly (env : Environment) (P : Member → Prop) : Prop :=
  ∀ name m, env.Has name m → P m

/-- The classes are among some names, and so are the types of all members. -/
structure Within (env : Environment) (names : String → Prop) : Prop where
  hasClass : ∀ name, env.hasClass name → names name
  member : env.HasOnly fun m => m.type.Within names

section
variable {env after : Environment} {P : Member → Prop} {name : String} {info : ClassInfo} {m : Member}

theorem HasOnly.mono {Q : Member → Prop} (h : env.HasOnly P) (hPQ : ∀ m, P m → Q m) :
    env.HasOnly Q :=
  fun name m hm => hPQ m (h name m hm)

theorem HasOnly.of_mem_members (h : env.HasOnly P) (hi : env.classInfo? name = some info) :
    ∀ m ∈ info.members, P m := by
  intro m hm
  refine h m.name m (.ofClass hi ?_)
  exact List.mem_filter.mpr ⟨hm, decide_eq_true rfl⟩

/-- It is asked of the members of classes only, where those of files are as they were. -/
theorem HasOnly.of_classes (h : env.HasOnly P)
    (hclasses : ∀ n info, after.classInfo? n = some info → ∀ m ∈ info.members, P m)
    (htops : after.topLevels = env.topLevels) (hexts : after.extensions = env.extensions) :
    after.HasOnly P := by
  intro n m hm
  cases hm with
  | ofClass hi hm => exact hclasses _ _ hi m (List.mem_filter.mp hm).1
  | topLevel hm =>
    unfold Environment.topLevel at hm
    rw [htops] at hm
    exact h n m (.topLevel hm)
  | isExtension hm =>
    rw [hexts] at hm
    exact h n m (.isExtension hm)

theorem HasOnly.redefines (h : env.HasOnly P) (hd : env.Redefines after name info)
    (hinfo : ∀ m ∈ info.members, P m) : after.HasOnly P := by
  refine h.of_classes (fun n i hi => ?_) hd.topLevels hd.extensions
  rw [hd.puts] at hi
  split at hi
  · cases hi
    exact hinfo
  · exact h.of_mem_members hi

theorem HasOnly.addClass (h : env.HasOnly P) (hinfo : ∀ m ∈ info.members, P m)
    (ha : env.addClass info = (after, none)) : after.HasOnly P := by
  obtain ⟨-, result, hd, ⟨-, rfl⟩ | ⟨first, hfirst, rfl⟩⟩ := redefines_addClass ha
  · exact h.redefines hd hinfo
  · refine h.redefines hd fun m hm => ?_
    rcases List.mem_append.mp hm with hbefore | hadded
    · exact h.of_mem_members hfirst m hbefore
    · exact hinfo m (ClassInfo.mem_of_mem_groupedMembers hadded)

/-- A class that is there is changed, but not its kind and its members. -/
theorem HasOnly.modifyClass (h : env.HasOnly P) (name : String) (f : ClassInfo → ClassInfo)
    (hkind : ∀ info, (f info).kind = info.kind)
    (hmembers : ∀ info, (f info).members = info.members) : (env.modifyClass name f).HasOnly P := by
  cases hc : env.classInfo? name with
  | none => rwa [modifyClass_of_none hc f]
  | some first =>
    refine h.redefines (redefines_modifyClass hc (hkind first)) ?_
    rw [hmembers]
    exact h.of_mem_members hc

theorem HasOnly.addMember (h : env.HasOnly P) {owner : String} (hm : P m)
    (ha : env.addMember owner m = .ok after) : after.HasOnly P := by
  obtain ⟨first, hfirst, hd⟩ := redefines_addMember ha
  refine h.redefines hd fun m' hm' => ?_
  rcases List.mem_append.mp hm' with hbefore | hadded
  · exact h.of_mem_members hfirst m' hbefore
  · exact List.mem_singleton.mp hadded ▸ hm

theorem HasOnly.addPackage (h : env.HasOnly P) (package : String) :
    (env.addPackage package).HasOnly P := by
  obtain ⟨packages, heq⟩ := env.exists_addPackage_eq package
  rw [heq]
  exact h.of_classes (fun _ _ hi => h.of_mem_members hi) rfl rfl

theorem HasOnly.addTopLevel (h : env.HasOnly P) (package : String) (hm : P m) (origin : Origin) :
    (env.addTopLevel package m origin).HasOnly P := by
  have hpackage := h.addPackage package
  intro n m' hm'
  unfold Environment.addTopLevel at hm'
  dsimp only at hm'
  -- An extension is stored by its name alone, any other member beside those of its package.
  split at hm'
  · cases hm' with
    | ofClass hi hmem => exact hpackage n m' (.ofClass hi hmem)
    | topLevel hmem => exact hpackage n m' (.topLevel hmem)
    | isExtension hmem =>
      rcases mem_insert_append hmem with hbefore | ⟨-, rfl⟩
      · exact hpackage n m' (.isExtension hbefore)
      · exact hm
  · cases hm' with
    | ofClass hi hmem => exact hpackage n m' (.ofClass hi hmem)
    | topLevel hmem =>
      rcases mem_insert_append hmem with hbefore | ⟨-, rfl⟩
      · exact hpackage n m' (.topLevel hbefore)
      · exact hm
    | isExtension hmem => exact hpackage n m' (.isExtension hmem)

theorem HasOnly.addClasses {infos : List ClassInfo} (h : env.HasOnly P)
    (hinfos : ∀ info ∈ infos, ∀ m ∈ info.members, P m)
    (ha : env.addClasses infos = (after, none)) : after.HasOnly P := by
  induction infos generalizing env with
  | nil =>
    cases ha
    exact h
  | cons info infos ih =>
    rw [← List.singleton_append] at ha
    obtain ⟨mid, hfirst, hrest⟩ := addClasses_append ha
    have hmid := h.addClass (hinfos info List.mem_cons_self) (addClasses_singleton hfirst)
    exact ih hmid (fun i hi => hinfos i (List.mem_cons_of_mem _ hi)) hrest

theorem HasOnly.addStub (h : env.HasOnly P) {stub : StubFile}
    (hclasses : ∀ info ∈ stub.classes.flatMap (·.classInfos (stub.origin.getD .platform)),
      ∀ m ∈ info.members, P m)
    (hfunctions : ∀ f ∈ stub.functions, P f.member) (ha : env.addStub stub = (after, none)) :
    after.HasOnly P := by
  unfold Environment.addStub at ha
  dsimp only at ha
  split at ha
  · cases ha
  · rename_i mid hmid
    cases ha
    refine List.foldlRecOn (motive := fun env : Environment => env.HasOnly P) stub.functions _
      (h.addClasses hclasses hmid) fun env henv f hf => ?_
    exact henv.addTopLevel _ (hfunctions f hf) _

theorem hasOnly_empty : ({} : Environment).HasOnly P := by
  intro n m hm
  cases hm with
  | ofClass hi hm =>
    rw [show ({} : Environment).classInfo? _ = none from Std.HashMap.getElem?_empty] at hi
    cases hi
  | topLevel hm =>
    rw [show ({} : Environment).topLevel _ n = [] from Std.HashMap.getD_empty] at hm
    exact absurd hm List.not_mem_nil
  | isExtension hm =>
    rw [show ({} : Environment).extensions.getD n [] = [] from Std.HashMap.getD_empty] at hm
    exact absurd hm List.not_mem_nil

end

end Environment

namespace Builtins

/-- The types of the built-in members are of built-in classes. -/
theorem environment_hasOnly : environment.HasOnly fun m => m.type.Within (· ∈ names) := by
  have hclasses : ∀ info ∈ infos, ∀ m ∈ info.members, ∀ name ∈ m.type.name?.toList, name ∈ names := by
    decide +kernel
  have hfunctions : ∀ f ∈ stub.functions, ∀ name ∈ f.member.type.name?.toList, name ∈ names := by
    decide +kernel
  refine Environment.hasOnly_empty.addStub (fun info hi m hm name hname => ?_)
    (fun f hf name hname => ?_) addStub_stub.1
  · exact hclasses info hi m hm name (Option.mem_toList.mpr hname)
  · exact hfunctions f hf name (Option.mem_toList.mpr hname)

end Builtins

end KotlinTree
