import KotlinTree.Types.Subtyping

/-!
Getters that properties stand for. Main statement: the property of a name is found exactly where a class
or one above it declares a getter for it, at the first such class, as it is declared there.
-/

namespace KotlinTree

namespace Environment

/-- The class of a type and those above it. -/
def selfAndAbove (env : Environment) (t : Ty) : List String :=
  t.name?.toList ++ env.supertypesAbove t

/-- A platform class declares a method without parameters that is a getter of a property: one of its
instances by the name of the getter, or for a question a truth value by the name of the property. -/
structure IsAccessor (env : Environment) (name owner : String) (m : Member) : Prop where
  isPlatform : env.isPlatform (.of owner)
  declared : m ∈ env.membersNamed (.of owner) m.name
  isMethod : m.kind = .method
  no_parameters : m.parameters = []
  named : (getterName name.toList = some m.name ∧ m.isStatic = false) ∨
    (isQuestion name.toList ∧ m.name = name ∧ m.type.name? = some Ty.booleanName)

/-- A property that stands for a getter of the first class of a chain that declares one, and for one of
the class's instances, unless the class declares a question for the class itself. -/
structure StandsFor (env : Environment) (chain : List String) (name : String) (m : Member) : Prop where
  isSynthetic : m.isSynthetic
  first : ∃ before owner after getter, chain = before ++ owner :: after ∧
    env.IsAccessor name owner getter ∧ m = { getter with isSynthetic := true } ∧
    (∀ c ∈ before, ∀ k, ¬ env.IsAccessor name c k) ∧
    ((∀ k ∈ env.membersNamed (.of owner) name, isQuestionGetter k → k.isStatic = false) →
      m.isStatic = false)

section
variable {env : Environment} {name getter owner : String} {t : Ty} {m : Member}

theorem name_eq_of_mem_membersNamed (h : m ∈ env.membersNamed t name) : m.name = name := by
  unfold membersNamed at h
  cases hinfo : env.classOf? t with
  | none => simp [hinfo] at h
  | some info =>
    rw [hinfo] at h
    exact of_decide_eq_true (List.mem_filter.mp h).2

theorem isGetter_iff : isGetter m ↔ m.kind = .method ∧ m.parameters = [] ∧ m.isStatic = false := by
  simp [isGetter, and_assoc]

theorem isQuestionGetter_iff : isQuestionGetter m ↔
    m.kind = .method ∧ m.parameters = [] ∧ m.type.name? = some Ty.booleanName := by
  simp [isQuestionGetter, and_assoc]

/-- A class has a getter of either form, where the search looks for both. -/
theorem isAccessor_iff (hgetter : getterName name.toList = some getter) :
    env.IsAccessor name owner m ↔ env.isPlatform (.of owner) ∧
      ((m ∈ env.membersNamed (.of owner) getter ∧ isGetter m) ∨
        (isQuestion name.toList ∧ m ∈ env.membersNamed (.of owner) name ∧ isQuestionGetter m)) := by
  constructor
  · intro h
    refine ⟨h.isPlatform, ?_⟩
    rcases h.named with ⟨hname, hstatic⟩ | ⟨hquestion, hname, htype⟩
    · have he : getter = m.name := Option.some.inj (hgetter.symm.trans hname)
      exact .inl ⟨he ▸ h.declared, isGetter_iff.mpr ⟨h.isMethod, h.no_parameters, hstatic⟩⟩
    · exact .inr ⟨hquestion, hname ▸ h.declared,
        isQuestionGetter_iff.mpr ⟨h.isMethod, h.no_parameters, htype⟩⟩
  · rintro ⟨hplatform, ⟨hmem, hm⟩ | ⟨hquestion, hmem, hm⟩⟩
    · have hname := name_eq_of_mem_membersNamed hmem
      obtain ⟨hkind, hparameters, hstatic⟩ := isGetter_iff.mp hm
      exact ⟨hplatform, hname ▸ hmem, hkind, hparameters, .inl ⟨hname ▸ hgetter, hstatic⟩⟩
    · have hname := name_eq_of_mem_membersNamed hmem
      obtain ⟨hkind, hparameters, htype⟩ := isQuestionGetter_iff.mp hm
      exact ⟨hplatform, hname.symm ▸ hmem, hkind, hparameters, .inr ⟨hquestion, hname, htype⟩⟩

/-- What is found in one class is a getter that it declares. -/
theorem isAccessor_of_getterIn? (hgetter : getterName name.toList = some getter)
    (h : env.getterIn? name getter owner = some m) : env.IsAccessor name owner m := by
  rw [isAccessor_iff hgetter]
  unfold getterIn? at h
  split at h
  next hplatform =>
    refine ⟨hplatform, ?_⟩
    rcases Option.or_eq_some_iff.mp h with hfind | ⟨-, hfind⟩
    · exact .inl ⟨List.mem_of_find?_eq_some hfind, List.find?_some hfind⟩
    · split at hfind
      next hquestion =>
        exact .inr ⟨hquestion, List.mem_of_find?_eq_some hfind, List.find?_some hfind⟩
      next => cases hfind
  next => cases h

/-- Where nothing is found in a class, it declares no getter. -/
theorem not_isAccessor_of_getterIn? (hgetter : getterName name.toList = some getter)
    (h : env.getterIn? name getter owner = none) : ¬ env.IsAccessor name owner m := by
  intro hm
  obtain ⟨hplatform, hm⟩ := (isAccessor_iff hgetter).mp hm
  rw [getterIn?, if_pos hplatform, Option.or_eq_none_iff] at h
  rcases hm with ⟨hmem, hm⟩ | ⟨hquestion, hmem, hm⟩
  · exact List.find?_eq_none.mp h.1 m hmem hm
  · rw [if_pos hquestion] at h
    exact List.find?_eq_none.mp h.2 m hmem hm

/-- A getter of the class itself is a question, which is declared by the name of the property. -/
theorem IsAccessor.isStatic_eq_false (h : env.IsAccessor name owner m)
    (hquestions : ∀ k ∈ env.membersNamed (.of owner) name, isQuestionGetter k → k.isStatic = false) :
    m.isStatic = false := by
  rcases h.named with ⟨-, hstatic⟩ | ⟨-, hname, htype⟩
  · exact hstatic
  · exact hquestions m (hname ▸ h.declared)
      (isQuestionGetter_iff.mpr ⟨h.isMethod, h.no_parameters, htype⟩)

/-- A search through a chain of classes ends at the first one that declares a getter. -/
theorem standsFor_of_findSome? {chain : List String} (hgetter : getterName name.toList = some getter)
    (h : chain.findSome? (env.getterIn? name getter) = some m) :
    env.StandsFor chain name { m with isSynthetic := true } := by
  obtain ⟨before, owner, after, rfl, hm, hbefore⟩ := List.findSome?_eq_some_iff.mp h
  have haccessor := isAccessor_of_getterIn? hgetter hm
  exact ⟨rfl, before, owner, after, m, rfl, haccessor, rfl,
    fun c hc k => not_isAccessor_of_getterIn? hgetter (hbefore c hc), haccessor.isStatic_eq_false⟩

theorem syntheticAccessor?_eq (hgetter : getterName name.toList = some getter) :
    env.syntheticAccessor? t name = ((env.selfAndAbove t).findSome? (env.getterIn? name getter)).map
      fun m => { m with isSynthetic := true } := by
  rw [syntheticAccessor?, hgetter]
  cases t <;> rfl

theorem syntheticAccessor?_of_getterName_eq_none (hgetter : getterName name.toList = none) :
    env.syntheticAccessor? t name = none := by
  rw [syntheticAccessor?, hgetter]
  cases t <;> rfl

/-- There is no getter of a property without a name. -/
theorem not_isAccessor_of_getterName_eq_none (hgetter : getterName name.toList = none) :
    ¬ env.IsAccessor name owner m := by
  intro h
  have hchars : name.toList = [] := by
    cases hchars : name.toList with
    | nil => rfl
    | cons first rest => simp [hchars, getterName] at hgetter
  rcases h.named with ⟨hname, -⟩ | ⟨hquestion, -⟩
  · exact absurd (hgetter.symm.trans hname) (Option.some_ne_none m.name).symm
  · simp [hchars, isQuestion] at hquestion

end

/-- The property of a type is found exactly where its class or one above it declares a getter, and stands
for the first one along the walk from the class. -/
theorem syntheticAccessor?_standsFor (env : Environment) (owner : Ty) (name : String) :
    ((env.syntheticAccessor? owner name).isSome ↔
      ∃ c ∈ env.selfAndAbove owner, ∃ k, env.IsAccessor name c k) ∧
    ∀ m, env.syntheticAccessor? owner name = some m →
      env.StandsFor (env.selfAndAbove owner) name m := by
  cases hgetter : getterName name.toList with
  | none =>
    rw [syntheticAccessor?_of_getterName_eq_none hgetter]
    refine ⟨iff_of_false Bool.false_ne_true ?_, fun m h => absurd h (Option.some_ne_none m).symm⟩
    exact fun ⟨_, _, _, hk⟩ => not_isAccessor_of_getterName_eq_none hgetter hk
  | some getter =>
    rw [syntheticAccessor?_eq hgetter, Option.isSome_map]
    refine ⟨⟨fun h => ?_, fun ⟨c, hc, k, hk⟩ => ?_⟩, fun m h => ?_⟩
    · obtain ⟨m, hm⟩ := Option.isSome_iff_exists.mp h
      obtain ⟨c, hc, hm⟩ := List.exists_of_findSome?_eq_some hm
      exact ⟨c, hc, m, isAccessor_of_getterIn? hgetter hm⟩
    · refine Option.isSome_iff_ne_none.mpr fun hnone => ?_
      exact not_isAccessor_of_getterIn? hgetter (List.findSome?_eq_none_iff.mp hnone c hc) hk
    · obtain ⟨k, hk, rfl⟩ := Option.map_eq_some_iff.mp h
      exact standsFor_of_findSome? hgetter hk

/-- A question of a class itself, not of its instances. -/
def daemonQuestion : Member where
  name := "isDaemon"
  kind := .method
  type := .of Ty.booleanName
  owner := "T"
  isStatic := true

def nameGetter : Member where
  name := "getName"
  kind := .method
  type := .of Ty.stringName
  owner := "U"

/-- Two platform classes, one above the other, with a getter each. -/
def daemons : Environment where
  classes := [("T", ["U"], [daemonQuestion]), ("U", [], [nameGetter])].foldl
    (fun classes (name, supertypes, members) => classes.insert name
      { name, package := "", kind := .plainClass, origin := .platform, supertypes, members }) ∅

theorem daemons_classInfo? (name : String) : daemons.classInfo? name =
    if name = "T" then some ⟨"T", "", .plainClass, .platform, ["U"], [daemonQuestion], none⟩
    else if name = "U" then some ⟨"U", "", .plainClass, .platform, [], [nameGetter], none⟩ else none := by
  simp only [classInfo?, daemons, List.foldl_cons, List.foldl_nil, Std.HashMap.getElem?_insert,
    Std.HashMap.getElem?_empty]
  grind

theorem daemons_selfAndAbove : daemons.selfAndAbove (.of "T") = ["T", "U", Ty.anyName] := by
  simp [selfAndAbove, supertypesAbove, Ty.of, Ty.name?, supertypeWalk, walkFrom, supertypes,
    daemons_classInfo?, maxSupertypes, Ty.anyName]

theorem daemons_isAccessor_nameGetter : daemons.IsAccessor "name" "U" nameGetter where
  isPlatform := by simp [isPlatform, origin?, ownerOrigin?, Ty.of, Ty.name?, daemons_classInfo?]
  declared := by simp [membersNamed, classOf?, Ty.of, Ty.name?, daemons_classInfo?, ClassInfo.membersNamed]
  isMethod := rfl
  no_parameters := rfl
  named := .inl ⟨by decide, rfl⟩

theorem daemons_isAccessor_daemonQuestion : daemons.IsAccessor "isDaemon" "T" daemonQuestion where
  isPlatform := by simp [isPlatform, origin?, ownerOrigin?, Ty.of, Ty.name?, daemons_classInfo?]
  declared := by simp [membersNamed, classOf?, Ty.of, Ty.name?, daemons_classInfo?, ClassInfo.membersNamed]
  isMethod := rfl
  no_parameters := rfl
  named := .inr ⟨by decide, rfl, rfl⟩

theorem daemons_mem_membersNamed {owner name : String} {m : Member}
    (h : m ∈ daemons.membersNamed (.of owner) name) :
    (owner = "T" ∧ m = daemonQuestion) ∨ (owner = "U" ∧ m = nameGetter) := by
  simp only [membersNamed, classOf?, Ty.of, Ty.name?, Option.bind_some, daemons_classInfo?] at h
  by_cases hT : owner = "T"
  · rw [if_pos hT] at h
    exact .inl ⟨hT, List.mem_singleton.mp (List.mem_filter.mp h).1⟩
  by_cases hU : owner = "U"
  · rw [if_neg hT, if_pos hU] at h
    exact .inr ⟨hU, List.mem_singleton.mp (List.mem_filter.mp h).1⟩
  · rw [if_neg hT, if_neg hU] at h
    exact absurd h List.not_mem_nil

/-- The getter above is found for an instance; the question of the class itself is found all the same. -/
theorem syntheticAccessor?_standsFor_daemons :
    (daemons.syntheticAccessor? (.of "T") "name").isSome ∧
    (∀ m, daemons.syntheticAccessor? (.of "T") "name" = some m → m.isStatic = false) ∧
    (daemons.syntheticAccessor? (.of "T") "isDaemon").isSome ∧
    ∀ m, daemons.syntheticAccessor? (.of "T") "isDaemon" = some m → m.isStatic := by
  obtain ⟨hname, hnameFirst⟩ := syntheticAccessor?_standsFor daemons (.of "T") "name"
  obtain ⟨hquestion, hquestionFirst⟩ := syntheticAccessor?_standsFor daemons (.of "T") "isDaemon"
  refine ⟨?_, fun m hm => ?_, ?_, fun m hm => ?_⟩
  · exact hname.mpr ⟨"U", by simp [daemons_selfAndAbove], nameGetter, daemons_isAccessor_nameGetter⟩
  · obtain ⟨_, owner, _, getter, -, -, rfl, -, hstatic⟩ := (hnameFirst m hm).first
    refine hstatic fun k hk _ => ?_
    -- No class has a member of the name of the property.
    have hkname := name_eq_of_mem_membersNamed hk
    rcases daemons_mem_membersNamed hk with ⟨-, rfl⟩ | ⟨-, rfl⟩
    · exact absurd hkname (by decide)
    · rfl
  · exact hquestion.mpr ⟨"T", by simp [daemons_selfAndAbove], _, daemons_isAccessor_daemonQuestion⟩
  · obtain ⟨before, owner, _, getter, -, haccessor, rfl, -⟩ := (hquestionFirst m hm).first
    rcases daemons_mem_membersNamed haccessor.declared with ⟨-, rfl⟩ | ⟨-, rfl⟩
    · rfl
    · exact absurd haccessor.named (by decide)

end Environment

end KotlinTree
