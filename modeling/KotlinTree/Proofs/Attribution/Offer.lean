import KotlinTree.Attribution.Meaning
import KotlinTree.Proofs.Scope.Path
import KotlinTree.Proofs.Types.Stored

/-!
Where the members come from that a name can mean. Main statement: whatever a name means, a member is one
that the environment has under this name, or under the name that it is imported from, or a getter that the
name stands for.
-/

namespace KotlinTree

/-- What is found in a list under a key is in the list. -/
theorem mem_of_lookup {α β : Type} [BEq α] [LawfulBEq α] {entries : List (α × β)} {key : α} {value : β}
    (h : entries.lookup key = some value) : (key, value) ∈ entries := by
  obtain ⟨before, after, rfl, -⟩ := List.lookup_eq_some_iff.mp h
  exact List.mem_append_right before List.mem_cons_self

namespace Environment

/-- A getter of a class that the name of a property stands for. -/
inductive HasGetter (env : Environment) (name : String) : Member → Prop where
  | getter {owner getter : String} {info : ClassInfo} {m : Member} :
    getterName name.toList = some getter → env.classInfo? owner = some info →
      m ∈ info.membersNamed getter → isGetter m → env.HasGetter name m
  | question {owner : String} {info : ClassInfo} {m : Member} :
    isQuestion name.toList → env.classInfo? owner = some info → m ∈ info.membersNamed name →
      isQuestionGetter m → env.HasGetter name m

/-- A member that is found under a name. -/
inductive Offers (env : Environment) (name : String) : Member → Prop where
  | stored {m : Member} : env.Has name m → env.Offers name m
  | accessor {m : Member} : env.HasGetter name m → env.Offers name { m with isSynthetic := true }

section
variable {env : Environment} {t : Ty} {name : String} {m : Member}

/-- Members with a name are those of the class that the type names. -/
theorem exists_of_mem_membersNamed (h : m ∈ env.membersNamed t name) :
    ∃ owner info, t.name? = some owner ∧ env.classInfo? owner = some info ∧
      m ∈ info.membersNamed name := by
  unfold membersNamed classOf? at h
  cases hn : t.name? with
  | none => simp [hn] at h
  | some owner =>
    cases hi : env.classInfo? owner with
    | none => simp [hn, hi] at h
    | some info => exact ⟨owner, info, rfl, hi, by simpa [hn, hi] using h⟩

/-- A member with a name is one that the environment has under it. -/
theorem has_of_mem_membersNamed (h : m ∈ env.membersNamed t name) : env.Has name m := by
  obtain ⟨owner, info, -, hi, hm⟩ := exists_of_mem_membersNamed h
  exact .ofClass hi hm

/-- A getter that is found on a class or above it is declared by the class where it is found. -/
theorem offers_of_syntheticAccessor? (h : env.syntheticAccessor? t name = some m) :
    env.Offers name m := by
  unfold syntheticAccessor? at h
  split at h
  · rename_i ownerName getter _ hgetter
    obtain ⟨found, hfound, rfl⟩ := Option.map_eq_some_iff.mp h
    obtain ⟨owner, -, hin⟩ := List.exists_of_findSome?_eq_some hfound
    apply Offers.accessor
    unfold getterIn? at hin
    split at hin
    · rcases Option.or_eq_some_iff.mp hin with hget | ⟨-, hquestion⟩
      · obtain ⟨_, info, -, hi, hm⟩ := exists_of_mem_membersNamed (List.mem_of_find?_eq_some hget)
        exact .getter hgetter hi hm (List.find?_some hget)
      · split at hquestion
        · rename_i hname
          obtain ⟨_, info, -, hi, hm⟩ :=
            exists_of_mem_membersNamed (List.mem_of_find?_eq_some hquestion)
          exact .question hname hi hm (List.find?_some hquestion)
        · cases hquestion
    · cases hin
  · cases h

end

end Environment

namespace Attribution
open Environment

section
variable {members : List Member} {m : Member}

/-- An overload is one of the members that it is chosen from. -/
theorem mem_of_overload? {count : Nat} (h : overload? members count = some m) : m ∈ members := by
  unfold overload? at h
  rcases Option.or_eq_some_iff.mp h with hfind | ⟨-, hhead⟩
  · exact List.mem_of_find?_eq_some hfind
  · exact List.mem_of_head? hhead

/-- What a purpose selects is one of the members. -/
theorem Purpose.mem_of_select? {p : Purpose} (h : p.select? members = some m) : m ∈ members := by
  cases p with
  | value => exact List.mem_of_head? h
  | call count => exact List.mem_of_find?_eq_some h
  | any =>
    rcases Option.or_eq_some_iff.mp h with hfind | ⟨-, hhead⟩
    · exact List.mem_of_find?_eq_some hfind
    · exact List.mem_of_head? hhead

/-- So is what it selects when it must take one. -/
theorem Purpose.mem_of_selectLoosely? {p : Purpose} (h : p.selectLoosely? members = some m) :
    m ∈ members := by
  cases p with
  | value => exact Purpose.mem_of_select? (p := .value) h
  | call count => exact mem_of_overload? h
  | any => exact Purpose.mem_of_select? (p := .any) h

end

section
variable {env : Environment} {t : Ty} {name : String} {p : Purpose} {m : Member}

/-- Declared members are those of a class or its supertypes. -/
theorem has_of_mem_declaredMembers (h : m ∈ declaredMembers env t name p) : env.Has name m := by
  obtain ⟨owner, -, hm⟩ := List.mem_flatMap.mp h
  exact has_of_mem_membersNamed (List.mem_filter.mp hm).1

/-- Static members are members too. -/
theorem has_of_mem_staticMembers {owner : String} (h : m ∈ staticMembers env owner name p) :
    env.Has name m :=
  has_of_mem_membersNamed (List.mem_filter.mp h).1

/-- A member of the companion is a member. -/
theorem has_of_companionMember? (h : companionMember? env t name p = some m) : env.Has name m := by
  obtain ⟨companion, -, hm⟩ := Option.bind_eq_some_iff.mp h
  exact has_of_mem_declaredMembers (Purpose.mem_of_selectLoosely? hm)

/-- An accessor is offered under the name of the property that it stands for. -/
theorem offers_of_accessor? (h : accessor? env t name p = some m) : env.Offers name m := by
  cases p with
  | call count => cases h
  | value | any => exact offers_of_syntheticAccessor? h

/-- What a superclass has is offered. -/
theorem offers_of_superMember? (h : superMember? env t name p = some m) : env.Offers name m := by
  rcases Option.or_eq_some_iff.mp h with hdeclared | ⟨-, haccessor⟩
  · exact .stored (has_of_mem_declaredMembers (Purpose.mem_of_selectLoosely? hdeclared))
  · exact offers_of_accessor? haccessor

/-- A member of a package is one that the environment has. -/
theorem has_of_topLevelMember? {package : String} (h : topLevelMember? env package name p = some m) :
    env.Has name m :=
  .topLevel (List.mem_filter.mp (Purpose.mem_of_selectLoosely? h)).1

/-- The constructor of a class yields the class, or what the class declares of it. -/
theorem constructorOf_cases (env : Environment) (t : Ty) (count : Nat) :
    (constructorOf env t count).kind = .constructor ∧
      ((constructorOf env t count).type = t.notNull ∨
        env.Has constructorName (constructorOf env t count)) := by
  unfold constructorOf
  dsimp only
  cases ho : overload? ((env.membersNamed t constructorName).filter fun m => m.kind = .constructor)
      count with
  | none => exact ⟨rfl, .inl rfl⟩
  | some m =>
    obtain ⟨hm, hkind⟩ := List.mem_filter.mp (mem_of_overload? ho)
    exact ⟨of_decide_eq_true hkind, .inr (has_of_mem_membersNamed hm)⟩

end

namespace Setting

variable {s : Setting} {t : Ty} {name : String} {p : Purpose} {m : Member}

/-- An extension is a member that the environment has. -/
theorem has_of_mem_extensions (h : m ∈ s.extensions t name p) : s.env.Has name m := by
  have hm := (List.mem_filter.mp h).1
  exact .isExtension (List.mem_filter.mp hm).1

/-- Whichever way an instance member is found, it is offered under the name. -/
theorem offers_of_instanceMember? (h : s.instanceMember? t name p = some m) :
    s.env.Offers name m := by
  unfold instanceMember? at h
  split at h
  · cases h
  dsimp only at h
  -- The places are searched one after another, and each has its members under the name.
  rcases Option.or_eq_some_iff.mp h with hdeclared | ⟨-, h⟩
  · exact .stored (has_of_mem_declaredMembers (Purpose.mem_of_select? hdeclared))
  rcases Option.or_eq_some_iff.mp h with haccessor | ⟨-, h⟩
  · exact offers_of_accessor? haccessor
  rcases Option.or_eq_some_iff.mp h with hextension | ⟨-, h⟩
  · exact .stored (has_of_mem_extensions (Purpose.mem_of_select? hextension))
  rcases Option.or_eq_some_iff.mp h with hcompanion | ⟨-, h⟩
  · exact .stored (has_of_companionMember? hcompanion)
  rcases List.mem_append.mp (Purpose.mem_of_selectLoosely? h) with hdeclared | hextension
  · exact .stored (has_of_mem_declaredMembers hdeclared)
  · exact .stored (has_of_mem_extensions hextension)

/-- Whichever way a static member is found, it is offered under the name. -/
theorem offers_of_staticMember? (h : s.staticMember? t name p = some m) : s.env.Offers name m := by
  have hstatic (owners : List String)
      (hm : m ∈ owners.flatMap fun owner => staticMembers s.env owner name p) :
      s.env.Offers name m := by
    obtain ⟨owner, -, hm⟩ := List.mem_flatMap.mp hm
    exact .stored (has_of_mem_staticMembers hm)
  unfold staticMember? at h
  split at h
  · exact offers_of_instanceMember? h
  dsimp only at h
  rcases Option.or_eq_some_iff.mp h with hown | ⟨-, h⟩
  · exact hstatic _ (Purpose.mem_of_select? hown)
  rcases Option.or_eq_some_iff.mp h with hcompanion | ⟨-, h⟩
  · obtain ⟨companion, -, hm⟩ := Option.bind_eq_some_iff.mp hcompanion
    exact offers_of_instanceMember? hm
  rcases List.mem_append.mp (Purpose.mem_of_selectLoosely? h) with hown | habove
  · exact hstatic _ hown
  · exact hstatic _ habove

/-- A member of any receiver around is offered under the name. -/
theorem offers_of_receiverMember {reachable sawUnknown : Bool} {frames : List Frame}
    (h : s.receiverMember name p reachable sawUnknown frames = .found m) : s.env.Offers name m := by
  induction frames generalizing reachable sawUnknown with
  | nil =>
    rw [receiverMember] at h
    split at h <;> cases h
  | cons frame frames ih =>
    rw [receiverMember] at h
    split at h
    · rename_i found hfound
      cases h
      split at hfound
      · exact offers_of_instanceMember? hfound
      · exact .stored (has_of_companionMember? hfound)
    · exact ih h

/-- A name can mean a member here: it is found under the name, or under the last name of a path that the
name is imported from. -/
def Finds (s : Setting) (name : String) (m : Member) : Prop :=
  s.env.Offers name m ∨
    ∃ path, (name, path) ∈ s.unit.scope.explicitImports ∧
      s.env.Has (Text.afterLast (· = '.') path) m

/-- What some names of classes are closed under: there is no way from them to any other name. -/
structure Closed (s : Setting) (names : String → Prop) : Prop where
  hasClass : ∀ name, s.env.hasClass name → names name
  any : names Ty.anyName
  nothing : names Ty.nothingName
  unit : names Ty.unitName
  boolean : names Ty.booleanName
  array : names "kotlin.Array"
  literal : ∀ id t, s.forest.literalType? id = some t → t.Within names
  member : ∀ name m, s.env.Has name m → m.type.Within names
  companion : ∀ t c, s.env.companionOf? t = some c → c.Within names
  supertype : ∀ sub, ∀ t ∈ s.env.supertypes sub, names t
  className : ∀ id name, (id, name) ∈ s.unit.classNames → names name

/-- Nothing is asked of the types where they may be of any class. -/
theorem closed_true (s : Setting) : s.Closed fun _ => True :=
  ⟨fun _ _ => trivial, trivial, trivial, trivial, trivial, trivial, fun _ _ _ _ _ => trivial,
    fun _ _ _ _ _ => trivial, fun _ _ _ _ _ => trivial, fun _ _ _ => trivial, fun _ _ _ => trivial⟩

/-- What a name means is among some names of classes, and a member is one that the name can mean. -/
def Fits (s : Setting) (names : String → Prop) (name : String) : Meaning → Prop
  | .classType t | .localVariable t | .localFunction t => t.Within names
  | .member m => m.type.Within names ∧ (m.kind = .constructor ∨ s.Finds name m)
  | .package _ | .indeterminate | .unresolved _ => True

variable {names : String → Prop} {meaning : Meaning}

/-- In a closed environment, what is offered has a type among the names. -/
theorem Closed.type_of_offers (hc : s.Closed names) (h : s.env.Offers name m) :
    m.type.Within names := by
  cases h with
  | stored hhas => exact hc.member _ _ hhas
  | accessor hgetter =>
    cases hgetter with
    | getter _ hi hm _ =>
      have htype := hc.member _ _ (.ofClass hi hm)
      exact htype
    | question _ hi hm _ =>
      have htype := hc.member _ _ (.ofClass hi hm)
      exact htype

theorem Closed.fits_of_offers (hc : s.Closed names) (h : s.env.Offers name m) :
    s.Fits names name (.member m) :=
  ⟨hc.type_of_offers h, .inr (.inl h)⟩

theorem Closed.fits_of_has (hc : s.Closed names) (h : s.env.Has name m) :
    s.Fits names name (.member m) :=
  hc.fits_of_offers (.stored h)

/-- A class that is there, whatever name has led to it. -/
theorem Closed.fits_classMeaning (hc : s.Closed names) {found : String}
    (h : s.env.hasClass found) : s.Fits names name (s.classMeaning found p) := by
  have hfound : (Ty.of found).Within names := Ty.within_of (hc.hasClass found h)
  unfold classMeaning
  split
  · rename_i count _
    obtain ⟨hkind, htype⟩ := constructorOf_cases s.env (.of found) count
    refine ⟨?_, .inl hkind⟩
    rcases htype with htype | hhas
    · rw [htype]
      exact hfound.notNull
    · exact hc.member _ _ hhas
  · exact hfound

/-- What is imported under a name fits. -/
theorem Closed.fits_importedMeaning? (hc : s.Closed names)
    (h : s.importedMeaning? name p = some meaning) : s.Fits names name meaning := by
  obtain ⟨path, hpath, h⟩ := Option.bind_eq_some_iff.mp h
  rcases Option.or_eq_some_iff.mp h with hclass | ⟨-, hmember⟩
  · obtain ⟨found, hfound, rfl⟩ := Option.map_eq_some_iff.mp hclass
    exact hc.fits_classMeaning (isClass_of_qualifiedToClass? hfound)
  · obtain ⟨package, -, hmember⟩ := Option.bind_eq_some_iff.mp hmember
    obtain ⟨m, hm, rfl⟩ := Option.map_eq_some_iff.mp hmember
    have hhas := has_of_topLevelMember? hm
    exact ⟨hc.member _ _ hhas, .inr (.inr ⟨path, mem_of_lookup hpath, hhas⟩)⟩

/-- What the classes around have under a name fits. -/
theorem Closed.fits_outerMeaning? (hc : s.Closed names) {enclosing : List String}
    (h : s.outerMeaning? enclosing name p = some meaning) : s.Fits names name meaning := by
  unfold outerMeaning? at h
  dsimp only at h
  rcases Option.or_eq_some_iff.mp h with hown | ⟨-, h⟩
  · obtain ⟨m, hm, rfl⟩ := Option.map_eq_some_iff.mp hown
    exact hc.fits_of_has (has_of_topLevelMember? hm)
  rcases Option.or_eq_some_iff.mp h with himported | ⟨-, h⟩
  · exact hc.fits_importedMeaning? himported
  rcases Option.or_eq_some_iff.mp h with hclass | ⟨-, h⟩
  · obtain ⟨found, hfound, rfl⟩ := Option.map_eq_some_iff.mp hclass
    exact hc.fits_classMeaning (FileScope.isClass_of_resolveSimple? hfound)
  rcases Option.or_eq_some_iff.mp h with himplicit | ⟨-, h⟩
  · obtain ⟨m, hm, rfl⟩ := Option.map_eq_some_iff.mp himplicit
    obtain ⟨package, -, hfound⟩ := List.exists_of_findSome?_eq_some hm
    exact hc.fits_of_has (has_of_topLevelMember? hfound)
  split at h
  · cases h
    trivial
  · cases h

/-- What a package has under a name fits. -/
theorem Closed.fits_packageMemberMeaning (hc : s.Closed names) (package : String) :
    s.Fits names name (s.packageMemberMeaning package name p) := by
  unfold packageMemberMeaning
  dsimp only
  split
  · rename_i hclass
    exact hc.fits_classMeaning hclass
  split
  · trivial
  cases hm : topLevelMember? s.env package name p with
  | none => trivial
  | some m => exact hc.fits_of_has (has_of_topLevelMember? hm)

/-- What a class has under a name fits. -/
theorem Closed.fits_classMemberMeaning (hc : s.Closed names) (t : Ty) :
    s.Fits names name (s.classMemberMeaning t name p) := by
  unfold classMemberMeaning
  split
  · trivial
  dsimp only
  split
  · rename_i hclass
    exact hc.fits_classMeaning hclass
  cases hm : s.staticMember? t name p with
  | none => trivial
  | some m => exact hc.fits_of_offers (offers_of_staticMember? hm)

/-- What a value has under a name fits. -/
theorem Closed.fits_valueMemberMeaning (hc : s.Closed names) (t : Ty) :
    s.Fits names name (s.valueMemberMeaning t name p) := by
  unfold valueMemberMeaning
  split
  · trivial
  cases hm : s.instanceMember? t name p with
  | none => trivial
  | some m => exact hc.fits_of_offers (offers_of_instanceMember? hm)

theorem Closed.fits_memberMeaning (hc : s.Closed names) (qualifier : Qualifier) :
    s.Fits names name (s.memberMeaning qualifier name p) := by
  cases qualifier with
  | package package => exact hc.fits_packageMemberMeaning package
  | classType t => exact hc.fits_classMemberMeaning t
  | value t => exact hc.fits_valueMemberMeaning t

/-- What a superclass has under a name fits. -/
theorem Closed.fits_superMemberMeaning (hc : s.Closed names) (t : Ty) :
    s.Fits names name (s.superMemberMeaning t name p) := by
  unfold superMemberMeaning
  split
  · trivial
  cases hm : superMember? s.env t name p with
  | none => trivial
  | some m => exact hc.fits_of_offers (offers_of_superMember? hm)

end Setting

end Attribution

end KotlinTree
