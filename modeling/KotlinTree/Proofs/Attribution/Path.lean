import KotlinTree.Attribution.Meaning
import KotlinTree.Proofs.Scope.Path

/-!
A path of names as a type and as an expression. As a type it means a class in scope, or what its
longest package has; as an expression it is read from left to right, and an import of its first name
comes before all other classes. Main statement: where neither of these differences shows, both
positions come to the same class.
-/

namespace KotlinTree.Attribution

/-- The meanings of which only members can be asked: values, and what there is no knowledge of. -/
inductive Meaning.IsValue : Meaning → Prop
  | member (m : Member) : IsValue (.member m)
  | localVariable (t : Ty) : IsValue (.localVariable t)
  | localFunction (t : Ty) : IsValue (.localFunction t)
  | indeterminate : IsValue .indeterminate
  | unresolved (failure : Failure) : IsValue (.unresolved failure)

namespace Setting

/-- What names mean one after another, each looked up on what the one before means. -/
def follow (s : Setting) (st : State) (node : NodeId) : Meaning → List String → Meaning
  | meaning, [] => meaning
  | meaning, name :: rest =>
    s.follow st node (s.memberMeaning (s.interpret st node .plain meaning).1 name .value) rest

/-- What a path means as an expression: its first name as a name alone, each other one after it. -/
def pathMeaning (s : Setting) (st : State) (node : NodeId) : List String → Meaning
  | [] => .indeterminate
  | first :: rest => s.follow st node (s.nameMeaning st first .value) rest

/-- A name means no value where it stands: it names nothing local, no member of an implicit
receiver, of all of which the type is known, and no property of a file. -/
structure NamesNoValue (s : Setting) (st : State) (name : String) : Prop where
  notLocal : st.local? name = none
  receiversKnown : ∀ frame ∈ st.frames, frame.type.isUnknown = false
  notReceivers : ∀ m, s.receiverMember name .value true false st.frames ≠ .found m
  notProperty : ∀ package ∈ s.unit.scope.implicitPackages,
    topLevelMember? s.env package name .value = none
  notImported : ∀ path package, s.unit.scope.importPath? name = some path →
    Text.beforeLast? (· = '.') path = some package →
    topLevelMember? s.env package (Text.afterLast (· = '.') path) .value = none

/-- The class that a bare name means as an expression that is no value: what is imported by the
name comes first. -/
def bareClass? (s : Setting) (enclosing : List String) (name : String) : Option String :=
  ((s.unit.scope.importPath? name).bind (qualifiedToClass? · s.env.hasClass)).or
    (s.unit.scope.resolveSimple? name enclosing s.env.hasClass)

variable {s : Setting} {st : State} {node : NodeId}

theorem receiverMember_eq_absent {name : String} {p : Purpose} {frames : List Frame}
    {reachable : Bool} (hknown : ∀ frame ∈ frames, frame.type.isUnknown = false)
    (hnone : ∀ m, s.receiverMember name p reachable false frames ≠ .found m) :
    s.receiverMember name p reachable false frames = .absent := by
  induction frames generalizing reachable with
  | nil => rfl
  | cons frame frames ih =>
    have hframe := hknown frame List.mem_cons_self
    rw [receiverMember] at hnone ⊢
    split
    · rename_i m hm
      rw [hm] at hnone
      exact absurd rfl (hnone m)
    · rename_i hm
      rw [hm, hframe] at hnone
      rw [hframe]
      exact ih (fun f hf => hknown f (List.mem_cons_of_mem _ hf)) hnone

theorem localMeaning?_value (st : State) (name : String) :
    localMeaning? st name .value = (st.local? name).map .localVariable := rfl

theorem importedMeaning?_of_namesNoValue {name : String} (h : s.NamesNoValue st name) :
    s.importedMeaning? name .value =
      ((s.unit.scope.importPath? name).bind (qualifiedToClass? · s.env.hasClass)).map
        fun outer => .classType (.of outer) := by
  unfold importedMeaning?
  cases hpath : s.unit.scope.importPath? name with
  | none => rfl
  | some path =>
    have hmember : ((Text.beforeLast? (· = '.') path).bind fun package =>
        (topLevelMember? s.env package (Text.afterLast (· = '.') path) .value).map
          Meaning.member) = none := by
      rw [Option.bind_eq_none_iff]
      intro package hpackage
      rw [h.notImported path package hpath hpackage, Option.map_none]
    rw [Option.bind_some, Option.bind_some, hmember, Option.or_none]
    rfl

/-- A name that means no value means a class, else a package of its own name. -/
theorem nameMeaning_of_namesNoValue {name : String} (hname : name ≠ "")
    (h : s.NamesNoValue st name) :
    s.nameMeaning st name .value =
      match s.bareClass? st.enclosing name with
      | some outer => .classType (.of outer)
      | none =>
        if s.env.hasPackage name then .package name
        else .unresolved (.unresolvedReference name) := by
  -- Nothing that has a value is called so: no local, member of a receiver, import or member of a
  -- package.
  have hproperty : topLevelMember? s.env s.unit.scope.package name .value = none :=
    h.notProperty _ List.mem_cons_self
  have hsearched : (s.unit.scope.implicitPackages.drop 1).findSome?
      (topLevelMember? s.env · name .value) = none := by
    rw [List.findSome?_eq_none_iff]
    exact fun package hpackage => h.notProperty package (List.mem_of_mem_drop hpackage)
  rw [nameMeaning, if_neg hname, localMeaning?_value, h.notLocal, Option.map_none]
  dsimp only
  rw [receiverMember_eq_absent h.receiversKnown h.notReceivers]
  dsimp only
  rw [outerMeaning?, importedMeaning?_of_namesNoValue h, bareClass?]
  rw [hproperty, hsearched]
  cases (s.unit.scope.importPath? name).bind (qualifiedToClass? · s.env.hasClass) with
  | some imported => rfl
  | none =>
    cases s.unit.scope.resolveSimple? name st.enclosing s.env.hasClass with
    | some outer => rfl
    | none => cases hpackage : s.env.hasPackage name <;> simp [Purpose.count?]

theorem isValue_of_member? (m? : Option Member) (failure : Failure) :
    ((m?.map Meaning.member).getD (.unresolved failure)).IsValue := by
  cases m? with
  | none => exact .unresolved failure
  | some m => exact .member m

theorem valueMemberMeaning_isValue (s : Setting) (t : Ty) (name : String) (p : Purpose) :
    (s.valueMemberMeaning t name p).IsValue := by
  unfold valueMemberMeaning
  split
  · exact .indeterminate
  · exact isValue_of_member? _ _

theorem superMemberMeaning_isValue (s : Setting) (t : Ty) (name : String) (p : Purpose) :
    (s.superMemberMeaning t name p).IsValue := by
  unfold superMemberMeaning
  split
  · exact .indeterminate
  · exact isValue_of_member? _ _

/-- A value leads to values only. -/
theorem follow_isValue {meaning : Meaning} (h : meaning.IsValue) (names : List String) :
    (s.follow st node meaning names).IsValue := by
  induction names generalizing meaning with
  | nil => exact h
  | cons name names ih =>
    rw [follow]
    apply ih
    cases h <;> exact s.valueMemberMeaning_isValue _ name .value

/-- What is called after a qualifier is a value: of a class, it is the constructor. -/
theorem memberMeaning_call_isValue (s : Setting) (q : Qualifier) (name : String) (count : Nat) :
    (s.memberMeaning q name (.call count)).IsValue := by
  cases q with
  | package package =>
    rw [memberMeaning, packageMemberMeaning]
    split
    · exact .member _
    · exact isValue_of_member? _ _
  | classType t =>
    rw [memberMeaning, classMemberMeaning]
    split
    · exact .indeterminate
    · dsimp only
      split
      · exact .member _
      · exact isValue_of_member? _ _
  | value t => exact s.valueMemberMeaning_isValue t name _

theorem outerMeaning?_call_isValue {enclosing : List String} {name : String} {count : Nat}
    {meaning : Meaning} (h : s.outerMeaning? enclosing name (.call count) = some meaning) : meaning.IsValue := by
  have hmember {m? : Option Member} (h : m?.map Meaning.member = some meaning) : meaning.IsValue := by
    obtain ⟨m, -, rfl⟩ := Option.map_eq_some_iff.mp h
    exact .member m
  have hclass {name? : Option String} (h : name?.map (s.classMeaning · (.call count)) = some meaning) :
      meaning.IsValue := by
    obtain ⟨found, -, rfl⟩ := Option.map_eq_some_iff.mp h
    exact .member _
  -- A member of a file, something imported, a class, and a member of a package that needs no import.
  rcases Option.or_eq_some_iff.mp h with h | ⟨-, h⟩
  · exact hmember h
  · rcases Option.or_eq_some_iff.mp h with h | ⟨-, h⟩
    · obtain ⟨path, -, h⟩ := Option.bind_eq_some_iff.mp h
      rcases Option.or_eq_some_iff.mp h with h | ⟨-, h⟩
      · exact hclass h
      · obtain ⟨package, -, h⟩ := Option.bind_eq_some_iff.mp h
        exact hmember h
    · rcases Option.or_eq_some_iff.mp h with h | ⟨-, h⟩
      · exact hclass h
      · rcases Option.or_eq_some_iff.mp h with h | ⟨-, h⟩
        · exact hmember h
        · exact nomatch h

/-- So is what is called by a name alone. -/
theorem nameMeaning_call_isValue (s : Setting) (st : State) (name : String) (count : Nat) :
    (s.nameMeaning st name (.call count)).IsValue := by
  unfold nameMeaning
  split
  · exact .indeterminate
  · split
    · rename_i meaning hlocal
      rcases Option.or_eq_some_iff.mp hlocal with h | ⟨-, h⟩
      · obtain ⟨result, -, rfl⟩ := Option.map_eq_some_iff.mp h
        exact .localFunction result
      · obtain ⟨t, -, rfl⟩ := Option.map_eq_some_iff.mp h
        exact .localVariable t
    · split
      · exact .member _
      · exact .indeterminate
      · cases houter : s.outerMeaning? st.enclosing name (.call count) with
        | none => exact .unresolved _
        | some meaning => exact outerMeaning?_call_isValue houter

theorem follow_ne_classType {meaning : Meaning} (h : meaning.IsValue) (names : List String)
    (t : Ty) : s.follow st node meaning names ≠ .classType t := by
  intro heq
  have hvalue : (s.follow st node meaning names).IsValue := follow_isValue h names
  rw [heq] at hvalue
  cases hvalue

/-- From a class, names lead to a class exactly when it is nested in it under these names. -/
theorem follow_classType_eq_iff {outer c : String} {names : List String} :
    s.follow st node (.classType (.of outer)) names = .classType (.of c) ↔
      FileScope.nestedClass? s.env.hasClass outer names = some c := by
  induction names generalizing outer with
  | nil => simp [follow, FileScope.nestedClass?, Ty.of]
  | cons name names ih =>
    have hstep : s.memberMeaning (s.interpret st node .plain (.classType (.of outer))).1 name
        .value = s.classMemberMeaning (.of outer) name .value := rfl
    have hname : (Ty.of outer).name? = some outer := rfl
    rw [follow, hstep, classMemberMeaning, hname, FileScope.nestedClass?]
    dsimp only
    split
    · exact ih
    · -- What is no class inside a class is a member of it or a failure, and no class any more.
      exact iff_of_false (follow_ne_classType (isValue_of_member? _ _) names _) (by simp)

/-- From a package, names lead to a class exactly when they do from left to right. -/
theorem follow_package_eq_iff {package c : String} {names : List String} :
    s.follow st node (.package package) names = .classType (.of c) ↔
      s.env.packageClass? package names = some c := by
  induction names generalizing package with
  | nil => simp [follow, Environment.packageClass?]
  | cons name names ih =>
    -- A step leads to a class, to a package or to what has a value, which no further name makes a
    -- class.
    have hstep : s.memberMeaning (s.interpret st node .plain (.package package)).1 name .value =
        s.packageMemberMeaning package name .value := rfl
    rw [follow, hstep, packageMemberMeaning, Environment.packageClass?]
    split
    · exact follow_classType_eq_iff
    · split
      · rename_i hpackage
        have hpackage : s.env.hasPackage (inPackage package name) = true := by
          simpa [Purpose.count?] using hpackage
        rw [if_pos hpackage]
        exact ih
      · rename_i hpackage
        have hpackage : ¬ s.env.hasPackage (inPackage package name) = true := by
          simpa [Purpose.count?] using hpackage
        rw [if_neg hpackage]
        exact iff_of_false (follow_ne_classType (isValue_of_member? _ _) names _) (by simp)

/-- A path that names no value at its first name means a class as an expression exactly when its
first name means a class that the other names lead on from, or else a package. -/
theorem pathMeaning_eq_iff {first c : String} {rest : List String} (hfirst : first ≠ "")
    (h : s.NamesNoValue st first) :
    s.pathMeaning st node (first :: rest) = .classType (.of c) ↔
      (∃ outer, s.bareClass? st.enclosing first = some outer ∧
        FileScope.nestedClass? s.env.hasClass outer rest = some c) ∨
      (s.bareClass? st.enclosing first = none ∧
        s.env.hasPackage first = true ∧ s.env.packageClass? first rest = some c) := by
  rw [pathMeaning, nameMeaning_of_namesNoValue hfirst h]
  cases s.bareClass? st.enclosing first with
  | some outer => simp [follow_classType_eq_iff]
  | none =>
    cases s.env.hasPackage first with
    | true => simp [follow_package_eq_iff]
    | false => simp [follow_ne_classType (Meaning.IsValue.unresolved _)]

/-- A path that means a class as a type means it as an expression as well, if its first name means no
value and the two positions read it alike: what the first name imports is no other class than the
one it means as a type, and where it means no class, the path leads through packages to the class. -/
theorem pathMeaning_eq_class {first c : String} {rest : List String} (hfirst : first ≠ "")
    (hvalue : s.NamesNoValue st first)
    (himport : ∀ path imported, s.unit.scope.importPath? first = some path →
      qualifiedToClass? path s.env.hasClass = some imported →
      s.unit.scope.resolveSimple? first st.enclosing s.env.hasClass = some imported)
    (hpackage : s.unit.scope.resolveSimple? first st.enclosing s.env.hasClass = none →
      ∃ packages outer nested, first :: rest = packages ++ outer :: nested ∧
        nestedName (dotted (packages ++ [outer])) nested = c ∧
        s.env.LeadsThrough packages outer nested)
    (h : s.unit.scope.resolveClass? (first :: rest) st.enclosing s.env.hasClass = some c) :
    s.pathMeaning st node (first :: rest) = .classType (.of c) := by
  -- An imported class is the one of the type position, so that the first name means the same.
  have hbare : s.bareClass? st.enclosing first =
      s.unit.scope.resolveSimple? first st.enclosing s.env.hasClass := by
    cases himported : (s.unit.scope.importPath? first).bind (qualifiedToClass? · s.env.hasClass) with
    | none => rw [bareClass?, himported, Option.none_or]
    | some imported =>
      obtain ⟨path, hpath, hclass⟩ := Option.bind_eq_some_iff.mp himported
      rw [bareClass?, himported, Option.some_or, himport path imported hpath hclass]
  rw [pathMeaning_eq_iff hfirst hvalue, hbare]
  rw [FileScope.resolveClass?] at h
  cases hsimple : s.unit.scope.resolveSimple? first st.enclosing s.env.hasClass with
  | some outer =>
    rw [hsimple] at h
    exact .inl ⟨outer, rfl, h⟩
  | none =>
    exact .inr ⟨rfl, (Environment.packageClass?_eq_some_iff_leadsThrough hfirst).mpr
      (hpackage hsimple)⟩

/-- The classes `a.b`, `a.b.D` inside it, and `C` in a package of the name of the first. -/
def shadowing : Setting where
  forest := {}
  env := {
    classes := .ofList (["a.b", "a.b$D", "a.b.C"].map fun name =>
      (name, { name, package := packageOf name, kind := .plainClass, origin := .source }))
    packages := .ofList ["a", "a.b", "z"] }
  unit := { fileName := "z.kt", scope := { package := "z" }, facade := "z.ZKt", classNames := [] }

theorem shadowing_hasClass (name : String) :
    shadowing.env.hasClass name = ["a.b", "a.b$D", "a.b.C"].contains name := by
  simp [shadowing, Environment.hasClass]

theorem shadowing_hasPackage (name : String) :
    shadowing.env.hasPackage name = ["a", "a.b", "z"].contains name := by
  simp [shadowing, Environment.hasPackage]

theorem shadowing_namesNoValue (name : String) : shadowing.NamesNoValue {} name where
  notLocal := rfl
  receiversKnown := by simp
  notReceivers := by simp [receiverMember]
  notProperty := by simp [shadowing, topLevelMember?, Environment.topLevel, Purpose.selectLoosely?,
    Purpose.select?]
  notImported := by simp [shadowing, FileScope.importPath?]

/-- As a type the path means the class in the package, as an expression nothing: the class `a.b`
comes before the package, and has no `C`. -/
theorem shadowing_pathMeaning_ne_class :
    shadowing.NamesNoValue {} "a" ∧
      shadowing.unit.scope.resolveClass? ["a", "b", "C"] [] shadowing.env.hasClass = some "a.b.C" ∧
      shadowing.pathMeaning {} 0 ["a", "b", "C"] ≠ .classType (.of "a.b.C") := by
  have hclasses : shadowing.env.hasClass = fun name => ["a.b", "a.b$D", "a.b.C"].contains name :=
    funext shadowing_hasClass
  refine ⟨shadowing_namesNoValue "a", by rw [hclasses]; decide, ?_⟩
  rw [Ne, pathMeaning_eq_iff (by decide) (shadowing_namesNoValue "a"), bareClass?]
  simp only [Environment.packageClass?, shadowing_hasPackage, hclasses]
  decide

/-- Where nothing stands in the way, the class of a package and one inside it are found. -/
theorem shadowing_pathMeaning_nested :
    shadowing.pathMeaning {} 0 ["a", "b", "D"] = .classType (.of "a.b$D") := by
  have hclasses : shadowing.env.hasClass = fun name => ["a.b", "a.b$D", "a.b.C"].contains name :=
    funext shadowing_hasClass
  refine pathMeaning_eq_class (by decide) (shadowing_namesNoValue "a") ?_ ?_ ?_
  · intro path imported hpath
    cases hpath
  · intro _
    refine ⟨["a"], "b", ["D"], rfl, by decide, List.cons_ne_nil _ _, ?_, ?_, ?_⟩
    · rw [forall_prefix_cons, shadowing_hasPackage]
      exact ⟨by decide, by simp [List.prefix_nil]⟩
    · intro front hfront hlength
      have hle := hfront.length_le
      simp only [List.length_singleton] at hle
      omega
    · rw [forall_prefix_iff, forall_prefix_cons, shadowing_hasClass, shadowing_hasClass]
      exact ⟨by decide, by decide, by simp [List.prefix_nil]⟩
  · rw [hclasses]
    decide

end Setting

end KotlinTree.Attribution
