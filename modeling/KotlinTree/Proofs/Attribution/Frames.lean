import KotlinTree.Proofs.Attribution.Offer
import KotlinTree.Proofs.Types.BreadthFirst

/-!
Names on implicit receivers. Main statement: a name comes to the innermost receiver that has it. Where a
class hides the objects around it, those further out give no more than their companions and what these
inherit, objects that are alone in their class apart.
-/

namespace KotlinTree.Attribution

/-- The frame at a place among some, if no frame further in hides its object. -/
def reachableAt (reachable : Bool) (frames : List Frame) (i : Nat) : Bool :=
  reachable && (frames.take i).all fun inner => !inner.hidesOuter

/-- At a place among some frames there is a receiver of unknown type whose object is within reach. -/
def IsUnknownAt (reachable : Bool) (frames : List Frame) (i : Nat) : Prop :=
  ∃ frame, frames[i]? = some frame ∧ frame.type.isUnknown = true ∧ reachableAt reachable frames i = true

/-- What a name comes to on one receiver. -/
def Setting.frameMember? (s : Setting) (name : String) (p : Purpose) (reachable : Bool) (frame : Frame) :
    Option Member :=
  if reachable || isSingleton s.env frame.type then s.instanceMember? frame.type name p
  else companionMember? s.env frame.type name p

/-- What a name comes to on the receiver at a place among some. -/
def Setting.memberAt? (s : Setting) (name : String) (p : Purpose) (reachable : Bool)
    (frames : List Frame) (i : Nat) : Option Member :=
  frames[i]?.bind (s.frameMember? name p (reachableAt reachable frames i))

section
variable {frame : Frame} {frames : List Frame} {reachable : Bool} {i : Nat}

@[simp] theorem reachableAt_zero : reachableAt reachable frames 0 = reachable := by
  simp [reachableAt]

@[simp] theorem reachableAt_succ : reachableAt reachable (frame :: frames) (i + 1) =
    reachableAt (reachable && !frame.hidesOuter) frames i := by
  simp [reachableAt, Bool.and_assoc]

theorem reachableAt_eq_false (h : ∃ inner ∈ frames.take i, inner.hidesOuter = true) :
    reachableAt reachable frames i = false := by
  obtain ⟨inner, hinner, hhides⟩ := h
  refine Bool.and_eq_false_imp.mpr fun _ => List.all_eq_false.mpr ⟨inner, hinner, ?_⟩
  simp [hhides]

@[simp] theorem isUnknownAt_zero : IsUnknownAt reachable (frame :: frames) 0 ↔
    (frame.type.isUnknown && reachable) = true := by
  simp [IsUnknownAt]

@[simp] theorem isUnknownAt_succ : IsUnknownAt reachable (frame :: frames) (i + 1) ↔
    IsUnknownAt (reachable && !frame.hidesOuter) frames i := by
  simp [IsUnknownAt]

theorem not_isUnknownAt_nil : ¬IsUnknownAt reachable [] i := by
  simp [IsUnknownAt]

theorem exists_isUnknownAt_cons : (∃ i, IsUnknownAt reachable (frame :: frames) i) ↔
    (frame.type.isUnknown && reachable) = true ∨
      ∃ i, IsUnknownAt (reachable && !frame.hidesOuter) frames i := by
  rw [← Nat.or_exists_add_one, isUnknownAt_zero]
  simp only [isUnknownAt_succ]

end

namespace Setting

variable {s : Setting} {name : String} {p : Purpose} {frame : Frame} {frames : List Frame}
  {reachable sawUnknown : Bool} {m : Member} {i : Nat}

@[simp] theorem memberAt?_nil : s.memberAt? name p reachable [] i = none := rfl

@[simp] theorem memberAt?_zero :
    s.memberAt? name p reachable (frame :: frames) 0 = s.frameMember? name p reachable frame := by
  simp [memberAt?]

@[simp] theorem memberAt?_succ : s.memberAt? name p reachable (frame :: frames) (i + 1) =
    s.memberAt? name p (reachable && !frame.hidesOuter) frames i := by
  simp [memberAt?]

theorem receiverMember_cons : s.receiverMember name p reachable sawUnknown (frame :: frames) =
    match s.frameMember? name p reachable frame with
    | some m => .found m
    | none => s.receiverMember name p (reachable && !frame.hidesOuter)
        (sawUnknown || (frame.type.isUnknown && reachable)) frames := rfl

/-- The innermost receiver that has the name is the one that counts. -/
theorem receiverMember_eq_found_iff :
    s.receiverMember name p reachable sawUnknown frames = .found m ↔
      ∃ i, s.memberAt? name p reachable frames i = some m ∧
        ∀ j < i, s.memberAt? name p reachable frames j = none := by
  -- The search hands on what it has come past: a class that hides objects, a receiver of unknown type.
  induction frames generalizing reachable sawUnknown with
  | nil => cases sawUnknown <;> simp [receiverMember]
  | cons frame frames ih =>
    rw [receiverMember_cons, ← Nat.or_exists_add_one]
    simp only [Nat.forall_lt_succ_left, memberAt?_zero, memberAt?_succ]
    cases hframe : s.frameMember? name p reachable frame with
    | some found => simp
    | none => simp [ih]

theorem receiverMember_ne_found_iff :
    (∀ m, s.receiverMember name p reachable sawUnknown frames ≠ .found m) ↔
      ∀ i, s.memberAt? name p reachable frames i = none := by
  induction frames generalizing reachable sawUnknown with
  | nil => cases sawUnknown <;> simp [receiverMember]
  | cons frame frames ih =>
    rw [receiverMember_cons, ← Nat.and_forall_add_one]
    cases hframe : s.frameMember? name p reachable frame with
    | some found => simp [hframe]
    | none =>
      dsimp only
      rw [ih, memberAt?_zero]
      simp [hframe]

/-- Where no receiver has the name, one of unknown type leaves it open. -/
theorem receiverMember_eq_indeterminate_iff :
    s.receiverMember name p reachable sawUnknown frames = .indeterminate ↔
      (∀ i, s.memberAt? name p reachable frames i = none) ∧
        (sawUnknown = true ∨ ∃ i, IsUnknownAt reachable frames i) := by
  induction frames generalizing reachable sawUnknown with
  | nil => cases sawUnknown <;> simp [receiverMember, not_isUnknownAt_nil]
  | cons frame frames ih =>
    rw [receiverMember_cons, ← Nat.and_forall_add_one, exists_isUnknownAt_cons]
    cases hframe : s.frameMember? name p reachable frame with
    | some found => simp [hframe]
    | none =>
      dsimp only
      rw [ih, memberAt?_zero, Bool.or_eq_true, or_assoc]
      simp [hframe]

/-- A member that is found on the companion of a class is one of the companion or of what is above it. -/
theorem exists_of_companionMember? {env : Environment} {t : Ty}
    (h : companionMember? env t name p = some m) :
    ∃ companion owner, env.companionOf? t = some (.of companion) ∧
      (owner = companion ∨ env.Above companion owner) ∧ m ∈ env.membersNamed (.of owner) name := by
  obtain ⟨holder, hholder, hselect⟩ := Option.bind_eq_some_iff.mp h
  obtain ⟨info, -, hinfo⟩ := Option.bind_eq_some_iff.mp hholder
  obtain ⟨companion, -, rfl⟩ := Option.map_eq_some_iff.mp hinfo
  obtain ⟨owner, howner, hmember⟩ := List.mem_flatMap.mp (Purpose.mem_of_selectLoosely? hselect)
  refine ⟨companion, owner, hholder, ?_, (List.mem_filter.mp hmember).1⟩
  have hchain : owner ∈ companion :: env.supertypeWalk companion := (List.mem_filter.mp howner).1
  exact (List.mem_cons.mp hchain).imp_right fun hwalk =>
    (Environment.mem_othersAbove_of_mem_supertypeWalk hwalk).1

theorem isSingleton_eq_false {env : Environment} {t : Ty} (hobject : env.classKind? t ≠ some .object)
    (hcompanion : env.classKind? t ≠ some .companionObject) : isSingleton env t = false := by
  unfold isSingleton
  split
  · exact absurd ‹_› hobject
  · exact absurd ‹_› hcompanion
  · rfl

/-- A name that stands alone comes to the innermost receiver that has it, and the outcome is open only where
none has it and one of unknown type is not behind a class that hides what is around it. On a receiver behind
such a class, unless it is an object that is alone in its class, the name comes to a member of the companion
of the class or of what is above the companion. -/
theorem receiverMember_innermost (s : Setting) (st : State) (name : String) (p : Purpose) :
    (∀ m, s.receiverMember name p true false st.frames = .found m ↔
      ∃ i, s.memberAt? name p true st.frames i = some m ∧
        ∀ j < i, s.memberAt? name p true st.frames j = none) ∧
    (s.receiverMember name p true false st.frames = .indeterminate ↔
      (∀ i, s.memberAt? name p true st.frames i = none) ∧ ∃ i, IsUnknownAt true st.frames i) ∧
    (s.receiverMember name p true false st.frames = .absent ↔
      (∀ i, s.memberAt? name p true st.frames i = none) ∧ ¬∃ i, IsUnknownAt true st.frames i) ∧
    ∀ i frame m, st.frames[i]? = some frame → s.memberAt? name p true st.frames i = some m →
      (∃ inner ∈ st.frames.take i, inner.hidesOuter = true) →
      s.env.classKind? frame.type ≠ some .object →
      s.env.classKind? frame.type ≠ some .companionObject →
      ∃ companion owner, s.env.companionOf? frame.type = some (.of companion) ∧
        (owner = companion ∨ s.env.Above companion owner) ∧
        m ∈ s.env.membersNamed (.of owner) name := by
  have hindeterminate : s.receiverMember name p true false st.frames = .indeterminate ↔
      (∀ i, s.memberAt? name p true st.frames i = none) ∧ ∃ i, IsUnknownAt true st.frames i := by
    have hopen : s.receiverMember name p true false st.frames = .indeterminate ↔
        (∀ i, s.memberAt? name p true st.frames i = none) ∧
          (false = true ∨ ∃ i, IsUnknownAt true st.frames i) := receiverMember_eq_indeterminate_iff
    simpa using hopen
  have hnone : (∀ m, s.receiverMember name p true false st.frames ≠ .found m) ↔
      ∀ i, s.memberAt? name p true st.frames i = none := receiverMember_ne_found_iff
  refine ⟨fun m => receiverMember_eq_found_iff, hindeterminate, ?_, ?_⟩
  -- The three answers exclude each other, so that nothing is found is what the other two leave.
  · cases hsearch : s.receiverMember name p true false st.frames with
    | found m => simp [← hnone, hsearch]
    | indeterminate => simp [(hindeterminate.mp hsearch).2]
    | absent =>
      rw [hsearch] at hindeterminate hnone
      have hall : ∀ i, s.memberAt? name p true st.frames i = none :=
        hnone.mp fun m => ReceiverMember.noConfusion
      exact iff_of_true rfl ⟨hall, fun hunknown =>
        ReceiverMember.noConfusion (hindeterminate.mpr ⟨hall, hunknown⟩)⟩
  -- Behind a frame that hides what is outside, only a companion is asked.
  · intro i frame m hframe hmember hhidden hobject hcompanion
    rw [memberAt?, hframe, Option.bind_some, frameMember?, reachableAt_eq_false hhidden,
      isSingleton_eq_false hobject hcompanion] at hmember
    exact exists_of_companionMember? hmember

/-- A function `f` without parameters. -/
def functionOf (owner : String) : Member :=
  { name := "f", kind := .method, type := .of Ty.unitName, owner }

/-- A class with a function `f`, its companion with another of this name, and a class inside. -/
def outerAndNested : Setting where
  forest := {}
  env := {
    classes := ((Std.HashMap.emptyWithCapacity.insert "C" {
        name := "C", package := "", kind := .plainClass, origin := .source
        members := [functionOf "C"], companion := some "C.Companion" }).insert "C.Companion" {
        name := "C.Companion", package := "", kind := .companionObject, origin := .source
        members := [functionOf "C.Companion"] }).insert "C.N" {
        name := "C.N", package := "", kind := .plainClass, origin := .source } }
  unit := { fileName := "C.kt", scope := { package := "", defaultImports := [] }
            facade := "CKt", classNames := [] }

/-- Where the inner class is. -/
def insideNested : State where
  frames := [
    { type := .of "C.N", label := some "N", isClass := true, superclass := .of Ty.anyName
      hidesOuter := true },
    { type := .of "C", label := some "C", isClass := true, superclass := .of Ty.anyName
      hidesOuter := true }]

theorem outerAndNested_classInfo? (name : String) : outerAndNested.env.classInfo? name =
    if name = "C.N" then some { name := "C.N", package := "", kind := .plainClass, origin := .source }
    else if name = "C.Companion" then some {
      name := "C.Companion", package := "", kind := .companionObject, origin := .source
      members := [functionOf "C.Companion"] }
    else if name = "C" then some {
      name := "C", package := "", kind := .plainClass, origin := .source
      members := [functionOf "C"], companion := some "C.Companion" }
    else none := by
  simp only [outerAndNested, Environment.classInfo?, Std.HashMap.getElem?_insert, beq_iff_eq,
    Std.HashMap.getElem?_emptyWithCapacity, eq_comm (a := name)]

theorem outerAndNested_receiverChain {name : String} (h : name = "C.N" ∨ name = "C.Companion") :
    receiverChain outerAndNested.env (.of name) = [name, Ty.anyName] := by
  have hsupertypes : outerAndNested.env.supertypes name = [Ty.anyName] := by
    rcases h with rfl | rfl <;> simp [Environment.supertypes, outerAndNested_classInfo?, Ty.anyName]
  have hany : outerAndNested.env.supertypes Ty.anyName = [] := by
    simp [Environment.supertypes, outerAndNested_classInfo?, Ty.anyName]
  have hne : Ty.anyName ≠ name := by
    rcases h with rfl | rfl <;> decide
  change name :: outerAndNested.env.walkFrom name [] (outerAndNested.env.supertypes name) = _
  rw [hsupertypes, Environment.walkFrom_cons_of_new (by decide) (by simp [hne]), hany,
    List.append_nil, Environment.walkFrom_nil]
  rfl

theorem outerAndNested_declaredMembers :
    declaredMembers outerAndNested.env (.of "C.N") "f" (.call 0) = [] ∧
    declaredMembers outerAndNested.env (.of "C.Companion") "f" (.call 0) =
      [functionOf "C.Companion"] := by
  constructor
  · rw [declaredMembers, outerAndNested_receiverChain (.inl rfl)]
    simp [isPassedOver, Environment.membersNamed, Environment.classOf?, outerAndNested_classInfo?,
      Ty.of, Ty.name?, Ty.anyName, ClassInfo.membersNamed]
  · rw [declaredMembers, outerAndNested_receiverChain (.inr rfl)]
    simp [isPassedOver, Environment.membersNamed, Environment.classOf?, outerAndNested_classInfo?,
      Ty.of, Ty.name?, Ty.anyName, ClassInfo.membersNamed, functionOf, Purpose.fits]

theorem outerAndNested_memberAt? :
    outerAndNested.memberAt? "f" (.call 0) true insideNested.frames 0 = none ∧
    outerAndNested.memberAt? "f" (.call 0) true insideNested.frames 1 =
      some (functionOf "C.Companion") := by
  obtain ⟨hnested, hcompanion⟩ := outerAndNested_declaredMembers
  have hextensions (t : Ty) : outerAndNested.extensions t "f" (.call 0) = [] := by
    simp [Setting.extensions, Environment.extensionsOf, outerAndNested]
  have hholder : outerAndNested.env.companionOf? (.of "C.N") = none ∧
      outerAndNested.env.companionOf? (.of "C") = some (.of "C.Companion") := by
    simp [Environment.companionOf?, Environment.classOf?, outerAndNested_classInfo?, Ty.of, Ty.name?]
  have hsingleton : isSingleton outerAndNested.env (.of "C") = false := by
    simp [isSingleton, Environment.classKind?, Environment.classOf?, outerAndNested_classInfo?, Ty.of,
      Ty.name?]
  constructor
  · simp [memberAt?, insideNested, frameMember?, instanceMember?, hnested, hextensions, accessor?,
      companionMember?, hholder.1, Purpose.select?, Purpose.selectLoosely?, overload?]
  · simp [memberAt?, insideNested, frameMember?, hsingleton, reachableAt, companionMember?, hholder.2,
      hcompanion, Purpose.selectLoosely?, overload?]
    decide

/-- The name comes to the function of the companion there. -/
theorem outerAndNested_receiverMember :
    outerAndNested.receiverMember "f" (.call 0) true false insideNested.frames =
      .found (functionOf "C.Companion") ∧
    ∃ companion owner, outerAndNested.env.companionOf? (.of "C") = some (.of companion) ∧
      (owner = companion ∨ outerAndNested.env.Above companion owner) ∧
      functionOf "C.Companion" ∈ outerAndNested.env.membersNamed (.of owner) "f" := by
  obtain ⟨hinner, hat⟩ := outerAndNested_memberAt?
  obtain ⟨hfound, -, -, hhidden⟩ :=
    outerAndNested.receiverMember_innermost insideNested "f" (.call 0)
  refine ⟨(hfound _).mpr ⟨1, hat, fun j hj => ?_⟩,
    hhidden 1 _ _ rfl hat ⟨_, List.mem_cons_self, rfl⟩ ?_ ?_⟩
  · obtain rfl : j = 0 := Nat.lt_one_iff.mp hj
    exact hinner
  all_goals
    simp [Environment.classKind?, Environment.classOf?, outerAndNested_classInfo?, Ty.of, Ty.name?]

end Setting

end KotlinTree.Attribution
