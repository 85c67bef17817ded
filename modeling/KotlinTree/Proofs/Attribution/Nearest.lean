import KotlinTree.Proofs.Attribution.Candidates
import KotlinTree.Proofs.Scope.Path

/-!
The places that a call searches, one after another. Main statement: a call comes to a member of the nearest
place that has the name, and to one that takes the arguments if that place has such a one. What lies further
out is not asked for a better one.
-/

namespace KotlinTree.Attribution

/-- The nearest of some lists that has anything. -/
def nearest (levels : List (List Member)) : List Member :=
  (levels.find? fun level => !level.isEmpty).getD []

/-- The member that a name means, if it means one. -/
def Meaning.member? : Meaning → Option Member
  | .member m => some m
  | _ => none

/-- A receiver within reach is of unknown type. -/
def meetsUnknown : Bool → List Frame → Bool
  | _, [] => false
  | reachable, frame :: frames =>
    (frame.type.isUnknown && reachable) || meetsUnknown (reachable && !frame.hidesOuter) frames

namespace Setting

/-- What can be meant by a name that is called on values of a type. -/
def instanceCandidates (s : Setting) (t : Ty) (name : String) (count : Nat) : List Member :=
  if t.isUnknown then []
  else declaredMembers s.env t name (.call count) ++ s.extensions t name (.call count) ++
    companionMembers s.env t name (.call count)

/-- What can be meant by a name that is called through the name of a class. Where its companion has the
name, the classes above it are not come to. -/
def staticCandidates (s : Setting) (t : Ty) (name : String) (count : Nat) : List Member :=
  if isSingleton s.env t then s.instanceCandidates t name count
  else
    let own := t.name?.toList.flatMap (staticMembers s.env · name (.call count))
    let companion := (s.env.companionOf? t).toList.flatMap (s.instanceCandidates · name count)
    let above := (s.env.supertypesAbove t).flatMap (staticMembers s.env · name (.call count))
    own ++ nearest [companion, above]

/-- What can be meant by a name on an implicit receiver. Of a class whose objects are out of reach there is
its companion still, and the object that is alone in it. -/
def receiverCandidates (s : Setting) (name : String) (count : Nat) (reachable : Bool)
    (t : Ty) : List Member :=
  if reachable || isSingleton s.env t then s.instanceCandidates t name count
  else companionMembers s.env t name (.call count)

/-- What can be meant by a name on each of some implicit receivers. -/
def receiverLevels (s : Setting) (name : String) (count : Nat) : Bool → List Frame →
    List (List Member)
  | _, [] => []
  | reachable, frame :: frames =>
    s.receiverCandidates name count reachable frame.type ::
      s.receiverLevels name count (reachable && !frame.hidesOuter) frames

/-- The functions of a package's files that are no extensions. -/
def packageCandidates (s : Setting) (name : String) (count : Nat) (package : String) :
    List Member :=
  (s.env.topLevel package name).filter (Purpose.call count).fits

/-- What an import of a name brings from a file. -/
def importedCandidates (s : Setting) (name : String) (count : Nat) : List Member :=
  (s.unit.scope.importPath? name).toList.flatMap fun path =>
    (Text.beforeLast? (· = '.') path).toList.flatMap
      (s.packageCandidates (Text.afterLast (· = '.') path) count)

/-- What can be meant by a name outside all classes, at each of the places that are searched. -/
def outerLevels (s : Setting) (name : String) (count : Nat) : List (List Member) :=
  s.packageCandidates name count s.unit.scope.package :: s.importedCandidates name count ::
    (s.unit.scope.implicitPackages.drop 1).map (s.packageCandidates name count)

/-- What can be meant by a name at each of the places where a call looks for it, the nearest first. A
receiver of unknown type may have any name, so that nothing outside is come to past one. -/
def callLevels (s : Setting) (st : State) (name : String) (count : Nat) : List (List Member) :=
  s.receiverLevels name count true st.frames ++
    if meetsUnknown true st.frames then [] else s.outerLevels name count

end Setting

section
variable {own companion above candidates : List Member} {levels others : List (List Member)}
  {count : Nat} {o o' : Option Member}

@[simp] theorem nearest_nil : nearest [] = [] := rfl

theorem nearest_cons (level : List Member) (levels : List (List Member)) :
    nearest (level :: levels) = if level = [] then nearest levels else level := by
  unfold nearest
  cases level <;> simp

theorem nearest_append (levels others : List (List Member)) :
    nearest (levels ++ others) =
      if nearest levels = [] then nearest others else nearest levels := by
  induction levels with
  | nil => rfl
  | cons level levels ih =>
    rw [List.cons_append, nearest_cons, nearest_cons, ih]
    by_cases hlevel : level = [] <;> simp [hlevel]

/-- Where the nearest place has nothing to choose from, the choice is made further out. -/
theorem Decides.or (h : Decides candidates count o) (h' : Decides (nearest levels) count o') :
    Decides (nearest (candidates :: levels)) count (o.or o') := by
  rw [nearest_cons]
  cases o with
  | none =>
    have hnone : candidates = [] := h
    rw [if_pos hnone]
    exact h'
  | some m =>
    rw [if_neg (List.ne_nil_of_mem h.1)]
    exact h

theorem decides_findSome? {β : Type} {candidates : β → List Member} {choose : β → Option Member}
    (h : ∀ place, Decides (candidates place) count (choose place)) (places : List β) :
    Decides (nearest (places.map candidates)) count (places.findSome? choose) := by
  induction places with
  | nil => rfl
  | cons place places ih =>
    rw [List.map_cons, List.findSome?_cons]
    have hor := (h place).or ih
    cases hplace : choose place with
    | none => rwa [hplace, Option.none_or] at hor
    | some m => rwa [hplace, Option.some_or] at hor

/-- What is chosen on something that there may not be. -/
theorem decides_bind {β : Type} {candidates : β → List Member} {choose : β → Option Member}
    (h : ∀ place, Decides (candidates place) count (choose place)) (place : Option β) :
    Decides (place.toList.flatMap candidates) count (place.bind choose) := by
  cases place with
  | none => rfl
  | some place => simpa using h place

/-- What takes the arguments comes first; only without it the choice is left to the companion, and
without any there to all that is declared. -/
theorem Decides.prefer (h : Decides companion count o) :
    Decides (own ++ nearest [companion, above]) count
      ((own.find? (·.acceptsArity count)).or (o.or (overload? (own ++ above) count))) := by
  rw [nearest_cons, nearest_cons, nearest_nil]
  cases hfind : own.find? (·.acceptsArity count) with
  | some m =>
    have haccepts : m.acceptsArity count := (List.find?_eq_some_iff_append.mp hfind).1
    exact ⟨List.mem_append_left _ (List.mem_of_find?_eq_some hfind), fun _ => haccepts⟩
  -- Nothing of its own takes so many arguments: the companion is next, and after it what is above.
  | none =>
    cases o with
    | none =>
      have hcompanion : companion = [] := h
      have hlast : (if above = [] then [] else above) = above := by
        split
        · exact Eq.symm ‹_›
        · rfl
      rw [if_pos hcompanion, hlast]
      exact decides_overload? _ count
    | some m =>
      rw [if_neg (List.ne_nil_of_mem h.1)]
      refine ⟨List.mem_append_right _ h.1, ?_⟩
      rintro ⟨c, hc, haccepts⟩
      rcases List.mem_append.mp hc with hc | hc
      · exact absurd haccepts (List.find?_eq_none.mp hfind c hc)
      · exact h.2 ⟨c, hc, haccepts⟩

end

namespace Setting

variable {s : Setting} {st : State} {name : String} {count : Nat}

theorem decides_companionMember? (env : Environment) (t : Ty) (name : String) (count : Nat) :
    Decides (companionMembers env t name (.call count)) count
      (companionMember? env t name (.call count)) := by
  rw [companionMember?_eq]
  exact decides_overload? _ count

theorem decides_instanceMember? (s : Setting) (t : Ty) (name : String) (count : Nat) :
    Decides (s.instanceCandidates t name count) count (s.instanceMember? t name (.call count)) := by
  unfold instanceCandidates
  cases hunknown : t.isUnknown with
  | true =>
    unfold instanceMember?
    rw [hunknown]
    rfl
  | false =>
    rw [instanceMember?_call hunknown, if_neg Bool.false_ne_true]
    set companion := companionMembers s.env t name (.call count)
    -- Nothing is above the companion here.
    have hlast : nearest [companion, []] = companion := by
      rw [nearest_cons]
      split
      · exact Eq.symm ‹_›
      · rfl
    set near := declaredMembers s.env t name (.call count) ++ s.extensions t name (.call count)
    have h : Decides (near ++ nearest [companion, []]) count
        ((near.find? (·.acceptsArity count)).or
          ((overload? companion count).or (overload? (near ++ []) count))) :=
      (decides_overload? companion count).prefer
    rwa [hlast, List.append_nil] at h

theorem decides_staticMember? (s : Setting) (t : Ty) (name : String) (count : Nat) :
    Decides (s.staticCandidates t name count) count (s.staticMember? t name (.call count)) := by
  unfold staticCandidates staticMember?
  split
  · exact s.decides_instanceMember? t name count
  · exact (decides_bind (s.decides_instanceMember? · name count) _).prefer

theorem decides_packageCandidates (s : Setting) (name : String) (count : Nat) (package : String) :
    Decides (s.packageCandidates name count package) count
      (topLevelMember? s.env package name (.call count)) :=
  decides_overload? _ count

/-- The search of a receiver. -/
theorem decides_receiverCandidates (s : Setting) (name : String) (count : Nat) (reachable : Bool)
    (t : Ty) :
    Decides (s.receiverCandidates name count reachable t) count
      (if reachable || isSingleton s.env t then s.instanceMember? t name (.call count)
        else companionMember? s.env t name (.call count)) := by
  unfold receiverCandidates
  split
  · exact s.decides_instanceMember? t name count
  · exact decides_companionMember? s.env t name count

/-- The receivers are searched from the innermost on. Where none has the name, one of unknown type makes
the outcome uncertain. -/
theorem receiverMember_decides (s : Setting) (name : String) (count : Nat)
    (reachable sawUnknown : Bool) (frames : List Frame) :
    match s.receiverMember name (.call count) reachable sawUnknown frames with
    | .found m => Decides (nearest (s.receiverLevels name count reachable frames)) count (some m)
    | .indeterminate => nearest (s.receiverLevels name count reachable frames) = [] ∧
        (sawUnknown || meetsUnknown reachable frames) = true
    | .absent => nearest (s.receiverLevels name count reachable frames) = [] ∧
        (sawUnknown || meetsUnknown reachable frames) = false := by
  induction frames generalizing reachable sawUnknown with
  | nil => cases sawUnknown <;> exact ⟨rfl, rfl⟩
  | cons frame frames ih =>
    have hframe := s.decides_receiverCandidates name count reachable frame.type
    rw [receiverMember, receiverLevels, nearest_cons, meetsUnknown, ← Bool.or_assoc]
    generalize (if reachable || isSingleton s.env frame.type then
        s.instanceMember? frame.type name (.call count)
      else companionMember? s.env frame.type name (.call count)) = found at hframe ⊢
    -- A frame that finds something ends the search; one that finds nothing has no candidates.
    cases found with
    | some m =>
      dsimp only
      rw [if_neg (List.ne_nil_of_mem hframe.1)]
      exact hframe
    | none =>
      have hnone : s.receiverCandidates name count reachable frame.type = [] := hframe
      dsimp only
      rw [if_pos hnone]
      exact ih _ _

/-- What is imported by a name that means no class is a function of a file. -/
theorem importedMeaning?_of_noClass {enclosing : List String}
    (hclass : s.unit.scope.resolveSimple? name enclosing s.env.hasClass = none) :
    s.importedMeaning? name (.call count) =
      ((s.unit.scope.importPath? name).bind fun path =>
        (Text.beforeLast? (· = '.') path).bind fun package =>
          topLevelMember? s.env package (Text.afterLast (· = '.') path) (.call count)).map
        Meaning.member := by
  unfold importedMeaning?
  cases hpath : s.unit.scope.importPath? name with
  | none => rfl
  | some path =>
    have hnone : qualifiedToClass? path s.env.hasClass = none := by
      by_contra hsome
      obtain ⟨c, hc⟩ := Option.ne_none_iff_exists'.mp hsome
      have himport : (s.unit.scope.importPath? name).bind (qualifiedToClass? · s.env.hasClass) =
          some c := by rw [hpath, Option.bind_some, hc]
      exact FileScope.resolveSimple?_ne_none_of_import himport hclass
    rw [Option.bind_some, hnone, Option.map_none, Option.none_or, Option.bind_some, Option.map_bind]
    rfl

theorem decides_importedCandidates (s : Setting) (name : String) (count : Nat) :
    Decides (s.importedCandidates name count) count
      ((s.unit.scope.importPath? name).bind fun path =>
        (Text.beforeLast? (· = '.') path).bind fun package =>
          topLevelMember? s.env package (Text.afterLast (· = '.') path) (.call count)) :=
  decides_bind (fun _ => decides_bind (s.decides_packageCandidates _ count) _) _

/-- Outside all classes the package of the file comes first, then what is imported by the name, then other
packages, as long as the name is no class. -/
theorem decides_outerMeaning? {enclosing : List String}
    (hclass : s.unit.scope.resolveSimple? name enclosing s.env.hasClass = none) :
    Decides (nearest (s.outerLevels name count)) count
      ((s.outerMeaning? enclosing name (.call count)).bind Meaning.member?) := by
  have hmember (o : Option Member) (o' : Option Meaning) :
      ((o.map Meaning.member).or o').bind Meaning.member? = o.or (o'.bind Meaning.member?) := by
    cases o <;> rfl
  unfold outerMeaning?
  dsimp only
  rw [importedMeaning?_of_noClass hclass, hclass, Option.map_none, Option.none_or, hmember, hmember,
    hmember]
  have hlast : ((if (Purpose.call count).count?.isNone && s.env.hasPackage name then
      some (Meaning.package name) else none).bind Meaning.member?) = none := rfl
  rw [hlast, Option.or_none]
  exact (s.decides_packageCandidates name count _).or
    ((s.decides_importedCandidates name count).or
      (decides_findSome? (s.decides_packageCandidates name count) _))

/-- Where a name is called that means nothing local and no class, it comes to a member of the nearest place
that has the name. The same is so where the name is called through the name of a class. Other members of this
place come to be chosen only if none of them takes the arguments. -/
theorem nameMeaning_decides (hname : name ≠ "") (hlocal : localMeaning? st name (.call count) = none)
    (hclass : s.unit.scope.resolveSimple? name st.enclosing s.env.hasClass = none) :
    Decides (nearest (s.callLevels st name count)) count
        (s.nameMeaning st name (.call count)).member? ∧
      ∀ t, Decides (s.staticCandidates t name count) count
        (s.staticMember? t name (.call count)) := by
  refine ⟨?_, fun t => s.decides_staticMember? t name count⟩
  have hreceivers := s.receiverMember_decides name count true false st.frames
  rw [nameMeaning, if_neg hname, hlocal, callLevels, nearest_append]
  dsimp only
  -- What receivers find decides; if they have nothing of the name, the levels around the class do.
  cases hsearch : s.receiverMember name (.call count) true false st.frames with
  | found m =>
    rw [hsearch] at hreceivers
    rw [if_neg (List.ne_nil_of_mem hreceivers.1)]
    exact hreceivers
  | indeterminate =>
    rw [hsearch] at hreceivers
    obtain ⟨hnone, hunknown⟩ := hreceivers
    rw [Bool.false_or] at hunknown
    rw [if_pos hnone, hunknown]
    rfl
  | absent =>
    rw [hsearch] at hreceivers
    obtain ⟨hnone, hunknown⟩ := hreceivers
    rw [Bool.false_or] at hunknown
    rw [if_pos hnone, hunknown, if_neg Bool.false_ne_true]
    have houter : Decides (nearest (s.outerLevels name count)) count
        ((s.outerMeaning? st.enclosing name (.call count)).bind Meaning.member?) :=
      decides_outerMeaning? hclass
    cases hmeaning : s.outerMeaning? st.enclosing name (.call count) with
    | none => rwa [hmeaning] at houter
    | some meaning => rwa [hmeaning] at houter

/-- A function `f` without parameters in the package `q`, and one with a parameter in the package `p`, which
is imported with all its names into a file of `q`. -/
def crossing : Setting where
  forest := {}
  env := {
    topLevels := (Std.HashMap.emptyWithCapacity.insert ("q", "f")
        [{ name := "f", kind := .method, type := .unknown, owner := "q.BKt" }]).insert ("p", "f")
        [{ name := "f", kind := .method, type := .unknown, owner := "p.AKt"
           parameters := [.unknown] }] }
  unit := { fileName := "B.kt", scope := { package := "q", starImports := ["p"], defaultImports := [] }
            facade := "q.BKt", classNames := [] }

/-- Called with an argument, the name comes to the function of the own package, and not to the imported one
that takes it. -/
theorem crossing_nameMeaning :
    localMeaning? {} "f" (.call 1) = none ∧
      crossing.unit.scope.resolveSimple? "f" [] crossing.env.hasClass = none ∧
      (∃ m ∈ crossing.packageCandidates "f" 1 "p", m.acceptsArity 1) ∧
      ∃ m, (crossing.nameMeaning {} "f" (.call 1)).member? = some m ∧ ¬m.acceptsArity 1 := by
  -- What is searched, level by level: the package of the file, then what is imported.
  have hown : crossing.packageCandidates "f" 1 "q" =
      [{ name := "f", kind := .method, type := .unknown, owner := "q.BKt" }] := by
    simp [packageCandidates, Environment.topLevel, crossing, Std.HashMap.getD_insert, Purpose.fits]
  have himported : crossing.packageCandidates "f" 1 "p" =
      [{ name := "f", kind := .method, type := .unknown, owner := "p.AKt", parameters := [.unknown] }] := by
    simp [packageCandidates, Environment.topLevel, crossing, Purpose.fits]
  have hclass : crossing.unit.scope.resolveSimple? "f" [] crossing.env.hasClass = none := by
    have hnone : crossing.env.hasClass = fun _ => false := by
      funext name
      simp [crossing, Environment.hasClass]
    rw [hnone]
    decide
  refine ⟨rfl, hclass, ⟨_, himported ▸ List.mem_cons_self, by decide⟩, ?_⟩
  -- The nearest level decides, and its only member takes no argument.
  have hdecides : Decides (nearest (crossing.callLevels {} "f" 1)) 1
      (crossing.nameMeaning {} "f" (.call 1)).member? :=
    (nameMeaning_decides (by decide) rfl hclass).1
  have hlevel : nearest (crossing.callLevels {} "f" 1) =
      [{ name := "f", kind := .method, type := .unknown, owner := "q.BKt" }] := by
    have hlevels : crossing.callLevels {} "f" 1 = crossing.packageCandidates "f" 1 "q" ::
        [crossing.importedCandidates "f" 1, crossing.packageCandidates "f" 1 "p"] := rfl
    rw [hlevels, nearest_cons, hown]
    rfl
  rw [hlevel] at hdecides
  cases hmeaning : (crossing.nameMeaning {} "f" (.call 1)).member? with
  | none =>
    rw [hmeaning] at hdecides
    cases hdecides
  | some m =>
    rw [hmeaning] at hdecides
    obtain rfl := List.mem_singleton.mp hdecides.1
    exact ⟨_, rfl, by decide⟩

end Setting

end KotlinTree.Attribution
