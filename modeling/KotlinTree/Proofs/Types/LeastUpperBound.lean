import KotlinTree.Proofs.Types.BreadthFirst

/-!
Where two types meet. Main statements: both are below the type where they meet, and two classes meet at
the first class above the left one that both are below, which others can be below.
-/

namespace KotlinTree

namespace Environment

/-- A class that two classes are below is below the one where they meet, which is not below it. -/
structure Closer (env : Environment) (left right name : String) : Prop where
  left_le : env.isSubtype (.of left) (.of name)
  right_le : env.isSubtype (.of right) (.of name)
  le_bound : env.isSubtype (.of name) (env.leastUpperBound (.of left) (.of right))
  not_bound_le : ¬ env.isSubtype (env.leastUpperBound (.of left) (.of right)) (.of name)

section
variable {env : Environment} {left right name sub sup c : String} {n k : Nullability} {a b t : Ty}

/-- Types are ordered as their classes are, except that what may be null is not below what never is. -/
theorem isSubtype_named_iff : env.isSubtype (.named sub n) (.named sup k) ↔
    ¬ (n = .nullable ∧ k = .notNull) ∧ env.isSubtype (.of sub) (.of sup) := by
  rw [isSubtype, isSubtype]
  by_cases h : n = .nullable ∧ k = .notNull <;> simp [h, Ty.of, Ty.name?, Ty.nullability]

theorem isSubtype_of_refl (env : Environment) (name : String) :
    env.isSubtype (.of name) (.of name) :=
  isSubtype_of_iff.mpr (.inl rfl)

theorem isSubtype_of_any (env : Environment) (name : String) :
    env.isSubtype (.of name) (.of Ty.anyName) :=
  isSubtype_of_iff.mpr (.inr (.inl rfl))

/-- Nothing and `null` are below all that may be missing, nothing is below all. -/
theorem isSubtype_nothing_iff {isNullable : Bool} (ht : t ≠ .unknown) :
    env.isSubtype (.nothing isNullable) t ↔ ¬ (isNullable ∧ t.nullability = .notNull) := by
  cases t with
  | unknown => exact absurd rfl ht
  | nothing | named => cases isNullable <;> simp [isSubtype, Ty.name?, Ty.nullability]

/-- Whatever is known is a subtype of itself. -/
theorem isSubtype_refl (ht : t ≠ .unknown) : env.isSubtype t t := by
  cases t with
  | unknown => exact absurd rfl ht
  | nothing isNullable => cases isNullable <;> simp [isSubtype_nothing_iff, Ty.nullability]
  | named name n =>
    refine isSubtype_named_iff.mpr ⟨fun h => ?_, isSubtype_of_refl env name⟩
    simp [h.1] at h

/-- A type is below itself with `null`, and so is `null`. -/
theorem isSubtype_nullable (ht : t ≠ .unknown) :
    env.isSubtype t t.nullable ∧ env.isSubtype .null t.nullable := by
  cases t with
  | unknown => exact absurd rfl ht
  | nothing isNullable => cases isNullable <;> exact ⟨rfl, rfl⟩
  | named name n =>
    refine ⟨isSubtype_named_iff.mpr ⟨fun h => ?_, isSubtype_of_refl env name⟩, rfl⟩
    exact absurd h.2 (by decide)

/-- Where one class is below the other, the other is the bound. -/
theorem leastAbove_of_isSubtype_left (h : env.isSubtype (.of left) (.of right)) :
    env.leastAbove left right = right := if_pos h

theorem leastAbove_of_isSubtype_right (hleft : ¬ env.isSubtype (.of left) (.of right))
    (h : env.isSubtype (.of right) (.of left)) : env.leastAbove left right = left := by
  rw [leastAbove, if_neg hleft, if_pos h]

/-- Where neither is below the other, the first supertype of the left that is above the right is the
bound. -/
theorem leastAbove_of_unrelated (hleft : ¬ env.isSubtype (.of left) (.of right))
    (hright : ¬ env.isSubtype (.of right) (.of left)) : env.leastAbove left right =
      ((env.supertypeWalk left).find? fun name => env.isSubtype (.of right) (.of name)).getD
        Ty.anyName := by
  rw [leastAbove, if_neg hleft, if_neg hright]

/-- Both classes are below their bound. -/
theorem isSubtype_leastAbove (env : Environment) (left right : String) :
    env.isSubtype (.of left) (.of (env.leastAbove left right)) ∧
      env.isSubtype (.of right) (.of (env.leastAbove left right)) := by
  by_cases hleft : env.isSubtype (.of left) (.of right)
  · rw [leastAbove_of_isSubtype_left hleft]
    exact ⟨hleft, isSubtype_of_refl env right⟩
  by_cases hright : env.isSubtype (.of right) (.of left)
  · rw [leastAbove_of_isSubtype_right hleft hright]
    exact ⟨isSubtype_of_refl env left, hright⟩
  rw [leastAbove_of_unrelated hleft hright]
  cases hfind : (env.supertypeWalk left).find? fun name => env.isSubtype (.of right) (.of name) with
  | none => exact ⟨isSubtype_of_any env left, isSubtype_of_any env right⟩
  | some name =>
    have hmem : name ∈ env.supertypeWalk left := List.mem_of_find?_eq_some hfind
    exact ⟨isSubtype_of_iff.mpr (.inr (.inr (.inr hmem))), by simpa using List.find?_some hfind⟩

theorem leastUpperBound_nothing_left {isNullable : Bool} (hb : b ≠ .unknown) :
    env.leastUpperBound (.nothing isNullable) b = if isNullable then b.nullable else b := by
  cases b with
  | unknown => exact absurd rfl hb
  | nothing | named => rfl

theorem leastUpperBound_nothing_right {isNullable : Bool} (ha : a ≠ .unknown) :
    env.leastUpperBound a (.nothing isNullable) = if isNullable then a.nullable else a := by
  cases a with
  | unknown => exact absurd rfl ha
  | nothing other => cases other <;> cases isNullable <;> rfl
  | named => rfl

/-- The bound of two classes has the join of their nullabilities. -/
theorem leastUpperBound_named (env : Environment) (left right : String) (n k : Nullability) :
    env.leastUpperBound (.named left n) (.named right k) =
      .named (env.leastAbove left right) (n.join k) := by
  rw [leastUpperBound]
  split
  next he => rw [he, leastAbove_of_isSubtype_left (isSubtype_of_refl env right)]
  next => rfl

theorem leastUpperBound_of (env : Environment) (left right : String) :
    env.leastUpperBound (.of left) (.of right) = .of (env.leastAbove left right) :=
  leastUpperBound_named env left right .notNull .notNull

/-- Nothing adds nothing to another type, `null` adds that a value may be missing. -/
theorem isSubtype_ite_nullable {isNullable : Bool} (ht : t ≠ .unknown) :
    env.isSubtype t (if isNullable then t.nullable else t) ∧
      env.isSubtype (.nothing isNullable) (if isNullable then t.nullable else t) := by
  cases isNullable with
  | true => exact isSubtype_nullable ht
  | false => exact ⟨isSubtype_refl ht, (isSubtype_nothing_iff ht).mpr (by simp)⟩

/-- A join is never less nullable than its sides. -/
theorem not_nullable_join (n k : Nullability) : ¬ (n = .nullable ∧ n.join k = .notNull) := by
  cases n <;> cases k <;> decide

/-- Types that are known are below the type where they meet. -/
theorem isSubtype_leastUpperBound (ha : a ≠ .unknown) (hb : b ≠ .unknown) :
    env.isSubtype a (env.leastUpperBound a b) ∧ env.isSubtype b (env.leastUpperBound a b) := by
  cases a with
  | unknown => exact absurd rfl ha
  | nothing isNullable => exact leastUpperBound_nothing_left hb ▸ (isSubtype_ite_nullable hb).symm
  | named left n =>
    cases b with
    | unknown => exact absurd rfl hb
    | nothing isNullable => exact leastUpperBound_nothing_right ha ▸ isSubtype_ite_nullable ha
    | named right k =>
      obtain ⟨hleft, hright⟩ := isSubtype_leastAbove env left right
      rw [leastUpperBound_named, isSubtype_named_iff, isSubtype_named_iff]
      exact ⟨⟨not_nullable_join n k, hleft⟩, n.join_comm k ▸ not_nullable_join k n, hright⟩

/-- The left type does not add that a value may be missing when it is taken as not nullable. -/
theorem isNullable_leastUpperBound_notNull (ha : a ≠ .unknown) (hb : b ≠ .unknown) :
    (env.leastUpperBound a.notNull b).isNullable = b.isNullable := by
  cases a with
  | unknown => exact absurd rfl ha
  | nothing =>
    change (env.leastUpperBound (.nothing false) b).isNullable = b.isNullable
    rw [leastUpperBound_nothing_left hb]
    rfl
  | named left n =>
    cases b with
    | unknown => exact absurd rfl hb
    | nothing isNullable => cases isNullable <;> rfl
    | named right k => cases k <;> rfl

/-- A rank that grows with each declared supertype grows with all that is above. -/
theorem Above.lt_of_rank {rank : String → Nat} (h : env.Above sub sup)
    (hrank : ∀ c, ∀ d ∈ env.supertypes c, rank c < rank d) : rank sub < rank sup := by
  induction h with
  | single hstep => exact hrank _ _ hstep
  | tail _ hstep ih => exact ih.trans (hrank _ _ hstep)

/-- The first of a list that satisfies a predicate stands before the others. -/
theorem pair_sublist_of_find? {l : List String} {p : String → Bool} {first : String}
    (hfind : l.find? p = some first) (hc : c ∈ l) (hp : p c) (hne : c ≠ first) :
    [first, c].Sublist l := by
  obtain ⟨hfirst, before, after, rfl, hbefore⟩ := List.find?_eq_some_iff_append.mp hfind
  have hafter : c ∈ after := by
    rcases List.mem_append.mp hc with hmem | hmem
    · simpa [hp] using hbefore c hmem
    · exact (List.mem_cons.mp hmem).resolve_left hne
  exact ((List.singleton_sublist.mpr hafter).cons_cons first).trans (List.sublist_append_right _ _)

namespace Closer

/-- The bound is not below a class that is closer. -/
theorem not_leastAbove_le (h : env.Closer left right c) :
    ¬ env.isSubtype (.of (env.leastAbove left right)) (.of c) :=
  leastUpperBound_of env left right ▸ h.not_bound_le

/-- Where a class is closer, neither class is below the other. -/
theorem unrelated (h : env.Closer left right c) :
    ¬ env.isSubtype (.of left) (.of right) ∧ ¬ env.isSubtype (.of right) (.of left) := by
  have hnot := h.not_leastAbove_le
  have hleft : ¬ env.isSubtype (.of left) (.of right) := fun hle =>
    absurd h.right_le (leastAbove_of_isSubtype_left hle ▸ hnot)
  exact ⟨hleft, fun hle => absurd h.left_le (leastAbove_of_isSubtype_right hleft hle ▸ hnot)⟩

/-- A closer class is no root, so that a walk comes to it. -/
theorem mem_supertypeWalk (h : env.Closer left right c) : c ∈ env.supertypeWalk left := by
  rcases isSubtype_of_iff.mp h.left_le with rfl | hany | hobject | hmem
  · exact absurd h.right_le h.unrelated.2
  · exact absurd (isSubtype_of_iff.mpr (.inr (.inl hany))) h.not_leastAbove_le
  · exact absurd (isSubtype_of_iff.mpr (.inr (.inr (.inl hobject)))) h.not_leastAbove_le
  · exact hmem

/-- A walk from the left class comes to where the classes meet before it comes to a closer class. -/
theorem pair_sublist (h : env.Closer left right c) :
    [env.leastAbove left right, c].Sublist (env.supertypeWalk left) := by
  have hne : c ≠ env.leastAbove left right := fun he =>
    h.not_leastAbove_le (he ▸ isSubtype_of_refl env _)
  have hleast := leastAbove_of_unrelated h.unrelated.1 h.unrelated.2
  cases hfind : (env.supertypeWalk left).find? fun name => env.isSubtype (.of right) (.of name) with
  | none => exact absurd h.right_le (List.find?_eq_none.mp hfind c h.mem_supertypeWalk)
  | some first =>
    rw [hfind, Option.getD_some] at hleast
    rw [hleast] at hne ⊢
    exact pair_sublist_of_find? hfind h.mem_supertypeWalk h.right_le hne

end Closer

end

/-- Two classes that are not nullable meet at a class that a walk from the left one comes to before it
comes to closer ones, and that is no further. Where walks come to no class after one that is strictly
above it, no class is closer. -/
theorem leastUpperBound_nearest (env : Environment) (left right : String) :
    ∃ bound, env.leastUpperBound (.of left) (.of right) = .of bound ∧
      (∀ c, env.Closer left right c → [bound, c].Sublist (env.supertypesAbove (.of left)) ∧
        ∀ i j, env.IsAt left bound i → env.IsAt left c j → i ≤ j) ∧
      ((env.supertypesAbove (.of left)).Pairwise (fun c d =>
          env.isSubtype (.of d) (.of c) → env.isSubtype (.of c) (.of d)) →
        ∀ c, ¬ env.Closer left right c) := by
  refine ⟨env.leastAbove left right, leastUpperBound_of env left right, fun c h => ?_, fun hwalk c h => ?_⟩
  · refine ⟨h.pair_sublist, fun i j hi hj => ?_⟩
    have hpair := (supertypeWalk_pairwise env left).sublist h.pair_sublist
    exact (List.pairwise_pair.mp hpair i j hi hj).1
  · have hle : env.isSubtype (.of c) (.of (env.leastAbove left right)) :=
      leastUpperBound_of env left right ▸ h.le_bound
    exact h.not_leastAbove_le (List.pairwise_pair.mp (hwalk.sublist h.pair_sublist) hle)

/-- A class that declares an interface before one that is below it, and another below the latter. -/
def crossed : Environment where
  classes := [("A", ["I", "J"]), ("B", ["J"]), ("J", ["I"]), ("I", []), (Ty.anyName, [])].foldl
    (fun classes (name, supertypes) => classes.insert name
      { name, package := "", kind := .interface, origin := .source, supertypes }) ∅

theorem crossed_supertypes (name : String) : crossed.supertypes name =
    if name = "A" then ["I", "J"] else if name = "B" then ["J"] else if name = "J" then ["I"]
    else if name = "I" then [Ty.anyName] else [] := by
  simp only [supertypes, classInfo?, crossed, List.foldl_cons, List.foldl_nil, Std.HashMap.getElem?_insert,
    Std.HashMap.getElem?_empty]
  grind [Ty.anyName]

/-- The walks of the four classes, each nearest first. -/
theorem crossed_walks : crossed.supertypeWalk "A" = ["I", "J", Ty.anyName] ∧
    crossed.supertypeWalk "B" = ["J", "I", Ty.anyName] ∧
    crossed.supertypeWalk "J" = ["I", Ty.anyName] ∧ crossed.supertypeWalk "I" = [Ty.anyName] := by
  simp [supertypeWalk, walkFrom, crossed_supertypes, maxSupertypes, Ty.anyName]

/-- Where the two meet depends on which is walked from. -/
theorem crossed_leastUpperBound : crossed.leastUpperBound (.of "A") (.of "B") = .of "I" ∧
    crossed.leastUpperBound (.of "B") (.of "A") = .of "J" := by
  constructor <;> rw [leastUpperBound_of, leastAbove_of_unrelated] <;>
    simp [isSubtype_of_iff, crossed_walks, Ty.anyName, Ty.javaObjectName]

theorem crossed_closer : crossed.Closer "A" "B" "J" where
  left_le := by simp [isSubtype_of_iff, crossed_walks]
  right_le := by simp [isSubtype_of_iff, crossed_walks]
  le_bound := by simp [crossed_leastUpperBound, isSubtype_of_iff, crossed_walks]
  not_bound_le := by
    simp [crossed_leastUpperBound, isSubtype_of_iff, crossed_walks, Ty.anyName, Ty.javaObjectName]

/-- Where a class of `crossed` stands in an order that its supertypes come after it in. -/
def crossedRank (name : String) : Nat :=
  if name = "A" ∨ name = "B" then 0 else if name = "J" then 1 else if name = "I" then 2 else 3

theorem crossed_mem_supertypes {sub sup : String} (h : sup ∈ crossed.supertypes sub) :
    crossedRank sub < crossedRank sup ∧ sup ∈ ["I", "J", Ty.anyName] := by
  rw [crossed_supertypes] at h
  grind [crossedRank, Ty.anyName]

/-- Where two classes meet need not be least: of two interfaces that both are below, one below the other,
the upper is taken when the left class declares it first. -/
theorem leastUpperBound_not_least : (∀ name, ¬ crossed.Above name name) ∧
    (∀ name, (crossed.othersAbove name).ncard ≤ maxSupertypes) ∧
    crossed.leastUpperBound (.of "A") (.of "B") = .of "I" ∧ crossed.Closer "A" "B" "J" := by
  refine ⟨fun name h => ?_, fun name => ?_, crossed_leastUpperBound.1, crossed_closer⟩
  · exact Nat.lt_irrefl _ (h.lt_of_rank fun _ _ hsup => (crossed_mem_supertypes hsup).1)
  · exact (ncard_othersAbove_le fun _ _ hsup => (crossed_mem_supertypes hsup).2).trans (by decide)

/-- From the other class, whose walk comes to the lower interface first, they meet there. -/
theorem leastUpperBound_nearest_crossed : crossed.Closer "A" "B" "J" ∧
    ["I", "J"].Sublist (crossed.supertypesAbove (.of "A")) ∧
    crossed.leastUpperBound (.of "B") (.of "A") = .of "J" ∧ ∀ c, ¬ crossed.Closer "B" "A" c := by
  obtain ⟨bound, hbound, hfirst, -⟩ := leastUpperBound_nearest crossed "A" "B"
  obtain ⟨-, -, -, hleast⟩ := leastUpperBound_nearest crossed "B" "A"
  have hI : bound = "I" := by
    rw [crossed_leastUpperBound.1] at hbound
    simpa [Ty.of] using hbound.symm
  have hwalk : (crossed.supertypesAbove (.of "B")).Pairwise fun c d =>
      crossed.isSubtype (.of d) (.of c) → crossed.isSubtype (.of c) (.of d) := by
    change (crossed.supertypeWalk "B").Pairwise _
    simp [isSubtype_of_iff, crossed_walks]
  exact ⟨crossed_closer, hI ▸ (hfirst "J" crossed_closer).1, crossed_leastUpperBound.2, hleast hwalk⟩

end Environment

end KotlinTree
