import KotlinTree.Proofs.Attribution.NullSafe
import KotlinTree.Proofs.Attribution.Settled
import KotlinTree.Proofs.Types.LeastUpperBound

/-!
Values with another one for when they are missing. Main statement: two types are below the type where
they meet, so that such a value may be missing exactly where the other one may be.
-/

namespace KotlinTree

/-- The node is a value with another one for when it is missing. -/
def Forest.IsElvis (f : Forest) (id left right : NodeId) : Prop :=
  f.kind? (some id) = some (.node .elvisExpression) ∧
    ∃ b, f.data (some id) = .binary b ∧ b.left = left ∧ b.right = some right

namespace Attribution

/-- The type of a node as it has been found out last. -/
def Findings.lastType (φ : Findings) (x : NodeId) : Ty := (φ.about x).types.getLast?.getD .unknown

namespace Findings

variable {φ φ' : Findings} {x y : NodeId}

theorem lastType_of_about_eq (h : φ'.about x = φ.about x) : φ'.lastType x = φ.lastType x := by
  rw [lastType, h, lastType]

theorem lastType_of_types_eq_nil (h : (φ.about x).types = []) : φ.lastType x = .unknown := by
  rw [lastType, h]
  rfl

theorem about_push_self (φ : Findings) (x : NodeId) (t : Ty) :
    ({ φ with types := φ.types.push (x, t) } : Findings).lastType x = t := by
  simp [lastType, about]

theorem about_push_other (h : y ≠ x) (t : Ty) :
    ({ φ with types := φ.types.push (y, t) } : Findings).about x = φ.about x := by
  simp [about, h]

end Findings

namespace Setting

variable {s : Setting} {rec : Tasks} {id right x : NodeId} {b : BinaryExpression} {n : Nat} {st : State}

theorem expression_of_too_deep (hd : maxDepth ≤ st.depth) :
    Id.run ((s.expression rec x).run st) = (.unknown, st) := by
  simp [expression, deeper, hd]

/-- The type of an expression is what is found out last about it, unless it is too deep. -/
theorem expression_lastType (s : Setting) (rec : Tasks) (x : NodeId) (st : State) :
    (Id.run ((s.expression rec x).run st)).2.lastType x = (Id.run ((s.expression rec x).run st)).1 ∨
      Id.run ((s.expression rec x).run st) = (.unknown, st) := by
  by_cases hd : maxDepth ≤ st.depth
  · exact .inr (expression_of_too_deep hd)
  · refine .inl ?_
    simp [expression, deeper, hd, recordType, Findings.about_push_self]

/-- So it is at every depth of the parts of a file. -/
theorem typeOf_lastType (s : Setting) (n : Nat) (x : NodeId) (st : State) :
    (Id.run (((s.tasks n).typeOf (some x)).run st)).2.lastType x =
        (Id.run (((s.tasks n).typeOf (some x)).run st)).1 ∨
      Id.run (((s.tasks n).typeOf (some x)).run st) = (.unknown, st) := by
  cases n with
  | zero => exact .inr rfl
  | succ n => exact expression_lastType s (s.tasks n) x st

theorem expression_elvis (hkind : s.forest.kind? (some id) = some (.node .elvisExpression))
    (hdata : s.forest.data (some id) = .binary b) (hd : st.depth < maxDepth) :
    Id.run ((s.expression rec id).run st) =
      let r := Id.run ((s.elvis rec b).run { st with depth := st.depth + 1 })
      (r.1, { r.2 with depth := r.2.depth - 1, types := r.2.types.push (id, r.1) }) := by
  have hdepth : ¬ maxDepth ≤ st.depth := Nat.not_le_of_lt hd
  simp [expression, hkind, deeper, hdepth, nodeType, hdata, recordType]

/-- The operands lie apart, and before the whole. -/
theorem operands_apart (hf : s.forest.Linked) (hdata : s.forest.data (some id) = .binary b)
    (hright : b.right = some right) :
    (¬ s.forest.Inside right b.left ∧ ¬ s.forest.Inside b.left right) ∧ b.left < id ∧ right < id := by
  have hdirect : (NodeData.binary b).direct = [b.left, b.operatorToken, right] := by
    rw [NodeData.direct, hright]
    rfl
  have hne : b.left ≠ right := by
    have hnodup := hf.direct_nodup hdata
    rw [hdirect] at hnodup
    simp at hnodup
    exact hnodup.1.2
  have hleftMem : b.left ∈ (NodeData.binary b).direct := by simp [hdirect]
  have hrightMem : right ∈ (NodeData.binary b).direct := by simp [hdirect]
  have hlt {part : NodeId} (hpart : part ∈ (s.forest.data (some id)).parts) : part < id :=
    hf.lt_of_mem_parts hpart
  refine ⟨⟨?_, ?_⟩, hlt ?_, hlt ?_⟩
  · exact hf.not_inside_other hdata hleftMem hrightMem hne (s.forest.inside_self _)
  · exact hf.not_inside_other hdata hrightMem hleftMem hne.symm (s.forest.inside_self _)
  · simp [hdata, NodeData.parts]
  · simp [hdata, NodeData.parts, hright]

/-- The operands are gone through one after the other. -/
theorem elvis_run (hright : b.right = some right) {tl tr : Ty} {mid last : State}
    (hfirst : Id.run ((rec.typeOf (some b.left)).run st) = (tl, mid))
    (hsecond : Id.run ((rec.typeOf (some right)).run mid) = (tr, last)) :
    Id.run ((s.elvis rec b).run st) = (s.env.leastUpperBound tl.notNull tr, last) := by
  have hmid : mid = (Id.run ((rec.typeOf (some b.left)).run st)).2 := by rw [hfirst]
  rw [elvis, hright]
  change (s.env.leastUpperBound (Id.run ((rec.typeOf (some b.left)).run st)).1.notNull
    (Id.run ((rec.typeOf (some right)).run (Id.run ((rec.typeOf (some b.left)).run st)).2)).1,
    (Id.run ((rec.typeOf (some right)).run (Id.run ((rec.typeOf (some b.left)).run st)).2)).2) = _
  rw [← hmid, hfirst, hsecond]

/-- Where nothing was known of the operands, and both types are known then, the value has the type where
the left one without `null` and the right one meet. -/
theorem elvis_lastType (hf : s.forest.Linked) (hdata : s.forest.data (some id) = .binary b)
    (hright : b.right = some right) {r : Ty × State}
    (hrun : Id.run ((s.elvis (s.tasks n) b).run st) = r) (hleftNew : (st.about b.left).types = [])
    (hrightNew : (st.about right).types = [])
    (hleft : r.2.lastType b.left ≠ .unknown) (hknown : r.2.lastType right ≠ .unknown) :
    r.1 = s.env.leastUpperBound (r.2.lastType b.left).notNull (r.2.lastType right) := by
  obtain ⟨⟨hapart, hapart'⟩, -⟩ := operands_apart hf hdata hright
  have hcomposed (y : NodeId) : Composed s (s.forest.Inside y) ((s.tasks n).typeOf (some y)) :=
    tasks_composed hf n (.expression y)
  let first := Id.run (((s.tasks n).typeOf (some b.left)).run st)
  let second := Id.run (((s.tasks n).typeOf (some right)).run first.2)
  obtain rfl : (s.env.leastUpperBound first.1.notNull second.1, second.2) = r :=
    (elvis_run hright rfl rfl).symm.trans hrun
  -- Each operand leaves what is known of the other one.
  have hleftKept : second.2.lastType b.left = first.2.lastType b.left :=
    Findings.lastType_of_about_eq ((hcomposed right).about_eq hapart first.2)
  have hrightKept : first.2.about right = st.about right := (hcomposed b.left).about_eq hapart' st
  have htl : second.2.lastType b.left = first.1 := by
    rw [hleftKept]
    refine (typeOf_lastType s n b.left st).resolve_right fun hnone => hleft (hleftKept.trans ?_)
    rw [show first = (.unknown, st) from hnone]
    exact Findings.lastType_of_types_eq_nil hleftNew
  have htr : second.2.lastType right = second.1 := by
    refine (typeOf_lastType s n right first.2).resolve_right fun hnone => hknown ?_
    change second.2.lastType right = .unknown
    rw [show second = (.unknown, first.2) from hnone]
    exact Findings.lastType_of_types_eq_nil (hrightKept ▸ hrightNew)
  change _ = s.env.leastUpperBound (second.2.lastType b.left).notNull (second.2.lastType right)
  rw [htl, htr]

/-- So has the whole expression, which is found out last. -/
theorem expression_elvis_lastType (hf : s.forest.Linked)
    (hkind : s.forest.kind? (some id) = some (.node .elvisExpression))
    (hdata : s.forest.data (some id) = .binary b) (hright : b.right = some right)
    (hleftNew : (st.about b.left).types = []) (hrightNew : (st.about right).types = []) {φ : Findings}
    (hφ : φ = (Id.run ((s.tasks n (.expression id)).run st)).2.toFindings)
    (hleft : φ.lastType b.left ≠ .unknown) (hknown : φ.lastType right ≠ .unknown) :
    φ.lastType id = s.env.leastUpperBound (φ.lastType b.left).notNull (φ.lastType right) := by
  -- If nothing had been found, the left side would still be unknown, so neither fuel nor depth ran
  -- out.
  have hvisited : φ ≠ st.toFindings := fun hsame =>
    hleft (hsame ▸ Findings.lastType_of_types_eq_nil hleftNew)
  cases n with
  | zero => exact absurd hφ hvisited
  | succ n =>
    change φ = (Id.run ((s.expression (s.tasks n) id).run st)).2.toFindings at hφ
    by_cases hd : maxDepth ≤ st.depth
    · rw [expression_of_too_deep hd] at hφ
      exact absurd hφ hvisited
    rw [expression_elvis hkind hdata (Nat.lt_of_not_le hd)] at hφ
    generalize hr : Id.run ((s.elvis (s.tasks n) b).run { st with depth := st.depth + 1 }) = r at hφ
    obtain ⟨-, hleftLt, hrightLt⟩ := operands_apart hf hdata hright
    replace hφ : φ = { r.2.toFindings with types := r.2.types.push (id, r.1) } := hφ
    -- Operands come before the node, so recording its type leaves theirs.
    have hkept {x : NodeId} (hx : x < id) : φ.lastType x = r.2.lastType x := by
      rw [hφ]
      exact Findings.lastType_of_about_eq (Findings.about_push_other (Nat.ne_of_gt hx) r.1)
    have hid : φ.lastType id = r.1 := by
      rw [hφ]
      exact Findings.about_push_self r.2.toFindings id r.1
    rw [hid, hkept hleftLt, hkept hrightLt]
    rw [hkept hleftLt] at hleft
    rw [hkept hrightLt] at hknown
    exact elvis_lastType hf hdata hright hr hleftNew hrightNew hleft hknown

end Setting

/-- A value with another one for when it is missing may itself be missing exactly where the other one may
be, as soon as the types of both are known: so it is for the types that the operands yield, and for the
types that have been found out last when the whole has been gone through. -/
structure Setting.ElvisFollows (s : Setting) : Prop where
  yields : ∀ (rec : Tasks) (b : BinaryExpression) (right : NodeId) (tl tr : Ty) (st mid last : State),
    b.right = some right → Id.run ((rec.typeOf (some b.left)).run st) = (tl, mid) →
    Id.run ((rec.typeOf (some right)).run mid) = (tr, last) → tl ≠ .unknown → tr ≠ .unknown →
      ∃ t, Id.run ((s.elvis rec b).run st) = (t, last) ∧ (t.isNullable ↔ tr.isNullable)
  records : s.forest.Linked → ∀ (id left right : NodeId) (n : Nat) (st : State) (φ : Findings),
    s.forest.IsElvis id left right → (st.about left).types = [] → (st.about right).types = [] →
    φ = (Id.run ((s.tasks n (.expression id)).run st)).2.toFindings →
    φ.lastType left ≠ .unknown → φ.lastType right ≠ .unknown →
      φ.lastType id = s.env.leastUpperBound (φ.lastType left).notNull (φ.lastType right) ∧
        ((φ.lastType id).isNullable ↔ (φ.lastType right).isNullable)

theorem Setting.elvisFollows (s : Setting) : s.ElvisFollows where
  yields rec b right tl tr st mid last hright hfirst hsecond hleft hknown := by
    refine ⟨_, elvis_run hright hfirst hsecond, ?_⟩
    rw [Environment.isNullable_leastUpperBound_notNull hleft hknown]
  records := by
    rintro hf id left right n st φ ⟨hkind, b, hdata, rfl, hright⟩ hleftNew hrightNew hφ hleft hknown
    have htype := expression_elvis_lastType hf hkind hdata hright hleftNew hrightNew hφ hleft hknown
    refine ⟨htype, ?_⟩
    rw [htype, Environment.isNullable_leastUpperBound_notNull hleft hknown]

end Attribution

open Attribution

/-- Types that are known are below the type where they meet, and of two classes what is known there of a
value is what is known where values of both meet. So it is up to the other value whether one that has
another for when it is missing may be missing. -/
theorem leastUpperBound_bounds_elvis (env : Environment) :
    (∀ a b : Ty, a ≠ .unknown → b ≠ .unknown →
      env.isSubtype a (env.leastUpperBound a b) ∧ env.isSubtype b (env.leastUpperBound a b)) ∧
    (∀ (left right : String) (n k : Nullability), ∃ name,
      env.leastUpperBound (.named left n) (.named right k) = .named name (n.join k)) ∧
    ∀ s : Setting, s.env = env → s.ElvisFollows :=
  ⟨fun _ _ => Environment.isSubtype_leastUpperBound,
    fun left right n k => ⟨_, env.leastUpperBound_named left right n k⟩, fun s _ => s.elvisFollows⟩

/-- A property with a truth value for when there is nothing. -/
def nullElse : ParsedUnit := ParsedUnit.ofSource "a.kt" "val x = null ?: true"

/-- The value of the property. -/
def nullElseValue : BinaryExpression where
  left := 3
  operator := .questionColon
  operatorToken := 4
  right := some 5

theorem nullElse_forest : nullElse.forest.kind? (some 6) = some (.node .elvisExpression) ∧
    nullElse.forest.data (some 6) = .binary nullElseValue ∧
    nullElse.forest.kind? (some 3) = some (.token .nullKeyword) ∧
    nullElse.forest.literalType? (some 3) = some .null ∧
    nullElse.forest.kind? (some 5) = some (.token .trueKeyword) ∧
    nullElse.forest.literalType? (some 5) = some (.of Ty.booleanName) := by
  decide +kernel

/-- The operands are found out before the whole. -/
theorem nullElse_types {s : Setting} (hforest : s.forest = nullElse.forest) : ∃ t,
    (Id.run ((s.tasks 2 (.expression 6)).run {})).2.types =
      #[(3, .null), (5, .of Ty.booleanName), (6, t)] := by
  obtain ⟨hkind, hdata, hleftKind, hleft, hrightKind, hright⟩ := nullElse_forest
  rw [← hforest] at hkind hdata hleftKind hleft hrightKind hright
  let start : State := { ({} : State) with depth := ({} : State).depth + 1 }
  let mid : State := { start with types := start.types.push (3, .null) }
  have hfirst : Id.run (((s.tasks 1).typeOf (some 3)).run start) = (.null, mid) :=
    Setting.expression_literal hleftKind hleft (show 1 < maxDepth by decide)
  have hsecond : Id.run (((s.tasks 1).typeOf (some 5)).run mid) =
      (.of Ty.booleanName, { mid with types := mid.types.push (5, .of Ty.booleanName) }) :=
    Setting.expression_literal hrightKind hright (show 1 < maxDepth by decide)
  have hvalue : Id.run ((s.elvis (s.tasks 1) nullElseValue).run start) = _ :=
    Setting.elvis_run rfl hfirst hsecond
  have hrun : Id.run ((s.expression (s.tasks 1) 6).run {}) = _ :=
    Setting.expression_elvis hkind hdata (show 0 < maxDepth by decide)
  rw [hvalue] at hrun
  exact ⟨_, congrArg (fun r => r.2.types) hrun⟩

/-- Where the other value is one of a class, nothing is missing. -/
theorem leastUpperBound_bounds_elvis_nullElse : ∃ (s : Setting) (φ : Findings),
    s.forest.IsElvis 6 3 5 ∧ φ = (Id.run ((s.tasks 2 (.expression 6)).run {})).2.toFindings ∧
      φ.lastType 3 = .null ∧ φ.lastType 5 = .of Ty.booleanName ∧ (φ.lastType 6).isNullable = false := by
  -- The setting and what is found are named, so that no run is unfolded but once.
  obtain ⟨s, hs⟩ : ∃ s : Setting, s =
      { forest := nullElse.forest, env := {}, unit := default, stops := fun _ => false } := ⟨_, rfl⟩
  have hforest : s.forest = nullElse.forest := by rw [hs]
  obtain ⟨t, htypes⟩ := nullElse_types hforest
  obtain ⟨φ, hφ⟩ : ∃ φ, φ = (Id.run ((s.tasks 2 (.expression 6)).run {})).2.toFindings := ⟨_, rfl⟩
  have hleft : φ.lastType 3 = .null := by simp [hφ, Findings.lastType, Findings.about, htypes]
  have hright : φ.lastType 5 = .of Ty.booleanName := by
    simp [hφ, Findings.lastType, Findings.about, htypes]
  have helvis : s.forest.IsElvis 6 3 5 := by
    rw [hforest]
    exact ⟨nullElse_forest.1, _, nullElse_forest.2.1, rfl, rfl⟩
  have hlinked : s.forest.Linked := by
    rw [hforest]
    exact (ParsedUnit.ofSource_sound "a.kt" "val x = null ?: true").linked
  refine ⟨s, φ, helvis, hφ, hleft, hright, ?_⟩
  obtain ⟨-, -, hfollows⟩ := leastUpperBound_bounds_elvis s.env
  have hnullable := ((hfollows s rfl).records hlinked 6 3 5 2 {} φ helvis rfl rfl hφ
    (by simp [hleft, Ty.null]) (by simp [hright, Ty.of])).2
  rw [hright] at hnullable
  exact Bool.eq_false_iff.mpr fun h => absurd (hnullable.mp h) (by decide)

end KotlinTree
