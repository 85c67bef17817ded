import KotlinTree.Binding.Signature
import KotlinTree.Proofs.Attribution.Path
import KotlinTree.Proofs.Attribution.Property

/-!
Initializers whose type binding knows. Attribution finds the same type for them, unless there is a call
under their parentheses and signs: what a call means is not known when files are bound. Then it finds
what it records of the name that is called.
-/

namespace KotlinTree

theorem Ty.notNull_notNull (t : Ty) : t.notNull.notNull = t.notNull := by
  cases t <;> rfl

namespace Forest

/-- The expression in parentheses or after a sign, whose type is that of the whole. -/
def unwrapped? (f : Forest) (id : NodeId) : Option NodeId :=
  match f.kind? (some id), f.data (some id) with
  | some (.node .parenthesizedExpression), .parenthesized inner => inner
  | some (.node .prefixUnaryExpression), .unary unary =>
    if unary.operator = .bang then none else unary.operand
  | _, _ => none

/-- An expression, and what is in its parentheses and after its signs, down to what has none. -/
def unwrapping (f : Forest) (id : NodeId) : List NodeId :=
  id :: match f.unwrapped? id with
    | some inner => if _ : inner < id then f.unwrapping inner else []
    | none => []
termination_by id

/-- The sign `!!`, which attribution takes for an assertion that a value is there. -/
def IsAssertion (f : Forest) (id : NodeId) : Prop :=
  ∃ unary, f.data (some id) = .unary unary ∧ unary.operator = .bangBang

/-- What is called by an expression under its parentheses and signs. -/
def calledUnder? (f : Forest) (id : NodeId) : Option NodeId :=
  (f.unwrapping id).getLast?.bind fun innermost =>
    match f.data (some innermost) with
    | .call call => some call.callee
    | _ => none

variable {f : Forest} {id inner : NodeId}

theorem self_mem_unwrapping (f : Forest) (id : NodeId) : id ∈ f.unwrapping id := by
  rw [unwrapping]
  exact List.mem_cons_self

theorem unwrapping_eq (h : f.unwrapped? id = some inner) (hlt : inner < id) :
    f.unwrapping id = id :: f.unwrapping inner := by
  rw [unwrapping, h]
  dsimp only
  rw [dif_pos hlt]

theorem unwrapping_eq_singleton (h : f.unwrapped? id = none) : f.unwrapping id = [id] := by
  rw [unwrapping, h]

theorem calledUnder?_eq (h : f.unwrapped? id = some inner) (hlt : inner < id) :
    f.calledUnder? id = f.calledUnder? inner := by
  have hne : f.unwrapping inner ≠ [] := List.ne_nil_of_mem (f.self_mem_unwrapping inner)
  rw [calledUnder?, calledUnder?, unwrapping_eq h hlt, List.getLast?_cons_of_ne_nil hne]

theorem calledUnder?_of_call {call : Call} (hk : f.kind? (some id) = some (.node .callExpression))
    (hd : f.data (some id) = .call call) : f.calledUnder? id = some call.callee := by
  have hnone : f.unwrapped? id = none := by rw [unwrapped?, hk]
  rw [calledUnder?, unwrapping_eq_singleton hnone, List.getLast?_singleton, Option.bind_some, hd]

theorem unwrapped?_mem_parts (h : f.unwrapped? id = some inner) :
    inner ∈ (f.data (some id)).parts := by
  unfold unwrapped? at h
  split at h
  · rename_i hd
    rw [hd, h]
    exact List.mem_singleton_self inner
  · rename_i hd
    split at h
    · cases h
    · rw [hd]
      simp [NodeData.parts, h]
  · cases h

end Forest

namespace SignatureSource

variable {s : SignatureSource} {id : NodeId}

/-- The initializers with a type of their own, apart from calls: what is not in parentheses and has
no sign. -/
inductive Plain (f : Forest) (id : NodeId) : Ty → Prop where
  | literal {k : TokenKind} {t : Ty} : f.kind? (some id) = some (.token k) →
    f.literalType? (some id) = some t → Plain f id t
  | negation {unary : UnaryExpression} :
    f.kind? (some id) = some (.node .prefixUnaryExpression) → f.data (some id) = .unary unary →
      unary.operator = .bang → Plain f id (.of Ty.booleanName)
  | typeTest : f.kind? (some id) = some (.node .isExpression) → Plain f id (.of Ty.booleanName)
  | comparison {binary : BinaryExpression} :
    f.kind? (some id) = some (.node .binaryExpression) → f.data (some id) = .binary binary →
      isTruthOperator binary.operator → Plain f id (.of Ty.booleanName)

theorem eq_null_or_notNull_of_literalType? {f : Forest} {t : Ty}
    (h : f.literalType? (some id) = some t) : t = .null ∨ t.notNull = t := by
  unfold Forest.literalType? at h
  split at h
  all_goals first | cases h; exact .inl rfl | cases h; exact .inr rfl | cases h

/-- Nothing but `null` may be missing. -/
theorem Plain.eq_null_or_notNull {f : Forest} {t : Ty} (h : Plain f id t) :
    t = .null ∨ t.notNull = t := by
  cases h with
  | literal _ hliteral => exact eq_null_or_notNull_of_literalType? hliteral
  | negation _ _ _ => exact .inr rfl
  | typeTest _ => exact .inr rfl
  | comparison _ _ _ => exact .inr rfl

/-- What says itself what it is calls nothing. -/
theorem Plain.calledUnder?_eq_none {f : Forest} {t : Ty} (hf : f.Linked) (h : Plain f id t) :
    f.calledUnder? id = none := by
  obtain ⟨hnone, hcall⟩ : f.unwrapped? id = none ∧ ∀ call, f.data (some id) ≠ .call call := by
    cases h with
    | literal hk _ =>
      obtain ⟨leaf, hd⟩ := hf.exists_leaf hk
      exact ⟨by rw [Forest.unwrapped?, hk], fun call h => nomatch hd.symm.trans h⟩
    | negation hk hd hbang =>
      refine ⟨?_, fun call h => nomatch hd.symm.trans h⟩
      rw [Forest.unwrapped?, hk, hd]
      exact if_pos hbang
    | typeTest hk =>
      obtain ⟨operation, hd, -⟩ := hf.exists_typeTest hk
      exact ⟨by rw [Forest.unwrapped?, hk], fun call h => nomatch hd.symm.trans h⟩
    | comparison hk hd _ =>
      exact ⟨by rw [Forest.unwrapped?, hk], fun call h => nomatch hd.symm.trans h⟩
  rw [Forest.calledUnder?, Forest.unwrapping_eq_singleton hnone, List.getLast?_singleton,
    Option.bind_some]
  split
  · exact absurd ‹_› (hcall _)
  · rfl

theorem exists_token_of_literalType? {f : Forest} {t : Ty} (h : f.literalType? (some id) = some t) :
    ∃ k, f.kind? (some id) = some (.token k) := by
  unfold Forest.literalType? at h
  split at h
  all_goals first | exact ⟨_, ‹_›⟩ | cases h

/-- A call is taken for the construction of a class. -/
theorem initializerType_of_call {call : Call} {segments enclosing : List String}
    (hk : s.forest.kind? (some id) = some (.node .callExpression))
    (hd : s.forest.data (some id) = .call call)
    (hsegments : s.forest.chainSegments? call.callee = some segments) :
    s.initializerType enclosing id =
      ((s.scope.resolveClass? segments enclosing s.isClass).map .of).getD .unknown := by
  have hliteral : s.forest.literalType? (some id) = none := by rw [Forest.literalType?, hk]
  rw [initializerType, hliteral, hk, hd]
  dsimp only
  rw [hsegments]

/-- A type that is known is that of the expression inside, or that of the class that is called, or the
expression says itself what it is. -/
theorem initializerType_cases (hf : s.forest.Linked) (enclosing : List String)
    (ht : s.initializerType enclosing id ≠ .unknown) :
    Plain s.forest id (s.initializerType enclosing id) ∨
      (∃ inner, s.forest.unwrapped? id = some inner ∧
        s.initializerType enclosing id = s.initializerType enclosing inner) ∨
      ∃ call, s.forest.kind? (some id) = some (.node .callExpression) ∧
        s.forest.data (some id) = .call call ∧ (s.forest.chainSegments? call.callee).isSome ∧
        ∃ name, s.initializerType enclosing id = .of name := by
  have hlt {inner : NodeId} (h : s.forest.unwrapped? id = some inner) : inner < id :=
    hf.lt_of_mem_parts (Forest.unwrapped?_mem_parts h)
  rw [initializerType] at ht ⊢
  -- The cases follow the definition: each is unknown, plain, wraps another expression or calls a
  -- class.
  split at ht
  · rename_i t hliteral
    obtain ⟨k, hk⟩ := exists_token_of_literalType? hliteral
    exact .inl (.literal hk hliteral)
  · split at ht
    · rename_i inner hk hd
      have hinner : s.forest.unwrapped? id = some inner := by
        rw [Forest.unwrapped?, hk, hd]
      rw [dif_pos (hlt hinner)]
      exact .inr (.inl ⟨inner, hinner, rfl⟩)
    · rename_i unary hk hd
      split at ht
      · rename_i hbang
        rw [if_pos hbang]
        exact .inl (.negation hk hd hbang)
      · rename_i hbang
        split at ht
        · rename_i operand hoperand
          have hinner : s.forest.unwrapped? id = some operand := by
            rw [Forest.unwrapped?, hk, hd]
            dsimp only
            rw [if_neg hbang, hoperand]
          rw [if_neg hbang, dif_pos (hlt hinner)]
          exact .inr (.inl ⟨operand, hinner, rfl⟩)
        · exact absurd rfl ht
    · rename_i hk
      exact .inl (.typeTest hk)
    · rename_i binary hk hd
      split at ht
      · rename_i htruth
        rw [if_pos htruth]
        exact .inl (.comparison hk hd htruth)
      · exact absurd rfl ht
    · rename_i call hk hd
      split at ht
      · rename_i segments hsegments
        cases hclass : s.scope.resolveClass? segments enclosing s.isClass with
        | none => exact absurd (by rw [hclass]; rfl) ht
        | some name => exact .inr (.inr ⟨call, hk, hd, by rw [hsegments]; rfl, name, rfl⟩)
      · exact absurd rfl ht
    · exact absurd rfl ht

/-- Nothing but `null` may be missing, in parentheses or not. -/
theorem initializerType_eq_null_or_notNull (hf : s.forest.Linked) (enclosing : List String)
    (ht : s.initializerType enclosing id ≠ .unknown) :
    s.initializerType enclosing id = .null ∨
      (s.initializerType enclosing id).notNull = s.initializerType enclosing id := by
  induction id using Nat.strongRecOn with
  | ind id ih =>
    rcases initializerType_cases hf enclosing ht with
      hplain | ⟨inner, hinner, hsame⟩ | ⟨call, -, -, -, name, hname⟩
    · exact hplain.eq_null_or_notNull
    · rw [hsame] at ht ⊢
      exact ih inner (hf.lt_of_mem_parts (Forest.unwrapped?_mem_parts hinner)) ht
    · rw [hname]
      exact .inr rfl

end SignatureSource

namespace Attribution

/-- The type that is recorded of the name that is used at a node; unknown where none is. -/
def usedType (used : List (Place × NameUse)) (id : NodeId) : Ty :=
  ((used.find? fun entry => entry.2.node = id).map fun entry => entry.2.type).getD .unknown

/-- Where names are used once, what is recorded of a name is what is found at its node. -/
theorem usedType_of_mem {used : List (Place × NameUse)} {place : Place} {use : NameUse}
    (honce : used.Pairwise fun a b => a.2.node ≠ b.2.node) (h : (place, use) ∈ used) :
    usedType used use.node = use.type := by
  induction used with
  | nil => cases h
  | cons entry used ih =>
    rw [List.pairwise_cons] at honce
    rw [usedType, List.find?_cons]
    rcases List.mem_cons.mp h with rfl | h
    · simp
    · have hne : entry.2.node ≠ use.node := honce.1 _ h
      rw [decide_eq_false hne]
      exact ih honce.2 h

namespace Setting

variable {s : Setting} {rec : Tasks} {used : List (Place × NameUse)} {c : Surroundings} {id : NodeId}
  {t : Ty}

theorem expression_returns (hc : c.depth < maxDepth)
    (h : Returns used c.deeper (match s.forest.kind? (some id) with
      | some (.token kind) => s.tokenType kind id
      | some (.node kind) => s.nodeType rec kind id
      | none => return .unknown) t) : Returns used c (s.expression rec id) t := by
  unfold expression
  refine ((h.map some).deeper none hc).bind (s := s) (P := (· = id)) (fun t? => ?_) fun _ =>
    .after fun _ _ => .pure t
  cases t? with
  | none => exact .pure _
  | some t => exact (Composed.recordType (P := (· = id)) rfl t).seq (.pure t)

theorem expression_returns_node {kind : NodeKind} (hk : s.forest.kind? (some id) = some (.node kind))
    (hc : c.depth < maxDepth) (h : Returns used c.deeper (s.nodeType rec kind id) t) :
    Returns used c (s.expression rec id) t := by
  refine expression_returns hc ?_
  rw [hk]
  exact h

/-- What is recorded of a value is its type. -/
theorem record_returns (honce : used.Pairwise fun a b => a.2.node ≠ b.2.node) {meaning : Meaning}
    (h : meaning.IsValue) (place : Place) (token : Option NodeId) (access : AccessKind) :
    Returns used c (return (← s.record place id token access meaning).valueType s.env)
      (usedType used id) := by
  intro st hst hlead
  have hmem {φ : Findings} {use : NameUse} (huse : use.node = id)
      (h : (φ.uses.push (place, use)).toList ⊆ used) : use.type = usedType used id := by
    have hused : (place, use) ∈ used := h (Array.mem_toList_iff.mpr Array.mem_push_self)
    rw [← huse, usedType_of_mem honce hused]
  cases h with
  | unresolved failure => exact hmem rfl hlead.2
  | member m => exact hmem rfl hlead.2
  | localVariable t => exact hmem rfl hlead.2
  | localFunction t => exact hmem rfl hlead.2
  | indeterminate => exact hmem rfl hlead.2

/-- The name of an access that is called is a value. -/
theorem accessMeaning_isValue (rec : Tasks) (access : Access) (count : Nat) (st : State) :
    (Id.run ((s.accessMeaning rec id access (.call count)).run st)).1.IsValue := by
  -- Whatever is attributed before, the last step yields what is named.
  have hbind {α : Type} {p : Attributing α} {f : α → Attributing Meaning} (st : State)
      (h : ∀ a st, (Id.run ((f a).run st)).1.IsValue) : (Id.run ((p >>= f).run st)).1.IsValue := h _ _
  have hon {meaning : Meaning} (h : meaning.IsValue) :
      (if s.forest.nameText access.name = "" then Meaning.indeterminate else meaning).IsValue := by
    split
    · exact .indeterminate
    · exact h
  unfold accessMeaning
  dsimp only
  split
  · refine hbind st fun t? st => ?_
    cases t? with
    | none => exact .indeterminate
    | some t => exact hon (s.valueMemberMeaning_isValue t _ _)
  · refine hbind st fun t? st => ?_
    cases t? with
    | none => exact .indeterminate
    | some t => exact s.superMemberMeaning_isValue t _ _
  · exact hbind st fun q st => hon (s.memberMeaning_call_isValue q _ count)
  · exact hbind st fun q st => hon (s.memberMeaning_call_isValue q _ count)

/-- So is that of a name that is called, alone or at the end of a chain. -/
theorem calleeType_returns (hf : s.forest.Linked) (honce : used.Pairwise fun a b => a.2.node ≠ b.2.node)
    (hsegments : (s.forest.chainSegments? id).isSome) (count : Nat) :
    Returns used c (s.calleeType rec id count) (usedType used id) := by
  rw [Forest.chainSegments?] at hsegments
  split at hsegments
  · rename_i hk
    unfold calleeType
    rw [hk]
    exact .after fun st _ => record_returns honce (s.nameMeaning_call_isValue st _ count) _ _ _
  · split at hsegments
    · rename_i access hd
      have hk : s.forest.kind? (some id) = some (.node .propertyAccessExpression) :=
        hf.kind?_of_data hd rfl rfl
      unfold calleeType accessUse
      rw [hk, hd]
      dsimp only
      rw [bind_assoc]
      exact .after_run (accessMeaning_isValue rec access count) fun meaning h _ =>
        record_returns honce h _ _ _
    · cases hsegments

/-- A call has the type that is recorded of what is called. -/
theorem call_returns (hrec : rec.Composed s) (hf : s.forest.Linked)
    (honce : used.Pairwise fun a b => a.2.node ≠ b.2.node) {call : Call}
    (hd : s.forest.data (some id) = .call call)
    (hsegments : (s.forest.chainSegments? call.callee).isSome) :
    Returns used c (s.call rec call) (usedType used call.callee) := by
  have hlambda : ∀ x ∈ call.trailingLambda, s.forest.Inside id x := fun x hx =>
    hf.inside_of_mem_parts hd (by simp_all [NodeData.parts])
  have hargument {x : NodeId} (hx : x ∈ call.arguments.toList) :
      Composed s (s.forest.Inside id) (s.argument rec x) :=
    (argument_composed hrec hf x).mono fun _ =>
      (hf.inside_of_mem_parts hd (by simp_all [NodeData.parts])).trans
  have hrest (t : Ty) : Composed s (s.forest.Inside id) (do
      call.arguments.toList.forM (s.argument rec)
      let _ ← rec.typeOf call.trailingLambda
      return t) :=
    Composed.seq (.forM fun x hx => hargument hx) (.seq (hrec.typeOf hlambda) (.pure t))
  exact (calleeType_returns hf honce hsegments _).bind hrest fun _ =>
    .after fun _ _ => .after fun _ _ => .pure _

theorem isTest_of_isTruthOperator {operator : TokenKind} (h : isTruthOperator operator) :
    isTest operator = true ∧ operator ≠ .identifier := by
  cases operator <;> simp_all [isTruthOperator, isTest]

/-- An expression that says itself what it is has that type. -/
theorem expression_returns_plain (hf : s.forest.Linked)
    (h : SignatureSource.Plain s.forest id t) (hc : c.depth < maxDepth) :
    Returns used c (s.expression rec id) t := by
  -- What is around a plain expression may yield anything; its own type is fixed by its operator.
  cases h with
  | literal hk hliteral =>
    refine expression_returns hc ?_
    rw [hk]
    dsimp only
    rw [tokenType, hliteral]
    exact .pure t
  | negation hk hd hbang =>
    refine expression_returns_node hk hc ?_
    unfold nodeType
    rw [hd]
    dsimp only
    rw [unary, hbang]
    exact .after fun _ _ => .pure _
  | typeTest hk =>
    obtain ⟨operation, hd, hoperator⟩ := hf.exists_typeTest hk
    refine expression_returns_node hk hc ?_
    unfold nodeType
    rw [hd]
    dsimp only
    refine .after fun _ _ => .after fun target _ => ?_
    rcases hoperator with hoperator | hoperator <;> rw [hoperator] <;> exact .pure _
  | comparison hk hd htruth =>
    obtain ⟨htest, hinfix⟩ := isTest_of_isTruthOperator htruth
    refine expression_returns_node hk hc ?_
    unfold nodeType
    rw [hd]
    dsimp only
    rw [Setting.binary, if_neg hinfix, if_pos htest]
    exact .after fun _ _ => .after fun _ _ => .pure _

/-- Parentheses and signs leave the type, unless it is asserted that a value is there. -/
theorem exists_expression_returns (used : List (Place × NameUse)) {inner : NodeId}
    (h : s.forest.unwrapped? id = some inner) (t : Ty) :
    ∃ t', (t' = t ∨ s.forest.IsAssertion id ∧ t' = t.notNull) ∧
      ∀ (rec : Tasks) (c : Surroundings), c.depth < maxDepth →
        Returns used c.deeper (rec.typeOf (some inner)) t → Returns used c (s.expression rec id) t' := by
  unfold Forest.unwrapped? at h
  split at h
  -- In parentheses, the type is the one inside; behind an operator, only an assertion changes it.
  · rename_i hk hd
    refine ⟨t, .inl rfl, fun rec c hc hinner => expression_returns_node hk hc ?_⟩
    unfold nodeType
    rw [hd]
    dsimp only
    rwa [h]
  · rename_i unary hk hd
    split at h
    · cases h
    · rename_i hbang
      have hrun {t' : Ty} (ht : unary.operator = .bangBang ∧ t' = t.notNull ∨
          unary.operator ≠ .bangBang ∧ t' = t) (rec : Tasks) (c : Surroundings) (hc : c.depth < maxDepth)
          (hinner : Returns used c.deeper (rec.typeOf (some inner)) t) :
          Returns used c (s.expression rec id) t' := by
        refine expression_returns_node hk hc ?_
        unfold nodeType
        rw [hd]
        dsimp only
        rw [Setting.unary, h]
        refine hinner.bind (s := s) (P := fun _ => True) (fun _ => ?_) fun _ => ?_
        · split <;> exact .pure _
        · rcases ht with ⟨hmarks, rfl⟩ | ⟨hmarks, rfl⟩
          · rw [hmarks]
            exact .pure _
          · split
            · exact absurd ‹_› hbang
            · exact absurd ‹_› hmarks
            · exact .pure _
      by_cases hmarks : unary.operator = .bangBang
      · exact ⟨t.notNull, .inr ⟨⟨unary, hd, hmarks⟩, rfl⟩, hrun (.inl ⟨hmarks, rfl⟩)⟩
      · exact ⟨t, .inl rfl, hrun (.inr ⟨hmarks, rfl⟩)⟩
  · cases h

/-- Attribution finds a type for an expression whose type binding knows: that of what is called by it,
and else the one that binding knows; unless it is asserted that a value is there, which then is not
missing. Both read through parentheses and signs, binding as far as they go and attribution to its
nesting bound. -/
theorem exists_typeOf_returns {source : SignatureSource} (hs : source.forest = s.forest)
    (hf : s.forest.Linked) (honce : used.Pairwise fun a b => a.2.node ≠ b.2.node)
    (enclosing : List String) (ht : source.initializerType enclosing id ≠ .unknown) :
    let found := ((s.forest.calledUnder? id).map (usedType used)).getD
      (source.initializerType enclosing id)
    ∃ t, (t = found ∨ (∃ y ∈ s.forest.unwrapping id, s.forest.IsAssertion y) ∧ t = found.notNull) ∧
      ∀ n c, id < n → c.depth + (s.forest.unwrapping id).length ≤ maxDepth →
        Returns used c ((s.tasks n).typeOf (some id)) t := by
  -- What is inside an expression comes before it, and is one level deeper.
  induction id using Nat.strongRecOn with
  | ind id ih =>
    intro found
    have hlevel {n : Nat} {c : Surroundings} (hn : id < n)
        (hdepth : c.depth + (s.forest.unwrapping id).length ≤ maxDepth) :
        (∃ k, n = k + 1 ∧ id ≤ k) ∧ c.depth < maxDepth := by
      have hpos := List.length_pos_of_mem (s.forest.self_mem_unwrapping id)
      exact ⟨⟨n - 1, by omega⟩, by omega⟩
    have hcases := source.initializerType_cases (hs ▸ hf : source.forest.Linked) enclosing ht
    rw [hs] at hcases
    rcases hcases with hplain | ⟨inner, hinner, hsame⟩ | ⟨call, hk, hd, hsegments, -⟩
    · refine ⟨found, .inl rfl, fun n c hn hdepth => ?_⟩
      obtain ⟨⟨k, rfl, -⟩, hc⟩ := hlevel hn hdepth
      have hfound : found = source.initializerType enclosing id := by
        simp only [found, hplain.calledUnder?_eq_none hf, Option.map_none, Option.getD_none]
      rw [hfound]
      exact expression_returns_plain hf hplain hc
    · have hlt := hf.lt_of_mem_parts (Forest.unwrapped?_mem_parts hinner)
      obtain ⟨t, htype, hreturns⟩ := ih inner hlt (hsame ▸ ht)
      obtain ⟨t', htype', hexpression⟩ := exists_expression_returns used hinner t
      rw [← Forest.calledUnder?_eq hinner hlt, ← hsame] at htype
      have hwrapped := Forest.unwrapping_eq hinner hlt
      refine ⟨t', ?_, fun n c hn hdepth => ?_⟩
      · rw [hwrapped]
        rcases htype' with rfl | ⟨hassertion, rfl⟩
        · exact htype.imp_right fun ⟨⟨y, hy, hya⟩, h⟩ => ⟨⟨y, List.mem_cons_of_mem _ hy, hya⟩, h⟩
        · refine .inr ⟨⟨id, List.mem_cons_self, hassertion⟩, ?_⟩
          rcases htype with rfl | ⟨-, rfl⟩
          · rfl
          · exact Ty.notNull_notNull _
      · obtain ⟨⟨k, rfl, hk⟩, hc⟩ := hlevel hn hdepth
        rw [hwrapped, List.length_cons] at hdepth
        refine hexpression _ c hc (hreturns k c.deeper (lt_of_lt_of_le hlt hk) ?_)
        change c.depth + 1 + _ ≤ _
        omega
    · refine ⟨found, .inl rfl, fun n c hn hdepth => ?_⟩
      obtain ⟨⟨k, rfl, -⟩, hc⟩ := hlevel hn hdepth
      have hfound : found = usedType used call.callee := by
        simp only [found, Forest.calledUnder?_of_call hk hd, Option.map_some, Option.getD_some]
      rw [hfound]
      refine expression_returns_node hk hc ?_
      unfold nodeType
      rw [hd]
      exact call_returns (tasks_composed hf k) hf honce hd hsegments

end Setting

end Attribution

end KotlinTree
