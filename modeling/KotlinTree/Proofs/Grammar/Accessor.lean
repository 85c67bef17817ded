import KotlinTree.Proofs.Grammar.TypeTaking
import KotlinTree.Proofs.Grammar.Unit

/-!
What the parse of an accessor takes for its word. Main statement: where the look-ahead sees an accessor whose
modifiers and annotations are plain, the word of the accessor is `get` or `set`.
-/

namespace KotlinTree.Grammar

/-- The words of accessors. -/
def isAccessorWord (k : TokenKind) : Bool := k = .getKeyword || k = .setKeyword

/-- In front of the word of an accessor, no annotation is named by a word of accessors, and each modifier,
which may be an identifier, is on the line of what comes after it unless that is an annotation. -/
def isPlainFront : List Token → Bool
  | [] => true
  | token :: ahead =>
    if token.kind = .atSign then
      match ahead with
      | name :: after =>
        if name.kind = .atSign then isPlainFront (name :: after)
        else (name.kind = .identifier || name.kind.isModifier) && isPlainFront after
      | [] => false
    else if token.kind.isModifier || token.kind = .identifier then
      (token.kind.isModifier || isIdentifierModifier token) &&
        ahead.head?.any (fun next => next.kind = .atSign || !next.startsLine) && isPlainFront ahead
    else true

/-- An accessor comes next, or one comes after an identifier. -/
def IsAccessorNear (ts : List Token) : Prop :=
  isAccessorAhead ts = true ∨ ∃ t us, ts = t :: us ∧ t.kind = .identifier ∧ isAccessorAhead us = true

section
variable {rec : Productions} {s s' : State} {t u : Token} {ts : List Token} {d : Nat} {id : NodeId}

/-- The look-ahead stops at the word of an accessor, and goes on past modifiers and annotations only. -/
theorem accessorAhead_cases (h : isAccessorAhead (t :: ts) = true) :
    isAccessorWord t.kind = true ∨ (t.kind.isModifier = true ∨ t.kind = .atSign) ∧ IsAccessorNear ts := by
  rw [isAccessorAhead.eq_def] at h
  dsimp only at h
  split_ifs at h with hfront
  · right
    refine ⟨by simpa using hfront, ?_⟩
    split at h
    · rename_i next after
      split_ifs at h with hname
      · exact .inr ⟨next, after, rfl, hname, h⟩
      · exact .inl h
    · cases h
  · left
    exact (Bool.and_eq_true_iff.mp h).1

theorem IsAccessorNear.ne_nil (h : IsAccessorNear ts) : ts ≠ [] := by
  rintro rfl
  obtain h | ⟨t, us, h, -⟩ := h <;> cases h

theorem IsAccessorNear.tail (h : IsAccessorNear (t :: ts)) (ht : t.kind ≠ .atSign) :
    isAccessorWord t.kind = true ∨ (t.kind.isModifier = true ∨ t.kind = .identifier) ∧ IsAccessorNear ts := by
  obtain h | ⟨_, _, hsplit, hk, h⟩ := h
  · exact (accessorAhead_cases h).imp_right fun ⟨hfront, hnear⟩ => ⟨.inl (hfront.resolve_right ht), hnear⟩
  · obtain ⟨rfl, rfl⟩ := List.cons.inj hsplit
    exact .inr ⟨.inr hk, .inl h⟩

theorem isModifierAhead_word (h : isAccessorWord t.kind = true) : isModifierAhead (t :: ts) = false := by
  simp only [isAccessorWord, Bool.or_eq_true, decide_eq_true_iff] at h
  rw [isModifierAhead.eq_def]
  obtain hk | hk := h <;> simp [isIdentifierModifier, TokenKind.isModifier, hk]

/-- A modifier is a name, but not the word of an accessor. -/
theorem isName_of_isModifier {k : TokenKind} (h : k.isModifier = true) :
    k.isName = true ∧ isAccessorWord k = false := by
  cases k <;> first | exact ⟨rfl, rfl⟩ | cases h

/-- What the look-ahead for an accessor starts with goes on after a modifier. -/
theorem followsModifier_of_accessorAhead (h : isAccessorAhead (t :: ts) = true) :
    followsModifier t.kind = true := by
  obtain hword | ⟨hmodifier | hsign, -⟩ := accessorAhead_cases h
  · simp only [isAccessorWord, Bool.or_eq_true, decide_eq_true_iff] at hword
    obtain hk | hk := hword <;> rw [hk] <;> rfl
  · rw [followsModifier, hmodifier, Bool.true_or]
  · rw [hsign]
    rfl

/-- An annotation does not go on there. -/
theorem ne_of_followsModifier {k : TokenKind} (h : followsModifier k = true) :
    k ≠ .dot ∧ k ≠ .colon ∧ k ≠ .openParen := by
  refine ⟨?_, ?_, ?_⟩ <;> (rintro rfl; cases h)

/-- A plain modifier in front of an accessor is one for the parse. -/
theorem isModifierAhead_of_plain (ht : t.kind.isModifier = true ∨ t.kind = .identifier)
    (hplain : isPlainFront (t :: ts) = true) (hnear : IsAccessorNear ts) :
    isModifierAhead (t :: ts) = true ∧ isPlainFront ts = true := by
  have hsign : t.kind ≠ .atSign := by
    rintro hk
    rw [hk] at ht
    obtain ht | ht := ht <;> cases ht
  rw [isPlainFront.eq_def] at hplain
  dsimp only at hplain
  rw [if_neg hsign, if_pos (by simpa using ht)] at hplain
  simp only [Bool.and_eq_true] at hplain
  obtain ⟨⟨hmodifier, hline⟩, hrest⟩ := hplain
  refine ⟨?_, hrest⟩
  obtain ⟨next, after, rfl⟩ := List.exists_cons_of_ne_nil hnear.ne_nil
  rw [isModifierAhead, if_pos hmodifier]
  have hline : ¬ (next.startsLine && next.kind ≠ .atSign) = true := by
    simp only [List.head?_cons, Option.any_some, Bool.or_eq_true, decide_eq_true_iff] at hline
    grind
  rw [if_neg hline]
  obtain h | ⟨_, _, hsplit, hk, -⟩ := hnear
  · rw [followsModifier_of_accessorAhead h, Bool.true_or, Bool.true_or]
  · -- An identifier is passed as a modifier itself.
    obtain ⟨rfl, rfl⟩ := List.cons.inj hsplit
    have hword : isIdentifierModifier next = true := by
      rw [isPlainFront.eq_def] at hrest
      dsimp only at hrest
      rw [if_neg (by simp [hk]), if_pos (by simp [hk])] at hrest
      simp only [Bool.and_eq_true, Bool.or_eq_true] at hrest
      refine hrest.1.1.resolve_left fun hmod => ?_
      rw [hk] at hmod
      cases hmod
    rw [hword, Bool.or_true, Bool.true_or]

/-- What the look-ahead for an accessor goes on with ends an annotation. -/
theorem IsAccessorNear.endsAnnotationUse (h : IsAccessorNear (t :: ts)) :
    t.kind ≠ .dot ∧ EndsAnnotationUse t := by
  obtain h | ⟨_, _, hsplit, hk, -⟩ := h
  · obtain ⟨hdot, hcolon, hparen⟩ := ne_of_followsModifier (followsModifier_of_accessorAhead h)
    exact ⟨hdot, fun _ => ⟨hcolon, hparen⟩⟩
  · obtain ⟨rfl, rfl⟩ := List.cons.inj hsplit
    simp [EndsAnnotationUse, hk]

/-- A plain annotation in front of an accessor is a sign and a name, or a sign alone before another one. -/
theorem annotation_of_plain (ht : t.kind = .atSign) (hnear : IsAccessorNear (t :: ts))
    (hplain : isPlainFront (t :: ts) = true) :
    ∃ named next after, ts = named ++ next :: after ∧ AnnotationName next named ∧
      IsAccessorNear (next :: after) ∧ isPlainFront (next :: after) = true := by
  have h : isAccessorAhead (t :: ts) = true := by
    obtain h | ⟨_, _, hsplit, hk, -⟩ := hnear
    · exact h
    · rw [← (List.cons.inj hsplit).1, ht] at hk
      cases hk
  rw [isPlainFront.eq_def] at hplain
  dsimp only at hplain
  rw [if_pos ht] at hplain
  rw [isAccessorAhead.eq_def] at h
  dsimp only at h
  rw [if_pos (by simp [ht])] at h
  -- After the sign, the accessor is still near: the name is no accessor's word, or a word behind it
  -- is.
  split at hplain
  · rename_i name after
    dsimp only at h
    split_ifs at hplain with hsign
    · rw [if_neg (by simp [hsign])] at h
      exact ⟨[], name, after, rfl, .none (by rw [hsign]; rfl), .inl h, hplain⟩
    · obtain ⟨hname, hplain⟩ := Bool.and_eq_true_iff.mp hplain
      obtain ⟨hnamed, hnear⟩ : name.kind.isName = true ∧ IsAccessorNear after := by
        split_ifs at h with hk
        · exact ⟨by rw [hk]; rfl, .inl h⟩
        · have hmodifier : name.kind.isModifier = true := by simpa [hk] using hname
          obtain ⟨hnamed, hword⟩ := isName_of_isModifier hmodifier
          exact ⟨hnamed, ((accessorAhead_cases h).resolve_left (by simp [hword])).2⟩
      obtain ⟨next, after, rfl⟩ := List.exists_cons_of_ne_nil hnear.ne_nil
      exact ⟨[name], next, after, rfl, .dotted hnamed .nil hnear.endsAnnotationUse.1, hnear, hplain⟩
  · cases hplain

/-- One modifier or annotation in front of an accessor is taken. The word of an accessor is none of them. -/
theorem modifierStep_accessor {x : Array NodeId × List Modifier}
    {r : Step (Array NodeId × List Modifier)} (hnear : IsAccessorNear s.tokens)
    (hplain : isPlainFront s.tokens = true) (hr : Runs (modifierStep rec x) s r s') :
    r.Leaves (fun _ => (IsAccessorNear s'.tokens ∧ isPlainFront s'.tokens = true) ∧
      s'.ahead.length < s.ahead.length) fun _ => isAccessorWord s'.current.kind = true := by
  obtain ⟨list, found⟩ := x
  have hs : s.At (s.current :: s.ahead) s.depth := ⟨rfl, rfl⟩
  rw [State.tokens] at hnear hplain
  -- A modifier step takes an annotation or a modifier, and each takes a token at least.
  obtain ⟨hsign, hr⟩ | ⟨hsign, hr⟩ := runs_ite.mp (runs_bind_isAt.mp hr)
  · obtain ⟨use, s₁, ha, hr⟩ := runs_bind.mp hr
    obtain ⟨rfl, rfl⟩ := runs_pure.mp hr
    obtain ⟨named, next, after, hahead, hnamed, hnear, hplain⟩ :=
      annotation_of_plain (of_decide_eq_true hsign) hnear hplain
    rw [hahead] at hs
    have hleft := annotationUse_takes hnamed hnear.endsAnnotationUse.2 hs ha
    refine ⟨⟨hleft.tokens ▸ hnear, hleft.tokens ▸ hplain⟩, ?_⟩
    rw [hleft.ahead, hahead, List.length_append, List.length_cons]
    omega
  · have hsign : s.current.kind ≠ .atSign := fun hk => hsign (decide_eq_true hk)
    -- At the accessor's own word, no modifier is read; before it, one is.
    obtain hword | ⟨hkind, hnear⟩ := hnear.tail hsign
    · obtain ⟨hmodifier, -⟩ | ⟨-, hr⟩ := runs_ite.mp (runs_bind_isAtModifier.mp hr)
      · rw [State.tokens, isModifierAhead_word hword] at hmodifier
        cases hmodifier
      · obtain ⟨rfl, rfl⟩ := runs_pure.mp hr
        exact hword
    · obtain ⟨hmodifier, hplain⟩ := isModifierAhead_of_plain hkind hplain hnear
      obtain ⟨-, hr⟩ | ⟨hnot, -⟩ := runs_ite.mp (runs_bind_isAtModifier.mp hr)
      · obtain ⟨word, s₁, hb, hr⟩ := runs_bind.mp (runs_bind_get.mp hr)
        obtain ⟨rfl, rfl⟩ := runs_pure.mp hr
        have hleft := hs.bump hnear.ne_nil hb
        exact ⟨⟨hleft.tokens ▸ hnear, hleft.tokens ▸ hplain⟩, (congrArg List.length hleft.tokens).le⟩
      · exact absurd hmodifier hnot

/-- The modifiers and annotations of an accessor end at its word. -/
theorem modifiers_word {cs : Array NodeId} {found : Array NodeId × List Modifier}
    (hahead : isAccessorAhead s.tokens = true) (hplain : isPlainFront s.tokens = true)
    (h : Runs (modifiers rec cs) s found s') : isAccessorWord s'.current.kind = true := by
  obtain ⟨x, s₁, hl, htokens, -⟩ := modifiers_repeating h
  rw [(List.cons.inj htokens).1]
  exact runs_repeating_done
    (I := fun t (_ : Array NodeId × List Modifier) => IsAccessorNear t.tokens ∧ isPlainFront t.tokens = true)
    (Q := fun t _ => isAccessorWord t.current.kind = true)
    (fun _ _ _ _ hi hr => modifierStep_accessor hi.1 hi.2 hr) ⟨.inl hahead, hplain⟩ hl

/-- An accessor is named by the token after its modifiers. -/
theorem accessor_name (hr : rec.Sound) (h : Runs (accessor rec) s id s') :
    ∃ found s₁, Runs (modifiers rec #[]) s found s₁ ∧
      s'.forest.kind? (some id) = some (.node .propertyAccessor) ∧
      ∃ d name, s'.forest.data (some id) = .function d ∧ d.name = some name ∧
        s'.forest.kind? (some name) = some (.token s₁.current.kind) := by
  obtain ⟨⟨children, found⟩, s₁, hm, h⟩ := runs_bind.mp (runs_bind_place.mp h)
  obtain ⟨word, s₂, hb, h⟩ := runs_bind.mp h
  have h := runs_bind_startsLine.mp (runs_bind_isAt.mp h)
  extract_lets afterParameters at h
  -- The word is made first, and nothing that follows changes its kind.
  obtain ⟨listed, parameters, s₃, hp, h⟩ : ∃ listed parameters s₃,
      (∀ k, s₂.forest.kind? (some word) = some k → s₃.forest.kind? (some word) = some k) ∧
        Runs (afterParameters (listed, parameters)) s₃ id s' := by
    obtain ⟨-, h⟩ | ⟨-, h⟩ := runs_ite.mp h
    · obtain ⟨⟨listed, parameters⟩, t, hp, h⟩ := runs_bind.mp h
      exact ⟨_, _, _, fun _ => (parameterList_adds hr hp).appends.kind?, h⟩
    · exact ⟨_, #[], s₂, fun _ hk => hk, h⟩
  obtain ⟨⟨typed, returnType⟩, s₄, hret, h⟩ := runs_bind.mp h
  obtain ⟨⟨children, body, isExpression⟩, s₅, hbody, h⟩ := runs_bind.mp h
  obtain ⟨hret, -⟩ := typeAscription_adds hr hret
  have hkind := (functionBody_adds hr hbody).appends.kind?
    (hret.appends.kind? (hp _ (bump_kind? hb)))
  obtain ⟨rfl, rfl⟩ := runs_node.mp h
  obtain ⟨n, hn, hk⟩ := Forest.exists_of_kind? hkind
  refine ⟨_, s₁, hm, Forest.kind?_addNode .., _, word, Forest.data_addNode .., rfl, ?_⟩
  exact (Forest.kind?_of_getElem? (Forest.getElem?_addNode_of_lt hn ..)).trans
    (congrArg some ((Forest.adopt_kind ..).trans hk))

/-- Where an accessor is ahead and what is in front of its word is plain, its node is named by a leaf with
this word. -/
theorem accessor_word {m : Nat} (hahead : isAccessorAhead s.tokens = true)
    (hplain : isPlainFront s.tokens = true) (h : Runs (accessor (productions m)) s id s') :
    s'.forest.kind? (some id) = some (.node .propertyAccessor) ∧
      ∃ d name k, s'.forest.data (some id) = .function d ∧ d.name = some name ∧
        s'.forest.kind? (some name) = some (.token k) ∧ isAccessorWord k = true := by
  obtain ⟨found, s₁, hm, hkind, d, name, hdata, hname, hword⟩ := accessor_name (productions_sound m) h
  exact ⟨hkind, d, name, _, hdata, hname, hword, modifiers_word hahead hplain hm⟩

end

/-- A setter with an annotation and two modifiers. -/
def annotatedSetter : State := .ofSource "a.kt" "@A private inline set"

theorem accessor_word_annotatedSetter :
    let run := Id.run ((accessor (productions 2)).run annotatedSetter)
    ∃ d name k, run.2.forest.data (some run.1) = .function d ∧ d.name = some name ∧
      run.2.forest.kind? (some name) = some (.token k) ∧ isAccessorWord k = true :=
  (accessor_word (by decide +kernel) (by decide +kernel)
    (runs_self (accessor (productions 2)) annotatedSetter)).2

end KotlinTree.Grammar
