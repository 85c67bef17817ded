import KotlinTree.Proofs.Grammar.Unit

/-!
A production that yields no node has taken no token and changed nothing, so that another one can be tried
at the same place. Main statement: this holds of declarations, statements, expressions, parameters and
names; of types, and so of supertypes, it holds unless there is the sign of an annotation
(`unchanged_of_none`).

Annotations are read before it is known whether a type follows them. If none does, they stay taken.
-/

namespace KotlinTree.Grammar

/-- A type starts here. -/
def State.startsType (s : State) : Bool :=
  s.current.kind = .openParen || s.current.kind.isName

/-- What is left where no type is: the state as it was, or the one after the annotations that were to belong
to a type. -/
inductive GivesUp (rec : Productions) (s : State) : State → Prop
  | here (sign : s.current.kind ≠ .atSign) (untyped : s.startsType = false) : GivesUp rec s s
  | annotated {list : Array NodeId} {found : List Modifier} {t : State}
      (sign : s.current.kind = .atSign)
      (taken : Runs (modifiers rec #[]) { s with depth := s.depth + 1 } (list, found) t)
      (untyped : t.startsType = false) : GivesUp rec s { t with depth := t.depth - 1 }

section
variable {rec : Productions} {source : String} {s₀ s s' : State} {limit : Option Nat} {start : Nat}
  {cs star : Array NodeId}

theorem not_runs_finishType_none {name : Option NodeId} {typeArguments : Array NodeId} :
    ¬ Runs (finishType start cs name typeArguments) s none s' := by
  intro h
  unfold finishType at h
  obtain ⟨⟨children, isNullable⟩, s₁, -, h⟩ := runs_bind.mp h
  obtain ⟨id, s₂, -, h⟩ := runs_bind.mp h
  cases (runs_pure.mp h).1

/-- After its annotations, a type that is not there takes nothing: the word in front of a function type is
taken only if a parenthesis follows it. -/
theorem typeAfterAnnotations_none (hr : rec.Sound) (ha : Appends s₀ #[] [] s cs)
    (h : Runs (typeAfterAnnotations rec limit start cs) s none s') :
    s' = s ∧ s.startsType = false := by
  unfold typeAfterAnnotations at h
  have h := runs_bind_peek.mp (runs_bind_isAtText.mp h)
  extract_lets afterSuspend at h
  -- A parenthesis always yields a type, so none of its ways leads to nothing.
  have parenthesis {children : Array NodeId} {t : State} (hparen : t.current.kind = .openParen) :
      ¬ Runs (afterSuspend children) t none s' := by
    intro h
    obtain ⟨-, h⟩ | ⟨hno, -⟩ := runs_ite.mp (runs_bind_isAt.mp h)
    · obtain ⟨rest, s₂, -, h⟩ := runs_bind.mp h
      exact not_runs_finishType_none h
    · exact hno (decide_eq_true hparen)
  obtain ⟨hsuspend, h⟩ | ⟨-, h⟩ := runs_ite.mp h
  · obtain ⟨word, t, hb, h⟩ := runs_bind.mp h
    simp only [Bool.and_eq_true, decide_eq_true_iff] at hsuspend
    exact absurd h (parenthesis ((bump_kind hb).trans hsuspend.2))
  · have h : Runs (afterSuspend cs) s none s' := h
    by_cases hparen : s.current.kind = .openParen
    · exact absurd h (parenthesis hparen)
    · obtain ⟨hparen', -⟩ | ⟨-, h⟩ := runs_ite.mp (runs_bind_isAt.mp h)
      · exact absurd (of_decide_eq_true hparen') hparen
      · obtain ⟨hname, h⟩ | ⟨hname, h⟩ := runs_ite.mp (runs_bind_isAtName.mp h)
        · obtain ⟨id, hid, -⟩ := namedType_makes hr ha hname h
          cases hid
        · obtain ⟨-, rfl⟩ := runs_pure.mp h
          refine ⟨rfl, ?_⟩
          rw [State.startsType, Bool.or_eq_false_iff]
          exact ⟨decide_eq_false hparen, Bool.eq_false_iff.mpr hname⟩

theorem typeReference_none (hr : rec.Sound) (h : Runs (typeReference rec limit) s none s') :
    GivesUp rec s s' := by
  unfold typeReference at h
  obtain ⟨id, hid, -⟩ | ⟨-, t, hdeeper, rfl⟩ := runs_nested (runs_bind_place.mp h)
  · cases hid
  · have h := runs_bind_isAt.mp hdeeper
    extract_lets afterAnnotations at h
    obtain ⟨hsign, h⟩ | ⟨hsign, h⟩ := runs_ite.mp h
    · obtain ⟨⟨annotations, found⟩, s₁, hm, h⟩ := runs_bind.mp h
      obtain ⟨list, rfl, hlist⟩ := modifiers_yields hr hm
      have ha := ((Appends.refl _ #[]).add hlist.ifAny).mono (List.nil_subset _)
      obtain ⟨rfl, huntyped⟩ := typeAfterAnnotations_none hr ha h
      exact .annotated (of_decide_eq_true hsign) hm huntyped
    · obtain ⟨rfl, huntyped⟩ := typeAfterAnnotations_none hr (Appends.refl _ #[]) h
      exact .here (fun h => hsign (decide_eq_true h)) huntyped

theorem supertypeEntry_none (h : Runs (supertypeEntry rec) s none s') :
    Runs (rec (.typeReference none)) s none s' := by
  unfold supertypeEntry at h
  obtain ⟨found, s₁, ht, h⟩ := runs_bind.mp (runs_bind_place.mp h)
  cases found with
  | none =>
    obtain ⟨-, rfl⟩ := runs_pure.mp h
    exact ht
  | some type =>
    obtain ⟨⟨children, arguments⟩, s₂, -, h⟩ := runs_bind.mp h
    obtain ⟨children', s₃, -, h⟩ := runs_bind.mp h
    obtain ⟨entry, s₄, -, h⟩ := runs_bind.mp h
    cases (runs_pure.mp h).1

/-- The sign of an annotation, and nothing else, makes a difference: it is taken for good. -/
theorem GivesUp.eq_iff (hr : rec.Sound) (h : GivesUp rec s s') (hs : Ahead source s.tokens) :
    s' = s ↔ s.current.kind ≠ .atSign := by
  cases h with
  | here sign untyped => exact iff_of_true rfl sign
  | @annotated list found t sign taken untyped =>
    refine iff_of_false ?_ (fun hne => hne sign)
    intro heq
    have hend : s.current.isEnd = false := by
      rw [Token.isEnd, sign]
      rfl
    obtain ⟨q, -, -, hb⟩ | ⟨-, -, hsign, -⟩ := modifiers_cases hr taken
    · obtain ⟨-, hnil⟩ | hlt := hb.progress hs hend
      · cases hnil
      · have hlength : t.ahead.length = s.ahead.length := congrArg (·.ahead.length) heq
        dsimp only at hlt
        omega
    · exact hsign sign

theorem nameChain_none {allowStar : Bool}
    (h : Runs (nameChain limit allowStar) s (none, star) s') : s' = s := by
  unfold nameChain at h
  obtain ⟨first, s₁, hfirst, h⟩ := runs_bind.mp (runs_bind_place.mp h)
  cases first with
  | none =>
    obtain ⟨-, rfl⟩ := runs_pure.mp h
    exact (bumpName_yields hfirst).eq_of_none
  | some first =>
    obtain ⟨⟨left, names, star'⟩, s₂, -, h⟩ := runs_bind.mp h
    cases (runs_pure.mp h).1

end

/-- What yields no node leaves the state as it was, with the same tokens, nodes and messages. A type, or a
supertype, that yields none leaves it so unless it is at the sign of an annotation: then it is left after the
annotations that no type follows. -/
theorem unchanged_of_none (n : Nat) (s s' : State) :
    (Runs (declaration (productions n)) s none s' → s' = s) ∧
    (Runs (statement (productions n)) s none s' → s' = s) ∧
    (Runs (expression (productions n)) s none s' → s' = s) ∧
    (Runs (parameter (productions n)) s none s' → s' = s) ∧
    (∀ limit allowStar star, Runs (nameChain limit allowStar) s (none, star) s' → s' = s) ∧
    (∀ limit, Runs (typeReference (productions n) limit) s none s' →
      GivesUp (productions n) s s' ∧
        ∀ source, Ahead source s.tokens → (s' = s ↔ s.current.kind ≠ .atSign)) ∧
    (Runs (supertypeEntry (productions (n + 1))) s none s' →
      GivesUp (productions n) s s' ∧
        ∀ source, Ahead source s.tokens → (s' = s ↔ s.current.kind ≠ .atSign)) := by
  have hr : (productions n).Sound := productions_sound n
  -- A type that is missing may have lost its annotations; everything else is left untouched.
  have type (limit : Option Nat) (h : Runs (typeReference (productions n) limit) s none s') :
      GivesUp (productions n) s s' ∧
        ∀ source, Ahead source s.tokens → (s' = s ↔ s.current.kind ≠ .atSign) := by
    have hgives := typeReference_none hr h
    exact ⟨hgives, fun _ hs => hgives.eq_iff hr hs⟩
  refine ⟨?_, ?_, ?_, ?_, ?_, type, ?_⟩
  · intro h
    exact (declaration_yields hr h).eq_of_none
  · intro h
    exact (statement_yields hr h).eq_of_none
  · intro h
    exact (expression_yields hr h).eq_of_none
  · intro h
    exact (parameter_yields hr h).eq_of_none
  · intro limit allowStar star h
    exact nameChain_none h
  · intro h
    exact type none (supertypeEntry_none h)

end KotlinTree.Grammar
