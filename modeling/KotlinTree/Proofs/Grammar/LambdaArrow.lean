import KotlinTree.Proofs.Grammar.TypeTaking
import KotlinTree.Proofs.Grammar.TypeTokens
import KotlinTree.Proofs.Grammar.Unit

/-!
The arrow after the parameters of a lambda. The look-ahead finds the first arrow, if any. Main statement:
when the parameters are names, perhaps with types, their parse stops at the arrow after them, whichever
arrow the look-ahead has found.
-/

namespace KotlinTree.Grammar

/-- The tokens from the arrow on at which the look-ahead says that there are parameters. -/
def arrowAhead? : Nat → List Token → Option (List Token)
  | _, [] => none
  | depth, token :: ahead =>
    if token.kind = .arrow then if depth = 0 then some (token :: ahead) else none
    else if token.kind = .openParen || token.kind = .less then arrowAhead? (depth + 1) ahead
    else if token.kind = .closeParen || token.kind = .greater then
      if depth = 0 then none else arrowAhead? (depth - 1) ahead
    else if isInLambdaParameters token.kind then arrowAhead? depth ahead
    else none

theorem lambdaParametersAhead_eq_isSome (depth : Nat) (ts : List Token) :
    lambdaParametersAhead depth ts = (arrowAhead? depth ts).isSome := by
  fun_induction arrowAhead? depth ts <;> simp_all [lambdaParametersAhead]

/-- What the look-ahead finds is the first arrow. -/
theorem arrowAhead?_of_first {depth : Nat} {ts rest : List Token} {arrow : Token}
    (hahead : lambdaParametersAhead depth (ts ++ arrow :: rest) = true)
    (hfree : ∀ t ∈ ts, t.kind ≠ .arrow) (harrow : arrow.kind = .arrow) :
    arrowAhead? depth (ts ++ arrow :: rest) = some (arrow :: rest) := by
  rw [lambdaParametersAhead_eq_isSome] at hahead
  induction ts generalizing depth with
  | nil =>
    rw [List.nil_append, arrowAhead?, if_pos harrow] at hahead ⊢
    by_cases hdepth : depth = 0
    · rw [if_pos hdepth]
    · rw [if_neg hdepth] at hahead
      cases hahead
  | cons t ts ih =>
    obtain ⟨ht, hfree⟩ := List.forall_mem_cons.mp hfree
    rw [List.cons_append, arrowAhead?, if_neg ht] at hahead ⊢
    -- Whatever the token is, the look-ahead either goes on, at some depth, or has given up.
    split_ifs at hahead ⊢ <;> first | exact ih hahead hfree | cases hahead

/-- A type after a colon, or nothing. -/
inductive AnnotationTokens (type : List Token → Prop) : List Token → Prop
  | none : AnnotationTokens type []
  | type {colon : Token} {ts : List Token} (hcolon : colon.kind = .colon) (hts : type ts) :
    AnnotationTokens type (colon :: ts)

/-- A parameter of a lambda: a name, perhaps with a type. -/
inductive ParameterTokens (type : List Token → Prop) : List Token → Prop
  | mk {name : Token} {ts : List Token} (hname : name.kind.isName = true)
    (hts : AnnotationTokens type ts) : ParameterTokens type (name :: ts)

section
variable {rec : Productions} {type : List Token → Prop} {s s' : State} {t u arrow next : Token}
  {ts rest : List Token} {d n m : Nat} {o : Option NodeId} {id : NodeId}

/-- A word before a comma, a colon or an arrow is no modifier. -/
theorem isModifierAhead_before (hu : u.kind = .comma ∨ u.kind = .colon ∨ u.kind = .arrow) :
    isModifierAhead (t :: u :: rest) = false := by
  unfold isModifierAhead
  rcases hu with hu | hu | hu <;>
    simp [hu, isIdentifierModifier, followsModifier, TokenKind.isModifier]

/-- No modifiers are made where none start. -/
theorem modifiers_none {cs children : Array NodeId} {found : List Modifier}
    (hsign : s.current.kind ≠ .atSign) (hword : isModifierAhead s.tokens = false)
    (h : Runs (modifiers rec cs) s (children, found) s') : children = cs ∧ s' = s := by
  obtain ⟨⟨list, found'⟩, s₁, hl, h⟩ := runs_bind.mp (runs_bind_place.mp h)
  obtain ⟨r, t, hstep, hrest⟩ := runs_repeating_first hl
  obtain ⟨hat, -⟩ | ⟨-, hstep⟩ := runs_ite.mp (runs_bind_isAt.mp hstep)
  · exact absurd (of_decide_eq_true hat) hsign
  · obtain ⟨hat, -⟩ | ⟨-, hstep⟩ := runs_ite.mp (runs_bind_isAtModifier.mp hstep)
    · exact absurd (hword.symm.trans hat) (by decide)
    · obtain ⟨rfl, rfl⟩ := runs_pure.mp hstep
      obtain ⟨hv, rfl⟩ := hrest
      cases hv
      obtain ⟨hv, rfl⟩ := runs_pure.mp h
      cases hv
      exact ⟨rfl, rfl⟩

/-- A type is taken if there is one, up to the comma or the arrow that comes next. -/
theorem typeAscription_takes (hrec : TakesTypes rec type d) {cs : Array NodeId}
    {found : Array NodeId × Option NodeId} (hts : AnnotationTokens type ts)
    (hu : u.kind = .comma ∨ u.kind = .arrow) (hs : s.At (ts ++ u :: rest) d)
    (h : Runs (typeAscription rec cs) s found s') : s'.At (u :: rest) d := by
  cases hts with
  | none =>
    obtain ⟨hat, -⟩ | ⟨-, h⟩ := runs_ite.mp (runs_bind_isAt.mp h)
    · have hcolon : u.kind = .colon := hs.current ▸ of_decide_eq_true hat
      simp [hcolon] at hu
    · obtain ⟨-, rfl⟩ := runs_pure.mp h
      exact hs
  | type hcolon hts =>
    obtain ⟨-, h⟩ | ⟨hnot, -⟩ := runs_ite.mp (runs_bind_isAt.mp h)
    · obtain ⟨_, s₁, hb, h⟩ := runs_bind.mp h
      obtain ⟨_, s₂, ht, h⟩ := runs_bind.mp h
      obtain ⟨-, rfl⟩ := runs_pure.mp h
      have hends : endsType u.kind = true := by rcases hu with hu | hu <;> (rw [hu]; rfl)
      exact (hrec hts hends (hs.bump (by simp) hb) ht).2
    · exact absurd (decide_eq_true (hs.current ▸ hcolon)) hnot

theorem assignedValue_none {cs : Array NodeId} {found : Array NodeId × Option NodeId}
    (hne : s.current.kind ≠ .equals) (h : Runs (assignedValue rec cs) s found s') : s' = s := by
  obtain ⟨hat, -⟩ | ⟨-, h⟩ := runs_ite.mp (runs_bind_isAt.mp h)
  · exact absurd (of_decide_eq_true hat) hne
  · exact (runs_pure.mp h).2.symm

/-- A parameter is taken up to the comma or the arrow after it. -/
theorem parameter_takes (hrec : TakesTypes rec type d) (hts : ParameterTokens type ts)
    (hu : u.kind = .comma ∨ u.kind = .arrow) (hs : s.At (ts ++ u :: rest) d)
    (h : Runs (parameter rec) s o s') : (∃ id, o = some id) ∧ s'.At (u :: rest) d := by
  obtain ⟨hname, htail⟩ := hts
  -- A comma, a colon or the arrow comes after the name, so the name is no modifier.
  have hword : isModifierAhead s.tokens = false := by
    rw [hs.tokens]
    cases htail with
    | none => exact isModifierAhead_before (hu.imp_right .inr)
    | type hcolon _ => exact isModifierAhead_before (.inr (.inl hcolon))
  have hcurrent : s.current.kind.isName = true := hs.current ▸ hname
  have hkinds : s.current.kind ≠ .atSign ∧ s.current.kind ≠ .varKeyword ∧
      s.current.kind ≠ .valKeyword := by
    refine ⟨?_, ?_, ?_⟩ <;> (intro hk; rw [hk] at hcurrent; cases hcurrent)
  obtain ⟨⟨children, found⟩, s₁, hm, h⟩ := runs_bind.mp (runs_bind_place.mp h)
  obtain ⟨rfl, rfl⟩ := modifiers_none hkinds.1 hword hm
  obtain ⟨hbinding, -⟩ | ⟨-, h⟩ := runs_ite.mp (runs_bind_isAt.mp (runs_bind_isAt.mp h))
  · simp [hkinds] at hbinding
  · obtain ⟨keyword, s₁, hk, h⟩ := runs_bind.mp h
    obtain ⟨rfl, rfl⟩ := runs_pure.mp hk
    obtain ⟨found', s₁, hn, h⟩ := runs_bind.mp h
    obtain ⟨⟨id, rfl⟩, hnamed⟩ := hs.bumpName (by simp) hname hn
    obtain ⟨hnone, -⟩ | ⟨-, h⟩ := runs_ite.mp h
    · cases hnone
    · obtain ⟨_, s₂, ht, h⟩ := runs_bind.mp h
      obtain ⟨_, s₃, hv, h⟩ := runs_bind.mp h
      obtain ⟨made, s₄, hn, h⟩ := runs_bind.mp h
      obtain ⟨rfl, rfl⟩ := runs_pure.mp h
      have htyped := typeAscription_takes hrec htail hu hnamed ht
      have hvalue : s₂.current.kind ≠ .equals := by
        rw [htyped.current]
        rcases hu with hu | hu <;> simp [hu]
      obtain rfl := assignedValue_none hvalue hv
      exact ⟨⟨made, rfl⟩, htyped.node hn⟩

theorem lambdaParameterStep_takes (hrec : TakesTypes rec type d) (hu : u.kind = .arrow) :
    TakesEntries (lambdaParameterStep rec) (ParameterTokens type) u rest d where
  ends := by
    rintro s ⟨children, parameters⟩ r s' hs hr
    have hr := runs_bind_kind.mp hr
    rw [hs.current, hu] at hr
    obtain ⟨rfl, rfl⟩ := runs_pure.mp hr
    exact ⟨⟨_, rfl⟩, rfl⟩
  commas := by
    rintro t ts s ⟨children, parameters⟩ r s' ht hne hs hr
    have hr := runs_bind_kind.mp hr
    rw [hs.current, ht] at hr
    exact hs.more hne hr
  entries := by
    -- An entry begins with a name, so it is neither of the tokens that end or part the entries.
    rintro e t ts s ⟨children, parameters⟩ r s' he ht hs hr
    have hr := runs_bind_kind.mp hr
    have hname : e ≠ [] ∧ s.current.kind.isName = true := by
      obtain ⟨hname, -⟩ := he
      exact ⟨List.cons_ne_nil _ _, hs.current ▸ hname⟩
    split at hr
    iterate 3
      · rename_i hkind
        rw [hkind] at hname
        cases hname.2
    · obtain ⟨found, s₁, hp, hr⟩ := runs_bind.mp hr
      have hafter : t.kind = .comma ∨ t.kind = .arrow := ht.imp_right fun heq => by rw [heq, hu]
      obtain ⟨⟨id, rfl⟩, hleft⟩ := parameter_takes hrec he hafter hs hp
      obtain ⟨rfl, rfl⟩ := runs_pure.mp hr
      exact ⟨hname.1, ⟨_, rfl⟩, hleft⟩

/-- Where the parse of the parameters of a lambda ends, from its opening brace on. -/
def parametersEnd (rec : Productions) (s : State) : State :=
  let (opened, s₁) := Id.run (bump.run s)
  let parameters := repeating (lambdaParameterStep rec) (#[opened], #[])
  (Id.run (parameters.run { s₁ with noTrailingLambda := false })).2

theorem parametersEnd_of_runs {opened : NodeId} {s₁ : State} {x : Array NodeId × Array NodeId}
    (ho : Runs bump s opened s₁) (hloop : Runs (repeating (lambdaParameterStep rec) (#[opened], #[]))
      { s₁ with noTrailingLambda := false } x s') : parametersEnd rec s = s' := by
  unfold Runs at ho hloop
  simp only [parametersEnd, ho, hloop]

/-- The parse of parameters takes just their tokens, when they are names, perhaps with types. -/
theorem parametersEnd_at {brace : Token} (hrec : TakesTypes rec type d)
    (hts : Separated (ParameterTokens type) ts) (harrow : arrow.kind = .arrow)
    (hs : s.At (brace :: (ts ++ arrow :: rest)) d) :
    (parametersEnd rec s).At (arrow :: rest) d := by
  obtain ⟨opened, s₁, ho⟩ : ∃ opened s₁, Runs bump s opened s₁ := ⟨_, _, runs_self bump s⟩
  obtain ⟨htokens, hdepth⟩ := hs.bump (by simp) ho
  have hopened : State.At { s₁ with noTrailingLambda := false } (ts ++ arrow :: rest) d :=
    ⟨htokens, hdepth⟩
  have hloop := runs_self (repeating (lambdaParameterStep rec) (#[opened], #[]))
    { s₁ with noTrailingLambda := false }
  rw [parametersEnd_of_runs ho hloop]
  exact runs_repeating_takes (lambdaParameterStep_takes hrec harrow).takes hts hopened hloop

/-- Where the look-ahead says that there are parameters, they are parsed, and an arrow that is next
then becomes one of the children. -/
theorem lambdaParameters_arrow {opened : NodeId} {children parameters : Array NodeId} {s₁ : State}
    (ho : Runs bump s opened s₁) (hahead : lambdaParametersAhead 0 s₁.ahead = true)
    (hend : (parametersEnd rec s).current.kind = .arrow)
    (h : Runs (lambdaParameters rec #[opened]) { s₁ with noTrailingLambda := false }
      (children, parameters) s') :
    ∃ leaf, Runs bump (parametersEnd rec s) leaf s' ∧ leaf ∈ children := by
  obtain ⟨-, h⟩ | ⟨hnot, -⟩ := runs_ite.mp (runs_bind_get.mp h)
  · obtain ⟨⟨found, parameters'⟩, t, hloop, h⟩ := runs_bind.mp h
    obtain ⟨arrow, t₁, hc, h⟩ := runs_bind.mp h
    obtain ⟨he, rfl⟩ := runs_pure.mp h
    cases he
    rw [parametersEnd_of_runs ho hloop] at hend ⊢
    obtain ⟨-, hc⟩ | ⟨hnot, -⟩ := runs_ite.mp (runs_bind_isAt.mp hc)
    · obtain ⟨leaf, t₂, hb, hc⟩ := runs_bind.mp hc
      obtain ⟨rfl, rfl⟩ := runs_pure.mp hc
      exact ⟨leaf, hb, Array.mem_push_self⟩
    · exact absurd (decide_eq_true hend) hnot
  · exact absurd hahead hnot

/-- A node is what it is made as, and those before it stay of their kind. -/
theorem kind?_and_children_of_node {k : NodeKind} {start : Nat} {cs : Array NodeId} {data : NodeData}
    {leaf : NodeId} {token : Kind} (h : Runs (node k start cs data) s id s')
    (hkind : s.forest.kind? (some leaf) = some token) :
    s'.forest.kind? (some leaf) = some token ∧ s'.forest.kind? (some id) = some (.node k) ∧
      s'.forest.children (some id) = cs := by
  obtain ⟨rfl, rfl⟩ := runs_node.mp h
  obtain ⟨n, hn, rfl⟩ := Forest.exists_of_kind? hkind
  have hget := Forest.getElem?_addNode_of_lt hn k start cs data
  exact ⟨(Forest.kind?_of_getElem? hget).trans (congrArg some (Forest.adopt_kind ..)),
    Forest.kind?_addNode .., Forest.children_addNode ..⟩

/-- What is made of the arrow is kept as a child of the lambda. -/
theorem lambda_arrow_mem (hr : rec.Sound) {brace : Token} {ts : List Token} (hne : ts ≠ [])
    (hs : s.At (brace :: ts) d) (hahead : lambdaParametersAhead 0 ts.tail = true)
    (hend : (parametersEnd rec s).current.kind = .arrow) (h : Runs (lambda rec) s id s') :
    ∃ leaf s₁, Runs bump (parametersEnd rec s) leaf s₁ ∧
      s'.forest.kind? (some leaf) = some (.token .arrow) ∧
      s'.forest.kind? (some id) = some (.node .lambdaExpression) ∧
      leaf ∈ s'.forest.children (some id) := by
  obtain ⟨opened, s₁, ho, h⟩ := runs_bind.mp (runs_bind_place.mp h)
  obtain ⟨⟨children, parameters, statements⟩, s₂, hw, h⟩ := runs_bind.mp h
  obtain ⟨t, hin, rfl⟩ := runs_withTrailingLambda hw
  obtain ⟨⟨front, parameters'⟩, t₁, hp, hin⟩ := runs_bind.mp hin
  obtain ⟨⟨inner, statements'⟩, t₂, hl, hin⟩ := runs_bind.mp hin
  obtain ⟨closed, t₃, hc, hin⟩ := runs_bind.mp hin
  obtain ⟨he, rfl⟩ := runs_pure.mp hin
  cases he
  have hopened : s₁.ahead = ts.tail := congrArg List.tail (hs.bump hne ho).tokens
  obtain ⟨leaf, hb, hmem⟩ := lambdaParameters_arrow ho (hopened ▸ hahead) hend hp
  have hkind : t₁.forest.kind? (some leaf) = some (.token .arrow) := hend ▸ bump_kind? hb
  -- The statements and the closing brace come after it.
  have hlater := ((statementList_adds hr hl).add (eat_yields hc).ifAny).appends
  obtain ⟨hleaf, hlambda, hchildren⟩ := kind?_and_children_of_node h (hlater.kind? hkind)
  refine ⟨leaf, t₁, hb, hleaf, hlambda, ?_⟩
  obtain ⟨qs, hall, -, -⟩ := hlater
  rw [hchildren, hall]
  exact Array.mem_append_left _ hmem

/-- Parameters of a lambda that are names, perhaps with types, end at the arrow after them if the
look-ahead says that there are any. It becomes a child of the lambda, and nothing from it on belongs to
a parameter. The look-ahead has found this arrow, unless an arrow is part of the type of a parameter. -/
theorem lambda_parameters_end {brace : Token} (hts : Separated (ParameterTokens (TypeTokens n)) ts)
    (harrow : arrow.kind = .arrow) (hn : n ≤ m) (hd : s.depth + n ≤ maxDepth)
    (hs : s.tokens = brace :: (ts ++ arrow :: next :: rest))
    (hahead : lambdaParametersAhead 0 (ts ++ arrow :: next :: rest).tail = true)
    (h : Runs (lambda (productions m)) s id s') :
    (parametersEnd (productions m) s).tokens = arrow :: next :: rest ∧
    (∃ leaf s₁, Runs bump (parametersEnd (productions m) s) leaf s₁ ∧
      s'.forest.kind? (some leaf) = some (.token .arrow) ∧
      s'.forest.kind? (some id) = some (.node .lambdaExpression) ∧
      leaf ∈ s'.forest.children (some id)) ∧
    (ts ≠ [] → (∀ t ∈ ts, t.kind ≠ .arrow) →
      arrowAhead? 0 (ts ++ arrow :: next :: rest).tail = some (arrow :: next :: rest)) := by
  have hat : s.At (brace :: (ts ++ arrow :: next :: rest)) s.depth := ⟨hs, rfl⟩
  have hend := parametersEnd_at (productions_takesTypes hn hd) hts harrow hat
  have hkind : (parametersEnd (productions m) s).current.kind = .arrow := hend.current ▸ harrow
  refine ⟨hend.tokens, lambda_arrow_mem (productions_sound m) (by simp) hat hahead hkind h,
    fun hne hfree => ?_⟩
  rw [List.tail_append_of_ne_nil hne] at hahead ⊢
  exact arrowAhead?_of_first hahead (fun t ht => hfree t (List.mem_of_mem_tail ht)) harrow

end

/-- A lambda with a parameter of a function type. -/
def functionTyped : State := .ofSource "a.kt" "\x7b x: (A) -> B -> d \x7d"

/-- A lambda with a parameter in parentheses after another one. -/
def destructured : State := .ofSource "a.kt" "\x7b a, (b, c) -> d \x7d"

theorem lambda_parameters_end_functionTyped :
    (parametersEnd (productions 2) functionTyped).tokens = functionTyped.tokens.drop 8 ∧
      ∃ leaf s₁ id s', Runs (lambda (productions 2)) functionTyped id s' ∧
        Runs bump (parametersEnd (productions 2) functionTyped) leaf s₁ ∧
        leaf ∈ s'.forest.children (some id) := by
  let name : Token := ⟨.identifier, {}, " ", "x", 1⟩
  let colon : Token := ⟨.colon, {}, "", ":", 3⟩
  let opening : Token := ⟨.openParen, {}, " ", "(", 4⟩
  let a : Token := ⟨.identifier, {}, "", "A", 6⟩
  let closing : Token := ⟨.closeParen, {}, "", ")", 7⟩
  let within : Token := ⟨.arrow, {}, " ", "->", 8⟩
  let b : Token := ⟨.identifier, {}, " ", "B", 11⟩
  let arrow : Token := ⟨.arrow, {}, " ", "->", 13⟩
  -- The type is derived by hand: a group of one named type, its arrow, and another named type.
  have hname (t : Token) (ht : t.kind.isName = true) : TypeTokens 1 ([t] ++ []) :=
    .named (.mk ht .nil .none) (.marks (List.forall_mem_nil _))
  have hinner : Separated (FunctionParameterTokens (TypeTokens 1)) ([a] ++ []) :=
    .entry (.type (hname a rfl)) (by simp) .nil
  have hgroup : GroupTokens (TypeTokens 1) (opening :: ([a] ++ [closing])) := .mk rfl rfl hinner rfl
  have htype : TypeTokens 2 ((opening :: ([a] ++ [closing])) ++ within :: [b]) :=
    .function (.function hgroup rfl (hname b rfl))
  have hts : Separated (ParameterTokens (TypeTokens 2))
      ([name, colon, opening, a, closing, within, b] ++ []) :=
    .entry (.mk rfl (.type rfl htype)) (by simp) .nil
  -- The tokens are those after the brace, up to the second arrow.
  have hs : functionTyped.tokens = ⟨.openBrace, {}, "", "\x7b", 0⟩ ::
      ([name, colon, opening, a, closing, within, b] ++ [] ++ arrow :: ⟨.identifier, {}, " ", "d", 16⟩ ::
        [⟨.closeBrace, {}, " ", "\x7d", 18⟩, ⟨.endOfFile, {}, "", "", 20⟩]) := by
    decide +kernel
  have hrun := runs_self (lambda (productions 2)) functionTyped
  obtain ⟨htokens, ⟨leaf, s₁, hb, -, -, hmem⟩, -⟩ :=
    lambda_parameters_end hts rfl le_rfl (by decide +kernel) hs (by decide +kernel) hrun
  refine ⟨?_, leaf, s₁, _, _, hrun, hb, hmem⟩
  rw [htokens, hs]
  rfl

/-- From an opening brace on, the parse of parameters ends at the arrow that the look-ahead has found. -/
def EndsAtFoundArrow (s : State) : Prop :=
  s.current.kind = .openBrace → lambdaParametersAhead 0 s.ahead.tail = true →
    arrowAhead? 0 s.ahead.tail =
      some (parametersEnd (productions (nestingBound s.tokens.length)) s).tokens

instance (s : State) : Decidable (EndsAtFoundArrow s) := inferInstanceAs (Decidable (_ → _ → _ = _))

theorem not_endsAtFoundArrow : ¬ EndsAtFoundArrow functionTyped ∧ ¬ EndsAtFoundArrow destructured := by
  decide +kernel

end KotlinTree.Grammar
