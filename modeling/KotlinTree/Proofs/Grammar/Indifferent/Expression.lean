import KotlinTree.Proofs.Grammar.Indifferent.Declaration

/-!
Expressions, to which the reading of braces makes no difference unless a lambda is passed to a call outside
all brackets. Main statement: parts of a source between brackets are parsed alike whether or not a brace
after a call opens a lambda around them, as long as what does not restore the reading of braces passes no
lambda to a call outside what does.
-/

namespace KotlinTree.Grammar

section
set_option synthInstance.maxSize 1000

/-- Inside parentheses, braces are read in one way. -/
theorem Unmoved.parenthesized (rec : Productions) : Unmoved (parenthesized rec) := by
  refine look.bind fun start => bump.bind fun opened => (withTrailingLambda _ _).bind fun inner => ?_
  exact (eat _).bind fun closed => node _ _ _ _

/-- In a condition and its branches, braces are read in one way. -/
theorem Unmoved.ifExpression (rec : Productions) : Unmoved (ifExpression rec) := by
  refine look.bind fun start => bump.bind fun keyword => (eat _).bind fun opened => ?_
  exact (withTrailingLambda _ _).bind fun parts => node _ _ _ _

namespace Indifferent

variable {rec : Productions} [hr : rec.Indifferent]

instance labelIfAny (cs : Array NodeId) : Indifferent (labelIfAny cs) := by
  unfold Grammar.labelIfAny
  infer_instance

instance thisExpression : Indifferent thisExpression := by
  unfold Grammar.thisExpression
  infer_instance

instance superType (cs : Array NodeId) : Indifferent (superType rec cs) := by
  unfold Grammar.superType
  infer_instance

instance superExpression : Indifferent (superExpression rec) := by
  unfold Grammar.superExpression
  infer_instance

instance parenthesized : Indifferent (parenthesized rec) := by
  refine (Unmoved.parenthesized rec).indifferent fun s id s' h => ?_
  obtain ⟨opened, s₁, ho, h⟩ := runs_bind.mp (runs_bind_place.mp h)
  obtain ⟨expression, s₂, hw, h⟩ := runs_bind.mp h
  obtain ⟨closed, s₃, hc, h⟩ := runs_bind.mp h
  obtain ⟨hopened, hnew⟩ := onward_bump ho
  have hinner := (hopened.trans (Indifferent.onward hw)).trans (Indifferent.onward hc)
  exact hinner.node (fun _ => ⟨opened, mem_first_add (mem_first_add rfl expression) closed, hnew⟩) h

instance elseBranch (cs : Array NodeId) : Indifferent (elseBranch rec cs) := by
  unfold Grammar.elseBranch
  infer_instance

instance ifExpression : Indifferent (ifExpression rec) := by
  refine (Unmoved.ifExpression rec).indifferent fun s id s' h => ?_
  obtain ⟨keyword, s₁, hk, h⟩ := runs_bind.mp (runs_bind_place.mp h)
  obtain ⟨opened, s₂, ho, h⟩ := runs_bind.mp h
  obtain ⟨⟨children, expression⟩, s₃, hw, h⟩ := runs_bind.mp h
  obtain ⟨hkeyword, hnew⟩ := onward_bump hk
  have hinner := (hkeyword.trans (Indifferent.onward ho)).trans (Indifferent.onward hw)
  refine hinner.node (fun _ => ⟨keyword, ?_, hnew⟩) h
  obtain ⟨t, hin, -⟩ := runs_withTrailingLambda hw
  obtain ⟨condition, t₁, hcond, hin⟩ := runs_bind.mp hin
  obtain ⟨closed, t₂, hclose, hin⟩ := runs_bind.mp hin
  obtain ⟨thenBranch, t₃, hthen, hin⟩ := runs_bind.mp hin
  obtain ⟨⟨whole, otherwise⟩, t₄, helse, hin⟩ := runs_bind.mp hin
  obtain ⟨he, -⟩ := runs_pure.mp hin
  cases he
  refine (elseBranch_adds hr.sound helse).appends.first ?_
  exact mem_first_add (mem_first_add (mem_first_add (mem_first_add rfl opened) condition) closed) thenBranch

instance returnExpression : Indifferent (returnExpression rec) := by
  unfold Grammar.returnExpression
  infer_instance

instance jumpExpression : Indifferent (jumpExpression rec) := by
  unfold Grammar.jumpExpression
  infer_instance

instance callableReference (start : Nat) (receiver : Option NodeId) :
    Indifferent (callableReference start receiver) := by
  unfold Grammar.callableReference
  infer_instance

instance primary : Indifferent (primary rec) := by
  refine step fun start => step fun k => ?_
  split <;> infer_instance

instance memberAccess (start : Nat) (left : NodeId) : Indifferent (memberAccess start left) := by
  have hmark (id : NodeId) := mark id cosmetic_nullSafe
  unfold Grammar.memberAccess
  infer_instance

instance indexStep (cs : Array NodeId) : Indifferent (indexStep rec cs) := by
  refine step fun k => ?_
  split <;> try infer_instance
  refine step fun index => ?_
  cases index <;> infer_instance

instance indexing (start : Nat) (left : NodeId) : Indifferent (indexing rec start left) := by
  unfold Grammar.indexing
  infer_instance

instance postfixOperator (start : Nat) (left : NodeId) : Indifferent (postfixOperator start left) := by
  unfold Grammar.postfixOperator
  infer_instance

end Indifferent

section
variable {rec : Productions} {s s₁ s' : State} {id : NodeId} {o : Option NodeId}

theorem lambda_kind? (h : Runs (lambda rec) s id s') :
    s'.forest.kind? (some id) = some (.node .lambdaExpression) := by
  obtain ⟨opened, s₁, -, h⟩ := runs_bind.mp (runs_bind_place.mp h)
  obtain ⟨body, s₂, -, h⟩ := runs_bind.mp h
  obtain ⟨rfl, rfl⟩ := runs_node.mp h
  exact Forest.kind?_addNode ..

/-- A lambda is passed, or none is where braces are read in either way. -/
theorem trailingLambda_cases (h : Runs (trailingLambda rec) s o s') :
    (∃ l, o = some l ∧ Runs (lambda rec) s l s') ∨
      o = none ∧ s' = s ∧ (s.noTrailingLambda = false →
        ¬ (s.current.kind = .openBrace ∧ s.current.startsLine = false)) := by
  obtain ⟨-, h⟩ | ⟨hnot, h⟩ := runs_ite.mp (runs_bind_get.mp (runs_bind_startsLine.mp (runs_bind_isAt.mp h)))
  · obtain ⟨l, s₁, hl, h⟩ := runs_bind.mp h
    obtain ⟨rfl, rfl⟩ := runs_pure.mp h
    exact .inl ⟨l, rfl, hl⟩
  · obtain ⟨rfl, rfl⟩ := runs_pure.mp h
    refine .inr ⟨rfl, rfl, fun hs ⟨hbrace, hline⟩ => hnot ?_⟩
    simp [hbrace, hline, hs]

/-- A call that is made last is inside no shelter. -/
theorem not_sheltered_of_last {n : Nat} {c : NodeId} {f : Forest} (hc : f.PassesLambda c)
    (hn : n ≤ c) (hlast : f.size = c + 1) : ¬ f.LambdasSheltered n := by
  intro h
  obtain ⟨r, hr, hshelters⟩ := h c (hlast ▸ Nat.lt_succ_self c) hn hc
  exact absurd hshelters.before (Nat.not_lt_of_ge (Nat.le_of_lt_succ (hr.trans_eq hlast)))

/-- A call after its arguments. -/
def callEnd (rec : Productions) (start : Nat) (callee : NodeId) (list : Option NodeId)
    (typeArguments : Array NodeId) (x : Option NodeId × Array NodeId) : Parser NodeId := do
  let trailingLambda ← trailingLambda rec
  node .callExpression start (among [some callee, list, x.1, trailingLambda])
    (.call { callee, typeArguments, argumentList := x.1, arguments := x.2, trailingLambda })

section
variable {start : Nat} {callee : NodeId} {list : Option NodeId} {typeArguments : Array NodeId}
  {x : Option NodeId × Array NodeId}

/-- A lambda that is passed to a call is not sheltered by what the call itself has made. -/
theorem callEnd_not_sheltered {l : NodeId} {n : Nat} (hn : n ≤ s₁.forest.size)
    (hl : Runs (lambda rec) s l s₁)
    (h : Runs (node .callExpression start (among [some callee, list, x.1, some l])
      (.call { callee, typeArguments, argumentList := x.1, arguments := x.2, trailingLambda := some l }))
        s₁ id s') : ¬ s'.forest.LambdasSheltered n := by
  obtain ⟨rfl, rfl⟩ := runs_node.mp h
  have hback : (among [some callee, list, x.1, some l]).back? = some l := by
    cases list <;> cases x.1 <;> rfl
  refine not_sheltered_of_last (c := s₁.forest.size) ⟨Forest.kind?_addNode .., l, ?_, ?_⟩ hn
    (Forest.size_addNode ..)
  · rw [State.noded, Forest.children_addNode]
    exact hback
  · exact (Forest.grows_addNode ..).kind? (lambda_kind? hl)

variable [rec.Indifferent]

instance Indifferent.callEnd : Indifferent (callEnd rec start callee list typeArguments x) where
  onward s id s' h := by
    obtain ⟨o, s₁, hlast, hn⟩ := runs_bind.mp h
    have ho : s.Onward s₁ := by
      obtain ⟨l, -, hl⟩ | ⟨-, rfl, -⟩ := trailingLambda_cases hlast
      · exact Indifferent.onward hl
      · exact .refl _
    exact ho.node (fun hk : NodeKind.isShelter .callExpression = true => nomatch hk) hn
  same s id s' hs hsheltered h := by
    obtain ⟨o, s₁, hlast, hn⟩ := runs_bind.mp h
    obtain ⟨l, rfl, hl⟩ | ⟨rfl, rfl, -⟩ := trailingLambda_cases hlast
    · -- The call is the last node that is made, so that nothing can be around it yet.
      have ho : s.Onward s₁ := Indifferent.onward hl
      exact absurd hsheltered (callEnd_not_sheltered ho.grows.size_le hl hn)
    · have hnone : Runs (trailingLambda rec) s₁.guarded none s₁.guarded := by
        refine runs_bind_isAt.mpr (runs_bind_startsLine.mpr (runs_bind_get.mpr ?_))
        refine runs_ite.mpr (.inr ⟨?_, ?_⟩)
        · simp [State.guarded]
        · exact runs_pure.mpr ⟨rfl, rfl⟩
      exact runs_bind.mpr ⟨none, _, hnone, (Unmoved.node _ _ _ _ hs hn).2⟩

instance Indifferent.call : Indifferent (call rec start callee list typeArguments) := by
  refine step fun atParen => branch (step fun x => ?_) ?_
  · exact inferInstanceAs (Indifferent (Grammar.callEnd rec start callee list typeArguments (some x.1, x.2)))
  · exact inferInstanceAs (Indifferent (Grammar.callEnd rec start callee list typeArguments (none, #[])))

instance Indifferent.typeArgumentsThenCall :
    Indifferent (typeArgumentsThenCall rec start callee) := by
  unfold Grammar.typeArgumentsThenCall
  infer_instance

/-- Where a brace follows on its line, a call takes the lambda. -/
theorem call_not_sheltered {n : Nat} (hs : s.noTrailingLambda = false) (hk : s.current.kind = .openBrace)
    (hline : s.current.startsLine = false) (hn : n ≤ s.forest.size)
    (h : Runs (call rec start callee none #[]) s id s') : ¬ s'.forest.LambdasSheltered n := by
  obtain ⟨hparen, -⟩ | ⟨-, h⟩ := runs_ite.mp (runs_bind_isAt.mp h)
  · simp [hk] at hparen
  · have h : Runs (callEnd rec start callee none #[] (none, #[])) s id s' := h
    obtain ⟨o, s₁, hlast, hn'⟩ := runs_bind.mp h
    obtain ⟨l, rfl, hl⟩ | ⟨-, -, hno⟩ := trailingLambda_cases hlast
    · have ho : s.Onward s₁ := Indifferent.onward hl
      exact callEnd_not_sheltered (hn.trans ho.grows.size_le) hl hn'
    · exact absurd ⟨hk, hline⟩ (hno hs)

instance Indifferent.postfixStep : Indifferent (postfixStep rec start callee) := by
  refine IndifferentFrom.indifferent fun s => .look (.look ?_)
  split <;> try exact Indifferent.from_state inferInstance s
  · exact Indifferent.from_state (.get (fun _ => inferInstance) fun _ => rfl) s
  · -- The one place where the reading of braces decides whether there is a call at all.
    rename_i hk
    constructor
    · intro r s' h
      obtain ⟨-, h⟩ | ⟨-, h⟩ := runs_ite.mp (runs_bind_get.mp (runs_bind_get.mp h))
      · exact Indifferent.onward h
      · exact Indifferent.onward h
    · intro r s' hs hsheltered h
      obtain ⟨hcall, h⟩ | ⟨-, h⟩ := runs_ite.mp (runs_bind_get.mp (runs_bind_get.mp h))
      · obtain ⟨id, hid, rfl⟩ := runs_map.mp h
        have hline : s.current.startsLine = false := by
          simp only [Bool.and_eq_true, Bool.not_eq_true'] at hcall
          exact hcall.1.1
        exact absurd hsheltered (call_not_sheltered hs hk hline le_rfl hid)
      · obtain ⟨rfl, rfl⟩ := runs_pure.mp h
        refine runs_bind_get.mpr (runs_bind_get.mpr (runs_ite.mpr (.inr ⟨?_, runs_pure.mpr ⟨rfl, rfl⟩⟩)))
        simp [State.guarded]

end

end

namespace Indifferent

variable {rec : Productions} [rec.Indifferent]

instance postfixed : Indifferent (postfixed rec) := by
  refine step fun start => step fun operand => ?_
  cases operand <;> infer_instance

instance prefixed : Indifferent (prefixed rec) := by
  unfold Grammar.prefixed
  infer_instance

instance castStep (start : Nat) (left : NodeId) : Indifferent (castStep rec start left) := by
  unfold Grammar.castStep
  infer_instance

instance operand : Indifferent (operand rec) := by
  refine step fun start => step fun operand => ?_
  cases operand <;> infer_instance

instance binaryStep (minPrecedence start : Nat) (left : NodeId) :
    Indifferent (binaryStep rec minPrecedence start left) := by
  refine step fun operator => ?_
  have hshelter : Fact (NodeKind.isShelter
      (if operator = .questionColon then .elvisExpression else .binaryExpression) = false) :=
    ⟨by split <;> rfl⟩
  split <;> infer_instance

instance binary (minPrecedence : Nat) : Indifferent (binary rec minPrecedence) := by
  refine step fun start => step fun operand => ?_
  cases operand <;> infer_instance

instance expression : Indifferent (expression rec) := by
  unfold Grammar.expression
  infer_instance

instance isAtDeclaration : Indifferent isAtDeclaration := by
  refine step fun k => ?_
  split <;> infer_instance

instance assignmentOrExpression : Indifferent (assignmentOrExpression rec) := by
  refine step fun start => step fun target => ?_
  cases target <;> infer_instance

instance statement : Indifferent (statement rec) := by
  unfold Grammar.statement
  infer_instance

end Indifferent

end

instance productions_indifferent (n : Nat) : (productions n).Indifferent where
  sound := productions_sound n
  recur := by
    induction n with
    | zero => exact fun nt => inferInstanceAs (Indifferent (pure none))
    | succ n ih =>
      have : (productions n).Indifferent := ⟨productions_sound n, ih⟩
      intro nt
      cases nt with
      | expression => exact Indifferent.expression
      | binary minPrecedence => exact Indifferent.binary minPrecedence
      | prefixed => exact Indifferent.prefixed
      | typeReference limit => exact Indifferent.typeReference limit
      | statement => exact Indifferent.statement
      | declaration => exact Indifferent.declaration

/-- The parts of a source that are parsed between brackets. -/
inductive Region where
  /-- The members of a class or an object. -/
  | classBody
  | block
  | lambda
  | parenthesized
  | valueArguments
  /-- What an element of an expression is chosen by, from the bracket after the expression on. -/
  | index (start : Nat) (expression : NodeId)

namespace Region

def parse (rec : Productions) : Region → Parser NodeId
  | classBody => Grammar.classBody rec
  | block => Grammar.block rec
  | lambda => Grammar.lambda rec
  | parenthesized => Grammar.parenthesized rec
  | valueArguments => Prod.fst <$> valueArgumentList rec
  | index start expression => indexing rec start expression

/-- Braces are read in one way inside, whatever is around. -/
def isShelter : Region → Bool
  | classBody | index _ _ => false
  | block | lambda | parenthesized | valueArguments => true

/-- Regions that read braces in one way do so whatever they recur through. -/
theorem unmoved {rec : Productions} {r : Region} (hr : r.isShelter = true) : Unmoved (r.parse rec) := by
  cases r with
  | classBody => cases hr
  | block => exact .block rec
  | lambda => exact .lambda rec
  | parenthesized => exact .parenthesized rec
  | valueArguments =>
    rw [parse, map_eq_pure_bind]
    exact (Unmoved.valueArgumentList rec).bind fun x => .pure x.1
  | index => cases hr

theorem indifferent {rec : Productions} [rec.Indifferent] (r : Region) : Indifferent (r.parse rec) := by
  cases r with
  | classBody => exact Indifferent.classBody
  | block => exact Indifferent.block
  | lambda => exact Indifferent.lambda
  | parenthesized => exact Indifferent.parenthesized
  | valueArguments => exact Indifferent.map Prod.fst
  | index start expression => exact Indifferent.indexing start expression

end Region

/-- A region is parsed into the same nodes with the same findings up to the same token whether or not a brace
after a call opens a lambda around it. A class body or an index has to pass no lambda to a call outside its
own blocks, lambdas, parentheses, arguments and branches. -/
theorem region_guarded {n : Nat} {r : Region} {s s' : State} {id : NodeId}
    (hs : s.noTrailingLambda = false)
    (hsheltered : r.isShelter = false → s'.forest.LambdasSheltered s.forest.size)
    (h : Runs (r.parse (productions n)) s id s') :
    Runs (r.parse (productions n)) s.guarded id s'.guarded := by
  cases hr : r.isShelter with
  | true => exact (Region.unmoved hr hs h).2
  | false => exact r.indifferent.same hs (hsheltered hr) h

/-- A class body with a lambda that is passed to a call in a block. -/
def memberWithLambda : State := .ofSource "a.kt" "{ fun f() { g { 1 } } }"

theorem region_guarded_memberWithLambda :
    let run := Id.run ((Region.classBody.parse (productions 30)).run memberWithLambda)
    run.2.current.kind = .endOfFile ∧
      Runs (Region.classBody.parse (productions 30)) memberWithLambda.guarded run.1 run.2.guarded :=
  ⟨by decide +kernel, region_guarded (by decide +kernel) (fun _ => by decide +kernel) (runs_self _ _)⟩

end KotlinTree.Grammar
