import KotlinTree.Attribution.Unit
import KotlinTree.Proofs.Attribution.Report.Expression
import KotlinTree.Proofs.Syntax.Slot
import KotlinTree.Proofs.Syntax.Span

/-!
Where attribution looks for written types. It comes to a node from the root, step by step, and each step
gives to a child what surrounds it. There are children that no step goes to: these are overlooked, with all
that is in them.
-/

namespace KotlinTree

/-- What has a value or stands as a statement. -/
def Forest.isCode (f : Forest) (id : NodeId) : Bool :=
  match f.kind? (some id) with
  | some (.node k) => NodeKind.codes.contains k
  | _ => false

theorem NodeData.mem_kinds_typeOperation {o : TypeOperation} {k : NodeKind}
    (h : k ∈ (NodeData.typeOperation o).kinds) : k = .isExpression ∨ k = .asExpression := by
  simp only [kinds] at h
  split at h <;> simp_all

namespace Forest.Linked

variable {f : Forest} {x : NodeId}

theorem exists_assignment (hf : f.Linked) (hk : f.kind? (some x) = some (.node .assignment)) :
    ∃ a, f.data (some x) = .assignment a := by
  have hkinds := hf.mem_kinds hk
  cases hd : f.data (some x) <;> rw [hd] at hkinds
  case assignment a => exact ⟨a, rfl⟩
  case typeOperation => rcases NodeData.mem_kinds_typeOperation hkinds with h | h <;> cases h
  all_goals simp [NodeData.kinds] at hkinds

theorem exists_primaryConstructor (hf : f.Linked)
    (hk : f.kind? (some x) = some (.node .primaryConstructor)) :
    ∃ parameters, f.data (some x) = .primaryConstructor parameters := by
  have hkinds := hf.mem_kinds hk
  cases hd : f.data (some x) <;> rw [hd] at hkinds
  case primaryConstructor parameters => exact ⟨parameters, rfl⟩
  case typeOperation => rcases NodeData.mem_kinds_typeOperation hkinds with h | h <;> cases h
  all_goals simp [NodeData.kinds] at hkinds

theorem exists_selfReference (hf : f.Linked) (hk : f.kind? (some x) = some (.node .thisExpression)) :
    ∃ r, f.data (some x) = .selfReference r := by
  have hkinds := hf.mem_kinds hk
  cases hd : f.data (some x) <;> rw [hd] at hkinds
  case selfReference r => exact ⟨r, rfl⟩
  case typeOperation => rcases NodeData.mem_kinds_typeOperation hkinds with h | h <;> cases h
  all_goals simp [NodeData.kinds] at hkinds

theorem plain_of_valueArgumentList (hf : f.Linked)
    (hk : f.kind? (some x) = some (.node .valueArgumentList)) : f.data (some x) = .plain := by
  have hkinds := hf.mem_kinds hk
  cases hd : f.data (some x) <;> rw [hd] at hkinds
  case typeOperation => rcases NodeData.mem_kinds_typeOperation hkinds with h | h <;> cases h
  all_goals simp [NodeData.kinds] at hkinds

end Forest.Linked

namespace Attribution

namespace Setting

/-- A statement that is no expression. -/
def standsAlone (s : Setting) (id : NodeId) : Bool :=
  s.isDeclaration id || s.forest.kind? (some id) = some (.node .assignment)

/-- A child is no deeper in expressions than its parent: a declaration or an assignment, a body, and the
beginning of a chain where it counts together with what follows it. -/
def isLevel (s : Setting) (p x : NodeId) : Bool :=
  match s.forest.data (some p) with
  | .sourceFile _ | .classBody _ => true
  | .function d => d.body = some x && !d.isExpressionBody
  | .block _ | .lambda _ => s.standsAlone x
  | .ifExpression d => d.condition ≠ some x && s.standsAlone x
  | .call d => d.callee = x && s.forest.kind? (some x) = some (.node .propertyAccessExpression)
  | .access _ => s.forest.kind? (some x) = some (.node .superExpression)
  | _ => s.forest.kind? (some p) = some (.node .anonymousInitializer)

/-- What surrounds a child by the names that its parent makes known. -/
def namesInside (s : Setting) (p x : NodeId) (c : Around) : Around :=
  match s.forest.data (some p) with
  | .classDeclaration d =>
    let inside := (c.withTypeParameters (s.forest.typeParameterNames d.typeParameters)).inClass
      (s.unit.classNames.lookup p)
    if s.forest.kind? (some x) = some (.node .classBody) then
      inside.onClass (d.name.map fun name => s.forest.nameText (some name))
    else inside
  | .function d =>
    if s.forest.kind? (some p) = some (.node .propertyAccessor) then c
    else c.withTypeParameters (s.forest.typeParameterNames d.typeParameters)
  | .property _ => c.withTypeParameters (s.forest.propertyTypeParameters p)
  | _ => c

/-- What surrounds a child, given what surrounds its parent. -/
def aroundChild (s : Setting) (p x : NodeId) (c : Around) : Around :=
  if s.forest.isCode x && !s.isLevel p x then (s.namesInside p x c).deeper else s.namesInside p x c

/-- A child that attribution passes over, with all that is in it. -/
inductive Overlooks (s : Setting) (c : Around) (p x : NodeId) : Prop where
  /-- The type arguments of a call. -/
  | callArguments (hp : s.forest.kind? (some p) = some (.node .callExpression))
    (hx : s.forest.kind? (some x) = some (.node .typeArgumentList))
  /-- Type parameters, and so their bounds. -/
  | typeParameters (hp : s.forest.kind? (some p) = some (.node .typeParameterList))
  /-- The constraints of a function: types that are neither what it is applied to nor what it returns. -/
  | constraint {d : FunctionDeclaration} (hp : s.forest.kind? (some p) = some (.node .functionDeclaration))
    (hd : s.forest.data (some p) = .function d) (hreceiver : d.receiverType ≠ some x)
    (hreturn : d.returnType ≠ some x)
    (hx : s.forest.kind? (some x) = some (.node .typeReference))
  /-- What is referred to by a word that is no name. -/
  | reference {d : CallableReference} (hp : s.forest.kind? (some p) = some (.node .callableReference))
    (hd : s.forest.data (some p) = .callableReference d) (hname : s.isIdentifier d.name = false)
  /-- A constructor or an initializer that is not in a class. -/
  | stray {k : NodeKind} (hk : k = .secondaryConstructor ∨ k = .anonymousInitializer)
    (hx : s.forest.kind? (some x) = some (.node k))
    (hfile : s.forest.kind? (some p) ≠ some (.node .sourceFile))
    (hbody : s.forest.kind? (some p) ≠ some (.node .classBody))
  /-- What a constructor hands on to, if that is no call. -/
  | delegation {d : FunctionDeclaration} (hp : s.forest.kind? (some p) = some (.node .secondaryConstructor))
    (hd : s.forest.data (some p) = .function d) (hcode : s.forest.isCode x)
    (hbody : d.body ≠ some x) (hx : s.forest.kind? (some x) ≠ some (.node .callExpression))
  /-- What is written after a `super` that stands for no class. -/
  | super (hp : s.forest.kind? (some p) = some (.node .superExpression))
    (hclass : ¬c.HasClass (s.selfLabel p))

/-- Nodes of a few kinds have children that are overlooked, and children of two kinds are. -/
theorem not_overlooks {s : Setting} {c : Around} {p x : NodeId} {k k' : NodeKind}
    (hp : s.forest.kind? (some p) = some (.node k)) (hx : s.forest.kind? (some x) = some (.node k'))
    (hparent : k ∉ [.callExpression, .typeParameterList, .functionDeclaration, .callableReference,
      .secondaryConstructor, .superExpression])
    (hchild : k' ∉ [.secondaryConstructor, .anonymousInitializer]) : ¬s.Overlooks c p x := by
  intro h
  cases h with
  | stray hstray hx' =>
    cases hx.symm.trans hx'
    rcases hstray with rfl | rfl <;> exact hchild (by simp)
  | callArguments hp' | typeParameters hp' | constraint hp' | reference hp' | delegation hp'
  | super hp' =>
    cases hp.symm.trans hp'
    exact hparent (by simp)

/-- Attribution comes to a node, which is surrounded by this. -/
inductive ComesTo (s : Setting) (root : NodeId) : NodeId → Around → Prop where
  | root : ComesTo s root root {}
  | child {p x : NodeId} {c : Around} {k : NodeKind} (hp : ComesTo s root p c)
    (hk : s.forest.kind? (some p) = some (.node k)) (hskipped : k.isSkipped = false)
    (hx : s.forest.IsChild x p) (hover : ¬s.Overlooks c p x) :
    ComesTo s root x (s.aroundChild p x c)

/-- Whatever looks into a node of some kind finds a diagnostic. -/
def FindsAt (s : Setting) (rec : Tasks) (d : Diagnostic) (x : NodeId) (c : Around) : NodeKind → Prop
  | .sourceFile => Finds d (s.file x) c
  | .classDeclaration | .objectDeclaration => Finds d (s.classUse rec x) c
  | .classBody => ∀ owner scope, Finds d (s.members rec owner scope (s.forest.classMembers (some x))) c
  | .primaryConstructor => ∀ parameters, s.forest.data (some x) = .primaryConstructor parameters →
    ∀ owner, Finds d (s.parameters rec owner parameters) c
  | .parameter => ∀ owner, Finds d (s.parameter rec owner x) c
  | .supertypeEntry => Finds d (s.supertype rec x) c
  | .functionDeclaration | .secondaryConstructor => ∀ owner, Finds d (s.function rec owner x) c
  | .propertyDeclaration => ∀ owner, Finds d (s.property rec owner x) c
  | .propertyAccessor => ∀ type, Finds d (s.accessor rec type x) c
  | .anonymousInitializer => ∀ owner, Finds d (s.declaration rec owner x) c
  | .typeReference => ∀ top, x ∈ s.forest.typeReferences top → Finds d (s.typeUse (some top)) c
  | .typeArgumentList => ∀ top id, id ∈ s.forest.typeReferences top → x ∈ s.forest.children (some id) →
    Finds d (s.typeUse (some top)) c
  | .valueArgumentList => ∀ ids : List NodeId, (∀ a ∈ s.forest.children (some x), s.forest.Typeless a ∨ a ∈ ids) →
    Finds d (ids.forM (s.argument rec)) c
  | .valueArgument => Finds d (s.argument rec x) c
  | .block => Finds d (s.block rec x) c
  | .assignment => ∀ a, s.forest.data (some x) = .assignment a → Finds d (assignment rec a) c
  | .propertyAccessExpression => ∀ purpose, Finds d (s.accessUse rec x purpose) c
  | .superExpression => Finds d (s.superType? x) c
  | .typeParameterList => False
  | kind => Finds d (s.nodeType rec kind x) c

/-- Whatever looks into a node finds a diagnostic, as long as it goes deep enough. -/
def FindsIn (s : Setting) (d : Diagnostic) (x : NodeId) (c : Around) : Prop :=
  ∀ n, x ≤ n → ∀ k, s.forest.kind? (some x) = some (.node k) → s.FindsAt (s.tasks n) d x c k

section
variable {s : Setting} {rec : Tasks} {d : Diagnostic} {x : NodeId} {c : Around} {k : NodeKind} {n : Nat}

theorem nodeType_finds (hf : s.forest.Linked) (hrec : rec.Proceed)
    (hk : s.forest.kind? (some x) = some (.node k)) (hcode : k ∈ NodeKind.codes)
    (hstray : ¬(k = .secondaryConstructor ∨ k = .anonymousInitializer)) (h : s.FindsAt rec d x c k) :
    Finds d (s.nodeType rec k x) c := by
  cases k with
  | functionDeclaration =>
    exact ((function_reports hrec .block x).self.bind_first fun _ => .pure _).finds c (h .block)
  | propertyDeclaration =>
    exact ((property_reports hrec .block x).self.bind_first fun _ => .pure _).finds c (h .block)
  | propertyAccessExpression =>
    exact ((accessUse_reports hrec x .value).self.bind_first fun _ => .pure _).finds c (h .value)
  | superExpression => exact ((superType?_reports x).self.bind_first fun _ => .pure _).finds c h
  -- Of the kinds of code, some report through a function of their own; for the others, it is what has
  -- to be shown.
  | assignment =>
    obtain ⟨a, hd⟩ := hf.exists_assignment hk
    unfold nodeType
    rw [hd]
    exact ((assignment_reports hrec a).self.bind_first fun _ => .pure _).finds c (h a hd)
  | secondaryConstructor => exact absurd (.inl rfl) hstray
  | anonymousInitializer => exact absurd (.inr rfl) hstray
  | classDeclaration | objectDeclaration | block | returnStatement | ifExpression | callExpression
  | thisExpression | parenthesizedExpression | binaryExpression | elvisExpression | prefixUnaryExpression
  | postfixUnaryExpression | asExpression | isExpression | lambdaExpression | callableReference
  | indexingExpression | jumpExpression => exact h
  | _ => exact absurd hcode (by decide)

/-- A part that a node looks into as an expression. -/
theorem finds_expression (hf : s.forest.Linked) (hx : s.FindsIn d x c.deeper) (hn : x < n)
    (hdepth : c.depth < maxDepth) (hk : s.forest.kind? (some x) = some (.node k))
    (hcode : k ∈ NodeKind.codes) (hstray : ¬(k = .secondaryConstructor ∨ k = .anonymousInitializer)) :
    (s.tasks n).Finds d x c := by
  obtain ⟨m, rfl⟩ := Nat.exists_eq_add_of_lt hn
  have hrec := tasks_proceed s (x + m)
  have hfinds := nodeType_finds hf hrec hk hcode hstray (hx (x + m) (Nat.le_add_right x m) k hk)
  exact (expression_reports hrec x).finds c ⟨hdepth, k, hk, hfinds⟩

/-- A part that another name stands after. -/
theorem finds_qualifier (hf : s.forest.Linked) (hx : s.FindsIn d x c.deeper) (hn : x < n)
    (hdepth : c.depth < maxDepth) (hk : s.forest.kind? (some x) = some (.node k))
    (hcode : k ∈ NodeKind.codes) (hstray : ¬(k = .secondaryConstructor ∨ k = .anonymousInitializer)) :
    Finds d (s.tasks n (.qualifier x)) c := by
  obtain ⟨m, rfl⟩ := Nat.exists_eq_add_of_lt hn
  have hrec := tasks_proceed s (x + m)
  have hat := hx (x + m) (Nat.le_add_right x m) k hk
  have hfinds := nodeType_finds hf hrec hk hcode hstray hat
  refine (qualifier_reports hrec x).finds c ⟨hdepth, k, hk, hfinds, ?_⟩
  rintro rfl
  exact hat .value

theorem declaration_finds (hrec : rec.Proceed) (owner : Owner)
    (hk : s.forest.kind? (some x) = some (.node k)) (hdeclaration : k ∈ NodeKind.declarations)
    (h : s.FindsAt rec d x c k) : Finds d (s.declaration rec owner x) c := by
  cases k with
  | classDeclaration => exact (declaration_reports hrec owner x).finds c (.inl ⟨.inl hk, h⟩)
  | objectDeclaration => exact (declaration_reports hrec owner x).finds c (.inl ⟨.inr hk, h⟩)
  | functionDeclaration =>
    exact (declaration_reports hrec owner x).finds c (.inr (.inl ⟨.inl hk, h owner⟩))
  | secondaryConstructor =>
    exact (declaration_reports hrec owner x).finds c (.inr (.inl ⟨.inr hk, h owner⟩))
  | propertyDeclaration =>
    exact (declaration_reports hrec owner x).finds c (.inr (.inr (.inl ⟨hk, h owner⟩)))
  | anonymousInitializer => exact h owner
  | _ => exact absurd hdeclaration (by decide)

/-- A part that a node looks into as a declaration. -/
theorem finds_declaration (hx : s.FindsIn d x c) (hn : x < n) (owner : Owner)
    (hk : s.forest.IsOf NodeKind.declarations x) : Finds d (s.tasks n (.declaration owner x)) c := by
  obtain ⟨m, rfl⟩ := Nat.exists_eq_add_of_lt hn
  obtain ⟨k, hdeclaration, hk⟩ := hk
  exact declaration_finds (tasks_proceed s (x + m)) owner hk hdeclaration
    (hx (x + m) (Nat.le_add_right x m) k hk)

theorem declarations_of_isDeclaration (h : s.isDeclaration x = true) :
    s.forest.IsOf NodeKind.declarations x := by
  unfold isDeclaration at h
  split at h
  · exact ⟨.classDeclaration, by decide, by assumption⟩
  · exact ⟨.functionDeclaration, by decide, by assumption⟩
  · exact ⟨.propertyDeclaration, by decide, by assumption⟩
  · exact ⟨.objectDeclaration, by decide, by assumption⟩
  · cases h

/-- A part that a node looks into as a statement. -/
theorem finds_statement (hf : s.forest.Linked)
    (hx : s.FindsIn d x (if s.standsAlone x then c else c.deeper)) (hn : x < n)
    (hdepth : s.standsAlone x = false → c.depth < maxDepth)
    (hk : s.forest.kind? (some x) = some (.node k)) (hcode : k ∈ NodeKind.codes)
    (hstray : ¬(k = .secondaryConstructor ∨ k = .anonymousInitializer)) :
    Finds d (s.tasks n (.statement x)) c := by
  obtain ⟨m, rfl⟩ := Nat.exists_eq_add_of_lt hn
  have hrec := tasks_proceed s (x + m)
  have hat := hx (x + m) (Nat.le_add_right x m) k hk
  refine (statement_reports hrec x).finds c ?_
  cases hdeclaration : s.isDeclaration x with
  | true =>
    obtain ⟨k', hdeclarations, hk'⟩ := declarations_of_isDeclaration hdeclaration
    cases hk.symm.trans hk'
    rw [standsAlone, hdeclaration, Bool.true_or, if_pos rfl] at hat
    exact .inl ⟨rfl, declaration_finds hrec .block hk hdeclarations hat⟩
  | false =>
    -- An assignment is gone through where it stands, any other expression one deeper.
    by_cases hassignment : k = .assignment
    · subst hassignment
      obtain ⟨a, hd⟩ := hf.exists_assignment hk
      rw [standsAlone, hk] at hat
      exact .inr (.inl ⟨rfl, a, hk, hd, by simpa using hat a hd⟩)
    · have hother : s.forest.kind? (some x) ≠ some (.node .assignment) := fun h =>
        hassignment (Kind.node.inj (Option.some.inj (hk.symm.trans h)))
      have halone : s.standsAlone x = false := by simp [standsAlone, hdeclaration, hother]
      rw [halone, if_neg Bool.false_ne_true] at hat
      have hfinds := nodeType_finds hf hrec hk hcode hstray hat
      exact .inr (.inr ⟨rfl, hother, (expression_reports hrec x).finds c ⟨hdepth halone, k, hk, hfinds⟩⟩)

end

end Setting

end Attribution

end KotlinTree
