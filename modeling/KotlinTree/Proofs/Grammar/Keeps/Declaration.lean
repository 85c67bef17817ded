import KotlinTree.Proofs.Grammar.Declaration
import KotlinTree.Proofs.Grammar.Keeps.Parameter

/-!
What lasts through bodies, classes and the other declarations, and through a whole file of them.
-/

namespace KotlinTree.Grammar

namespace Persists

variable {I : State → Prop}

theorem objectName (hI : Persists I) : Keeps I objectName :=
  .look fun _ => .look fun _ => .ite hI.bumpName (.pure _)

theorem propertyName (hI : Persists I) (cs : Array NodeId) : Keeps I (propertyName cs) := by
  refine .look fun atParen => .ite ?_ ?_
  · exact hI.unknown.forget.bind fun kept => .pure _
  · exact hI.bumpName.bind fun name => .pure _

/-- Modifiers with nothing after them are an operand. -/
theorem strayModifiers (hI : Persists I) (start : Nat) (cs : Array NodeId) :
    Leads I (strayModifiers start cs) (Operand I) := by
  refine .look fun k => .look fun startsLine => ?_
  extract_lets finish
  have hfinish (cs : Array NodeId) : Leads I (finish cs) (Operand I) := by
    refine (hI.operand rfl _ _ _).bind fun id => ?_
    exact (hI.operand_change cosmetic_recovered).bind fun _ => .yield fun _ hs => hs
  exact .ite (hI.unknown.forget.bind fun kept => hfinish _) (hfinish _)

/-- The words and names of a package are never the end of the file. -/
theorem packageDirective (hI : Persists I) : Leads (Amid I) packageDirective fun _ => I := by
  refine .look fun start => hI.bump.bind fun keyword => (hI.nameChain _ _).bind fun name => ?_
  exact (hI.eat (by decide)).bind fun semicolon => hI.node _ _ _ _ rfl

theorem importName (hI : Persists I) (cs : Array NodeId) : Keeps I (importName cs) := by
  refine .seeAt (by decide) fun atAs => .look fun startsLine => .seenWith ?_ (.pure _)
  exact hI.bump.bind fun keyword => hI.bumpName.bind fun name => .pure _

/-- Neither are those of an import. -/
theorem importDirective (hI : Persists I) : Leads (Amid I) importDirective fun _ => I := by
  refine .look fun start => hI.bump.bind fun keyword => (hI.nameChain _ _).bind fun path => ?_
  refine (hI.importName _).bind fun named => (hI.eat (by decide)).bind fun semicolon => ?_
  exact hI.node _ _ _ _ rfl

end Persists

/-- A property of states lasts through an accessor, where the tokens ahead say that there is one. -/
def KeepsAccessors (kept : State → Prop) (rec : Productions) : Prop :=
  Leads (fun s => kept s ∧ isAccessorAhead s.tokens = true) (accessor rec) fun _ => kept

namespace Carries

variable {rec : Productions} {ready kept blank : State → Prop}

/-- A step among statements goes on before the end of the file only. -/
theorem statementStep (h : Carries rec ready kept blank) (x : Array NodeId × Array NodeId) :
    Keeps kept (statementStep rec x) := by
  refine .lookKind fun k => ?_
  split
  iterate 2
    · exact .facingAny (.pure _)
  · exact .facing (by decide) (h.bump.bind fun semicolon => .pure _)
  · refine .facingAny ((h.recur .statement).bind fun statement => ?_)
    cases statement with
    | some statement => exact .pure _
    | none => exact h.unknown.forget.bind fun statement => .pure _

/-- So does a list of them. -/
theorem statementList (h : Carries rec ready kept blank) (cs : Array NodeId) :
    Keeps kept (statementList rec cs) := Keeps.repeating h.statementStep _

/-- The opening brace of a block is there before the block is read. -/
theorem block (h : Carries rec ready kept blank) : Leads (Amid kept) (block rec) fun _ => kept := by
  refine .look fun start => h.bump.bind fun opened => ?_
  refine (h.withTrailingLambda ?_ _).bind fun body => h.node _ _ _ _ rfl
  exact (h.statementList _).bind fun listed => (h.eat (by decide)).bind fun closed => .pure _

/-- The body of a branch is a block or a single statement. -/
theorem controlBody (h : Carries rec ready kept blank) : Keeps kept (controlBody rec) := by
  refine .ifAt (by decide) ?_ (h.recur .statement)
  exact h.block.bind fun body => .pure _

/-- What stands between the parameters of a lambda is taken as it is. -/
theorem lambdaParameterStep (h : Carries rec ready kept blank) (x : Array NodeId × Array NodeId) :
    Keeps kept (lambdaParameterStep rec x) := by
  refine .lookKind fun k => ?_
  split
  iterate 2
    · exact .facingAny (.pure _)
  · exact .facing (by decide) (h.bump.bind fun comma => .pure _)
  · refine .facingAny (h.parameter.bind fun parameter => ?_)
    cases parameter with
    | some parameter => exact .pure _
    | none => exact h.unknown.forget.bind fun kept => .pure _

/-- The parameters of a lambda end with an arrow. -/
theorem lambdaParameters (h : Carries rec ready kept blank) (cs : Array NodeId) :
    Keeps kept (lambdaParameters rec cs) := by
  refine .look fun s => .ite ?_ (.pure _)
  refine (Keeps.repeating h.lambdaParameterStep _).bind fun listed => ?_
  exact (h.eat (by decide)).bind fun arrow => .pure _

/-- A lambda is an operand. -/
theorem lambda (h : Carries rec ready kept blank) : Leads ready (lambda rec) (Operand kept) := by
  refine .look fun start => h.first.bind fun opened => ?_
  refine (h.withTrailingLambda ?_ _).bind fun body => h.operand rfl _ _ _
  refine (h.lambdaParameters _).bind fun parameters => (h.statementList _).bind fun listed => ?_
  exact (h.eat (by decide)).bind fun closed => .pure _

/-- A step among members may be a declaration, a separator or what is not understood. -/
theorem memberStep (h : Carries rec ready kept blank) (x : Array NodeId × Array NodeId) :
    Keeps kept (memberStep rec x) := by
  refine .lookKind fun k => ?_
  split
  iterate 2
    · exact .facingAny (.pure _)
  · exact .facing (by decide) (h.bump.bind fun semicolon => .pure _)
  · refine .facingAny ((h.recur .declaration).bind fun member => ?_)
    cases member with
    | some member => exact .pure _
    | none => exact h.unknown.forget.bind fun member => .pure _

/-- The opening brace of a class body is there before the body is read. -/
theorem classBody (h : Carries rec ready kept blank) :
    Leads (Amid kept) (classBody rec) fun _ => kept := by
  refine .look fun start => h.bump.bind fun opened => ?_
  refine (Keeps.repeating h.memberStep _).bind fun listed => (h.eat (by decide)).bind fun closed => ?_
  exact h.node _ _ _ _ rfl

theorem classBodyIfAny (h : Carries rec ready kept blank) : Keeps kept (classBodyIfAny rec) := by
  refine .ifAt (by decide) ?_ (.pure _)
  exact h.classBody.bind fun body => .pure _

/-- The arguments of a supertype stand in parentheses. -/
theorem supertypeArguments (h : Carries rec ready kept blank) (cs : Array NodeId) :
    Keeps kept (supertypeArguments rec cs) := by
  refine .seeAt (by decide) fun atParen => .look fun startsLine => .seenWith ?_ (.pure _)
  exact (h.again h.valueArgumentList).bind fun list => .pure _

/-- A delegate is an expression after its word. -/
theorem delegate (h : Carries rec ready kept blank) (cs : Array NodeId) : Keeps kept (delegate rec cs) := by
  refine .ifAt (by decide) (h.bump.bind fun word => ?_) (.pure _)
  exact (h.withTrailingLambda (h.recur .expression) _).bind fun object => .pure _

/-- A supertype is read only where a type begins. -/
theorem supertypeEntry (h : Carries rec ready kept blank) : Keeps kept (supertypeEntry rec) := by
  refine .look fun start => (h.recur (.typeReference none)).bind fun type => ?_
  cases type with
  | none => exact .pure _
  | some type =>
    refine (h.supertypeArguments _).bind fun listed => (h.delegate _).bind fun cs => ?_
    exact (h.node _ _ _ _ rfl).bind fun id => .pure _

theorem supertypeStep (h : Carries rec ready kept blank) (x : Array NodeId × Array NodeId) :
    Keeps kept (supertypeStep rec x) := by
  refine h.supertypeEntry.bind fun entry => ?_
  cases entry with
  | none => exact .pure _
  | some entry =>
    refine (h.eat (by decide)).bind fun comma => ?_
    cases comma with
    | some comma => exact .pure _
    | none => exact .pure _

/-- Supertypes are read one after another, with commas between them. -/
theorem supertypeList (h : Carries rec ready kept blank) (cs : Array NodeId) :
    Keeps kept (supertypeList rec cs) := by
  refine .ifAt (by decide) ?_ (.pure _)
  exact h.bump.bind fun colon => Keeps.repeating h.supertypeStep _

theorem primaryConstructor (h : Carries rec ready kept blank) : Keeps kept (primaryConstructor rec) := by
  refine .look fun start => (h.modifiers _).bind fun found => ?_
  refine (h.eat (by decide)).bind fun keyword => ?_
  exact (h.parametersIfAny _).bind fun parameters => h.node _ _ _ _ rfl

theorem primaryConstructorIfAny (h : Carries rec ready kept blank) :
    Keeps kept (primaryConstructorIfAny rec) := by
  refine .look fun startsLine => .look fun atParen => .look fun atKeyword => ?_
  refine .look fun atSign => .look fun atModifier => .ite ?_ (.pure _)
  exact h.primaryConstructor.bind fun constructor => .pure _

/-- A class is an operand. -/
theorem classDeclaration (h : Carries rec ready kept blank) (start : Nat) (cs : Array NodeId)
    (found : List Modifier) : Leads ready (classDeclaration rec start cs found) (Operand kept) := by
  refine .look fun isInterface => h.first.bind fun keyword => h.bumpName.bind fun name => ?_
  refine h.typeParametersIfAny.bind fun typeParameters => h.primaryConstructorIfAny.bind fun primary => ?_
  refine (h.supertypeList _).bind fun supertypes => h.classBodyIfAny.bind fun body => ?_
  exact h.operand rfl _ _ _

/-- So is an object. -/
theorem objectDeclaration (h : Carries rec ready kept blank) (start : Nat) (cs : Array NodeId)
    (found : List Modifier) : Leads ready (objectDeclaration rec start cs found) (Operand kept) := by
  refine h.first.bind fun keyword => h.objectName.bind fun name => ?_
  refine (h.supertypeList _).bind fun supertypes => h.classBodyIfAny.bind fun body => ?_
  exact h.operand rfl _ _ _

/-- A receiver is read only if a point comes after it. -/
theorem receiverIfAny (h : Carries rec ready kept blank) (cs : Array NodeId) :
    Keeps kept (receiverIfAny rec cs) := by
  refine .look fun s => .ite (.pure _) ((h.recur (.typeReference _)).bind fun receiver => ?_)
  refine .ifAt (by decide) (h.bump.bind fun point => ?_) ((h.eat (by decide)).bind fun dot => .pure _)
  cases receiver with
  | none => exact .bind (.pure _) fun _ => .pure _
  | some receiver => exact (h.change receiver _ cosmetic_markNullable).bind fun _ => .pure _

/-- A constraint has a name, a colon and a type. -/
theorem constraintStep (h : Carries rec ready kept blank) (cs : Array NodeId) :
    Keeps kept (constraintStep rec cs) := by
  refine h.bumpName.bind fun name => (h.writtenType _).bind fun typed => .ite (.pure _) ?_
  refine (h.eat (by decide)).bind fun comma => ?_
  cases comma with
  | some comma => exact .pure _
  | none => exact .pure _

theorem whereClauseIfAny (h : Carries rec ready kept blank) (cs : Array NodeId) :
    Keeps kept (whereClauseIfAny rec cs) := by
  refine .ifAt (by decide) ?_ (.pure _)
  exact h.bump.bind fun keyword => Keeps.repeating h.constraintStep _

/-- The body of a function is read after its sign or its brace. -/
theorem functionBody (h : Carries rec ready kept blank) (cs : Array NodeId) :
    Keeps kept (functionBody rec cs) := by
  refine .ifAt (by decide) ?_ (.ifAt (by decide) ?_ (.pure _))
  · exact h.block.bind fun body => .pure _
  · exact h.bump.bind fun equals => (h.recur .expression).bind fun body => .pure _

/-- A function is an operand. -/
theorem functionDeclaration (h : Carries rec ready kept blank) (start : Nat) (cs : Array NodeId)
    (found : List Modifier) : Leads ready (functionDeclaration rec start cs found) (Operand kept) := by
  refine h.first.bind fun keyword => h.typeParametersIfAny.bind fun typeParameters => ?_
  refine (h.receiverIfAny _).bind fun receiver => h.bumpName.bind fun name => ?_
  refine (h.parametersIfAny _).bind fun parameters => (h.writtenType _).bind fun returned => ?_
  refine (h.whereClauseIfAny _).bind fun cs => (h.functionBody _).bind fun body => ?_
  exact h.operand rfl _ _ _

/-- An accessor takes the token after its modifiers, whatever it is. -/
theorem accessor (h : Carries rec ready kept blank) {P Q : State → Prop}
    (hmodifiers : Leads P (Grammar.modifiers rec #[]) fun _ => Q)
    (hword : Leads Q Grammar.bump fun _ => kept) : Leads P (accessor rec) fun _ => kept := by
  refine .look fun start => hmodifiers.bind fun found => hword.bind fun word => ?_
  refine .seeAt (by decide) fun atParen => .look fun startsLine => ?_
  extract_lets afterParameters
  have hafter (x : Array NodeId × Array NodeId) : Keeps kept (afterParameters x) := by
    refine (h.writtenType _).bind fun returned => (h.functionBody _).bind fun body => ?_
    exact h.node _ _ _ _ rfl
  exact .seenWith ((h.parameterList _).bind hafter) (.bind (.pure _) hafter)

/-- An accessor is read only where its word is not a name. -/
theorem accessorStep (haccessor : KeepsAccessors kept rec) (cs : Array NodeId) :
    Keeps kept (accessorStep rec cs) := by
  refine .know fun s => .branch (fun hahead => ?_) fun _ => .of_imp (.pure _) fun _ ht => ht.1
  have hthere (t : State) (ht : kept t ∧ t = s) : kept t ∧ isAccessorAhead t.tokens = true :=
    ⟨ht.1, ht.2 ▸ hahead⟩
  exact (Leads.of_imp haccessor hthere).bind fun accessor => .pure _

/-- A value is read after its sign, and a delegate after its word. -/
theorem propertyValue (h : Carries rec ready kept blank) (cs : Array NodeId) :
    Keeps kept (propertyValue rec cs) := by
  refine .ifAt (by decide) ?_ (h.assignedValue _)
  exact h.bump.bind fun word => (h.recur .expression).bind fun object => .pure _

/-- A property is an operand. -/
theorem propertyDeclaration (h : Carries rec ready kept blank)
    (haccessor : KeepsAccessors kept rec) (start : Nat) (cs : Array NodeId)
    (found : List Modifier) : Leads ready (propertyDeclaration rec start cs found) (Operand kept) := by
  refine .look fun isVar => h.first.bind fun keyword => h.typeParametersIfAny.bind fun typeParameters => ?_
  refine (h.receiverIfAny _).bind fun receiver => (h.propertyName _).bind fun name => ?_
  refine (h.writtenType _).bind fun typed => (h.propertyValue _).bind fun value => ?_
  refine (Keeps.repeating (accessorStep haccessor) _).bind fun cs => ?_
  exact (h.eat (by decide)).bind fun semicolon => h.operand rfl _ _ _

/-- A constructor hands on arguments after one of two words. -/
theorem constructorCall (h : Carries rec ready kept blank) (cs : Array NodeId) :
    Keeps kept (constructorCall rec cs) := by
  refine .ifAt (by decide) (h.bump.bind fun colon => ?_) (.pure _)
  exact (h.withTrailingLambda (h.recur .expression) _).bind fun call => .pure _

/-- A secondary constructor is an operand. -/
theorem secondaryConstructor (h : Carries rec ready kept blank) (start : Nat) (cs : Array NodeId)
    (found : List Modifier) : Leads ready (secondaryConstructor rec start cs found) (Operand kept) := by
  refine h.first.bind fun name => (h.parametersIfAny _).bind fun parameters => ?_
  refine (h.constructorCall _).bind fun cs => (h.functionBody _).bind fun body => ?_
  exact h.operand rfl _ _ _

/-- An initializer is read where a brace comes after its word. -/
theorem initializer (h : Carries rec ready kept blank) (start : Nat) (cs : Array NodeId) :
    Leads (fun s => ready s ∧ s.nextKind = .openBrace) (initializer rec start cs) (Operand kept) := by
  refine (h.first.bumpToward (by decide)).bind fun word => ?_
  exact h.block.bind fun body => h.operand rfl _ _ _

/-- A step of a file reads one of its parts. -/
theorem fileStep (h : Carries rec ready kept blank) (parts : FileParts) : Keeps kept (fileStep rec parts) := by
  refine .lookKind fun k => ?_
  split
  · exact .facingAny (.pure _)
  · exact .facing (by decide) (h.bump.bind fun semicolon => .pure _)
  · exact .facing (by decide) (h.importDirective.bind fun directive => .pure _)
  · refine .facingAny ((h.recur .declaration).bind fun declaration => ?_)
    cases declaration with
    | some declaration => exact .pure _
    | none => exact h.unknown.forget.bind fun declaration => .pure _

end Carries

end KotlinTree.Grammar
