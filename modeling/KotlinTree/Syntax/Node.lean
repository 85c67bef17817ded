import KotlinTree.Syntax.Kind
import KotlinTree.Interner
import KotlinTree.Span

/-!
Nodes of a tree, and what each kind of node knows about its parts.
-/

namespace KotlinTree

/-- The place of a node in its forest. -/
abbrev NodeId := Nat

/-- Words in front of a declaration that change its meaning. -/
inductive Modifier where
  | openWord | abstractWord | dataWord | privateWord | publicWord | internalWord
  | protectedWord | overrideWord | finalWord | sealedWord | innerWord | enumWord | constWord
  | lateinitWord | companionWord | varargWord
  deriving DecidableEq, Repr

namespace Modifier

/-- The modifier that a keyword is. -/
def ofToken? : TokenKind → Option Modifier
  | .openKeyword => some .openWord
  | .abstractKeyword => some .abstractWord
  | .dataKeyword => some .dataWord
  | .privateKeyword => some .privateWord
  | .publicKeyword => some .publicWord
  | .internalKeyword => some .internalWord
  | .protectedKeyword => some .protectedWord
  | .overrideKeyword => some .overrideWord
  | .finalKeyword => some .finalWord
  | .sealedKeyword => some .sealedWord
  | .innerKeyword => some .innerWord
  | .enumKeyword => some .enumWord
  | .constKeyword => some .constWord
  | .lateinitKeyword => some .lateinitWord
  | .companionKeyword => some .companionWord
  | _ => none

end Modifier

/-- Kinds of class. -/
inductive ClassKind where
  | plainClass | interface | object | companionObject
  deriving DecidableEq, Repr, Inhabited

def ClassKind.name : ClassKind → String
  | .plainClass => "Class"
  | .interface => "Interface"
  | .object => "Object"
  | .companionObject => "CompanionObject"

/-- A token in the tree: the trivia before it, its text, and the name it stands for. -/
structure Leaf where
  leading : String
  text : String
  atom : Atom
  deriving DecidableEq, Repr, Inhabited

/-- The text of a leaf with the trivia before it. -/
def Leaf.written (leaf : Leaf) : String := leaf.leading ++ leaf.text

structure SourceFile where
  fileName : String
  package : Option NodeId
  imports : Array NodeId
  declarations : Array NodeId
  endOfFile : NodeId
  deriving DecidableEq

structure ImportDirective where
  path : Option NodeId
  isStar : Bool
  localName : Option NodeId
  deriving DecidableEq

structure ClassDeclaration where
  kind : ClassKind
  modifiers : List Modifier
  name : Option NodeId
  typeParameters : Option NodeId
  primaryConstructor : Option NodeId
  supertypes : Array NodeId
  body : Option NodeId
  deriving DecidableEq

structure Parameter where
  modifiers : List Modifier
  bindingKeyword : Option NodeId
  isVar : Bool
  name : Option NodeId
  typeRef : Option NodeId
  defaultValue : Option NodeId
  deriving DecidableEq

structure SupertypeEntry where
  typeRef : NodeId
  arguments : Option NodeId
  deriving DecidableEq

/-- A function, a secondary constructor or an accessor of a property. -/
structure FunctionDeclaration where
  modifiers : List Modifier
  receiverType : Option NodeId
  name : Option NodeId
  typeParameters : Option NodeId
  parameters : Array NodeId
  returnType : Option NodeId
  body : Option NodeId
  isExpressionBody : Bool
  deriving DecidableEq

structure PropertyDeclaration where
  modifiers : List Modifier
  isVar : Bool
  receiverType : Option NodeId
  name : Option NodeId
  typeRef : Option NodeId
  initializer : Option NodeId
  deriving DecidableEq

/-- A written type; a function type has no name. -/
structure TypeReference where
  name : Option NodeId
  typeArguments : Array NodeId
  isNullable : Bool
  deriving DecidableEq

structure Assignment where
  target : NodeId
  operator : TokenKind
  value : Option NodeId
  deriving DecidableEq

structure IfExpression where
  condition : Option NodeId
  thenBranch : Option NodeId
  elseBranch : Option NodeId
  deriving DecidableEq

/-- A name after a point; the name may be missing. -/
structure Access where
  expression : NodeId
  operator : NodeId
  name : Option NodeId
  isNullSafe : Bool
  deriving DecidableEq

structure Call where
  callee : NodeId
  typeArguments : Array NodeId
  argumentList : Option NodeId
  arguments : Array NodeId
  trailingLambda : Option NodeId
  deriving DecidableEq

structure ValueArgument where
  name : Option NodeId
  expression : Option NodeId
  isSpread : Bool
  deriving DecidableEq

/-- The keyword for the current object, or for it as its superclass sees it. -/
structure SelfReference where
  keyword : NodeId
  label : Option NodeId
  superType : Option NodeId
  deriving DecidableEq

structure BinaryExpression where
  left : NodeId
  operator : TokenKind
  operatorToken : NodeId
  right : Option NodeId
  deriving DecidableEq

structure UnaryExpression where
  operator : TokenKind
  operand : Option NodeId
  deriving DecidableEq

/-- A cast or a test of a type. -/
structure TypeOperation where
  expression : NodeId
  operator : TokenKind
  typeRef : Option NodeId
  deriving DecidableEq

structure Lambda where
  parameters : Array NodeId
  statements : Array NodeId
  deriving DecidableEq

structure CallableReference where
  receiver : Option NodeId
  name : Option NodeId
  deriving DecidableEq

/-- What a node knows about its parts. -/
inductive NodeData where
  | plain
  | leaf (leaf : Leaf)
  | sourceFile (file : SourceFile)
  | package (name : Option NodeId)
  | importDirective (directive : ImportDirective)
  | classDeclaration (declaration : ClassDeclaration)
  | classBody (members : Array NodeId)
  | primaryConstructor (parameters : Array NodeId)
  | parameter (parameter : Parameter)
  | supertypeEntry (entry : SupertypeEntry)
  | function (declaration : FunctionDeclaration)
  | property (declaration : PropertyDeclaration)
  | typeReference (reference : TypeReference)
  | block (statements : Array NodeId)
  | returnStatement (expression : Option NodeId)
  | assignment (assignment : Assignment)
  | ifExpression (expression : IfExpression)
  | access (access : Access)
  | call (call : Call)
  | valueArgument (argument : ValueArgument)
  | selfReference (reference : SelfReference)
  | binary (expression : BinaryExpression)
  | unary (expression : UnaryExpression)
  | typeOperation (operation : TypeOperation)
  | parenthesized (expression : Option NodeId)
  | lambda (lambda : Lambda)
  | callableReference (reference : CallableReference)
  deriving DecidableEq, Inhabited

/-- A node of a forest. -/
structure Node where
  kind : Kind
  span : Span
  data : NodeData := .plain
  children : Array NodeId := #[]
  parent : Option NodeId := none
  /-- An access that yields nothing when what it is on is missing. -/
  isNullSafe : Bool := false
  /-- Source that the grammar does not cover, kept as it is. -/
  isRecovered : Bool := false
  /-- A leaf whose text has been replaced. -/
  isRewritten : Bool := false
  deriving Inhabited

end KotlinTree
