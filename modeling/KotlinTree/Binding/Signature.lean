import KotlinTree.Binding.Site
import KotlinTree.Syntax.Forest
import KotlinTree.Types.Basic

/-!
Signatures of declared members, from their written types and from initializers that are plain, such as
literals.
-/

namespace KotlinTree

/-- The class of a number by its text: an end that says so, else a point or an exponent. -/
def numberClass (text : String) : String :=
  let lower := text.toList.map Char.toLower
  -- A radix has letters among its digits, which say nothing of a type.
  let hasRadix := "0x".toList.isPrefixOf lower || "0b".toList.isPrefixOf lower
  if lower.getLast? = some 'l' then "kotlin.Long"
  else if !hasRadix && lower.getLast? = some 'f' then "kotlin.Float"
  else if !hasRadix && (lower.contains '.' || lower.contains 'e') then "kotlin.Double"
  else "kotlin.Int"

namespace Forest

/-- The type of a leaf that is a literal. -/
def literalType? (f : Forest) (id : Option NodeId) : Option Ty :=
  match f.kind? id with
  | some (.token .numericLiteral) => some (.of (numberClass (f.leafText id)))
  | some (.token .stringLiteral) => some (.of Ty.stringName)
  | some (.token .characterLiteral) => some (.of "kotlin.Char")
  | some (.token .trueKeyword) | some (.token .falseKeyword) => some (.of Ty.booleanName)
  | some (.token .nullKeyword) => some .null
  | _ => none

end Forest

/-- The name of constructors as members. -/
def constructorName : String := "<init>"

/-- Operators that yield a truth value. -/
def isTruthOperator : TokenKind → Bool
  | .equalsEquals | .bangEquals | .equalsEqualsEquals | .bangEqualsEquals | .less | .greater
  | .lessEquals | .greaterEquals | .andAnd | .orOr => true
  | _ => false

/-- What signatures of a file are read from. -/
structure SignatureSource where
  forest : Forest
  scope : FileScope
  isClass : String → Bool

namespace SignatureSource

/-- The type that is written at a node; unknown when none is. -/
def writtenType (s : SignatureSource) (id : Option NodeId) (context : TypeContext) : Ty :=
  s.scope.resolveType s.forest id context s.isClass

/-- The type of an initializer that is plain: a literal, a test, or the construction of a class. -/
def initializerType (s : SignatureSource) (enclosing : List String) (id : NodeId) : Ty :=
  match s.forest.literalType? (some id) with
  | some type => type
  | none =>
    match s.forest.kind? (some id), s.forest.data (some id) with
    -- Nodes inside have smaller numbers, so the recursion ends.
    | some (.node .parenthesizedExpression), .parenthesized (some inner) =>
      if _ : inner < id then s.initializerType enclosing inner else .unknown
    | some (.node .prefixUnaryExpression), .unary unary =>
      -- Negation is a truth value; any other operator keeps the type of its operand.
      if unary.operator = .bang then .of Ty.booleanName
      else match unary.operand with
        | some operand => if _ : operand < id then s.initializerType enclosing operand else .unknown
        | none => .unknown
    | some (.node .isExpression), _ => .of Ty.booleanName
    | some (.node .binaryExpression), .binary binary =>
      if isTruthOperator binary.operator then .of Ty.booleanName else .unknown
    | some (.node .callExpression), .call call =>
      -- Only a name that means a class is a construction here.
      match s.forest.chainSegments? call.callee with
      | some segments =>
        ((s.scope.resolveClass? segments enclosing s.isClass).map .of).getD .unknown
      | none => .unknown
    | _, _ => .unknown
termination_by id

/-- The type of a property or an expression body: as it is written, else as its value shows. -/
def typeOrInitializer (s : SignatureSource) (typeRef value : Option NodeId)
    (context : TypeContext) : Ty :=
  if typeRef.isSome then s.writtenType typeRef context
  else (value.map (s.initializerType context.enclosing)).getD .unknown

/-- The parameters among some nodes. -/
def parametersOf (s : SignatureSource) (nodes : Array NodeId) : List Parameter :=
  nodes.toList.filterMap fun id =>
    match s.forest.data (some id) with
    | .parameter parameter => some parameter
    | _ => none

def parameterTypes (s : SignatureSource) (parameters : List Parameter) (context : TypeContext) :
    List Ty :=
  parameters.map fun p => s.writtenType p.typeRef context

/-- A receiver type, if one is written. -/
def receiverType (s : SignatureSource) (typeRef : Option NodeId) (context : TypeContext) :
    Option Ty :=
  typeRef.map fun id => s.writtenType (some id) context

/-- The member that a property declares. -/
def property? (s : SignatureSource) (owner : String) (context : TypeContext)
    (declaration : PropertyDeclaration) : Option Member :=
  declaration.name.map fun name =>
    { name := s.forest.nameText (some name)
      kind := .field
      type := s.typeOrInitializer declaration.typeRef declaration.initializer context
      owner
      receiver := s.receiverType declaration.receiverType context }

/-- What a function returns: as it is written, else as an expression body shows, else nothing of
interest. -/
def returnType (s : SignatureSource) (declaration : FunctionDeclaration) (context : TypeContext) :
    Ty :=
  -- Only an expression body can tell a result that is not written.
  if declaration.returnType.isSome || declaration.isExpressionBody then
    s.typeOrInitializer declaration.returnType declaration.body context
  else .of Ty.unitName

/-- The member that a function declares. -/
def function? (s : SignatureSource) (owner : String) (context : TypeContext)
    (declaration : FunctionDeclaration) : Option Member :=
  let parameters := s.parametersOf declaration.parameters
  declaration.name.map fun name =>
    { name := s.forest.nameText (some name)
      kind := .method
      type := s.returnType declaration context
      owner
      parameters := s.parameterTypes parameters context
      isVararg := parameters.any fun p => p.modifiers.contains .varargWord
      receiver := s.receiverType declaration.receiverType context }

/-- A constructor with parameters of some types. -/
def constructor (owner : String) (parameters : List Ty) : Member :=
  { name := constructorName, kind := .constructor, type := .of owner, owner, parameters }

/-- The member that a node declares, if it declares one. -/
def member? (s : SignatureSource) (owner : String) (context : TypeContext) (id : NodeId) :
    Option Member :=
  match s.forest.kind? (some id), s.forest.data (some id) with
  | some (.node .propertyDeclaration), .property declaration => s.property? owner context declaration
  | some (.node .functionDeclaration), .function declaration =>
    -- The type parameters of the function are in scope after those of the class.
    s.function? owner { context with typeParameters :=
      context.typeParameters ++ s.forest.typeParameterNames declaration.typeParameters } declaration
  | some (.node .secondaryConstructor), .function declaration =>
    -- What is variable about its parameters is not kept for a constructor.
    some (constructor owner (s.parameterTypes (s.parametersOf declaration.parameters) context))
  | _, _ => none

/-- What a primary constructor declares: itself, and the parameters that are properties. -/
def primaryMembers (s : SignatureSource) (owner : String) (context : TypeContext)
    (id : Option NodeId) : List Member :=
  match s.forest.data id with
  | .primaryConstructor nodes =>
    let parameters := s.parametersOf nodes
    -- A parameter with a keyword is a property too, with the type that is written.
    let fields := (parameters.filter fun p => p.bindingKeyword.isSome && p.name.isSome).map fun p =>
      ({ name := s.forest.nameText p.name, kind := .field, owner
         type := s.writtenType p.typeRef context } : Member)
    constructor owner (s.parameterTypes parameters context) :: fields
  | _ => []

/-- The members that a class and the classes in it declare, in order. A member that is an extension
needs two receivers and is left out. -/
def classMembers (s : SignatureSource) (names : List (NodeId × String)) (enclosing : List String)
    (id : NodeId) : List Member :=
  match names.lookup id, s.forest.data (some id) with
  | some owner, .classDeclaration declaration =>
    -- The class is around itself, so that its nested classes are found by their simple names.
    let enclosing := enclosing ++ [owner]
    let context : TypeContext :=
      { enclosing, typeParameters := s.forest.typeParameterNames declaration.typeParameters }
    s.primaryMembers owner context declaration.primaryConstructor ++
      (s.forest.classMembers declaration.body).toList.flatMap fun member =>
        match s.forest.kind? (some member) with
        | some (.node .classDeclaration) | some (.node .objectDeclaration) =>
          if _ : member < id then s.classMembers names enclosing member else []
        -- Members that are no classes belong to this class, unless they extend another.
        | _ => (s.member? owner context member).toList.filter fun m => m.receiver.isNone
  | _, _ => []
termination_by id

end SignatureSource

end KotlinTree
