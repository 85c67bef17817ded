import KotlinTree.Token.Kind

/-!
Kinds of tree node: a leaf is of its token's kind, an inner node of a kind of its own.
-/

namespace KotlinTree

/-- What an inner node of a tree is. -/
inductive NodeKind where
  | sourceFile | packageDirective | importDirective | classDeclaration | objectDeclaration
  | classBody | primaryConstructor | parameter | supertypeEntry | functionDeclaration
  | propertyDeclaration | modifierList | typeReference | typeArgumentList | typeParameterList
  | anonymousInitializer | secondaryConstructor | propertyAccessor | annotationUse | block
  | returnStatement | assignment | ifExpression | propertyAccessExpression | callExpression
  | valueArgumentList | valueArgument | thisExpression | superExpression
  | parenthesizedExpression | binaryExpression | elvisExpression | prefixUnaryExpression
  | postfixUnaryExpression | asExpression | isExpression | lambdaExpression | callableReference
  | indexingExpression | jumpExpression | unknown
  deriving DecidableEq, Repr, Inhabited

namespace NodeKind

/-- The number of a kind, past those of the token kinds. -/
def code : NodeKind → Nat
  | .sourceFile => 300
  | .packageDirective => 301
  | .importDirective => 302
  | .classDeclaration => 303
  | .objectDeclaration => 304
  | .classBody => 305
  | .primaryConstructor => 306
  | .parameter => 307
  | .supertypeEntry => 308
  | .functionDeclaration => 309
  | .propertyDeclaration => 310
  | .modifierList => 311
  | .typeReference => 312
  | .typeArgumentList => 313
  | .typeParameterList => 314
  | .anonymousInitializer => 315
  | .secondaryConstructor => 316
  | .propertyAccessor => 317
  | .annotationUse => 318
  | .block => 320
  | .returnStatement => 321
  | .assignment => 322
  | .ifExpression => 323
  | .propertyAccessExpression => 330
  | .callExpression => 331
  | .valueArgumentList => 332
  | .valueArgument => 333
  | .thisExpression => 334
  | .superExpression => 335
  | .parenthesizedExpression => 336
  | .binaryExpression => 337
  | .elvisExpression => 338
  | .prefixUnaryExpression => 339
  | .postfixUnaryExpression => 340
  | .asExpression => 341
  | .isExpression => 342
  | .lambdaExpression => 343
  | .callableReference => 344
  | .indexingExpression => 345
  | .jumpExpression => 346
  | .unknown => 399

/-- All kinds in the order of their numbers. -/
def all : List NodeKind :=
  [.sourceFile, .packageDirective, .importDirective, .classDeclaration, .objectDeclaration,
    .classBody, .primaryConstructor, .parameter, .supertypeEntry, .functionDeclaration,
    .propertyDeclaration, .modifierList, .typeReference, .typeArgumentList, .typeParameterList,
    .anonymousInitializer, .secondaryConstructor, .propertyAccessor, .annotationUse, .block,
    .returnStatement, .assignment, .ifExpression, .propertyAccessExpression, .callExpression,
    .valueArgumentList, .valueArgument, .thisExpression, .superExpression,
    .parenthesizedExpression, .binaryExpression, .elvisExpression, .prefixUnaryExpression,
    .postfixUnaryExpression, .asExpression, .isExpression, .lambdaExpression, .callableReference,
    .indexingExpression, .jumpExpression, .unknown]

/-- The name of a kind in listings. -/
def name : NodeKind → String
  | .sourceFile => "SourceFile"
  | .packageDirective => "PackageDirective"
  | .importDirective => "ImportDirective"
  | .classDeclaration => "ClassDeclaration"
  | .objectDeclaration => "ObjectDeclaration"
  | .classBody => "ClassBody"
  | .primaryConstructor => "PrimaryConstructor"
  | .parameter => "Parameter"
  | .supertypeEntry => "SupertypeEntry"
  | .functionDeclaration => "FunctionDeclaration"
  | .propertyDeclaration => "PropertyDeclaration"
  | .modifierList => "ModifierList"
  | .typeReference => "TypeReference"
  | .typeArgumentList => "TypeArgumentList"
  | .typeParameterList => "TypeParameterList"
  | .anonymousInitializer => "AnonymousInitializer"
  | .secondaryConstructor => "SecondaryConstructor"
  | .propertyAccessor => "PropertyAccessor"
  | .annotationUse => "Annotation"
  | .block => "Block"
  | .returnStatement => "ReturnStatement"
  | .assignment => "Assignment"
  | .ifExpression => "IfExpression"
  | .propertyAccessExpression => "PropertyAccessExpression"
  | .callExpression => "CallExpression"
  | .valueArgumentList => "ValueArgumentList"
  | .valueArgument => "ValueArgument"
  | .thisExpression => "ThisExpression"
  | .superExpression => "SuperExpression"
  | .parenthesizedExpression => "ParenthesizedExpression"
  | .binaryExpression => "BinaryExpression"
  | .elvisExpression => "ElvisExpression"
  | .prefixUnaryExpression => "PrefixUnaryExpression"
  | .postfixUnaryExpression => "PostfixUnaryExpression"
  | .asExpression => "AsExpression"
  | .isExpression => "IsExpression"
  | .lambdaExpression => "LambdaExpression"
  | .callableReference => "CallableReference"
  | .indexingExpression => "IndexingExpression"
  | .jumpExpression => "JumpExpression"
  | .unknown => "Unknown"

def ofCode? (n : Nat) : Option NodeKind := all.find? fun k => k.code = n

@[simp] theorem ofCode?_code (k : NodeKind) : ofCode? k.code = some k := by
  cases k <;> rfl

end NodeKind

/-- What a node of a tree is. -/
inductive Kind where
  | token (kind : TokenKind)
  | node (kind : NodeKind)
  deriving DecidableEq, Repr, Inhabited

namespace Kind

def code : Kind → Nat
  | .token k => k.code
  | .node k => k.code

/-- The name of the kind with a number, as far as it tells inner nodes apart. -/
def nameOfCode (n : Nat) : String :=
  ((NodeKind.ofCode? n).map NodeKind.name).getD "Token"

def name : Kind → String
  | .token _ => "Token"
  | .node k => k.name

end Kind

end KotlinTree
