import KotlinTree.Attribution.Call

/-!
Declarations: parameters, functions, properties, classes, and source that is kept as it is.
-/

namespace KotlinTree.Attribution

/-- The first type that is no interface; by default the root of all classes. -/
def firstSuperclass (env : Environment) (supertypes : List Ty) : Ty :=
  (supertypes.find? fun t => !t.isUnknown && env.classKind? t ≠ some .interface).getD
    (.of Ty.anyName)

/-- What an extension is applied to as an implicit receiver. -/
def Frame.ofReceiver (type : Ty) (name : String) : Frame :=
  { type, label := if name = "" then none else some name, isClass := false, superclass := .unknown,
    hidesOuter := false }

namespace Setting

/-- The node after the first keyword of a kind among the children of a node. -/
def nodeAfter? (s : Setting) (id : NodeId) (keyword : TokenKind) : Option NodeId :=
  match (s.forest.children (some id)).toList.dropWhile
      fun child => s.forest.kind? (some child) ≠ some (.token keyword) with
  | _ :: next :: _ => some next
  | _ => none

/-- The children of a kind. -/
def childrenOf (s : Setting) (id : Option NodeId) (kind : NodeKind) : List NodeId :=
  (s.forest.children id).toList.filter fun child => s.forest.kind? (some child) = some (.node kind)

/-- The value of a block is that of its last statement. -/
def block (s : Setting) (rec : Tasks) (id : NodeId) : Attributing Ty := do
  match s.forest.data (some id) with
  | .block statements =>
    let step (_ : Ty) (id : NodeId) : Attributing Ty := rec.statement (some id)
    let last ← inScope (s.through step (.of Ty.unitName) statements.toList)
    recordType id last
    return last
  | _ => return .unknown

/-- Declares a parameter. In a primary constructor it can be a property of `property`. -/
def parameter (s : Setting) (rec : Tasks) (property : Option Owner) (id : NodeId) :
    Attributing Ty := do
  match s.forest.data (some id) with
  | .parameter parameter =>
    let written ← s.typeUse parameter.typeRef
    let type : Ty :=
      -- Inside, the parameter is an array, whatever its elements are.
      if parameter.modifiers.contains .varargWord then .of "kotlin.Array" else written
    let _ ← rec.typeOf parameter.defaultValue
    let name := s.forest.nameText parameter.name
    declareLocal name type
    -- A parameter without a name is no variable, but has a type.
    if name ≠ "" then
      recordVariable <|
        match property, parameter.bindingKeyword with
        | some owner, some _ => { name, type, owner := owner.name?, kind := .property, node := id }
        | _, _ => { name, type, owner := none, kind := .parameter, node := id }
    recordType id type
    return type
  | _ => return .unknown

def parameters (s : Setting) (rec : Tasks) (property : Option Owner) (ids : Array NodeId) :
    Attributing Unit :=
  ids.toList.forM fun id => do let _ ← s.parameter rec property id

/-- What a body yields: its value when it is an expression, nothing when it is a block. -/
def body (s : Setting) (rec : Tasks) (declaration : FunctionDeclaration) : Attributing Ty := do
  match declaration.body with
  | none => return .unknown
  | some id =>
    if declaration.isExpressionBody then rec.typeOf (some id)
    else
      let _ ← s.block rec id
      return .of Ty.unitName

/-- The call of another constructor by a secondary one. -/
def delegation (s : Setting) (rec : Tasks) (id : NodeId) (body : Option NodeId) :
    Attributing Unit := do
  if s.forest.kind? (some id) = some (.node .secondaryConstructor) then
    -- The body may be a call as well, and is not one of them.
    rec.types ((s.childrenOf (some id) .callExpression).filter (some · ≠ body))

/-- A function or a secondary constructor. A function is visible in its own body. -/
def function (s : Setting) (rec : Tasks) (owner : Owner) (id : NodeId) : Attributing Unit := do
  match s.forest.data (some id) with
  | .function declaration =>
    let name := s.forest.nameText declaration.name
    let isLocal := owner = .block ∧ s.forest.kind? (some id) = some (.node .functionDeclaration)
    withTypeParameters (s.forest.typeParameterNames declaration.typeParameters) do
      let receiver ← s.typeUse? declaration.receiverType
      let result ← s.typeUse? declaration.returnType
      -- Before the body, so that it can call itself; its result may not be known yet.
      if isLocal then declareLocalFunction name (result.getD .unknown)
      let value ← inScope do
        s.parameters rec none declaration.parameters
        inFrame (receiver.map (Frame.ofReceiver · name)) do
          s.delegation rec id declaration.body
          s.body rec declaration
      -- Only an expression body tells the result; what is written stays.
      if result.isNone && declaration.isExpressionBody then
        if isLocal then declareLocalFunction name value
        else match owner with
          | .named owner => if name ≠ "" then learn owner name value
          | _ => return
  | _ => return

/-- An accessor of a property, in which the property's value has a name. -/
def accessor (s : Setting) (rec : Tasks) (type : Ty) (id : NodeId) : Attributing Unit := do
  match s.forest.data (some id) with
  | .function declaration =>
    inScope do
      declareLocal "field" type
      declaration.parameters.toList.forM fun id => do
        -- A parameter without a type has that of the property.
        if (← s.parameter rec none id).isUnknown then
          match s.forest.data (some id) with
          | .parameter parameter => declareLocal (s.forest.nameText parameter.name) type
          | _ => return
      let _ ← s.typeUse declaration.returnType
      let _ ← s.body rec declaration
  | _ => return

/-- The names of a destructured value: identifiers that are not part of a written type. -/
def destructuredNames (s : Setting) (id : NodeId) : List NodeId :=
  let step : List NodeId × Bool → NodeId → List NodeId × Bool := fun (names, afterColon) token =>
    match s.forest.kind? (some token) with
    | some (.token .colon) => (names, true)
    | some (.token .comma) => (names, false)
    | some (.token .identifier) => (if afterColon then names else names ++ [token], afterColon)
    | _ => (names, afterColon)
  match (s.childrenOf (some id) .unknown).head? with
  -- The first kept source holds the names; a type after the colon is kept source as well.
  | some names => ((s.forest.children (some names)).toList.foldl step ([], false)).1
  | none => []

/-- The names of a destructured value are local variables of which nothing is known. -/
def destructuring (s : Setting) (id : NodeId) : Attributing Unit :=
  (s.destructuredNames id).forM fun token => do
    let name := s.forest.nameText (some token)
    declareLocal name .unknown
    recordVariable
      { name, type := .unknown, owner := none, kind := .localVariable, node := token }

/-- Declares a property where it stands. -/
def declareProperty (owner : Owner) (isWritten : Bool) (name : String) (type : Ty)
    (node : NodeId) : Attributing Unit := do
  match owner with
  | .named owner =>
    if !isWritten then learn owner name type
    recordVariable { name, type, owner := some owner, kind := .property, node }
  | .anonymous => recordVariable { name, type, owner := none, kind := .property, node }
  | .block =>
    declareLocal name type
    recordVariable { name, type, owner := none, kind := .localVariable, node }

/-- A property has the type that is written, else that of its initializer. -/
def property (s : Setting) (rec : Tasks) (owner : Owner) (id : NodeId) : Attributing Unit := do
  match s.forest.data (some id) with
  | .property declaration =>
    let typeParameters := (s.childrenOf (some id) .typeParameterList).head?
    withTypeParameters (s.forest.typeParameterNames typeParameters) do
      let receiver ← s.typeUse? declaration.receiverType
      let written ← s.typeUse? declaration.typeRef
      let type ← inFrame (receiver.map (Frame.ofReceiver · "")) do
        let initial ← rec.typeOf declaration.initializer
        -- What the property is delegated to says nothing about its type.
        let _ ← rec.typeOf (s.nodeAfter? id .byKeyword)
        let type := written.getD initial
        (s.childrenOf (some id) .propertyAccessor).forM (s.accessor rec type)
        return type
      match declaration.name with
      | some name =>
        declareProperty owner written.isSome (s.forest.nameText (some name)) type id
      -- Without a name, several names in parentheses may have been kept.
      | none => s.destructuring id
  | _ => return

/-- A supertype with the arguments of its constructor, or with what it is delegated to. -/
def supertype (s : Setting) (rec : Tasks) (id : NodeId) : Attributing Ty := do
  match s.forest.data (some id) with
  | .supertypeEntry entry =>
    let t ← s.typeUse (some entry.typeRef)
    (s.childrenOf entry.arguments .valueArgument).forM (s.argument rec)
    let _ ← rec.typeOf (s.nodeAfter? id .byKeyword)
    return t
  | _ => return .unknown

/-- Members of a class. The parameters of its constructor are visible where its values are made. -/
def members (s : Setting) (rec : Tasks) (owner : Owner) (constructorScope : LocalScope)
    (ids : Array NodeId) : Attributing Unit :=
  let step (_ : Unit) (id : NodeId) : Attributing Unit :=
    match s.forest.kind? (some id) with
    -- Properties and initial blocks see the parameters of the constructor; functions do not.
    | some (.node .propertyDeclaration) | some (.node .anonymousInitializer) =>
      inScope (rec.declaration owner id) constructorScope
    | _ => rec.declaration owner id
  s.through step () ids.toList

/-- The type of a class as a receiver, its type as a value, and its superclass. Nothing is known of
the members of a class without a name that is known elsewhere. -/
def classTypes (s : Setting) (name : Option String) (supertypes : List Ty) : Ty × Ty × Ty :=
  match name with
  | some name =>
    -- What is known of the class elsewhere, not what is written here.
    (.of name, .of name, firstSuperclass s.env ((s.env.supertypes name).map .of))
  | none =>
    let value := (supertypes.head?.filter fun t => !t.isUnknown).getD (.of Ty.anyName)
    (.unknown, value, firstSuperclass s.env supertypes)

/-- A class or an object. Yields the type of an object as a value. -/
def classUse (s : Setting) (rec : Tasks) (id : NodeId) : Attributing Ty := do
  match s.forest.data (some id) with
  | .classDeclaration declaration =>
    let name := s.unit.classNames.lookup id
    let owner := (name.map Owner.named).getD .anonymous
    withTypeParameters (s.forest.typeParameterNames declaration.typeParameters) <| inClass name do
      -- The scope of the constructor is closed after the supertypes, which see its parameters.
      pushScope
      match s.forest.data declaration.primaryConstructor with
      | .primaryConstructor parameters => s.parameters rec (some owner) parameters
      | _ => pure ()
      let supertypes ← declaration.supertypes.toList.mapM (s.supertype rec)
      let constructorScope ← popScope
      let (type, value, superclass) := s.classTypes name supertypes
      let frame : Frame :=
        { type, superclass, isClass := true
          label := declaration.name.map fun name => s.forest.nameText (some name)
          -- A class that is not inner hides the receivers around it; one without a name does not.
          hidesOuter := name.isSome && !declaration.modifiers.contains .innerWord }
      inFrame (some frame) <|
        s.members rec owner constructorScope (s.forest.classMembers declaration.body)
      return value
  | _ => return .unknown

/-- Source that is kept as it is: what can be made out in it is attributed. -/
def keptSource (s : Setting) (rec : Tasks) (id : NodeId) : Attributing Unit :=
  (s.forest.children (some id)).toList.forM fun child => do
    match s.forest.kind? (some child) with
    | some (.node .classDeclaration) | some (.node .objectDeclaration)
    | some (.node .functionDeclaration) | some (.node .propertyDeclaration) =>
      -- Whatever it declares is local, as its owner is not known.
      rec.declaration .block child
    | some (.node .typeReference) => do let _ ← s.typeUse (some child)
    | some (.node _) => do let _ ← rec.typeOf (some child)
    | _ => return

/-- A declaration that stands somewhere. -/
def declaration (s : Setting) (rec : Tasks) (owner : Owner) (id : NodeId) : Attributing Unit := do
  match s.forest.kind? (some id) with
  | some (.node .classDeclaration) | some (.node .objectDeclaration) => do
    let _ ← s.classUse rec id
  | some (.node .functionDeclaration) | some (.node .secondaryConstructor) =>
    s.function rec owner id
  | some (.node .propertyDeclaration) => s.property rec owner id
  | some (.node .anonymousInitializer) =>
    (s.childrenOf (some id) .block).forM fun block => do let _ ← s.block rec block
  | some (.node .unknown) => s.keptSource rec id
  | _ => return

end Setting

end KotlinTree.Attribution
