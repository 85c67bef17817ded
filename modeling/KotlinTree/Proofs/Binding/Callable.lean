import KotlinTree.Proofs.Binding.Property
import KotlinTree.Proofs.Binding.Unit
import KotlinTree.Proofs.Grammar.ParameterList
import KotlinTree.Proofs.Types.Stub
import KotlinTree.Proofs.WellFormed

/-!
The functions and constructors of files and of bound classes, the members that binding stores for them, and
how many arguments these can be called with.
-/

namespace KotlinTree

/-- A function or a constructor as it is declared. -/
structure DeclaredCallable where
  /-- The class that it belongs to, or the one that its file is compiled into. -/
  owner : String
  isTopLevel : Bool
  name : String
  /-- What a function is declared as; a constructor is none. -/
  function : Option FunctionDeclaration
  parameters : Array NodeId
  /-- What is around the types that are written in it. -/
  context : TypeContext

namespace Forest

/-- A node declares a function with a name. -/
structure IsNamedFunction (f : Forest) (id : NodeId) (d : FunctionDeclaration) (name : NodeId) : Prop where
  kind : f.kind? (some id) = some (.node .functionDeclaration)
  data : f.data (some id) = .function d
  name : d.name = some name

/-- The functions and constructors that are bound: the functions of the file, and of a bound class those
functions that are no extensions, with the constructors in its body and in front of it. -/
inductive DeclaresCallable (f : Forest) (package facade : String) (root : NodeId) :
    DeclaredCallable → Prop where
  | topLevel {id name : NodeId} {d : FunctionDeclaration} :
    id ∈ f.topLevelDeclarations root → f.IsNamedFunction id d name →
      f.DeclaresCallable package facade root
        { owner := facade, isTopLevel := true, name := f.nameText (some name), function := some d
          parameters := d.parameters
          context := { typeParameters := f.typeParameterNames d.typeParameters } }
  | method {around id name : NodeId} {owner : String} {c : ClassDeclaration} {outer : TypeContext}
    {d : FunctionDeclaration} :
    f.Surrounds package root around owner c outer → id ∈ f.classMembers c.body →
      f.IsNamedFunction id d name → d.receiverType = none → f.DeclaresCallable package facade root
        { owner, isTopLevel := false, name := f.nameText (some name), function := some d
          parameters := d.parameters
          context := { enclosing := outer.enclosing ++ [owner]
                       typeParameters := f.typeParameterNames c.typeParameters ++
                         f.typeParameterNames d.typeParameters } }
  | secondary {around id : NodeId} {owner : String} {c : ClassDeclaration} {outer : TypeContext}
    {d : FunctionDeclaration} :
    f.Surrounds package root around owner c outer → id ∈ f.classMembers c.body →
      f.kind? (some id) = some (.node .secondaryConstructor) → f.data (some id) = .function d →
        f.DeclaresCallable package facade root
          { owner, isTopLevel := false, name := constructorName, function := none
            parameters := d.parameters
            context := { enclosing := outer.enclosing ++ [owner]
                         typeParameters := f.typeParameterNames c.typeParameters } }
  | primary {around id : NodeId} {owner : String} {c : ClassDeclaration} {outer : TypeContext}
    {parameters : Array NodeId} :
    f.Surrounds package root around owner c outer → c.primaryConstructor = some id →
      f.data (some id) = .primaryConstructor parameters → f.DeclaresCallable package facade root
        { owner, isTopLevel := false, name := constructorName, function := none, parameters
          context := { enclosing := outer.enclosing ++ [owner]
                       typeParameters := f.typeParameterNames c.typeParameters } }

/-- A function, and no constructor, with a parameter that stands for any number of arguments. -/
def TakesAny (f : Forest) (p : DeclaredCallable) : Prop :=
  p.function.isSome ∧ ∃ id ∈ p.parameters, f.IsVararg id

/-- The parameters are those that a node lists. -/
theorem DeclaresCallable.exists_lists {f : Forest} {package facade : String} {root : NodeId}
    {p : DeclaredCallable} (h : f.DeclaresCallable package facade root p) :
    ∃ id, (f.data (some id)).parameters = p.parameters.toList := by
  cases h with
  | topLevel _ hd => exact ⟨_, congrArg NodeData.parameters hd.data⟩
  | method _ _ hd _ => exact ⟨_, congrArg NodeData.parameters hd.data⟩
  | secondary _ _ _ hd => exact ⟨_, congrArg NodeData.parameters hd⟩
  | primary _ _ hd => exact ⟨_, congrArg NodeData.parameters hd⟩

end Forest

/-- A member is there for a function or a constructor of a class, or for a function of a package. -/
def Environment.HasCallable (env : Environment) (package : String) (p : DeclaredCallable)
    (m : Member) : Prop :=
  if p.isTopLevel then env.HasTopLevel package m else env.HasMember m

theorem Environment.Grows.hasCallable {env after : Environment} (h : env.Grows after) {package : String}
    {p : DeclaredCallable} {m : Member} (hm : env.HasCallable package p m) :
    after.HasCallable package p m := by
  unfold Environment.HasCallable at hm ⊢
  split
  · rw [if_pos ‹_›] at hm
    exact h.hasTopLevel hm
  · rw [if_neg ‹_›] at hm
    exact h.hasMember hm

namespace SignatureSource

/-- The member that binding makes of a function or a constructor. No constructor is made for any number
of arguments, whatever its parameters say. -/
def callable (s : SignatureSource) (p : DeclaredCallable) : Member where
  name := p.name
  kind := if p.function.isSome then .method else .constructor
  type := (p.function.map fun d => s.returnType d p.context).getD (.of p.owner)
  owner := p.owner
  parameters := s.parameterTypes (s.parametersOf p.parameters) p.context
  isVararg := p.function.isSome &&
    (s.parametersOf p.parameters).any fun d => d.modifiers.contains .varargWord
  receiver := p.function.bind fun d => s.receiverType d.receiverType p.context

section
variable {s : SignatureSource} {names : List (NodeId × String)} {id root : NodeId}
  {package facade : String} {p : DeclaredCallable}

theorem member?_function {d : FunctionDeclaration} {name : NodeId} (h : s.forest.IsNamedFunction id d name)
    (owner : String) (isTopLevel : Bool) (context : TypeContext) :
    s.member? owner context id = some (s.callable
      { owner, isTopLevel, name := s.forest.nameText (some name), function := some d
        parameters := d.parameters
        context := { context with typeParameters :=
          context.typeParameters ++ s.forest.typeParameterNames d.typeParameters } }) := by
  unfold member?
  rw [h.kind, h.data]
  dsimp only
  rw [function?, h.name]
  rfl

theorem member?_secondary {d : FunctionDeclaration}
    (hk : s.forest.kind? (some id) = some (.node .secondaryConstructor))
    (hd : s.forest.data (some id) = .function d) (owner : String) (context : TypeContext) :
    s.member? owner context id = some (s.callable
      { owner, isTopLevel := false, name := constructorName, function := none
        parameters := d.parameters, context }) := by
  unfold member?
  rw [hk, hd]
  rfl

/-- The member of a function or constructor that is not at the top level is among those of a top-level
class. -/
theorem exists_callable_mem_classMembers (hf : s.forest.Linked)
    (hnames : ∀ {id name d}, s.forest.IsBound package root id name d →
      names.lookup id = some name) (h : s.forest.DeclaresCallable package facade root p)
    (hp : p.isTopLevel = false) :
    ∃ top ∈ s.forest.topLevelDeclarations root, s.forest.IsClass top ∧
      s.callable p ∈ s.classMembers names [] top := by
  -- A callable stands in the class around it, which is reached from a declaration at the top.
  cases h with
  | topLevel => cases hp
  | method hb hm hd hreceiver =>
    obtain ⟨top, htop, hclass, hsub⟩ := exists_classMembers_subset hf hnames hb
    refine ⟨top, htop, hclass, hsub ?_⟩
    exact member?_mem_classMembers (hnames hb.isBound) hb.isBound.data_eq hm
      (by simp [Forest.IsClass, hd.kind]) (member?_function hd _ false _)
      (by simp [callable, hreceiver, receiverType])
  | secondary hb hm hk hd =>
    obtain ⟨top, htop, hclass, hsub⟩ := exists_classMembers_subset hf hnames hb
    refine ⟨top, htop, hclass, hsub ?_⟩
    exact member?_mem_classMembers (hnames hb.isBound) hb.isBound.data_eq hm
      (by simp [Forest.IsClass, hk]) (member?_secondary hk hd _ _) rfl
  | primary hb hprimary hd =>
    obtain ⟨top, htop, hclass, hsub⟩ := exists_classMembers_subset hf hnames hb
    refine ⟨top, htop, hclass, hsub (primaryMembers_subset (hnames hb.isBound) hb.isBound.data_eq ?_)⟩
    rw [hprimary]
    unfold primaryMembers
    rw [hd]
    exact List.mem_cons_self

/-- Nodes that are parameters all count. -/
theorem length_parametersOf {ids : Array NodeId}
    (h : ∀ id ∈ ids.toList, ∃ d : Parameter, s.forest.data (some id) = .parameter d) :
    (s.parametersOf ids).length = ids.size := by
  rw [parametersOf, ← Array.length_toList, List.filterMap_length_eq_length]
  intro id hid
  obtain ⟨d, hd⟩ := h id hid
  rw [hd]
  rfl

theorem any_parametersOf {ids : Array NodeId} {q : Parameter → Bool} {Q : NodeId → Prop}
    (h : ∀ id ∈ ids.toList, ∃ d : Parameter, s.forest.data (some id) = .parameter d ∧
      (q d = true ↔ Q id)) : (s.parametersOf ids).any q = true ↔ ∃ id ∈ ids, Q id := by
  rw [List.any_eq_true]
  constructor
  · rintro ⟨d, hmem, hq⟩
    obtain ⟨id, hid, hsome⟩ := List.mem_filterMap.mp hmem
    obtain ⟨d', hd, hiff⟩ := h id hid
    rw [hd] at hsome
    cases hsome
    exact ⟨id, Array.mem_toList_iff.mp hid, hiff.mp hq⟩
  · rintro ⟨id, hid, hQ⟩
    obtain ⟨d, hd, hiff⟩ := h id (Array.mem_toList_iff.mpr hid)
    refine ⟨d, List.mem_filterMap.mpr ⟨id, Array.mem_toList_iff.mpr hid, ?_⟩, hiff.mpr hQ⟩
    rw [hd]

theorem acceptsArity_callable (hf : s.forest.Linked) (ht : s.forest.Told)
    (h : s.forest.DeclaresCallable package facade root p) (count : Nat) :
    (s.forest.TakesAny p →
        ((s.callable p).acceptsArity count = true ↔ p.parameters.size ≤ count + 1)) ∧
      (¬s.forest.TakesAny p →
        ((s.callable p).acceptsArity count = true ↔ count = p.parameters.size)) := by
  obtain ⟨id, hid⟩ := h.exists_lists
  -- All that is listed is a parameter, so none is passed over when they are counted.
  have hall (q : NodeId) (hq : q ∈ p.parameters.toList) := ht.exists_parameter hf (hid ▸ hq)
  have hlength : (s.callable p).parameters.length = p.parameters.size := by
    rw [callable, parameterTypes, List.length_map]
    exact length_parametersOf fun q hq => (hall q hq).imp fun _ hd => hd.1
  have hvararg : (s.callable p).isVararg = true ↔ s.forest.TakesAny p := by
    rw [callable, Bool.and_eq_true, any_parametersOf hall]
    rfl
  unfold Member.acceptsArity
  rw [hlength]
  refine ⟨fun hany => ?_, fun hnone => ?_⟩
  · rw [if_pos (hvararg.mpr hany), decide_eq_true_iff]
  · rw [if_neg (hvararg.not.mpr hnone), decide_eq_true_iff, eq_comm]

end

end SignatureSource

namespace Binding
open Environment

variable {env after : Environment} {file : File} {p : DeclaredCallable}

/-- Binding stores a member for each function and each constructor of a file. -/
theorem declareFileMembers_hasCallable (hf : file.parsed.forest.Linked)
    (hsites : file.sites = file.parsed.forest.fileClassSites file.scope file.parsed.root)
    (h : declareFileMembers env file = .ok after)
    (hp : file.parsed.forest.DeclaresCallable file.scope.package file.facade file.parsed.root p) :
    after.HasCallable file.scope.package p ((file.signatures after).callable p) := by
  unfold Environment.HasCallable
  cases htop : p.isTopLevel with
  | true =>
    cases hp with
    | topLevel hid hd =>
      exact declareFileMembers_hasTopLevel h hid (.inr hd.kind)
        (SignatureSource.member?_function hd _ true _)
    | method => cases htop
    | secondary => cases htop
    | primary => cases htop
  | false =>
    obtain ⟨top, hid, hclass, hmem⟩ := SignatureSource.exists_callable_mem_classMembers
      (s := file.signatures after) hf (File.lookup_classNames hf hsites) hp htop
    exact declareFileMembers_hasMember h hid hclass hmem

end Binding

section
variable {env after : Environment} {units : List ParsedUnit} {defaultImports : List String}
  {bound : List BoundUnit} {p : DeclaredCallable}

theorem bindUnits_hasCallable (h : bindUnits env units defaultImports = .ok (after, bound))
    {u : ParsedUnit} (hu : u ∈ units) (hf : u.forest.Linked) {file : Binding.File}
    (hfile : file = .ofParsed defaultImports u)
    (hp : file.parsed.forest.DeclaresCallable file.scope.package file.facade file.parsed.root p) :
    after.HasCallable file.scope.package p ((file.signatures after).callable p) := by
  obtain ⟨e, e', hdeclare, hrest, hsame⟩ := exists_declareFileMembers h hu
  subst hfile
  rw [← hsame]
  exact hrest.hasCallable (Binding.declareFileMembers_hasCallable hf rfl hdeclare hp)

/-- The member that binding stores for a function with a parameter for any number of arguments accepts all
counts from one less than its parameters on, and no others. That of any other function, and that of every
constructor, accepts exactly as many arguments as there are parameters: a constructor is not asked whether
one of its parameters stands for any number. -/
theorem bindUnits_acceptsArity (h : bindUnits env units defaultImports = .ok (after, bound))
    {u : ParsedUnit} {fileName source : String} (hparsed : u = .ofSource fileName source) (hu : u ∈ units)
    {file : Binding.File} (hfile : file = .ofParsed defaultImports u)
    (hp : file.parsed.forest.DeclaresCallable file.scope.package file.facade file.parsed.root p) :
    after.HasCallable file.scope.package p ((file.signatures after).callable p) ∧
      ∀ count,
        (u.forest.TakesAny p →
          (((file.signatures after).callable p).acceptsArity count = true ↔
            p.parameters.size ≤ count + 1)) ∧
        (¬u.forest.TakesAny p →
          (((file.signatures after).callable p).acceptsArity count = true ↔
            count = p.parameters.size)) := by
  have hf : u.forest.Linked := hparsed ▸ (ParsedUnit.ofSource_sound fileName source).linked
  have ht : u.forest.Told := hparsed ▸ ParsedUnit.ofSource_told fileName source
  refine ⟨bindUnits_hasCallable h hu hf hfile hp, fun count => ?_⟩
  subst hfile
  exact SignatureSource.acceptsArity_callable
    (s := (Binding.File.ofParsed defaultImports u).signatures after) hf ht hp count

end

/-- A class whose constructor has a parameter for any number of arguments. -/
def varargClass : ParsedUnit := .ofSource "A.kt" "class A(vararg a: B)"

def varargDeclaration : ClassDeclaration where
  kind := .plainClass
  modifiers := []
  name := some 1
  typeParameters := none
  primaryConstructor := some 11
  supertypes := #[]
  body := none

theorem varargClass_parsed :
    varargClass.root = 14 ∧ varargClass.forest.topLevelDeclarations 14 = #[12] ∧
      varargClass.forest.kind? (some 12) = some (.node .classDeclaration) ∧
      varargClass.forest.data (some 12) = .classDeclaration varargDeclaration ∧
      varargClass.forest.data (some 11) = .primaryConstructor #[9] ∧
      varargClass.forest.saysName 1 "A" = true ∧
      (Binding.File.ofParsed [] varargClass).scope.package = "" := by
  decide +kernel

theorem varargClass_isVararg : varargClass.forest.IsVararg 9 := by
  have hway : (varargClass.forest.children (some 9))[0]? = some 4 ∧
      varargClass.forest.kind? (some 4) = some (.node .modifierList) ∧
      3 ∈ varargClass.forest.children (some 4) ∧ varargClass.forest.leafText (some 3) = "vararg" := by
    decide +kernel
  obtain ⟨hfirst, hk, hword, htext⟩ := hway
  exact ⟨4, hfirst, hk, 3, hword, htext⟩

/-- The class has its name, and there is no other. -/
theorem eq_of_isBound_varargClass {id : NodeId} {name : String} {d : ClassDeclaration}
    (h : varargClass.forest.IsBound "" 14 id name d) : name = "A" ∧ d = varargDeclaration := by
  obtain ⟨-, htop, -, hdata, -, hname, -⟩ := varargClass_parsed
  have hspelled : varargClass.forest.Spelled := ParsedUnit.ofSource_spelled _ _
  induction h with
  | topLevel hid hd hs =>
    rw [htop, Array.mem_singleton] at hid
    subst hid
    cases hdata.symm.trans hd
    cases (congrArg some (hspelled.nameText hname)).symm.trans hs
    exact ⟨rfl, rfl⟩
  | nested _ hid _ _ ih =>
    obtain ⟨-, rfl⟩ := ih
    exact absurd hid (Array.not_mem_empty _)

theorem varargClass_declares {name : String} {kind : ClassKind}
    (h : (name, kind) ∈ declaredClasses [varargClass] []) : name = "A" ∧ kind = .plainClass := by
  obtain ⟨hroot, -, -, -, -, -, hpackage⟩ := varargClass_parsed
  have hf : varargClass.forest.Linked := (ParsedUnit.ofSource_sound _ _).linked
  unfold declaredClasses at h
  rw [List.map_singleton, List.flatMap_singleton, mem_declared_ofParsed hf] at h
  obtain ⟨id, d, hb, rfl⟩ := h
  rw [← package_ofParsed [], hpackage, hroot] at hb
  obtain ⟨hname, rfl⟩ := eq_of_isBound_varargClass hb
  exact ⟨hname, rfl⟩

theorem varargClass_binds :
    ∃ after bound, bindUnits Builtins.environment [varargClass] [] = .ok (after, bound) := by
  rcases bindUnits_cases Builtins.environment_declares Builtins.anyName_mem_names [varargClass] [] with
    ⟨after, hbind, -⟩ | ⟨name, first, second, -, hconflict⟩
  · exact ⟨after, _, hbind⟩
  · -- No other class has the name of the one that is declared.
    obtain ⟨rfl, rfl⟩ := varargClass_declares hconflict.second_mem
    rcases List.mem_append.mp hconflict.first_mem with hbuiltin | hdeclared
    · have hnot : "A" ∉ Builtins.names := by decide +kernel
      exact absurd (List.mem_map_of_mem hbuiltin) hnot
    · exact absurd (varargClass_declares hdeclared).2 hconflict.ne

/-- Although its parameter is for any number of arguments, the constructor takes exactly one. -/
theorem bindUnits_acceptsArity_constructor : ∃ after bound m,
    bindUnits Builtins.environment [varargClass] [] = .ok (after, bound) ∧
      varargClass.forest.IsVararg 9 ∧ after.HasMember m ∧ m.name = constructorName ∧ m.owner = "A" ∧
      ∀ count, m.acceptsArity count = true ↔ count = 1 := by
  obtain ⟨after, bound, hbind⟩ := varargClass_binds
  obtain ⟨hroot, htop, hk, hdata, hprimary, hname, hpackage⟩ := varargClass_parsed
  have hspelled : varargClass.forest.Spelled := ParsedUnit.ofSource_spelled _ _
  have hclass : varargClass.forest.Surrounds "" 14 12 "A" varargDeclaration {} :=
    .topLevel (by simp [htop]) (.inl hk) hdata (congrArg some (hspelled.nameText hname))
  have hp : varargClass.forest.DeclaresCallable "" (Binding.File.ofParsed [] varargClass).facade 14 _ :=
    .primary hclass rfl hprimary
  rw [← hroot, ← hpackage] at hp
  obtain ⟨hstored, harity⟩ := bindUnits_acceptsArity hbind rfl (List.mem_singleton_self _) rfl hp
  refine ⟨after, bound, _, hbind, varargClass_isVararg, hstored, rfl, rfl, fun count => ?_⟩
  exact (harity count).2 fun hany => Bool.false_ne_true hany.1

end KotlinTree
