import KotlinTree.Binding.Unit
import KotlinTree.Proofs.Binding.Surroundings
import KotlinTree.Proofs.Types.Assembled

/-!
The properties of files and of bound classes, and the members that binding stores for them.
-/

namespace KotlinTree

/-- A property as it is declared, by a declaration of its own or by a parameter of a constructor. -/
structure DeclaredProperty where
  node : NodeId
  /-- The class that it belongs to, or the one that its file is compiled into. -/
  owner : String
  isTopLevel : Bool
  name : String
  receiver : Option NodeId := none
  typeRef : Option NodeId
  initializer : Option NodeId := none
  /-- The classes around it with the type parameters of its class alone. -/
  own : TypeContext
  /-- The classes around it with the type parameters of all of them and of the property itself. -/
  all : TypeContext

namespace Forest

/-- A node declares a property with a name. -/
structure IsProperty (f : Forest) (id : NodeId) (d : PropertyDeclaration) (name : NodeId) : Prop where
  kind : f.kind? (some id) = some (.node .propertyDeclaration)
  data : f.data (some id) = .property d
  name : d.name = some name

/-- The properties that are bound: those of the file, those of a bound class that are no extensions,
and the parameters of its constructor that are properties. -/
inductive DeclaresProperty (f : Forest) (package facade : String) (root : NodeId) :
    DeclaredProperty → Prop where
  | topLevel {id name : NodeId} {d : PropertyDeclaration} :
    id ∈ f.topLevelDeclarations root → f.IsProperty id d name →
      f.DeclaresProperty package facade root
        { node := id, owner := facade, isTopLevel := true, name := f.nameText (some name)
          receiver := d.receiverType, typeRef := d.typeRef, initializer := d.initializer, own := {}
          all := { typeParameters := f.propertyTypeParameters id } }
  | member {around id name : NodeId} {owner : String} {c : ClassDeclaration} {outer : TypeContext}
    {d : PropertyDeclaration} :
    f.Surrounds package root around owner c outer → id ∈ f.classMembers c.body →
      f.IsProperty id d name → d.receiverType = none → f.DeclaresProperty package facade root
        { node := id, owner, isTopLevel := false, name := f.nameText (some name)
          typeRef := d.typeRef, initializer := d.initializer
          own := { enclosing := outer.enclosing ++ [owner]
                   typeParameters := f.typeParameterNames c.typeParameters }
          all := { enclosing := outer.enclosing ++ [owner]
                   typeParameters := outer.typeParameters ++ f.typeParameterNames c.typeParameters ++
                     f.propertyTypeParameters id } }
  | parameter {around primary id name : NodeId} {owner : String} {c : ClassDeclaration}
    {outer : TypeContext} {parameters : Array NodeId} {d : Parameter} :
    f.Surrounds package root around owner c outer → c.primaryConstructor = some primary →
      f.data (some primary) = .primaryConstructor parameters → id ∈ parameters →
      f.data (some id) = .parameter d → d.bindingKeyword.isSome → d.name = some name →
        f.DeclaresProperty package facade root
          { node := id, owner, isTopLevel := false, name := f.nameText (some name)
            typeRef := d.typeRef
            own := { enclosing := outer.enclosing ++ [owner]
                     typeParameters := f.typeParameterNames c.typeParameters }
            all := outer.inside owner (f.typeParameterNames c.typeParameters) }

/-- What has an initial value is a declaration of its own. -/
theorem DeclaresProperty.exists_isProperty {f : Forest} {package facade : String} {root : NodeId}
    {p : DeclaredProperty} (h : f.DeclaresProperty package facade root p) {value : NodeId}
    (hv : p.initializer = some value) :
    ∃ d name, f.IsProperty p.node d name ∧ p.name = f.nameText (some name) ∧
      d.typeRef = p.typeRef ∧ d.initializer = p.initializer := by
  cases h with
  | topLevel _ hd => exact ⟨_, _, hd, rfl, rfl, rfl⟩
  | member _ _ hd _ => exact ⟨_, _, hd, rfl, rfl, rfl⟩
  | parameter => cases hv

end Forest

/-- A member is stored for a property of a class, or of a file in a package. -/
def Environment.Stores (env : Environment) (package : String) (p : DeclaredProperty)
    (m : Member) : Prop :=
  if p.isTopLevel then env.HasTopLevel package m else env.HasMember m

theorem Environment.Grows.stores {env after : Environment} (h : env.Grows after) {package : String}
    {p : DeclaredProperty} {m : Member} (hm : env.Stores package p m) : after.Stores package p m := by
  unfold Environment.Stores at hm ⊢
  cases hp : p.isTopLevel with
  | true =>
    rw [hp, if_pos rfl] at hm
    exact h.hasTopLevel hm
  | false =>
    rw [hp, if_neg Bool.false_ne_true] at hm
    exact h.hasMember hm

namespace SignatureSource

/-- The member that binding makes of a property. -/
def declared (s : SignatureSource) (p : DeclaredProperty) : Member where
  name := p.name
  kind := .field
  type := s.typeOrInitializer p.typeRef p.initializer p.own
  owner := p.owner
  receiver := s.receiverType p.receiver p.own

section
variable {s : SignatureSource} {names : List (NodeId × String)} {id root : NodeId}
  {package facade : String}

section
variable {owner : String} {d : ClassDeclaration} {enclosing : List String} {member : NodeId}

theorem primaryMembers_subset (hname : names.lookup id = some owner)
    (hd : s.forest.data (some id) = .classDeclaration d) :
    s.primaryMembers owner { enclosing := enclosing ++ [owner]
                             typeParameters := s.forest.typeParameterNames d.typeParameters }
      d.primaryConstructor ⊆ s.classMembers names enclosing id := by
  rw [classMembers, hname, hd]
  exact List.subset_append_left _ _

theorem classMembers_subset (hf : s.forest.Linked) (hname : names.lookup id = some owner)
    (hd : s.forest.data (some id) = .classDeclaration d)
    (hm : member ∈ s.forest.classMembers d.body) (hclass : s.forest.IsClass member) :
    s.classMembers names (enclosing ++ [owner]) member ⊆ s.classMembers names enclosing id := by
  intro m hmem
  rw [classMembers, hname, hd]
  refine List.mem_append_right _ (List.mem_flatMap.mpr ⟨member, Array.mem_toList_iff.mpr hm, ?_⟩)
  have hlt := hf.lt_of_mem_classMembers hd hm
  rcases hclass with hk | hk <;> rw [hk] <;> dsimp only <;> rwa [dif_pos hlt]

theorem member?_mem_classMembers (hname : names.lookup id = some owner)
    (hd : s.forest.data (some id) = .classDeclaration d)
    (hm : member ∈ s.forest.classMembers d.body) (hclass : ¬s.forest.IsClass member) {m : Member}
    (hmember : s.member? owner { enclosing := enclosing ++ [owner]
                                 typeParameters := s.forest.typeParameterNames d.typeParameters }
      member = some m) (hreceiver : m.receiver = none) :
    m ∈ s.classMembers names enclosing id := by
  rw [classMembers, hname, hd]
  refine List.mem_append_right _ (List.mem_flatMap.mpr ⟨member, Array.mem_toList_iff.mpr hm, ?_⟩)
  split
  · exact absurd (.inl ‹_›) hclass
  · exact absurd (.inr ‹_›) hclass
  · rw [hmember]
    simp [hreceiver]

end

/-- The members of a class are among those of the top-level class around it. -/
theorem exists_classMembers_subset (hf : s.forest.Linked)
    (hnames : ∀ {id name d}, s.forest.IsBound package root id name d →
      names.lookup id = some name) {owner : String} {d : ClassDeclaration} {outer : TypeContext}
    (h : s.forest.Surrounds package root id owner d outer) :
    ∃ top ∈ s.forest.topLevelDeclarations root, s.forest.IsClass top ∧
      s.classMembers names outer.enclosing id ⊆ s.classMembers names [] top := by
  -- By the classes around, from the outermost on: the members of one are among those of the next.
  induction h with
  | topLevel hid hclass _ _ => exact ⟨_, hid, hclass, List.Subset.refl _⟩
  | @nested around id name simple o d outer hb hm hclass hd hs ih =>
    obtain ⟨top, htop, hclasstop, hsub⟩ := ih
    refine ⟨top, htop, hclasstop, List.Subset.trans ?_ hsub⟩
    exact classMembers_subset hf (hnames hb.isBound) hb.isBound.data_eq hm hclass

theorem mem_primaryMembers {owner : String} {context : TypeContext}
    {parameters : Array NodeId} {primary name : NodeId} {d : Parameter}
    (hps : s.forest.data (some primary) = .primaryConstructor parameters) (hid : id ∈ parameters)
    (hd : s.forest.data (some id) = .parameter d) (hkeyword : d.bindingKeyword.isSome)
    (hname : d.name = some name) :
    ({ name := s.forest.nameText (some name), kind := .field, owner
       type := s.typeOrInitializer d.typeRef none context } : Member) ∈
      s.primaryMembers owner context (some primary) := by
  have hmem : d ∈ s.parametersOf parameters := by
    refine List.mem_filterMap.mpr ⟨id, Array.mem_toList_iff.mpr hid, ?_⟩
    rw [hd]
  unfold primaryMembers
  rw [hps]
  refine List.mem_cons_of_mem _ (List.mem_map.mpr ⟨d, List.mem_filter.mpr ⟨hmem, ?_⟩, ?_⟩)
  · simp [hkeyword, hname]
  · unfold typeOrInitializer
    cases ht : d.typeRef with
    | none => simp [writtenType, FileScope.resolveType, Forest.data, Forest.node?, hname]
    | some ref => simp [hname]

theorem member?_isProperty {d : PropertyDeclaration} {name : NodeId}
    (h : s.forest.IsProperty id d name) (owner : String) (context : TypeContext) :
    s.member? owner context id = some
      { name := s.forest.nameText (some name), kind := .field, owner
        type := s.typeOrInitializer d.typeRef d.initializer context
        receiver := s.receiverType d.receiverType context } := by
  unfold member?
  rw [h.kind, h.data]
  dsimp only
  rw [property?, h.name]
  rfl

/-- The member of a property that is not at the top level is among those of a top-level class. -/
theorem exists_declared_mem_classMembers (hf : s.forest.Linked)
    (hnames : ∀ {id name d}, s.forest.IsBound package root id name d →
      names.lookup id = some name) {p : DeclaredProperty}
    (h : s.forest.DeclaresProperty package facade root p) (hp : p.isTopLevel = false) :
    ∃ top ∈ s.forest.topLevelDeclarations root, s.forest.IsClass top ∧
      s.declared p ∈ s.classMembers names [] top := by
  cases h with
  | topLevel _ _ => cases hp
  | member hb hm hproperty hreceiver =>
    obtain ⟨top, htop, hclass, hsub⟩ := exists_classMembers_subset hf hnames hb
    refine ⟨top, htop, hclass, hsub ?_⟩
    have hmember := member?_isProperty hproperty
    rw [hreceiver] at hmember
    exact member?_mem_classMembers (hnames hb.isBound) hb.isBound.data_eq hm
      (by simp [Forest.IsClass, hproperty.kind]) (hmember _ _) rfl
  | parameter hb hprimary hps hid hd hkeyword hname =>
    obtain ⟨top, htop, hclass, hsub⟩ := exists_classMembers_subset hf hnames hb
    refine ⟨top, htop, hclass, hsub (primaryMembers_subset (hnames hb.isBound) hb.isBound.data_eq ?_)⟩
    rw [hprimary]
    exact mem_primaryMembers hps hid hd hkeyword hname

end

end SignatureSource

namespace Binding
open Environment

variable {env after : Environment} {file : File} {id : NodeId}

/-- What signatures of a file are read from, once its classes are declared. -/
def File.signatures (file : File) (env : Environment) : SignatureSource :=
  { forest := file.parsed.forest, scope := file.scope, isClass := env.hasClass }

theorem Grows.signatures_eq (h : env.Grows after) (file : File) :
    file.signatures env = file.signatures after := by
  unfold File.signatures
  rw [funext h.hasClass]

theorem addMembers_grow {ms : List Member}
    (h : ms.foldlM (fun env m => env.addMember m.owner m) env = .ok after) :
    env.Grows after ∧ ∀ m ∈ ms, after.HasMember m := by
  obtain ⟨hgrows, hall⟩ := foldlM_grows (fun m _ e e' he => (addMember_grows he).1) h
  refine ⟨hgrows, fun m hm => ?_⟩
  obtain ⟨e, e', -, he, hrest⟩ := hall m hm
  exact hrest.hasMember (addMember_grows he).2

theorem declareMembers_grows (h : declareMembers file env id = .ok after) : env.Grows after := by
  unfold declareMembers at h
  dsimp only at h
  split at h
  · exact (addMembers_grow h).1
  · exact (addMembers_grow h).1
  · split at h
    · cases h
      exact (env.addTopLevel_grows _ _ _).1
    · cases h
      exact .refl _
  · split at h
    · cases h
      exact (env.addTopLevel_grows _ _ _).1
    · cases h
      exact .refl _
  · cases h
    exact .refl _

theorem declareFileMembers_grows (h : declareFileMembers env file = .ok after) :
    env.Grows after :=
  (foldlM_grows (fun _ _ _ _ he => declareMembers_grows he) h).1

theorem declareMembers_hasMember (hclass : file.parsed.forest.IsClass id)
    (h : declareMembers file env id = .ok after) {m : Member}
    (hm : m ∈ (file.signatures env).classMembers file.classNames [] id) : after.HasMember m := by
  unfold declareMembers at h
  dsimp only at h
  rcases hclass with hk | hk <;> rw [hk] at h <;> exact (addMembers_grow h).2 m hm

theorem declareMembers_hasTopLevel
    (hk : file.parsed.forest.kind? (some id) = some (.node .propertyDeclaration) ∨
      file.parsed.forest.kind? (some id) = some (.node .functionDeclaration))
    (h : declareMembers file env id = .ok after) {m : Member}
    (hm : (file.signatures env).member? file.facade {} id = some m) :
    after.HasTopLevel file.scope.package m := by
  unfold declareMembers at h
  dsimp only at h
  rw [File.signatures] at hm
  rcases hk with hk | hk <;> rw [hk] at h <;> dsimp only at h <;> rw [hm] at h <;> cases h <;>
    exact (env.addTopLevel_grows _ _ _).2

/-- Each declaration of a file is declared on the way. The classes are the same throughout, so that a
signature does not depend on when it is read. -/
theorem exists_declareMembers (h : declareFileMembers env file = .ok after)
    (hid : id ∈ file.parsed.forest.topLevelDeclarations file.parsed.root) :
    ∃ e e', file.signatures e = file.signatures after ∧ declareMembers file e id = .ok e' ∧
      e'.Grows after := by
  obtain ⟨-, hall⟩ := foldlM_grows (fun _ _ _ _ he => declareMembers_grows he) h
  obtain ⟨e, e', -, hd, hrest⟩ := hall id (Array.mem_toList_iff.mpr hid)
  exact ⟨e, e', ((Grows.signatures_eq (declareMembers_grows hd) file).trans
    (Grows.signatures_eq hrest file)), hd, hrest⟩

theorem declareFileMembers_hasMember (h : declareFileMembers env file = .ok after)
    (hid : id ∈ file.parsed.forest.topLevelDeclarations file.parsed.root)
    (hclass : file.parsed.forest.IsClass id) {m : Member}
    (hm : m ∈ (file.signatures after).classMembers file.classNames [] id) : after.HasMember m := by
  obtain ⟨e, e', hsame, hd, hrest⟩ := exists_declareMembers h hid
  rw [← hsame] at hm
  exact hrest.hasMember (declareMembers_hasMember hclass hd hm)

theorem declareFileMembers_hasTopLevel (h : declareFileMembers env file = .ok after)
    (hid : id ∈ file.parsed.forest.topLevelDeclarations file.parsed.root)
    (hk : file.parsed.forest.kind? (some id) = some (.node .propertyDeclaration) ∨
      file.parsed.forest.kind? (some id) = some (.node .functionDeclaration)) {m : Member}
    (hm : (file.signatures after).member? file.facade {} id = some m) :
    after.HasTopLevel file.scope.package m := by
  obtain ⟨e, e', hsame, hd, hrest⟩ := exists_declareMembers h hid
  rw [← hsame] at hm
  exact hrest.hasTopLevel (declareMembers_hasTopLevel hk hd hm)

/-- The classes of a file have the names that they are bound with. -/
theorem File.lookup_classNames (hf : file.parsed.forest.Linked)
    (hsites : file.sites = file.parsed.forest.fileClassSites file.scope file.parsed.root)
    {name : String} {d : ClassDeclaration}
    (hb : file.parsed.forest.IsBound file.scope.package file.parsed.root id name d) :
    file.classNames.lookup id = some name := by
  rw [File.classNames, hsites]
  exact hb.lookup_classSites hf

/-- Binding stores a member for each property of a file, with the type that the property has by the
names in scope at the end. -/
theorem declareFileMembers_stores (hf : file.parsed.forest.Linked)
    (hsites : file.sites = file.parsed.forest.fileClassSites file.scope file.parsed.root)
    (h : declareFileMembers env file = .ok after) {p : DeclaredProperty}
    (hp : file.parsed.forest.DeclaresProperty file.scope.package file.facade file.parsed.root p) :
    after.Stores file.scope.package p ((file.signatures after).declared p) := by
  unfold Environment.Stores
  cases htop : p.isTopLevel with
  | true =>
    cases hp with
    | topLevel hid hproperty =>
      exact declareFileMembers_hasTopLevel h hid (.inl hproperty.kind)
        (SignatureSource.member?_isProperty hproperty _ _)
    | member => cases htop
    | parameter => cases htop
  | false =>
    obtain ⟨top, hid, hclass, hmem⟩ := SignatureSource.exists_declared_mem_classMembers
      (s := file.signatures after) hf (File.lookup_classNames hf hsites) hp htop
    exact declareFileMembers_hasMember h hid hclass hmem

end Binding

section
variable {env after : Environment} {units : List ParsedUnit} {defaultImports : List String}
  {bound : List BoundUnit}

/-- The three passes of binding, each over all files. -/
theorem bindUnits_ok (h : bindUnits env units defaultImports = .ok (after, bound)) :
    bound = units.map (fun u => (Binding.File.ofParsed defaultImports u).boundUnit) ∧
      ∃ declared, (units.map (Binding.File.ofParsed defaultImports)).foldlM
          Binding.declareClasses env = .ok declared ∧
        (units.map (Binding.File.ofParsed defaultImports)).foldlM Binding.declareFileMembers
          ((units.map (Binding.File.ofParsed defaultImports)).foldl Binding.resolveSupertypes
            declared) = .ok after := by
  unfold bindUnits at h
  dsimp only at h
  -- Either of two steps over the files may fail: first that of the classes, then that of the members.
  cases hclasses : (units.map (Binding.File.ofParsed defaultImports)).foldlM
      Binding.declareClasses env with
  | error e =>
    rw [hclasses] at h
    cases h
  | ok declared =>
    rw [hclasses] at h
    change ((units.map (Binding.File.ofParsed defaultImports)).foldlM Binding.declareFileMembers
      ((units.map (Binding.File.ofParsed defaultImports)).foldl Binding.resolveSupertypes declared)
        >>= fun env => pure (env, _)) = Except.ok (after, bound) at h
    cases hmembers : (units.map (Binding.File.ofParsed defaultImports)).foldlM
        Binding.declareFileMembers ((units.map (Binding.File.ofParsed defaultImports)).foldl
          Binding.resolveSupertypes declared) with
    | error e =>
      rw [hmembers] at h
      cases h
    | ok last =>
      rw [hmembers] at h
      cases h
      exact ⟨List.map_map, declared, rfl, hmembers⟩

/-- The members of each file are declared on the way. -/
theorem exists_declareFileMembers (h : bindUnits env units defaultImports = .ok (after, bound))
    {u : ParsedUnit} (hu : u ∈ units) :
    ∃ e e', Binding.declareFileMembers e (.ofParsed defaultImports u) = .ok e' ∧ e'.Grows after ∧
      (Binding.File.ofParsed defaultImports u).signatures e' =
        (Binding.File.ofParsed defaultImports u).signatures after := by
  obtain ⟨-, declared, -, hmembers⟩ := bindUnits_ok h
  obtain ⟨-, hall⟩ := Environment.foldlM_grows
    (fun _ _ _ _ he => Binding.declareFileMembers_grows he) hmembers
  obtain ⟨e, e', -, hfile, hrest⟩ := hall _ (List.mem_map_of_mem hu)
  exact ⟨e, e', hfile, hrest, Binding.Grows.signatures_eq hrest _⟩

/-- Binding stores a member for each property of each file. -/
theorem bindUnits_stores (h : bindUnits env units defaultImports = .ok (after, bound))
    {u : ParsedUnit} (hu : u ∈ units) (hf : u.forest.Linked) {p : DeclaredProperty}
    (hp : u.forest.DeclaresProperty (Binding.File.ofParsed defaultImports u).scope.package
      (Binding.File.ofParsed defaultImports u).facade u.root p) :
    after.Stores (Binding.File.ofParsed defaultImports u).scope.package p
      (((Binding.File.ofParsed defaultImports u).signatures after).declared p) := by
  obtain ⟨e, e', hfile, hrest, hsame⟩ := exists_declareFileMembers h hu
  rw [← hsame]
  exact hrest.stores (Binding.declareFileMembers_stores hf rfl hfile hp)

end

end KotlinTree
