import KotlinTree.Proofs.Attribution.Construct
import KotlinTree.Proofs.Attribution.Reach
import KotlinTree.Proofs.Attribution.Renames
import KotlinTree.Proofs.Project.Run

/-!
Binding and attribution read the types of properties apart from each other. Main statements: they agree
on a written type, unless it is the name of a type parameter that only attribution has in scope, and on
the type that an initializer shows, unless what is called by it yields something else than the class that
binding takes it for.
-/

namespace KotlinTree

open Attribution

theorem getElem?_foldl_insert (entries : List (NodeId × Ty)) (types : Std.HashMap NodeId Ty)
    (x : NodeId) : (entries.foldl (fun all (id, t) => all.insert id t) types)[x]? =
      ((entries.filter fun entry => entry.1 = x).map Prod.snd).getLast?.or types[x]? := by
  induction entries generalizing types with
  | nil => rfl
  | cons entry entries ih =>
    rw [List.foldl_cons, ih, Std.HashMap.getElem?_insert, List.filter_cons]
    by_cases h : entry.1 = x
    · -- This entry is found unless a later one replaces it.
      simp only [h, beq_self_eq_true, if_true, decide_true, List.map_cons, List.getLast?_cons]
      cases ((entries.filter fun entry => entry.1 = x).map Prod.snd).getLast? <;> rfl
    · simp [h]

/-- The type of a node is the last that has been found out about it. -/
theorem typeOf_unit (findings : Findings) (u : ParsedUnit) (x : NodeId) :
    (findings.unit u).typeOf x = ((findings.about x).types.getLast?).getD .unknown := by
  have hentries := getElem?_foldl_insert findings.types.toList ∅ x
  rw [Array.foldl_toList, Std.HashMap.getElem?_empty, Option.or_none] at hentries
  exact congrArg (·.getD .unknown) hentries

theorem declared_unit (findings : Findings) (u : ParsedUnit) (x : NodeId) :
    ((findings.unit u).declared.filter fun v => v.node = x) = (findings.about x).declared := rfl

/-- The uses of names that are there when a file has been gone through. -/
def Attribution.Setting.finalUses (s : Setting) (root : NodeId) : List (Place × NameUse) :=
  (Id.run ((s.file root).run {})).2.uses.toList

/-- What attribution finds out about a node is what is known about it in the end. -/
theorem attributeUnit_about (s : Setting) {u : ParsedUnit} {attributed : AttributedUnit} {x : NodeId}
    {l : About} (hforest : s.forest = u.forest)
    (h : attributeUnit s.env u s.unit s.stops = .ok attributed)
    (hnotes : Notes (s.finalUses u.root) {} x l (s.file u.root)) :
    attributed.typeOf x = l.types.getLast?.getD .unknown ∧
      (attributed.declared.filter fun v => v.node = x) = l.declared := by
  obtain ⟨hs, rfl⟩ := eq_of_attributeUnit h
  rw [← hforest] at hs ⊢
  obtain ⟨-, hfound⟩ := hnotes {} rfl
  obtain ⟨-, habout⟩ := hfound ⟨hs, List.Subset.refl _⟩
  have hnothing : ({} : State).about x ++ l = l := l.nothing_append
  rw [hnothing] at habout
  rw [typeOf_unit, declared_unit, habout]
  exact ⟨rfl, rfl⟩

/-- The type that is recorded of the name that is used at a node; unknown where none is. -/
def AttributedUnit.usedType (u : AttributedUnit) (id : NodeId) : Ty :=
  (((u.access? id).or (u.reference? id)).map NameUse.type).getD .unknown

theorem AttributedUnit.usedType_unit {φ : Findings} (p : ParsedUnit)
    (honce : φ.uses.toList.Pairwise fun a b => a.2.node ≠ b.2.node) (id : NodeId) :
    (φ.unit p).usedType id = Attribution.usedType φ.uses.toList id := by
  have hfound (place : Place) {use : NameUse} (h : (φ.unit p).useAt? place id = some use) :
      use.type = Attribution.usedType φ.uses.toList id := by
    obtain ⟨hmem, rfl⟩ := mem_uses_of_useAt? h
    exact (usedType_of_mem honce (Array.mem_toList_iff.mpr hmem)).symm
  unfold AttributedUnit.usedType
  cases haccess : (φ.unit p).access? id with
  | some use => exact hfound .access haccess
  | none =>
    cases hreference : (φ.unit p).reference? id with
    | some use => exact hfound .reference hreference
    | none =>
      -- What is found at the node is known of it, as an access or as a name alone.
      have hnone : φ.uses.toList.find? (fun entry => entry.2.node = id) = none := by
        rw [List.find?_eq_none]
        rintro ⟨place, use⟩ hmem hnode
        obtain rfl : use.node = id := of_decide_eq_true hnode
        have hknown := useAt?_of_mem (p := p) honce (Array.mem_toList_iff.mp hmem)
        cases place with
        | access => cases haccess.symm.trans hknown
        | reference => cases hreference.symm.trans hknown
      rw [Attribution.usedType, hnone]
      rfl

/-- The name that a written type consists of, if it is one name alone. -/
def Forest.loneName? (f : Forest) (ref : NodeId) : Option String :=
  match f.data (some ref) with
  | .typeReference reference =>
    match reference.name.bind f.chainSegments? with
    | some [name] => some name
    | _ => none
  | _ => none

/-- A written type depends on the type parameters in scope only by whether its name is one of them. -/
theorem FileScope.resolveType_congr {scope : FileScope} {f : Forest} {ref : NodeId}
    {context context' : TypeContext} {isClass : String → Bool}
    (henclosing : context.enclosing = context'.enclosing)
    (hname : ∀ name, f.loneName? ref = some name →
      (name ∈ context.typeParameters ↔ name ∈ context'.typeParameters)) :
    scope.resolveType f (some ref) context isClass =
      scope.resolveType f (some ref) context' isClass := by
  unfold resolveType
  split
  · rename_i reference hd
    split
    · rfl
    · rename_i segments hsegments
      -- Only a type of one name asks which type parameters there are.
      have hlone : (segments.length = 1 &&
          context.typeParameters.any (some · = segments.head?)) =
        (segments.length = 1 && context'.typeParameters.any (some · = segments.head?)) := by
        match segments, hsegments with
        | [], _ => rfl
        | [name], hsegments =>
          have hiff := hname name (by rw [Forest.loneName?, hd]; dsimp only; rw [hsegments])
          rw [Bool.eq_iff_iff]
          simpa using hiff
        | _ :: _ :: _, _ => simp
      rw [hlone, henclosing]
  · rfl

section
variable {f : Forest} {package facade : String} {root : NodeId} {p : DeclaredProperty}

theorem Forest.DeclaresProperty.enclosing_eq (h : f.DeclaresProperty package facade root p) :
    p.own.enclosing = p.all.enclosing := by
  cases h <;> rfl

theorem Forest.DeclaresProperty.typeParameters_subset
    (h : f.DeclaresProperty package facade root p) :
    p.own.typeParameters ⊆ p.all.typeParameters := by
  cases h with
  | topLevel => exact List.nil_subset _
  | member => exact List.Subset.trans (List.subset_append_right _ _) (List.subset_append_left _ _)
  | parameter => exact List.subset_append_right _ _

end

/-- A file among sources that are bound together, frozen and attributed. -/
structure AttributedFile where
  base : Environment
  imports : List String
  stops : Nat → Bool
  sources : List SourceText
  declared : Environment
  env : Environment
  bound : List BoundUnit
  index : Nat
  source : SourceText
  attributed : AttributedUnit
  binds : bindUnits base (sources.map SourceText.parsed) imports = .ok (declared, bound)
  freezes : declared.freeze = .ok env
  source_at : sources[index]? = some source
  attributes : (attributeUnits env (sources.map SourceText.parsed) bound stops)[index]? =
    some (.ok attributed)

/-- The files of a run are bound together, frozen and attributed. -/
theorem exists_attributedFile {files : Files} {sources : List SourceText} {options : RunOptions}
    {stops : Nat → Bool} {run : AttributionRun}
    (h : attributeSources files sources options stops = .ok run) {i : Nat} {source : SourceText}
    (hs : sources[i]? = some source) : ∃ a : AttributedFile,
      a.sources = sources ∧ a.imports = allDefaultImports options.extraImports ∧ a.stops = stops ∧
        a.source = source ∧ run.units[i]? = some a.attributed := by
  obtain ⟨base, declared, bound, env, -, hbind, hfreeze, hunits⟩ := attributeSources_ok h
  obtain ⟨rfl, -⟩ := bindUnits_ok hbind
  have hat := congrArg (·[i]?) hunits
  rw [attributeUnits_map env _ _ fun _ => rfl, List.getElem?_map, List.getElem?_map, hs,
    Option.map_some, Option.map_some, List.getElem?_map] at hat
  obtain ⟨attributed, hunit, hok⟩ := Option.map_eq_some_iff.mp hat.symm
  exact ⟨{ base, imports := allDefaultImports options.extraImports, stops, sources, declared, env,
           bound := _, index := i, source, attributed, binds := hbind, freezes := hfreeze
           source_at := hs
           attributes := by rw [hunits, List.getElem?_map, hunit, Option.map_some] },
    rfl, rfl, rfl, rfl, hunit⟩

/-- A source without classes clashes with nothing, so that it is attributed to its end. -/
theorem exists_attributedFile_unstopped (source : SourceText)
    (h : declaredClasses [source.parsed] [] = []) : ∃ a : AttributedFile,
      a.source = source ∧ ∀ n, a.stops n = false := by
  have hrun : ∃ run, attributeSources (fun _ => none) [source] {} = .ok run :=
    exists_run_of_nil _ rfl h
  obtain ⟨run, hrun⟩ := hrun
  obtain ⟨a, -, -, hstops, hsource, -⟩ :=
    exists_attributedFile hrun (rfl : [source][0]? = some source)
  exact ⟨a, hsource, fun n => congrFun hstops n⟩

theorem exists_attributedFile_of_nil (source : SourceText)
    (h : declaredClasses [source.parsed] [] = []) : ∃ a : AttributedFile, a.source = source :=
  (exists_attributedFile_unstopped source h).imp fun _ ha => ha.1

namespace AttributedFile

variable (a : AttributedFile)

def unit : Binding.File := .ofParsed a.imports a.source.parsed

/-- What the signatures of the file are read from. -/
def signatures : SignatureSource := a.unit.signatures a.env

/-- What the file is attributed with. -/
def setting : Setting where
  forest := a.source.parsed.forest
  env := a.env
  unit := a.unit.boundUnit
  stops := a.stops

theorem unit_parsed : a.unit.parsed = a.source.parsed := rfl

@[simp] theorem setting_forest : a.setting.forest = a.source.parsed.forest := rfl

@[simp] theorem setting_scope : a.setting.unit.scope = a.unit.scope := rfl

@[simp] theorem setting_facade : a.setting.unit.facade = a.unit.facade := by
  rw [setting, Binding.File.boundUnit]

/-- A property of the file that is bound. -/
def Declares (p : DeclaredProperty) : Prop :=
  a.setting.forest.DeclaresProperty a.setting.unit.scope.package a.setting.unit.facade
    a.source.parsed.root p

theorem attributeUnit_eq :
    attributeUnit a.env a.source.parsed a.unit.boundUnit a.stops = .ok a.attributed := by
  have h := a.attributes
  obtain ⟨hbound, -⟩ := bindUnits_ok a.binds
  rw [hbound, attributeUnits_map _ _ _ fun _ => rfl, List.getElem?_map, List.getElem?_map,
    a.source_at] at h
  exact Option.some.inj h

theorem stores {p : DeclaredProperty} (hp : a.Declares p) :
    a.env.Stores a.setting.unit.scope.package p (a.signatures.declared p) := by
  have hmem : a.source.parsed ∈ a.sources.map SourceText.parsed :=
    List.mem_map_of_mem (List.mem_of_getElem? a.source_at)
  have henv := Environment.eq_of_freeze a.freezes
  rw [Declares, setting_forest, setting_scope, setting_facade, unit] at hp
  have hstores := bindUnits_stores a.binds hmem (parsed_linked a.source) hp
  rw [henv] at hstores
  rw [setting_scope, signatures, unit]
  exact hstores

theorem lookup_classNames {id : NodeId} {name : String} {d : ClassDeclaration}
    (h : a.setting.forest.IsBound a.setting.unit.scope.package a.source.parsed.root id name d) :
    a.setting.unit.classNames.lookup id = some name := by
  rw [setting_forest, setting_scope, unit, Binding.File.ofParsed] at h
  rw [setting, Binding.File.boundUnit, Binding.File.classNames, unit, Binding.File.ofParsed]
  dsimp only at h ⊢
  exact h.lookup_classSites (parsed_linked a.source)

/-- The type that is written for a property by the names that attribution has in scope. -/
theorem typeOf_typeRef {p : DeclaredProperty} (hp : a.Declares p) {ref : NodeId}
    (hr : p.typeRef = some ref) (href : a.setting.forest.isTypeReference ref) :
    a.attributed.typeOf ref = a.setting.typeIn p.all ref := by
  have hnotes : Notes (a.setting.finalUses a.source.parsed.root) {} ref
      { types := [a.setting.typeIn p.all ref] } (a.setting.file a.source.parsed.root) :=
    Setting.file_notes_typeRef (s := a.setting) (parsed_linked a.source) a.lookup_classNames hp hr href
  obtain ⟨htype, -⟩ := attributeUnit_about a.setting a.setting_forest a.attributeUnit_eq hnotes
  rwa [List.getLast?_singleton, Option.getD_some] at htype

/-- A property with a type parameter and a written type. -/
def writtenProperty : SourceText := ⟨"A.kt", "val <T> item: kotlin.Any"⟩

/-- The tree of the property, as far as it matters to its type. -/
theorem writtenProperty_parsed : declaredClasses [writtenProperty.parsed] [] = [] ∧
    13 ∈ writtenProperty.parsed.forest.topLevelDeclarations writtenProperty.parsed.root ∧
    writtenProperty.parsed.forest.kind? (some 13) = some (.node .propertyDeclaration) ∧
    writtenProperty.parsed.forest.data (some 13) = .property
      { modifiers := [], isVar := false, receiverType := none, name := some 6,
        typeRef := some 12, initializer := none } ∧
    writtenProperty.parsed.forest.isTypeReference 12 ∧
    writtenProperty.parsed.forest.loneName? 12 = none := by
  decide +kernel

/-- The type that binding stores for a property with a written type is the one that attribution finds
out about the written type, unless this is the name of a type parameter that only attribution has in
scope: one of another class around, or one of the property itself. -/
theorem stored_type_eq_typeOf {p : DeclaredProperty} (hp : a.Declares p) {ref : NodeId}
    (hr : p.typeRef = some ref) (href : a.setting.forest.isTypeReference ref)
    (hname : ∀ name, a.setting.forest.loneName? ref = some name →
      name ∈ p.all.typeParameters → name ∈ p.own.typeParameters) :
    ∃ m, a.env.Stores a.setting.unit.scope.package p m ∧ m.name = p.name ∧ m.owner = p.owner ∧
      m.type = a.attributed.typeOf ref := by
  refine ⟨a.signatures.declared p, a.stores hp, rfl, rfl, ?_⟩
  rw [a.typeOf_typeRef hp hr href, SignatureSource.declared, SignatureSource.typeOrInitializer, hr,
    Option.isSome_some, if_pos rfl, SignatureSource.writtenType, Setting.typeIn, signatures,
    Binding.File.signatures, setting_scope, setting_forest, unit_parsed]
  exact FileScope.resolveType_congr hp.enclosing_eq fun name hlone =>
    ⟨fun h => hp.typeParameters_subset h, hname name hlone⟩

/-- A name with its package is that of no type parameter. -/
theorem stored_type_eq_typeOf_qualified : ∃ (a : AttributedFile) (p : DeclaredProperty)
    (ref : NodeId), a.source = writtenProperty ∧ a.Declares p ∧ p.typeRef = some ref ∧
      a.setting.forest.isTypeReference ref ∧
      (∀ name, a.setting.forest.loneName? ref = some name →
        name ∈ p.all.typeParameters → name ∈ p.own.typeParameters) ∧
      ∃ m, a.env.Stores a.setting.unit.scope.package p m ∧ m.name = p.name ∧ m.owner = p.owner ∧
        m.type = a.attributed.typeOf ref := by
  obtain ⟨hnil, htop, hkind, hdata, href, hlone⟩ := writtenProperty_parsed
  obtain ⟨a, hsource⟩ := exists_attributedFile_of_nil writtenProperty hnil
  rw [← hsource, ← setting_forest] at htop hkind hdata href hlone
  obtain ⟨p, hdeclares, hr⟩ : ∃ p, a.Declares p ∧ p.typeRef = some 12 :=
    ⟨_, .topLevel htop ⟨hkind, hdata, rfl⟩, rfl⟩
  have hname : ∀ name, a.setting.forest.loneName? 12 = some name →
      name ∈ p.all.typeParameters → name ∈ p.own.typeParameters := by
    intro name hsome
    rw [hlone] at hsome
    cases hsome
  exact ⟨a, p, 12, hsource, hdeclares, hr, href, hname,
    a.stored_type_eq_typeOf hdeclares hr href hname⟩

/-- Each name in the file is used once. -/
theorem uses_once : (a.setting.finalUses a.source.parsed.root).Pairwise fun x y => x.2.node ≠ y.2.node :=
  (Setting.file_once (ParsedUnit.ofSource_sound _ _) a.source.parsed.root).of_run.pairwise.1

theorem usedType_eq (id : NodeId) : a.attributed.usedType id =
    Attribution.usedType (a.setting.finalUses a.source.parsed.root) id := by
  obtain ⟨-, h⟩ := eq_of_attributeUnit a.attributeUnit_eq
  rw [h]
  exact AttributedUnit.usedType_unit _ a.uses_once id

/-- What is called by an expression under its parentheses and signs, if anything is, is used with this
type. -/
def CalledAs (value : NodeId) (t : Ty) : Prop :=
  ∀ callee, a.setting.forest.calledUnder? value = some callee → a.attributed.usedType callee = t

/-- A type that binding knows by the initializer of a property is that of the variable that attribution
finds, unless there is a call under parentheses and signs: binding takes it for the construction of a
class, and attribution for a call of what has the name. Then they agree if attribution records the same
type of the name, and else only where a value is asserted to be there. Nor is `null` the value that is
asserted to be there. -/
theorem stored_type_eq_variable {p : DeclaredProperty} (hp : a.Declares p) (hr : p.typeRef = none)
    {value : NodeId} (hv : p.initializer = some value)
    (hdepth : (a.setting.forest.unwrapping value).length ≤ maxDepth) :
    ∃ m, a.env.Stores a.setting.unit.scope.package p m ∧ m.name = p.name ∧ m.owner = p.owner ∧
      m.type = a.signatures.initializerType p.own.enclosing value ∧ (m.type ≠ .unknown →
        (m.type = .null → ∀ y ∈ a.setting.forest.unwrapping value, ¬ a.setting.forest.IsAssertion y) →
          ∃ v, (a.attributed.declared.filter fun v => v.node = p.node) = [v] ∧ v.name = p.name ∧
            (a.CalledAs value m.type → v.type = m.type) ∧
            (v.type = m.type → a.CalledAs value m.type ∨
              ∃ y ∈ a.setting.forest.unwrapping value, a.setting.forest.IsAssertion y)) := by
  have htype : (a.signatures.declared p).type =
      a.signatures.initializerType p.own.enclosing value := by
    rw [SignatureSource.declared, SignatureSource.typeOrInitializer, hr, hv]
    rfl
  refine ⟨a.signatures.declared p, a.stores hp, rfl, rfl, htype, ?_⟩
  rw [htype]
  intro hknown hnull
  have hf : a.setting.forest.Linked := parsed_linked a.source
  have hvalue (hassertion : ∃ y ∈ a.setting.forest.unwrapping value, a.setting.forest.IsAssertion y) :
      (a.signatures.initializerType p.own.enclosing value).notNull =
        a.signatures.initializerType p.own.enclosing value := by
    refine (a.signatures.initializerType_eq_null_or_notNull hf p.own.enclosing hknown).resolve_left ?_
    obtain ⟨y, hy, hassertion⟩ := hassertion
    exact fun h => hnull h y hy hassertion
  obtain ⟨t, ht, hreturns⟩ := Setting.exists_typeOf_returns (s := a.setting) rfl hf a.uses_once
    p.own.enclosing hknown
  have hnotes := Setting.file_notes_variable hf a.lookup_classNames hp hr hv fun n c hn hc =>
    hreturns n c hn (by omega)
  obtain ⟨-, hdeclared⟩ := attributeUnit_about a.setting a.setting_forest a.attributeUnit_eq hnotes
  refine ⟨_, hdeclared, rfl, ?_⟩
  dsimp only
  cases hcalled : a.setting.forest.calledUnder? value with
  | none =>
    -- Nothing is called, so that both know the same, and it is no `null` that would be asserted.
    rw [hcalled, Option.map_none, Option.getD_none] at ht
    have hnone : a.CalledAs value (a.signatures.initializerType p.own.enclosing value) := fun callee h =>
      nomatch hcalled.symm.trans h
    refine ⟨fun _ => ?_, fun _ => .inl hnone⟩
    exact ht.elim id fun ⟨hassertion, h⟩ => h.trans (hvalue hassertion)
  | some callee =>
    rw [hcalled, Option.map_some, Option.getD_some, ← a.usedType_eq] at ht
    refine ⟨fun h => ?_, fun h => ?_⟩
    · rw [h callee hcalled] at ht
      exact ht.elim id fun ⟨hassertion, h⟩ => h.trans (hvalue hassertion)
    · refine ht.imp (fun hsame other hother => ?_) And.left
      obtain rfl : callee = other := Option.some.inj (hcalled.symm.trans hother)
      exact hsame.symm.trans h

/-- The call of a class as the source of a file. -/
def constructed : SourceText := ⟨"a.kt", "val x = C()"⟩

theorem constructed_parsed : constructed.parsed.root = 10 ∧ constructed.parsed.forest.size = 11 ∧
    constructed.parsed.forest.data (some 10) = .sourceFile
      { fileName := "a.kt", package := none, imports := #[], declarations := #[8], endOfFile := 9 } ∧
    constructed.parsed.forest.kind? (some 8) = some (.node .propertyDeclaration) ∧
    constructed.parsed.forest.data (some 8) = .property
      { modifiers := [], isVar := false, receiverType := none, name := some 1,
        typeRef := none, initializer := some 7 } ∧
    constructed.parsed.forest.isShortCircuited 3 = false ∧
    (Binding.File.ofParsed [] constructed.parsed).sites.isEmpty = true ∧
    (Binding.File.ofParsed [] constructed.parsed).scope.package = "" ∧
    (Binding.File.ofParsed [] constructed.parsed).scope.explicitImports = [] := by
  decide +kernel

/-- A file that consists of a property brings its member and nothing else. -/
theorem bindUnits_of_property (env : Environment) {u : ParsedUnit} {imports : List String}
    {id name : NodeId} {d : PropertyDeclaration} (hsites : (Binding.File.ofParsed imports u).sites = [])
    (hpackage : (Binding.File.ofParsed imports u).scope.package = "")
    (htop : u.forest.topLevelDeclarations u.root = #[id]) (hd : u.forest.IsProperty id d name) :
    ∃ m bound, m.kind = .field ∧
      bindUnits env [u] imports = .ok (env.addTopLevel "" m .source, bound) := by
  -- Of the three passes, only the one over members finds something.
  let file := Binding.File.ofParsed imports u
  have hclasses : Binding.declareClasses env file = .ok env := by
    rw [Binding.declareClasses, hsites, hpackage]
    rfl
  have hsupertypes : Binding.resolveSupertypes env file = env := by
    rw [Binding.resolveSupertypes, hsites]
    rfl
  obtain ⟨m, hmember, hm⟩ : ∃ m : Member, SignatureSource.member?
      { forest := u.forest, scope := file.scope, isClass := env.hasClass } file.facade {} id = some m ∧
        m.kind = .field := ⟨_, SignatureSource.member?_isProperty hd file.facade {}, rfl⟩
  have hdeclare : Binding.declareMembers file env id = .ok (env.addTopLevel "" m .source) := by
    rw [Binding.declareMembers, show file.parsed = u from rfl, hd.kind]
    dsimp only
    rw [hmember, hpackage]
  have hmembers : Binding.declareFileMembers env file = .ok (env.addTopLevel "" m .source) := by
    rw [Binding.declareFileMembers, show file.parsed = u from rfl, htop]
    exact congrArg (· >>= pure) hdeclare
  refine ⟨m, [file.boundUnit], hm, ?_⟩
  rw [bindUnits, List.map_singleton, List.foldlM_cons, hclasses]
  change List.foldlM Binding.declareFileMembers (Binding.resolveSupertypes env file) [file] >>= _ = _
  rw [hsupertypes, List.foldlM_cons, hmembers]
  rfl

/-- The file is attributed where the class is declared, and no function of its name is. -/
theorem exists_constructed : ∃ a : AttributedFile, a.source = constructed ∧ a.imports = [] ∧
    (∀ n, a.stops n = false) ∧ a.env.classInfo? "C" = some calledClass ∧
      topLevelMember? a.env "" "C" (.call 0) = none := by
  obtain ⟨hroot, -, hfile, hkind, hdata, -, hsites, hpackage, -⟩ := constructed_parsed
  have htop : constructed.parsed.forest.topLevelDeclarations constructed.parsed.root = #[8] := by
    rw [hroot, Forest.topLevelDeclarations, hfile]
  obtain ⟨m, bound, hm, hbind⟩ := bindUnits_of_property calledClasses (List.isEmpty_iff.mp hsites)
    hpackage htop ⟨hkind, hdata, rfl⟩
  have hinfo := calledClasses.classInfo?_addTopLevel "" m .source "C"
  have hmembers := Environment.topLevel_addTopLevel calledClasses "" m .source "" "C"
  have horder : (calledClasses.addTopLevel "" m .source).order = #[] := by
    unfold Environment.addTopLevel
    dsimp only
    split <;> rfl
  -- What has been bound is given a name, as its parse is large.
  generalize calledClasses.addTopLevel "" m .source = env at hbind hinfo hmembers horder
  obtain ⟨frozen, hfreeze⟩ : ∃ frozen, env.freeze = .ok frozen :=
    Environment.freeze_eq_ok_iff.mpr fun n hn => by simp [horder] at hn
  obtain rfl := Environment.eq_of_freeze hfreeze
  obtain ⟨attributed, hok⟩ := attributeUnit_ok env (parsed_linked constructed)
    (Binding.File.ofParsed [] constructed.parsed).boundUnit (fun _ => false) fun _ => rfl
  obtain ⟨rfl, -⟩ := bindUnits_ok hbind
  refine ⟨{ base := calledClasses, imports := [], stops := fun _ => false, sources := [constructed]
            declared := env, env, bound := _, index := 0, source := constructed, attributed
            binds := hbind, freezes := hfreeze, source_at := rfl, attributes := ?_ },
    rfl, rfl, fun _ => rfl, hinfo.trans calledClasses_classInfo?, ?_⟩
  · rw [List.map_singleton, attributeUnits_map _ _ _ fun _ => rfl]
    exact congrArg some hok
  -- The property is a field, so a call of its name finds nothing.
  · have hnone : calledClasses.topLevel "" "C" = [] := by
      simp [Environment.topLevel, calledClasses]
    rw [topLevelMember?, hmembers, hnone]
    split <;> simp [Purpose.fits, Purpose.selectLoosely?, overload?, hm]

/-- Binding takes the call for the construction of the class. -/
theorem constructed_initializerType {s : SignatureSource} (hforest : s.forest = callOfClass.forest)
    (hpackage : s.scope.package = "") (himports : s.scope.explicitImports = [])
    (hclass : s.isClass "C") :
    s.initializerType [] 7 = .of "C" := by
  obtain ⟨hkind, hdata, hname, hsays⟩ := callOfClass_forest
  have hspelled : callOfClass.forest.Spelled := ParsedUnit.ofSource_spelled "a.kt" "val x = C()"
  have htext : callOfClass.forest.nameText (some callOfClassValue.callee) = "C" :=
    hspelled.nameText hsays
  rw [← hforest] at hkind hdata hname htext
  have hsegments : s.forest.chainSegments? callOfClassValue.callee = some ["C"] := by
    rw [Forest.chainSegments?, htext]
    exact if_pos hname
  have hresolved : s.scope.resolveClass? ["C"] [] s.isClass = some "C" := by
    simp [FileScope.resolveClass?, FileScope.resolveSimple?, FileScope.importPath?,
      FileScope.nestedClass?, FileScope.implicitPackages, hpackage, himports, inPackage, hclass]
  rw [SignatureSource.initializerType_of_call hkind hdata hsegments, hresolved]
  rfl

/-- Attribution uses the class when it comes to the call. -/
theorem constructed_usedType {a : AttributedFile} (hsource : a.source = constructed)
    (hpackage : a.setting.unit.scope.package = "") (himports : a.setting.unit.scope.explicitImports = [])
    (hstops : a.stops 0 = false) (hinfo : a.setting.env.classInfo? "C" = some calledClass)
    (htop : topLevelMember? a.setting.env "" "C" (.call 0) = none) :
    a.attributed.usedType 3 = .of "C" := by
  obtain ⟨hroot, hsize, hfile, hkind, hdata, hcut, -⟩ := constructed_parsed
  have hforest : a.setting.forest = callOfClass.forest := by
    rw [setting_forest, hsource]
    rfl
  have hf : a.setting.forest.Linked := parsed_linked a.source
  obtain ⟨hcall, hcalldata, -⟩ := callOfClass_forest
  rw [← hforest] at hcall hcalldata
  rw [← hsource] at hroot
  rw [← hsource, ← setting_forest] at hsize hfile hkind hdata hcut
  -- The constructor of the class yields it, so the callee is used as the class.
  obtain ⟨hown, hyields⟩ := calledClass_yieldsNotNull hinfo 0
  obtain ⟨htype, howner⟩ := constructorOf_itself hown 0
  have hcallee (names : List String) : ComesToUse (UsedAs 3 (.of "C"))
      { polls := 1, typeParameters := names, depth := 1 }
      (a.setting.calleeType (a.setting.tasks 10) 3 0) := by
    have hcalls : a.setting.CallsClass { polls := 1, typeParameters := names, depth := 1 } 0 "C" 3 :=
      callOfClass_callsClass hforest hpackage himports hinfo htop rfl rfl rfl
    have hused := Setting.calleeType_comesToUse hf hcalls (n := 10) (by decide) hown hcut
    rwa [(Environment.nullabilityOf_eq_notNull_iff htype howner).mpr hyields] at hused
  -- The declaration is the only one of the file, so the use is found in the end.
  have hfirst : ComesToUse (UsedAs 3 (.of "C")) { polls := 1 }
      (a.setting.declaration (a.setting.tasks 11) (.named a.setting.unit.facade) 8) :=
    Setting.property_comesToUse hf ⟨hkind, hdata, rfl⟩ rfl rfl rfl fun names =>
      Setting.expression_call_comesToUse hf hcall hcalldata (show 0 < maxDepth by decide) (hcallee _)
  have huses : ComesToUse (UsedAs 3 (.of "C")) {} (a.setting.file 10) :=
    Setting.file_comesToUse hf hfile rfl rfl hstops (hsize ▸ hfirst)
  obtain ⟨place, use, hmem, hnode, htype⟩ := huses
  rw [← hroot] at hmem
  -- The callee is used once, so the use that is found is the one that counts.
  have hused := usedType_of_mem a.uses_once (Array.mem_toList_iff.mpr hmem)
  rwa [hnode, htype, ← a.usedType_eq] at hused

/-- The class that is called is the type of the property, and so it is used. -/
theorem stored_type_eq_variable_constructed : ∃ (a : AttributedFile) (p : DeclaredProperty)
    (value callee : NodeId), a.source = constructed ∧ a.Declares p ∧ p.typeRef = none ∧
      p.initializer = some value ∧ (a.setting.forest.unwrapping value).length ≤ maxDepth ∧
      a.setting.forest.calledUnder? value = some callee ∧ a.attributed.usedType callee = .of "C" ∧
      ∃ m, a.env.Stores a.setting.unit.scope.package p m ∧ m.type = .of "C" ∧
        ∃ v, (a.attributed.declared.filter fun v => v.node = p.node) = [v] ∧ v.name = p.name ∧
          v.type = .of "C" := by
  obtain ⟨hroot, -, hfile, hkind, hdata, -, -, hpackage, himports⟩ := constructed_parsed
  obtain ⟨hcall, hcalldata, -, -⟩ := callOfClass_forest
  obtain ⟨a, hsource, hnone, hstops, hinfo, htop⟩ := exists_constructed
  have hforest : a.setting.forest = callOfClass.forest := by
    rw [setting_forest, hsource]
    rfl
  have hscope : a.setting.unit.scope = (Binding.File.ofParsed [] constructed.parsed).scope := by
    rw [setting_scope, unit, hnone, hsource]
  rw [← hscope] at hpackage himports
  rw [← hforest] at hcall hcalldata
  rw [← hsource] at hroot
  rw [← hsource, ← setting_forest] at hfile hkind hdata
  have hmem : 8 ∈ a.setting.forest.topLevelDeclarations a.source.parsed.root := by
    rw [hroot, Forest.topLevelDeclarations, hfile]
    simp
  obtain ⟨p, hdeclares, hr, hv, howner⟩ : ∃ p, a.Declares p ∧ p.typeRef = none ∧ p.initializer = some 7 ∧
      p.own.enclosing = [] := ⟨_, .topLevel hmem ⟨hkind, hdata, rfl⟩, rfl, rfl, rfl⟩
  -- Nothing is wrapped around the call.
  have hinner : a.setting.forest.unwrapped? 7 = none := by rw [Forest.unwrapped?, hcall]
  have hunwrapping : a.setting.forest.unwrapping 7 = [7] := Forest.unwrapping_eq_singleton hinner
  have hdepth : (a.setting.forest.unwrapping 7).length ≤ maxDepth := by
    rw [hunwrapping]
    decide
  have hcalled : a.setting.forest.calledUnder? 7 = some 3 := Forest.calledUnder?_of_call hcall hcalldata
  have hused := constructed_usedType hsource hpackage himports (hstops 0) hinfo htop
  have hclass : a.env.hasClass "C" = true := Environment.isSome_classInfo?.mp (by rw [hinfo]; rfl)
  have hknown : a.signatures.initializerType [] 7 = .of "C" :=
    constructed_initializerType (s := a.signatures) hforest hpackage himports hclass
  -- Both passes know the property's type: one stores it, the other records it with the variable.
  obtain ⟨m, hstores, -, -, htype, hvariable⟩ := a.stored_type_eq_variable hdeclares hr hv hdepth
  rw [howner, hknown] at htype
  have hunknown : m.type ≠ .unknown := by simp [htype, Ty.of]
  have hnull : m.type ≠ .null := by simp [htype, Ty.of, Ty.null]
  obtain ⟨v, hfilter, hname, hsame, -⟩ := hvariable hunknown fun h => absurd h hnull
  have hcalledAs : a.CalledAs 7 m.type := by
    intro callee hcallee
    rw [hcalled, Option.some.injEq] at hcallee
    rw [← hcallee, hused, htype]
  exact ⟨a, p, 7, 3, hsource, hdeclares, hr, hv, hdepth, hcalled, hused, m, hstores, htype, v, hfilter,
    hname, (hsame hcalledAs).trans htype⟩

end AttributedFile

end KotlinTree
