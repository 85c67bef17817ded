import KotlinTree.Proofs.Attribution.Sound.Expression
import KotlinTree.Proofs.Binding.Typed
import KotlinTree.Proofs.Binding.WellFormed
import KotlinTree.Proofs.Project.Run

/-!
What runs find out is declared. Main statements: with nothing but what is built in, each class of a type has
been declared; the class or the file that is noted as the owner of a field or a method declares a member of
its own that the name stands for.
-/

namespace KotlinTree

section
open Environment Attribution

/-- The class of a type is there, if the type has one. -/
def Environment.Knows (env : Environment) (t : Ty) : Prop :=
  ∀ name, t.name? = some name → (env.classInfo? name).isSome

/-- The classes of all types that are known about a file are there. -/
structure AttributedUnit.Known (u : AttributedUnit) (env : Environment) : Prop where
  types : ∀ (id : NodeId) (t : Ty), u.types[id]? = some t → env.Knows t
  uses : ∀ use, u.Uses use → env.Knows use.type ∧ env.Knows use.target.declared
  declared : ∀ v ∈ u.declared, env.Knows v.type

section
variable {declared env : Environment} {units : List ParsedUnit} {defaultImports : List String}
  {bound : List BoundUnit}

/-- Files that are bound after the builtins add their classes to them, and no others. -/
theorem hasClass_of_bindUnits
    (hb : bindUnits Builtins.environment units defaultImports = .ok (declared, bound))
    (name : String) : declared.hasClass name ↔
      name ∈ Builtins.names ++ (declaredClasses units defaultImports).map Prod.fst := by
  rcases bindUnits_cases Builtins.environment_declares Builtins.anyName_mem_names units
    defaultImports with ⟨after, hok, hd⟩ | ⟨_, _, _, herror, -⟩
  · rw [hb] at hok
    obtain ⟨rfl, -⟩ := Prod.mk.inj (Except.ok.inj hok)
    rw [hd.hasClass_iff, List.map_append]
    rfl
  · rw [hb] at herror
    cases herror

theorem mem_declaredClasses_of_classNames {u : ParsedUnit} (hu : u ∈ units) {id : NodeId}
    {name : String} (h : (id, name) ∈ (Binding.File.ofParsed defaultImports u).classNames) :
    name ∈ (declaredClasses units defaultImports).map Prod.fst := by
  obtain ⟨site, hsite, hpair⟩ := List.mem_map.mp h
  obtain ⟨-, rfl⟩ := Prod.mk.inj hpair
  refine List.mem_map.mpr ⟨(site.name, site.kind), ?_, rfl⟩
  exact List.mem_flatMap.mpr ⟨_, List.mem_map_of_mem hu, List.mem_map_of_mem hsite⟩

/-- There is no way from the classes that are there to any other one. -/
theorem closed_of_bindUnits
    (hb : bindUnits Builtins.environment units defaultImports = .ok (declared, bound))
    (hf : declared.freeze = .ok env) {u : ParsedUnit} (hu : u ∈ units) (stops : Nat → Bool) :
    Setting.Closed { forest := u.forest, env, stops
                     unit := (Binding.File.ofParsed defaultImports u).boundUnit }
      fun name => (env.classInfo? name).isSome := by
  have hwell := (bindUnits_consistent Builtins.environment_consistent hb).wellFormed hf
  obtain rfl := eq_of_freeze hf
  have hclasses := hasClass_of_bindUnits hb
  have hbuiltin : ∀ name ∈ Builtins.names, (declared.classInfo? name).isSome := fun name hname =>
    isSome_classInfo?.mpr ((hclasses name).mpr (List.mem_append_left _ hname))
  have hwithin : declared.Within fun name => (declared.classInfo? name).isSome :=
    bindUnits_within (Builtins.environment_hasOnly.mono fun m hm name hname =>
      hbuiltin name (hm name hname)) hbuiltin hb fun name => isSome_classInfo?.mpr
  refine ⟨hwithin.hasClass, hbuiltin _ Builtins.anyName_mem_names, hbuiltin _ (by decide +kernel),
    hbuiltin _ (by decide +kernel), hbuiltin _ (by decide +kernel), hbuiltin _ (by decide +kernel),
    fun id t ht name hname => hbuiltin name (Forest.literalType?_within ht name hname),
    hwithin.member, fun t c hc => ?_, fun sub t ht => ?_, fun id name hname => ?_⟩
  · obtain ⟨info, hinfo, hcompanion⟩ := Option.bind_eq_some_iff.mp hc
    obtain ⟨name, -, hi⟩ := Option.bind_eq_some_iff.mp hinfo
    obtain ⟨companion, hname, rfl⟩ := Option.map_eq_some_iff.mp hcompanion
    obtain ⟨found, hfound, -⟩ := hwell.companion name info hi companion hname
    exact Ty.within_of (Option.isSome_iff_exists.mpr ⟨found, hfound⟩)
  · unfold supertypes at ht
    split at ht
    · exact absurd ht List.not_mem_nil
    · rename_i info hi
      split at ht
      · -- A class without supertypes is below the root of all classes.
        split at ht
        · exact absurd ht List.not_mem_nil
        · rw [List.mem_singleton.mp ht]
          exact hbuiltin _ Builtins.anyName_mem_names
      · exact hwell.supertype sub info hi t ht
  · refine isSome_classInfo?.mpr ((hclasses name).mpr (List.mem_append_right _ ?_))
    exact mem_declaredClasses_of_classNames hu hname

end

/-- With nothing but what is built in, the class of every type that a run finds out, of a node, of a
name or of a variable, is there in the end. -/
theorem attributeSources_known {files : Files} {sources : List SourceText} {options : RunOptions}
    {stops : Nat → Bool} {run : AttributionRun} (hc : options.classpath = [])
    (h : attributeSources files sources options stops = .ok run) :
    ∃ declared bound env, bindUnits Builtins.environment (sources.map SourceText.parsed)
        (allDefaultImports options.extraImports) = .ok (declared, bound) ∧
      declared.freeze = .ok env ∧ ∀ u ∈ run.units, u.Known env := by
  obtain ⟨base, declared, bound, env, hbase, hbind, hfreeze, hunits⟩ := attributeSources_ok h
  rw [hc] at hbase
  cases hbase
  refine ⟨declared, bound, env, hbind, hfreeze, fun u hu => ?_⟩
  obtain ⟨source, hsource, hunit⟩ := exists_source_of_mem_units hbind hunits hu
  have hclosed := closed_of_bindUnits hbind hfreeze (List.mem_map_of_mem hsource) stops
  have hsound := attributeUnit_sound hclosed hunit
  refine ⟨hsound.types, fun use huse => ?_, hsound.declared⟩
  have hfits := hsound.uses use huse
  exact ⟨hfits.type, hfits.declared⟩

/-- A property with a literal as its value, and a function that calls a member of it. -/
def literalCall : SourceText := ⟨"A.kt", "val n = 1\nfun f() = n.plus(2)"⟩

/-- The classes of all types in the file are there. -/
theorem attributeSources_known_literalCall : ∃ run declared bound env,
    attributeSources (fun _ => none) [literalCall] {} = .ok run ∧ run.units.length = 1 ∧
      bindUnits Builtins.environment ([literalCall].map SourceText.parsed) (allDefaultImports []) =
        .ok (declared, bound) ∧
      declared.freeze = .ok env ∧ ∀ u ∈ run.units, u.Known env := by
  have hnil : declaredClasses ([literalCall].map SourceText.parsed) [] = [] := by
    decide +kernel
  have hclasspath : ({} : RunOptions).classpath = [] := rfl
  obtain ⟨run, hrun⟩ := exists_run_of_nil (fun _ => none) hclasspath hnil
  obtain ⟨declared, bound, env, hbind, hfreeze, hknown⟩ := attributeSources_known hclasspath hrun
  exact ⟨run, declared, bound, env, hrun, length_units hrun, hbind, hfreeze, hknown⟩

end

open Environment Attribution

/-- A class or a file has a member of its own that a name stands for. -/
inductive Environment.Owns (env : Environment) (owner name : String) :
    (isSynthetic : Bool) → Prop where
  | ofClass {info : ClassInfo} {m : Member} : env.classInfo? owner = some info → m ∈ info.members →
    m.name = name → m.owner = owner → env.Owns owner name false
  | topLevel {package : String} {m : Member} : m ∈ env.topLevel package name → m.name = name →
    m.owner = owner → env.Owns owner name false
  | isExtension {m : Member} : m ∈ env.extensions.getD name [] → m.name = name → m.owner = owner →
    env.Owns owner name false
  | getter {info : ClassInfo} {m : Member} : env.classInfo? owner = some info → m ∈ info.members →
    getterName name.toList = some m.name → isGetter m → m.owner = owner → env.Owns owner name true
  | question {info : ClassInfo} {m : Member} : env.classInfo? owner = some info →
    m ∈ info.members → isQuestion name.toList → m.name = name → isQuestionGetter m →
    m.owner = owner → env.Owns owner name true

section
variable {env : Environment} {name : String} {m : Member}

theorem Environment.Consistent.owns_of_has (h : env.Consistent) (hm : env.Has name m) :
    env.Owns m.owner name m.isSynthetic := by
  cases hm with
  | ofClass hi hmem =>
    obtain ⟨hmem, hname⟩ := List.mem_filter.mp hmem
    have hfits := h.classes _ _ hi
    rw [hfits.isDeclared m hmem, hfits.owner m hmem]
    exact .ofClass hi hmem (of_decide_eq_true hname) (hfits.owner m hmem)
  | topLevel hmem =>
    have hfits := h.topLevel _ _ m hmem
    rw [hfits.isDeclared]
    exact .topLevel hmem hfits.name_eq rfl
  | isExtension hmem =>
    have hfits := h.extensions _ m hmem
    rw [hfits.isDeclared]
    exact .isExtension hmem hfits.name_eq rfl

/-- Whatever is found under a name is a member of its owner. -/
theorem Environment.Consistent.owns_of_offers (h : env.Consistent) (hm : env.Offers name m) :
    env.Owns m.owner name m.isSynthetic := by
  cases hm with
  | stored hhas => exact h.owns_of_has hhas
  | accessor hgetter =>
    cases hgetter with
    | getter hname hi hmem hget =>
      obtain ⟨hmem, hkey⟩ := List.mem_filter.mp hmem
      have howner := (h.classes _ _ hi).owner _ hmem
      rw [← of_decide_eq_true hkey] at hname
      exact .getter (howner.symm ▸ hi) hmem hname hget rfl
    | question hname hi hmem hget =>
      obtain ⟨hmem, hkey⟩ := List.mem_filter.mp hmem
      have howner := (h.classes _ _ hi).owner _ hmem
      exact .question (howner.symm ▸ hi) hmem hname (of_decide_eq_true hkey) hget rfl

end

/-- A file imports something. -/
def Forest.Imports (f : Forest) (root : NodeId) (directive : ImportDirective) : Prop :=
  ∃ file, f.data (some root) = .sourceFile file ∧
    ∃ id ∈ file.imports, f.data (some id) = .importDirective directive

/-- A name that stands for the last of a path, and has no point in it, comes after the last point of the
dotted path. -/
theorem afterLast_importName {f : Forest} {directive : ImportDirective} (h : directive.localName = none)
    {segments : List String}
    (hpoint : '.' ∉ (FileScope.importName f directive segments).toList) :
    Text.afterLast (· = '.') (dotted segments) = FileScope.importName f directive segments := by
  unfold FileScope.importName at hpoint ⊢
  rw [h] at hpoint ⊢
  rcases List.eq_nil_or_concat segments with rfl | ⟨front, last, rfl⟩
  · rfl
  · rw [List.concat_eq_append, List.getLast?_append] at hpoint ⊢
    exact afterLast_dotted hpoint

/-- Where imports have no names of their own, the name that something is imported by is the last of its
path. -/
theorem FileScope.afterLast_of_mem_explicitImports {f : Forest} {root : NodeId}
    (h : ∀ directive, f.Imports root directive → directive.localName = none)
    {defaultImports : List String} {name path : String} (hpoint : '.' ∉ name.toList)
    (hmem : (name, path) ∈ ((ofFile f root).addDefaultImports defaultImports).explicitImports) :
    Text.afterLast (· = '.') path = name := by
  change (name, path) ∈ (ofFile f root).explicitImports at hmem
  unfold ofFile at hmem
  split at hmem
  · rename_i file hfile
    -- By the directives: each of them names at most one import.
    refine List.foldlRecOn (motive := fun scope : FileScope =>
      (name, path) ∈ scope.explicitImports → Text.afterLast (· = '.') path = name)
      file.imports.toList _ (fun hnil => absurd hnil List.not_mem_nil)
      (fun scope hscope id hid hmem => ?_) hmem
    unfold addDirective at hmem
    split at hmem
    · rename_i directive hdirective
      split at hmem
      · rename_i segments hsegments
        split at hmem
        · exact hscope hmem
        · rcases List.mem_append.mp hmem with hbefore | hadded
          · exact hscope (List.mem_filter.mp hbefore).1
          · obtain ⟨rfl, rfl⟩ := Prod.mk.inj (List.mem_singleton.mp hadded)
            have himports : f.Imports root directive :=
              ⟨file, hfile, id, Array.mem_toList_iff.mp hid, hdirective⟩
            exact afterLast_importName (h directive himports) hpoint
      · exact hscope hmem
    · exact hscope hmem
  · exact absurd hmem List.not_mem_nil

/-- What stubs declare after the builtins goes together. -/
theorem loadStubs_consistent {files : Files} {paths : List String} {env : Environment}
    (h : paths.foldlM (loadStub files) Builtins.environment = .ok env) : env.Consistent := by
  refine foldlM_keeps (p := Consistent) (fun path _ env after henv hload => ?_)
    Builtins.environment_consistent h
  unfold loadStub at hload
  split at hload
  · cases hload
  · split at hload
    · rename_i hadd
      cases hload
      unfold addStubText at hadd
      split at hadd
      · exact henv.addStub hadd
      · cases hadd
    · cases hload

/-- In a file whose imports have no names of their own, each field or method that a name without points
is found to mean is one that its owner declares, whatever stubs there are. -/
theorem attributeSources_owns {files : Files} {sources : List SourceText} {options : RunOptions}
    {stops : Nat → Bool} {run : AttributionRun}
    (h : attributeSources files sources options stops = .ok run) :
    ∃ base declared bound env,
      options.classpath.foldlM (loadStub files) Builtins.environment = .ok base ∧
      bindUnits base (sources.map SourceText.parsed) (allDefaultImports options.extraImports) =
        .ok (declared, bound) ∧
      declared.freeze = .ok env ∧
      ∀ u ∈ run.units, (∀ directive, u.forest.Imports u.root directive → directive.localName = none) →
        ∀ use, u.Uses use → use.target.symbol = .field ∨ use.target.symbol = .method →
          '.' ∉ use.name.toList → ∀ owner, use.target.owner = some owner →
            env.Owns owner use.name use.target.isSynthetic := by
  obtain ⟨base, declared, bound, env, hbase, hbind, hfreeze, hunits⟩ := attributeSources_ok h
  refine ⟨base, declared, bound, env, hbase, hbind, hfreeze, ?_⟩
  intro u hu himports use huse hsymbol hpoint owner howner
  have hconsistent := bindUnits_consistent (loadStubs_consistent hbase) hbind
  rw [eq_of_freeze hfreeze] at hconsistent
  obtain ⟨source, -, hunit⟩ := exists_source_of_mem_units hbind hunits hu
  have hsound := attributeUnit_sound (Setting.closed_true _) hunit
  obtain ⟨-, hknown⟩ := eq_of_attributeUnit hunit
  obtain ⟨m, hfinds, rfl, hsynthetic⟩ := (hsound.uses use huse).owner hsymbol owner howner
  rw [← hsynthetic]
  rcases hfinds with hoffers | ⟨path, hpath, hhas⟩
  · exact hconsistent.owns_of_offers hoffers
  · -- An imported member is stored under the last name of its path, which is the one that is used.
    have hname : Text.afterLast (· = '.') path = use.name := by
      rw [hknown] at himports
      exact FileScope.afterLast_of_mem_explicitImports himports hpoint hpath
    rw [hname] at hhas
    exact hconsistent.owns_of_has hhas

/-- A property of a package. -/
def packageProperty : SourceText := ⟨"A.kt", "package p\nval n = 1"⟩

/-- A function that imports the property and calls a member of it. -/
def importedCall : SourceText := ⟨"B.kt", "import p.n\nfun f() = n.plus(2)"⟩

theorem packageProperty_imports :
    packageProperty.parsed.forest.data (some packageProperty.parsed.root) =
      .sourceFile { fileName := "A.kt", package := some 2, imports := #[], declarations := #[7]
                    endOfFile := 8 } := by
  decide +kernel

theorem importedCall_imports :
    importedCall.parsed.forest.data (some importedCall.parsed.root) =
      .sourceFile { fileName := "B.kt", package := none, imports := #[5], declarations := #[21]
                    endOfFile := 22 } ∧
    importedCall.parsed.forest.data (some 5) =
      .importDirective { path := some 4, isStar := false, localName := none } := by
  decide +kernel

/-- What the two files import has no names of its own. -/
theorem localName_of_importedCall : ∀ source ∈ [packageProperty, importedCall], ∀ directive,
    source.parsed.forest.Imports source.parsed.root directive → directive.localName = none := by
  intro source hsource directive himports
  obtain ⟨file, hfile, id, hid, hdirective⟩ := himports
  rcases List.mem_pair.mp hsource with rfl | rfl
  · rw [packageProperty_imports] at hfile
    cases hfile
    exact absurd hid (Array.not_mem_empty _)
  · obtain ⟨hdata, himport⟩ := importedCall_imports
    rw [hdata] at hfile
    cases hfile
    rw [Array.mem_singleton.mp hid, himport] at hdirective
    cases hdirective
    rfl

/-- Both files of a run name members of their owners. -/
theorem attributeSources_owns_importedCall : ∃ run declared bound env,
    attributeSources (fun _ => none) [packageProperty, importedCall] {} = .ok run ∧
      run.units.length = 2 ∧
      bindUnits Builtins.environment ([packageProperty, importedCall].map SourceText.parsed)
        (allDefaultImports []) = .ok (declared, bound) ∧
      declared.freeze = .ok env ∧
      ∀ u ∈ run.units, ∀ use, u.Uses use →
        use.target.symbol = .field ∨ use.target.symbol = .method → '.' ∉ use.name.toList →
          ∀ owner, use.target.owner = some owner →
            env.Owns owner use.name use.target.isSynthetic := by
  have hnil : declaredClasses ([packageProperty, importedCall].map SourceText.parsed) [] = [] := by
    decide +kernel
  have hclasspath : ({} : RunOptions).classpath = [] := rfl
  obtain ⟨run, hrun⟩ := exists_run_of_nil (fun _ => none) hclasspath hnil
  obtain ⟨base, declared, bound, env, hbase, hbind, hfreeze, howns⟩ := attributeSources_owns hrun
  cases hbase
  refine ⟨run, declared, bound, env, hrun, length_units hrun, hbind, hfreeze, fun u hu => ?_⟩
  refine howns u hu ?_
  obtain ⟨_, declared', bound', env', hbase, hbind', -, hunits⟩ := attributeSources_ok hrun
  obtain ⟨source, hsource, hunit⟩ := exists_source_of_mem_units hbind' hunits hu
  obtain ⟨-, rfl⟩ := eq_of_attributeUnit hunit
  exact localName_of_importedCall source hsource

end KotlinTree
