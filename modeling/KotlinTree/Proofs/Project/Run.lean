import KotlinTree.Project.Run
import KotlinTree.Proofs.Attribution.Expression
import KotlinTree.Proofs.Binding.Property
import KotlinTree.Proofs.Binding.Unit
import KotlinTree.Proofs.RoundTrip
import KotlinTree.Proofs.Types.Stub

/-!
Why a run over sources fails: two class declarations of one name are of different kinds, and nothing
else.
-/

namespace KotlinTree
open Environment

namespace SourceText

def parsed (source : SourceText) : ParsedUnit := ParsedUnit.ofSource source.name source.text

/-- A class declaration of a source is bound, with its binary name and its kind. -/
def Declares (source : SourceText) (name : String) (kind : ClassKind) : Prop :=
  ∃ id d, source.parsed.forest.IsBound
    (FileScope.ofFile source.parsed.forest source.parsed.root).package source.parsed.root id name d ∧
      d.kind = kind

end SourceText

/-- Two class declarations have the same binary name and are of different kinds: one of a source, and
another one of a source or a built-in class. -/
structure KindClash (sources : List SourceText) (name : String) (first second : ClassKind) :
    Prop where
  ne : first ≠ second
  first_declared : (∃ source ∈ sources, source.Declares name first) ∨
    ∃ info, Builtins.environment.classInfo? name = some info ∧ info.kind = first
  second_declared : ∃ source ∈ sources, source.Declares name second

theorem parsed_linked (source : SourceText) : source.parsed.forest.Linked := by
  obtain ⟨members, hm⟩ := ParsedUnit.ofSource_made source.name source.text
  exact hm.linked

theorem mem_declaredClasses (sources : List SourceText) (defaultImports : List String)
    (name : String) (kind : ClassKind) :
    (name, kind) ∈ declaredClasses (sources.map SourceText.parsed) defaultImports ↔
      ∃ source ∈ sources, source.Declares name kind := by
  have hfile (source : SourceText) :
      (name, kind) ∈ (Binding.File.ofParsed defaultImports source.parsed).declared ↔
        source.Declares name kind :=
    mem_declared_ofParsed (parsed_linked source) defaultImports name kind
  unfold declaredClasses
  rw [List.map_map, List.mem_flatMap]
  constructor
  · rintro ⟨file, hmem, hd⟩
    obtain ⟨source, hsource, rfl⟩ := List.mem_map.mp hmem
    exact ⟨source, hsource, (hfile source).mp hd⟩
  · rintro ⟨source, hsource, hd⟩
    exact ⟨_, List.mem_map_of_mem hsource, (hfile source).mpr hd⟩

theorem mem_builtins_iff (name : String) (kind : ClassKind) :
    (name, kind) ∈ Builtins.declared ↔
      ∃ info, Builtins.environment.classInfo? name = some info ∧ info.kind = kind := by
  rw [← Builtins.environment_declares.kinds, kindOf?, Option.map_eq_some_iff]

theorem kindClash_iff_conflict (sources : List SourceText) (defaultImports : List String)
    (name : String) (first second : ClassKind) :
    KindClash sources name first second ↔ Conflict Builtins.declared
      (declaredClasses (sources.map SourceText.parsed) defaultImports) name first second := by
  have hmem (kind : ClassKind) := mem_declaredClasses sources defaultImports name kind
  constructor
  · intro h
    refine ⟨?_, (hmem second).mpr h.second_declared, h.ne⟩
    rcases h.first_declared with hsource | hbuiltin
    · exact List.mem_append_right _ ((hmem first).mpr hsource)
    · exact List.mem_append_left _ ((mem_builtins_iff name first).mpr hbuiltin)
  · intro h
    refine ⟨h.ne, ?_, (hmem second).mp h.second_mem⟩
    rcases List.mem_append.mp h.first_mem with hbuiltin | hsource
    · exact .inr ((mem_builtins_iff name first).mp hbuiltin)
    · exact .inl ((hmem first).mp hsource)

theorem mapError_ok {ε ε' α : Type} (f : ε → ε') (a : α) :
    (Except.ok a).mapError f = .ok a := rfl

theorem ok_bind {ε α β : Type} (a : α) (f : α → Except ε β) : (Except.ok a >>= f) = f a := rfl

theorem mapM_mapError_ok {ε ε' α : Type} (f : ε → ε') (rs : List (Except ε α))
    (h : ∀ r ∈ rs, ∃ a, r = .ok a) : ∃ as, rs.mapM (·.mapError f) = .ok as := by
  induction rs with
  | nil => exact ⟨[], rfl⟩
  | cons r rs ih =>
    obtain ⟨a, rfl⟩ := h r List.mem_cons_self
    obtain ⟨as, has⟩ := ih fun r hr => h r (List.mem_cons_of_mem _ hr)
    refine ⟨a :: as, ?_⟩
    rw [List.mapM_cons, has]
    rfl

/-- Sources are attributed, or the classes that they declare clash. -/
theorem attributeSources_cases (files : Files) (sources : List SourceText) {options : RunOptions}
    (h : options.classpath = []) :
    (∃ run, attributeSources files sources options = .ok run ∧
      ∀ name first second, ¬ KindClash sources name first second) ∨
    ∃ name first second, attributeSources files sources options =
        .error (.binding (.conflictingClassKind name first second)) ∧
      KindClash sources name first second := by
  have hclash := kindClash_iff_conflict sources (allDefaultImports options.extraImports)
  have hparsed : (sources.map fun source => ParsedUnit.ofSource source.name source.text) =
      sources.map SourceText.parsed := rfl
  have hlinked : ∀ u ∈ sources.map SourceText.parsed, u.forest.Linked := by
    intro u hu
    obtain ⟨source, -, rfl⟩ := List.mem_map.mp hu
    exact parsed_linked source
  rcases bindUnits_cases Builtins.environment_declares Builtins.anyName_mem_names
    (sources.map SourceText.parsed) (allDefaultImports options.extraImports) with
    ⟨env, hbind, hd⟩ | ⟨name, first, second, hbind, hconf⟩
  · left
    -- No unit is stopped or unbound, and no supertype dangles when the environment is frozen.
    obtain ⟨units, hunits⟩ := mapM_mapError_ok RunError.attribution _
      (attributeUnits_ok env hlinked
        (fun u => (Binding.File.ofParsed (allDefaultImports options.extraImports) u).boundUnit)
        (fun _ => rfl) (fun _ => false) fun _ => rfl)
    have hfreeze := hd.freeze (List.Subset.refl _)
    have hrun : ∃ run, attributeSources files sources options = .ok run := by
      unfold attributeSources
      rw [h, hparsed]
      dsimp only
      rw [List.foldlM_nil, pure_bind, hbind, mapError_ok, ok_bind]
      dsimp only
      rw [hfreeze, mapError_ok, ok_bind, hunits]
      exact ⟨_, rfl⟩
    obtain ⟨run, hrun⟩ := hrun
    refine ⟨run, hrun, ?_⟩
    intro name first second hc
    have hconf := (hclash name first second).mp hc
    exact hconf.ne (hd.unique hconf.first_mem (List.mem_append_right _ hconf.second_mem))
  · right
    refine ⟨name, first, second, ?_, (hclash name first second).mpr hconf⟩
    unfold attributeSources
    rw [h, hparsed]
    dsimp only
    rw [List.foldlM_nil, pure_bind, hbind]
    rfl

/-- Sources that declare no classes are attributed. -/
theorem exists_run_of_nil (files : Files) {sources : List SourceText} {options : RunOptions}
    (h : options.classpath = [])
    (hnil : declaredClasses (sources.map SourceText.parsed) [] = []) :
    ∃ run, attributeSources files sources options = .ok run := by
  rcases attributeSources_cases files sources h with ⟨run, hrun, -⟩ | ⟨name, first, second, -, hclash⟩
  · exact ⟨run, hrun⟩
  · have hmem := (mem_declaredClasses sources [] name second).mpr hclash.second_declared
    rw [hnil] at hmem
    exact absurd hmem List.not_mem_nil

theorem eq_ok_of_mapError {ε ε' α : Type} {f : ε → ε'} {r : Except ε α} {a : α}
    (h : r.mapError f = .ok a) : r = .ok a := by
  cases r with
  | error e => cases h
  | ok b => exact congrArg Except.ok (Except.ok.inj h)

theorem eq_map_of_mapM_mapError {ε ε' α : Type} {f : ε → ε'} {rs : List (Except ε α)}
    {as : List α} (h : rs.mapM (·.mapError f) = .ok as) : rs = as.map .ok := by
  induction rs generalizing as with
  | nil =>
    cases h
    rfl
  | cons r rs ih =>
    rw [List.mapM_cons] at h
    obtain ⟨a, hr, h⟩ := exists_of_bind_eq_ok h
    obtain ⟨as, hrs, h⟩ := exists_of_bind_eq_ok h
    cases h
    rw [eq_ok_of_mapError hr, ih hrs, List.map_cons]

/-- A run binds its sources together after the stubs, freezes what is declared, and attributes each
source with it. -/
theorem attributeSources_ok {files : Files} {sources : List SourceText} {options : RunOptions}
    {stops : Nat → Bool} {run : AttributionRun}
    (h : attributeSources files sources options stops = .ok run) :
    ∃ base declared bound env,
      options.classpath.foldlM (loadStub files) Builtins.environment = .ok base ∧
      bindUnits base (sources.map SourceText.parsed) (allDefaultImports options.extraImports) =
        .ok (declared, bound) ∧
      declared.freeze = .ok env ∧
      attributeUnits env (sources.map SourceText.parsed) bound stops = run.units.map .ok := by
  unfold attributeSources at h
  obtain ⟨base, hbase, h⟩ := exists_of_bind_eq_ok h
  obtain ⟨⟨declared, bound⟩, hbind, h⟩ := exists_of_bind_eq_ok h
  obtain ⟨env, hfreeze, h⟩ := exists_of_bind_eq_ok h
  obtain ⟨units, hunits, h⟩ := exists_of_bind_eq_ok h
  cases h
  exact ⟨base, declared, bound, env, hbase, eq_ok_of_mapError hbind, eq_ok_of_mapError hfreeze,
    eq_map_of_mapM_mapError hunits⟩

theorem length_units {files : Files} {sources : List SourceText} {options : RunOptions}
    {stops : Nat → Bool} {run : AttributionRun}
    (h : attributeSources files sources options stops = .ok run) :
    run.units.length = sources.length := by
  obtain ⟨_, _, _, _, _, _, _, hunits⟩ := attributeSources_ok h
  have hlength := congrArg List.length hunits
  rw [attributeUnits, List.length_map, List.length_zipIdx, List.length_map, List.length_map] at hlength
  exact hlength.symm

/-- Each file of a run comes of a source, and of what is bound of it. -/
theorem exists_source_of_mem_units {base declared env : Environment} {sources : List SourceText}
    {imports : List String} {bound : List BoundUnit} {stops : Nat → Bool} {units : List AttributedUnit}
    (hb : bindUnits base (sources.map SourceText.parsed) imports = .ok (declared, bound))
    (h : attributeUnits env (sources.map SourceText.parsed) bound stops = units.map .ok)
    {u : AttributedUnit} (hu : u ∈ units) : ∃ source ∈ sources, attributeUnit env source.parsed
      (Binding.File.ofParsed imports source.parsed).boundUnit stops = .ok u := by
  obtain ⟨rfl, -⟩ := bindUnits_ok hb
  rw [attributeUnits_map _ _ _ fun _ => rfl, List.map_map] at h
  exact List.mem_map.mp (h ▸ List.mem_map_of_mem hu)

namespace ThreadPools

variable {pools : ThreadPools} {files : Files} {sources : List SourceText} {options : RunOptions}
  {stops : Nat → Bool}

/-- The threads that are asked for can be had: none are, or a pool of them can be made. -/
def Serves (pools : ThreadPools) (threads : Nat) : Prop := threads = 0 ∨ pools threads = none

/-- Threads that can be had make no difference to what a run yields. -/
theorem attributeSources_of_serves (h : pools.Serves options.threads) :
    pools.attributeSources files sources options stops =
      (KotlinTree.attributeSources files sources options stops).mapError .run := by
  unfold attributeSources
  rcases h with hzero | hmade
  · simp only [hzero, if_neg (Nat.lt_irrefl 0)]
  · simp only [make, hmade]
    split <;> rfl

/-- Threads are the reason for a failure exactly if they are asked for and cannot be had; no source is
looked at then. -/
theorem attributeSources_eq_threadPool_iff {cause : String} :
    pools.attributeSources files sources options stops = .error (.threadPool cause) ↔
      0 < options.threads ∧ pools options.threads = some cause := by
  by_cases h : pools.Serves options.threads
  · rw [attributeSources_of_serves h]
    constructor
    · intro he
      cases hrun : KotlinTree.attributeSources files sources options stops <;> rw [hrun] at he <;> cases he
    · rintro ⟨hpos, hcause⟩
      rcases h with hzero | hmade
      · exact absurd hzero hpos.ne'
      · exact nomatch hmade.symm.trans hcause
  · obtain ⟨hpos, hnone⟩ := not_or.mp h
    obtain ⟨reason, hreason⟩ := Option.ne_none_iff_exists'.mp hnone
    have hrun : pools.attributeSources files sources options stops = .error (.threadPool reason) := by
      unfold attributeSources
      rw [if_pos (Nat.pos_of_ne_zero hpos), make, hreason]
      rfl
    rw [hrun, hreason]
    simp [Nat.pos_of_ne_zero hpos]

/-- With nothing but what is built in, and with the threads that are asked for, sources fail to be
attributed if and only if two class declarations of one binary name are of different kinds, one of a source
and another one of a source or built in; and it is said that they conflict. -/
theorem attributeSources_error_iff (pools : ThreadPools) (files : Files) (sources : List SourceText)
    (options : RunOptions) (h : options.classpath = []) (hpools : pools.Serves options.threads) :
    ((∃ e, pools.attributeSources files sources options = .error e) ↔
      ∃ name first second, KindClash sources name first second) ∧
    ∀ e, pools.attributeSources files sources options = .error e → ∃ name first second,
      e = .run (.binding (.conflictingClassKind name first second)) ∧
        KindClash sources name first second := by
  rw [attributeSources_of_serves hpools]
  -- The pool serves, so the run fails only where the sources declare a class twice in two kinds.
  rcases attributeSources_cases files sources h with
    ⟨run, hrun, hno⟩ | ⟨name, first, second, herror, hclash⟩
  · rw [hrun, mapError_ok]
    constructor
    · constructor
      · rintro ⟨e, he⟩
        cases he
      · rintro ⟨name, first, second, hclash⟩
        exact absurd hclash (hno name first second)
    · intro e he
      cases he
  · rw [herror]
    constructor
    · exact ⟨fun _ => ⟨name, first, second, hclash⟩, fun _ => ⟨_, rfl⟩⟩
    · intro e he
      exact ⟨name, first, second, (Except.error.inj he).symm, hclash⟩

/-- Sources of two files that are malformed and declare no class. -/
def malformedSources : List SourceText :=
  [⟨"A.kt", "fun f( ] = \"x"⟩, ⟨"B.kt", "object : Any() ) val"⟩]

/-- Where up to eight threads can be had, malformed sources that declare no class do not make a run fail
that is shared out among four, and a run that asks for nine fails for that. -/
theorem attributeSources_malformed : ∃ pools : ThreadPools, pools.Serves 4 ∧
    (¬ ∃ e, pools.attributeSources (fun _ => none) malformedSources { threads := 4 } = .error e) ∧
    pools.attributeSources (fun _ => none) malformedSources { threads := 9 } =
      .error (.threadPool "no more than eight threads") := by
  let pools : ThreadPools := fun n => if n ≤ 8 then none else some "no more than eight threads"
  have hserves : pools.Serves 4 := Or.inr rfl
  refine ⟨pools, hserves, ?_, attributeSources_eq_threadPool_iff.mpr ⟨by decide, rfl⟩⟩
  rw [(attributeSources_error_iff pools _ _ { threads := 4 } rfl hserves).1]
  rintro ⟨name, first, second, hclash⟩
  have hmem := (mem_declaredClasses _ [] name second).mpr hclash.second_declared
  have hnone : declaredClasses (malformedSources.map SourceText.parsed) [] = [] := by decide +kernel
  rw [hnone] at hmem
  exact List.not_mem_nil hmem

end ThreadPools

end KotlinTree
