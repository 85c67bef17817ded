import KotlinTree.Proofs.Attribution.ImportMember
import KotlinTree.Proofs.Project.Known
import KotlinTree.Proofs.Types.Subtyping

/-!
Extensions that a file imports by name. An extension is found under the name that it is declared with, and it
is visible when the last import by some name leads to it (`mem_extensions_iff_lookup`). Main statement: an
extension of a package that is not searched is found under the names that imports of it have, where these
keep its own name and no later import takes it (`mem_extensions_iff_mem_imports`).
-/

namespace KotlinTree

theorem Text.beforeLast?_append {isSeparator : Char → Bool} (front : List Char) {c : Char}
    (hc : isSeparator c) {last : List Char} (hlast : ∀ d ∈ last, isSeparator d = false) :
    beforeLast? isSeparator (String.ofList (front ++ c :: last)) = some (String.ofList front) := by
  have hrest : (last.reverse ++ c :: front.reverse).dropWhile (fun d => !isSeparator d) =
      c :: front.reverse := by
    rw [List.dropWhile_append_of_pos]
    · simp [hc]
    · intro d hd
      rw [hlast d (List.mem_reverse.mp hd)]
      rfl
  unfold beforeLast?
  rw [String.toList_ofList, List.reverse_append, List.reverse_cons, List.append_assoc,
    List.singleton_append, hrest]
  exact congrArg (some <| String.ofList ·) (List.reverse_reverse front)

/-- A path that has a point is what comes before its last point, the point, and what comes after it. -/
theorem eq_of_beforeLast? {path front : String} (h : Text.beforeLast? (· = '.') path = some front) :
    path = front ++ "." ++ Text.afterLast (· = '.') path := by
  unfold Text.beforeLast? at h
  split at h
  · cases h
  · rename_i c rest hrest
    obtain rfl := Option.some.inj h
    -- The text behind the last point was cut off because it ends there.
    have hpoint : c = '.' := by
      have hstop := List.head?_dropWhile_not (fun c : Char => !decide (c = '.')) path.toList.reverse
      rw [hrest] at hstop
      simpa using hstop
    have hsplit := List.takeWhile_append_dropWhile (p := fun c : Char => !decide (c = '.'))
      (l := path.toList.reverse)
    rw [hrest, hpoint] at hsplit
    have hchars : path.toList = rest.reverse ++ '.' ::
        (path.toList.reverse.takeWhile fun c => !decide (c = '.')).reverse := by
      calc path.toList = path.toList.reverse.reverse := (List.reverse_reverse _).symm
        _ = _ := congrArg List.reverse hsplit.symm
        _ = _ := by simp
    apply String.toList_injective
    rw [Text.afterLast, String.toList_append, String.toList_append, String.toList_ofList,
      String.toList_ofList]
    simpa using hchars

/-- Where the last point of a path is, when a name without points comes after it. -/
theorem beforeLast?_and_afterLast_iff {path package name : String} (hpoint : '.' ∉ name.toList) :
    (Text.beforeLast? (· = '.') path = some package ∧ Text.afterLast (· = '.') path = name) ↔
      path = package ++ "." ++ name := by
  constructor
  · rintro ⟨hbefore, rfl⟩
    exact eq_of_beforeLast? hbefore
  · rintro rfl
    have hfree : ∀ c ∈ name.toList, decide (c = '.') = false := by
      intro c hc
      rw [decide_eq_false_iff_not]
      rintro rfl
      exact hpoint hc
    have hchars : package ++ "." ++ name = String.ofList (package.toList ++ '.' :: name.toList) := by
      apply String.toList_injective
      simp [String.toList_append]
    rw [hchars, Text.beforeLast?_append _ (decide_eq_true rfl) hfree,
      Text.afterLast_append _ (decide_eq_true rfl) hfree, String.ofList_toList, String.ofList_toList]
    exact ⟨rfl, rfl⟩

/-- The local name of an import and the path of what it imports, unless it imports all that is there. -/
def Forest.importAt? (f : Forest) (id : NodeId) : Option (String × String) :=
  match f.data (some id) with
  | .importDirective directive =>
    if directive.isStar then none
    else (directive.path.bind f.chainSegments?).map fun segments =>
      (FileScope.importName f directive segments, dotted segments)
  | _ => none

/-- The imports of a file by name, in their order. -/
def Forest.imports (f : Forest) (root : NodeId) : List (String × String) :=
  match f.data (some root) with
  | .sourceFile file => file.imports.toList.filterMap f.importAt?
  | _ => []

namespace FileScope

variable {f : Forest} {root : NodeId} {scope : FileScope} {name path : String}

theorem explicitImports_addDirective (f : Forest) (scope : FileScope) (id : NodeId) :
    (addDirective f scope id).explicitImports = ((f.importAt? id).map fun entry =>
      (scope.addImport entry.1 entry.2).explicitImports).getD scope.explicitImports := by
  unfold addDirective Forest.importAt?
  cases f.data (some id) with
  | importDirective directive =>
    dsimp only
    cases directive.path.bind f.chainSegments? <;> cases directive.isStar <;> rfl
  | _ => rfl

/-- A name is imported from where the last import by this name leads. -/
theorem mem_foldl_addDirective (ids : List NodeId) :
    (name, path) ∈ (ids.foldl (addDirective f) scope).explicitImports ↔
      (ids.filterMap f.importAt?).reverse.lookup name = some path ∨
        (ids.filterMap f.importAt?).reverse.lookup name = none ∧
          (name, path) ∈ scope.explicitImports := by
  -- The last import of a name decides, so the induction is from the end.
  induction ids using List.reverseRecOn with
  | nil => simp
  | append_singleton ids id ih =>
    rw [List.foldl_append, List.foldl_cons, List.foldl_nil, explicitImports_addDirective,
      List.filterMap_append, List.reverse_append]
    cases himport : f.importAt? id with
    | none => simpa [himport] using ih
    | some entry =>
      have hmem : (name, path) ∈ ((ids.foldl (addDirective f) scope).addImport
          entry.1 entry.2).explicitImports ↔
          ((name, path) ∈ (ids.foldl (addDirective f) scope).explicitImports ∧ name ≠ entry.1) ∨
            (name, path) = entry := by
        simp [addImport]
      rw [Option.map_some, Option.getD_some, hmem, ih]
      obtain ⟨entryName, entryPath⟩ := entry
      have hlast : ([id].filterMap f.importAt?).reverse = [(entryName, entryPath)] := by
        simp [himport]
      rw [hlast, List.singleton_append, List.lookup_cons]
      by_cases hname : name = entryName
      · simp [hname, eq_comm]
      · simp only [beq_false_of_ne hname, Prod.mk.injEq, hname, ne_eq, not_false_eq_true, and_true,
          false_and, or_false]

theorem mem_explicitImports_ofFile :
    (name, path) ∈ (ofFile f root).explicitImports ↔
      (f.imports root).reverse.lookup name = some path := by
  unfold ofFile Forest.imports
  cases f.data (some root) with
  | sourceFile file =>
    rw [mem_foldl_addDirective]
    simp only [List.not_mem_nil, and_false, or_false]
  | _ => simp

end FileScope

namespace Attribution.Setting

variable {s : Setting} {t : Ty} {p : Purpose} {m : Member} {name : String} {f : Forest}
  {root : NodeId} {imports : List String}

theorem isVisible_iff (hpoint : '.' ∉ m.name.toList) : s.isVisible m = true ↔
    packageOf m.owner ∈ s.unit.scope.implicitPackages ∨
      ∃ name, (name, packageOf m.owner ++ "." ++ m.name) ∈ s.unit.scope.explicitImports := by
  unfold isVisible
  simp only [Bool.or_eq_true, List.contains_iff_mem, List.any_eq_true, decide_eq_true_eq,
    Bool.and_eq_true, Prod.exists, beforeLast?_and_afterLast_iff hpoint]
  refine or_congr_right (exists_congr fun name => ?_)
  exact ⟨fun ⟨_, hmem, hpath⟩ => hpath ▸ hmem, fun hmem => ⟨_, hmem, rfl⟩⟩

/-- Where an extension is found: under its own name, in a package that is searched, or when the last import
by some name leads to it. -/
theorem mem_extensions_iff_lookup (henv : s.env.Consistent)
    (hscope : s.unit.scope = (FileScope.ofFile f root).addDefaultImports imports)
    (hpoint : '.' ∉ m.name.toList) :
    m ∈ s.extensions t name p ↔
      name = m.name ∧ (m ∈ s.env.extensionsOf t m.name ∧ p.fits m = true) ∧
        (packageOf m.owner ∈ s.unit.scope.implicitPackages ∨ ∃ name,
          (f.imports root).reverse.lookup name = some (packageOf m.owner ++ "." ++ m.name)) := by
  have hexplicit : s.unit.scope.explicitImports = (FileScope.ofFile f root).explicitImports := by
    rw [hscope]
    rfl
  have hmem : m ∈ s.extensions t name p ↔
      m ∈ s.env.extensionsOf t name ∧ (s.isVisible m = true ∧ p.fits m = true) := by
    simp [extensions]
  -- Extensions are kept by their name, so the name that is asked for is theirs.
  have hnamed (h : m ∈ s.env.extensionsOf t name) : name = m.name :=
    (henv.extensions name m (List.mem_filter.mp h).1).name_eq.symm
  simp only [hmem, isVisible_iff hpoint, hexplicit, FileScope.mem_explicitImports_ofFile]
  constructor
  · rintro ⟨h, hvisible, hfits⟩
    obtain rfl := hnamed h
    exact ⟨rfl, ⟨h, hfits⟩, hvisible⟩
  · rintro ⟨rfl, ⟨h, hfits⟩, hvisible⟩
    exact ⟨h, hvisible, hfits⟩

/-- An extension that can be applied to a type, of a package that is not searched, is found under a name
exactly if it is imported by this name, as long as the imports of it keep its own name and no later import
takes this name for something else. -/
theorem mem_extensions_iff_mem_imports (henv : s.env.Consistent)
    (hscope : s.unit.scope = (FileScope.ofFile f root).addDefaultImports imports)
    (hm : m ∈ s.env.extensionsOf t m.name) (hfits : p.fits m = true)
    (hhidden : packageOf m.owner ∉ s.unit.scope.implicitPackages) (hpackage : packageOf m.owner ≠ "")
    (hpoint : '.' ∉ m.name.toList)
    (hkept : ∀ name, (name, inPackage (packageOf m.owner) m.name) ∈ f.imports root → name = m.name)
    (hlast : (m.name, inPackage (packageOf m.owner) m.name) ∈ f.imports root →
      (f.imports root).reverse.lookup m.name = some (inPackage (packageOf m.owner) m.name)) :
    m ∈ s.extensions t name p ↔ (name, inPackage (packageOf m.owner) m.name) ∈ f.imports root := by
  rw [mem_extensions_iff_lookup henv hscope hpoint]
  rw [inPackage, if_neg hpackage] at hkept hlast ⊢
  constructor
  · rintro ⟨rfl, -, hvisible⟩
    obtain ⟨found, hlookup⟩ := hvisible.resolve_left hhidden
    have himport := List.mem_reverse.mp (mem_of_lookup hlookup)
    obtain rfl := hkept found himport
    exact himport
  · intro himport
    obtain rfl := hkept name himport
    exact ⟨rfl, ⟨hm, hfits⟩, .inr ⟨_, hlast himport⟩⟩

theorem oneImport_scope : oneImport.imports 7 = [("shout", "p.shout")] ∧
    FileScope.ofFile oneImport 7 = { explicitImports := [("shout", "p.shout")] } := by
  have hfile : oneImport.data (some 7) = .sourceFile {
      fileName := "B.kt", package := none, imports := #[5], declarations := #[]
      endOfFile := 6 } := by
    decide +kernel
  obtain ⟨hchain, hdirective⟩ := oneImport_parsed
  have himport : oneImport.importAt? 5 = some ("shout", "p.shout") := by
    rw [Forest.importAt?, hdirective]
    dsimp only
    rw [Option.bind_some, hchain]
    rfl
  constructor
  · rw [Forest.imports, hfile]
    simp [himport]
  · rw [FileScope.ofFile, hfile]
    change FileScope.addDirective oneImport {} 5 = _
    rw [FileScope.addDirective, hdirective]
    dsimp only
    rw [Option.bind_some, hchain]
    rfl

/-- The file that imports the extension, with what is visible in it. -/
def importingShout : Setting where
  forest := oneImport
  env := importingExtension.env
  unit := { fileName := "B.kt", scope := (FileScope.ofFile oneImport 7).addDefaultImports []
            facade := "BKt", classNames := [] }

/-- The extension is found on a text under the name that is imported. -/
theorem importingShout_extensions :
    shout ∈ importingShout.extensions (.of "kotlin.String") "shout" (.call 0) ∧
      ("shout", "p.shout") ∈ oneImport.imports 7 := by
  obtain ⟨himports, hscope⟩ := oneImport_scope
  have henv : importingShout.env.Consistent :=
    (Environment.consistent_empty.addTopLevel (m := shout) "p" rfl .source).1
  have hm : shout ∈ importingShout.env.extensionsOf (.of "kotlin.String") "shout" := by
    have hstored : shout ∈ importingShout.env.extensions.getD "shout" [] :=
      (Environment.addTopLevel_grows {} "p" shout .source).2
    exact List.mem_filter.mpr ⟨hstored, Environment.isSubtype_of_iff.mpr (.inl rfl)⟩
  have himport : ("shout", inPackage (packageOf shout.owner) shout.name) ∈ oneImport.imports 7 := by
    rw [himports]
    exact List.mem_singleton_self _
  have hpackages : importingShout.unit.scope.implicitPackages =
      FileScope.implicitPackages {} := by
    change ((FileScope.ofFile oneImport 7).addDefaultImports []).implicitPackages = _
    rw [hscope]
    rfl
  -- The extension's package is not imported by default, and there is only one import.
  refine ⟨(mem_extensions_iff_mem_imports henv rfl hm rfl ?_ (by decide) (by decide) ?_ ?_).mpr himport,
    himport⟩
  · rw [hpackages]
    decide
  · intro name hname
    rw [himports] at hname
    exact (Prod.mk.inj (List.mem_singleton.mp hname)).1
  · intro _
    rw [himports]
    rfl

end Attribution.Setting

end KotlinTree
