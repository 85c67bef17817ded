import KotlinTree.Attribution.Meaning
import KotlinTree.Proofs.Attribution.Path
import KotlinTree.Proofs.Grammar.Names

/-!
Paths of imports. A path is read from its first name on, and as long as its names are packages and
classes, what each is decides where the next is looked up. Main statement: what an import makes of a
path whose longest package has a class is that class exactly when no class hides a package on the way
and all that lies on the way is declared (`importPath_eq_class_iff`).
-/

namespace KotlinTree

/-- What a chain of names is: a name, or a chain and one more name after it. -/
theorem Forest.chainSegments?_cases {f : Forest} {id : NodeId} {segments : List String}
    (h : f.chainSegments? id = some segments) :
    (f.kind? (some id) = some (.token .identifier) ∧ segments = [f.nameText (some id)]) ∨
      (f.kind? (some id) ≠ some (.token .identifier) ∧
        ∃ access front, f.data (some id) = .access access ∧ access.expression < id ∧
          f.chainSegments? access.expression = some front ∧
          segments = front ++ [f.nameText access.name]) := by
  unfold chainSegments? at h
  split at h
  · rename_i hkind
    exact .inl ⟨hkind, (Option.some.inj h).symm⟩
  · rename_i hkind
    right
    split at h
    · rename_i access hd
      split at h
      · cases h
      · split at h
        · rename_i hlt
          obtain ⟨front, hfront, rfl⟩ := Option.map_eq_some_iff.mp h
          exact ⟨hkind, access, front, hd, hlt, hfront, rfl⟩
        · cases h
    · cases h

theorem Forest.chainSegments?_name {f : Forest} {id : NodeId} {name : String}
    (hkind : f.kind? (some id) = some (.token .identifier)) (hname : f.nameText (some id) = name) :
    f.chainSegments? id = some [name] := by
  unfold chainSegments?
  rw [if_pos hkind, hname]

theorem Forest.chainSegments?_access {f : Forest} {id : NodeId} {access : Access}
    {front : List String} {name : String} (hkind : f.kind? (some id) ≠ some (.token .identifier))
    (hdata : f.data (some id) = .access access) (hsafe : access.isNullSafe = false)
    (hlt : access.expression < id) (hfront : f.chainSegments? access.expression = some front)
    (hname : f.nameText access.name = name) : f.chainSegments? id = some (front ++ [name]) := by
  unfold chainSegments?
  rw [if_neg hkind, hdata]
  dsimp only
  rw [hsafe, if_neg Bool.false_ne_true, dif_pos hlt, hfront, hname]
  rfl

namespace Attribution

/-- What names are looked up in after this: a class or a package, but no value. -/
def Qualifier.scope? : Qualifier → Option Qualifier
  | .value _ => none
  | q => some q

/-- The class or the package that is meant, if it is one. -/
def Meaning.scope? : Meaning → Option Qualifier
  | .classType t => some (.classType t)
  | .package name => some (.package name)
  | _ => none

namespace Setting

variable {s : Setting} {st : State}

/-- The class or the package that a name leads to from what is before it. -/
def enter? (s : Setting) (qualifier : Qualifier) (name : String) : Option Qualifier :=
  (s.memberMeaning qualifier name .any).scope?

theorem enter?_value (t : Ty) (name : String) : s.enter? (.value t) name = none := by
  rw [enter?, memberMeaning, valueMemberMeaning]
  split
  · rfl
  · cases s.instanceMember? t name .any <;> rfl

theorem enter?_package (package name : String) : s.enter? (.package package) name =
    if s.env.hasClass (inPackage package name) then some (.classType (.of (inPackage package name)))
    else if s.env.hasPackage (inPackage package name) then some (.package (inPackage package name))
    else none := by
  rw [enter?, memberMeaning, packageMemberMeaning]
  split
  · rfl
  · split
    · rename_i hpackage
      have hpackage : s.env.hasPackage (inPackage package name) = true := by
        simpa [Purpose.count?] using hpackage
      rw [if_pos hpackage]
      rfl
    · rename_i hpackage
      have hpackage : ¬ s.env.hasPackage (inPackage package name) = true := by
        simpa [Purpose.count?] using hpackage
      rw [if_neg hpackage]
      cases topLevelMember? s.env package name .any <;> rfl

theorem enter?_classType (outer name : String) : s.enter? (.classType (.of outer)) name =
    if s.env.hasClass (outer ++ "$" ++ name) then some (.classType (.of (outer ++ "$" ++ name)))
    else none := by
  have hname : (Ty.of outer).name? = some outer := rfl
  rw [enter?, memberMeaning, classMemberMeaning, hname]
  dsimp only
  split
  · rfl
  · cases s.staticMember? (.of outer) name .any <;> rfl

theorem scope?_absoluteMeaning (name : String) :
    (s.absoluteMeaning name).scope? = s.enter? (.package "") name := by
  have hname : inPackage "" name = name := if_pos rfl
  rw [enter?_package, hname, absoluteMeaning]
  split
  · rfl
  · split <;> rfl

/-- What a name after another means is a class or a package only after one of them. -/
theorem scope?_memberMeaning (q : Qualifier) (name : String) :
    (s.memberMeaning q name .any).scope? = q.scope?.bind (s.enter? · name) := by
  cases q with
  | value t => exact enter?_value t name
  | classType t => rfl
  | package package => rfl

/-- Names lead from a class to those nested in it. -/
theorem foldlM_enter?_classType {outer c : String} {names : List String} :
    names.foldlM s.enter? (.classType (.of outer)) = some (.classType (.of c)) ↔
      FileScope.nestedClass? s.env.hasClass outer names = some c := by
  induction names generalizing outer with
  | nil => simp [FileScope.nestedClass?, Ty.of]
  | cons name names ih =>
    rw [List.foldlM_cons, enter?_classType, FileScope.nestedClass?]
    split
    · exact ih
    · exact iff_of_false (by simp) (by simp)

/-- Names lead from a package to a class as they do from left to right. -/
theorem foldlM_enter?_package {package c : String} {names : List String} :
    names.foldlM s.enter? (.package package) = some (.classType (.of c)) ↔
      s.env.packageClass? package names = some c := by
  induction names generalizing package with
  | nil => simp [Environment.packageClass?]
  | cons name names ih =>
    rw [List.foldlM_cons, enter?_package, Environment.packageClass?]
    split
    · exact foldlM_enter?_classType
    · split
      · exact ih
      · exact iff_of_false (by simp) (by simp)

/-- Names lead to the package that they name, if all packages on the way are declared and no class
has the name of one of them. -/
theorem foldlM_enter?_eq_package {package : String} {names : List String}
    (h : ∀ part, part <+: names → part ≠ [] →
      s.env.hasClass (innerName package part) = false ∧
        s.env.hasPackage (innerName package part) = true) :
    names.foldlM s.enter? (.package package) = some (.package (innerName package names)) := by
  induction names generalizing package with
  | nil => rfl
  | cons name names ih =>
    obtain ⟨⟨hclass, hpackage⟩, hrest⟩ := forall_prefix_cons.mp h
    have hstep : s.enter? (.package package) name = some (.package (inPackage package name)) := by
      have hone : innerName package [name] = inPackage package name := rfl
      rw [hone] at hclass hpackage
      rw [enter?_package, if_neg (Bool.eq_false_iff.mp hclass), if_pos hpackage]
    rw [List.foldlM_cons, hstep]
    exact ih hrest

theorem record_scope? (place : Place) (node : NodeId) (token : Option NodeId) (access : AccessKind)
    (meaning : Meaning) (st : State) :
    ((s.record place node token access meaning).run st).1.scope? = meaning.scope? := by
  cases meaning <;> rfl

/-- What means something is not reported. -/
theorem record_diagnostics {place : Place} {node : NodeId} {token : Option NodeId}
    {access : AccessKind} {meaning : Meaning} {st : State}
    (h : ∀ failure, meaning ≠ .unresolved failure) :
    ((s.record place node token access meaning).run st).2.diagnostics = st.diagnostics := by
  cases meaning with
  | unresolved failure => exact absurd rfl (h failure)
  | _ => rfl

theorem record_diagnostics_unresolved (place : Place) (node : NodeId) (token : Option NodeId)
    (access : AccessKind) (failure : Failure) (st : State) :
    ((s.record place node token access (.unresolved failure)).run st).2.diagnostics =
      st.diagnostics.push (failure.diagnostic s.unit.fileName (s.forest.span token)) := rfl

theorem not_unresolved_of_scope? {meaning : Meaning} (h : meaning.scope?.isSome)
    (failure : Failure) : meaning ≠ .unresolved failure := by
  rintro rfl
  exact absurd h Bool.false_ne_true

theorem run_importPath_name {id : NodeId} (hkind : s.forest.kind? (some id) = some (.token .identifier))
    (st : State) : (s.importPath id).run st =
      (s.record .reference id (some id) .plain
        (s.absoluteMeaning (s.forest.nameText (some id)))).run st := by
  rw [importPath, if_pos hkind]
  rfl

theorem run_importPath_access {id : NodeId} {access : Access}
    (hkind : s.forest.kind? (some id) ≠ some (.token .identifier))
    (hdata : s.forest.data (some id) = .access access) (hlt : access.expression < id) (st : State) :
    (s.importPath id).run st =
      (s.record .access id access.name .plain
        (s.memberMeaning ((s.importPath access.expression).run st).1
          (s.forest.nameText access.name) .any)).run ((s.importPath access.expression).run st).2 := by
  rw [importPath, if_neg hkind, hdata]
  dsimp only
  rw [dif_pos hlt]
  rfl

/-- An import makes of a path what its names lead to one after the other, and nothing is reported if
all of them lead on. -/
theorem run_importPath {id : NodeId} {segments : List String}
    (h : s.forest.chainSegments? id = some segments) (st : State) :
    ((s.importPath id).run st).1.scope? = segments.foldlM s.enter? (.package "") ∧
      ((segments.foldlM s.enter? (.package "")).isSome →
        ((s.importPath id).run st).2.diagnostics = st.diagnostics) := by
  -- The induction is on the node, as the path before the last point has a smaller one.
  induction id using Nat.strongRecOn generalizing segments with
  | ind id ih =>
    obtain ⟨hkind, rfl⟩ | ⟨hkind, access, front, hdata, hlt, hfront, rfl⟩ :=
      Forest.chainSegments?_cases h
    · have hname := s.scope?_absoluteMeaning (s.forest.nameText (some id))
      rw [run_importPath_name hkind, record_scope?, hname]
      simp only [List.foldlM_cons, List.foldlM_nil, bind_pure]
      refine ⟨trivial, fun hsome => record_diagnostics (not_unresolved_of_scope? ?_)⟩
      rwa [hname]
    · obtain ⟨hscope, hquiet⟩ := ih _ hlt hfront
      rw [run_importPath_access hkind hdata hlt, record_scope?, scope?_memberMeaning, hscope,
        List.foldlM_append]
      simp only [List.foldlM_cons, List.foldlM_nil, bind_pure]
      refine ⟨rfl, fun hsome => ?_⟩
      -- Where the whole path leads somewhere, so did its front.
      obtain ⟨q, hq⟩ := Option.isSome_iff_exists.mp hsome
      obtain ⟨before, hbefore, -⟩ := Option.bind_eq_some_iff.mp hq
      rw [record_diagnostics, hquiet (by rw [hbefore]; rfl)]
      refine not_unresolved_of_scope? ?_
      rwa [scope?_memberMeaning, hscope]

theorem eq_of_scope? {q q' : Qualifier}
    (h : q.scope? = some q') : q = q' := by
  cases q with
  | value t => cases h
  | classType t => exact Option.some.inj h
  | package package => exact Option.some.inj h

/-- An import makes a class of a path, without a report, if the names lead to it from left to right. -/
theorem importPath_eq_class_iff_packageClass? {id : NodeId} {segments : List String} {c : String}
    (h : s.forest.chainSegments? id = some segments) (st : State) :
    (((s.importPath id).run st).1 = .classType (.of c) ∧
      ((s.importPath id).run st).2.diagnostics = st.diagnostics) ↔
      s.env.packageClass? "" segments = some c := by
  obtain ⟨hscope, hquiet⟩ := run_importPath h st
  rw [← foldlM_enter?_package]
  constructor
  · rintro ⟨hclass, -⟩
    rw [← hscope, hclass]
    rfl
  · intro hleads
    rw [hleads] at hscope hquiet
    exact ⟨eq_of_scope? hscope, hquiet rfl⟩

end Setting

end Attribution

/-- The way from the root through packages to a class and on to one nested in it is open: all that is
passed is declared, and no class has the name of a package on it. -/
structure Environment.OpensWay (env : Environment) (packages : List String) (outer : String)
    (nested : List String) : Prop where
  declared : ∀ part, part <+: packages → part ≠ [] → env.hasPackage (innerName "" part)
  unhidden : ∀ part, part <+: packages → part ≠ [] → env.hasClass (innerName "" part) = false
  around : ∀ part, part <+: nested → part ≠ nested →
    env.hasClass (nestedName (innerName "" (packages ++ [outer])) part)

namespace Attribution.Setting

variable {s : Setting}

/-- Where the longest package of a path has a class, an import makes this class of it, and reports
nothing, exactly when the way to the class is open. -/
theorem importPath_eq_class_iff {id : NodeId} {segments : List String} {c : String}
    (hpath : s.forest.chainSegments? id = some segments)
    (hclass : qualifiedToClass? (dotted segments) s.env.hasClass = some c) (st : State) :
    (((s.importPath id).run st).1 = .classType (.of c) ∧
      ((s.importPath id).run st).2.diagnostics = st.diagnostics) ↔
      ∃ packages outer nested, segments = packages ++ outer :: nested ∧
        nestedName (innerName "" (packages ++ [outer])) nested = c ∧
        s.env.OpensWay packages outer nested := by
  rw [importPath_eq_class_iff_packageClass? hpath, Environment.packageClass?_eq_some_iff]
  constructor
  · rintro ⟨packages, outer, nested, hsegments, hc, hpackages, hnested⟩
    refine ⟨packages, outer, nested, hsegments, hc, ?_, ?_, ?_⟩
    · exact fun part hpart hne => (hpackages part hpart hne).2
    · exact fun part hpart hne => (hpackages part hpart hne).1
    · exact fun part hpart _ => hnested part hpart
  · rintro ⟨packages, outer, nested, hsegments, hc, hopen⟩
    refine ⟨packages, outer, nested, hsegments, hc, ?_, ?_⟩
    · exact fun part hpart hne => ⟨hopen.unhidden part hpart hne, hopen.declared part hpart hne⟩
    -- The last part is the class itself, which is known to be one.
    · intro part hpart
      by_cases hall : part = nested
      · rw [hall, hc]
        exact isClass_of_qualifiedToClass? hclass
      · exact hopen.around part hpart hall

/-- A file with two imports. -/
@[irreducible]
def twoImports : Forest := (ParsedUnit.ofSource "z.kt" "import a.b.C\nimport a.b.D").forest

/-- The paths of the two imports. -/
theorem twoImports_chains : twoImports.chainSegments? 7 = some ["a", "b", "C"] ∧
    twoImports.chainSegments? 16 = some ["a", "b", "D"] := by
  obtain ⟨hkinds, ⟨hb, hC⟩, ⟨hb', hD⟩, hleaves⟩ :
      (twoImports.kind? (some 1) = some (.token .identifier) ∧
        twoImports.kind? (some 10) = some (.token .identifier) ∧
        ∀ id ∈ [4, 7, 13, 16], twoImports.kind? (some id) ≠ some (.token .identifier)) ∧
      (twoImports.data (some 4) = .access ⟨1, 2, some 3, false⟩ ∧
        twoImports.data (some 7) = .access ⟨4, 5, some 6, false⟩) ∧
      (twoImports.data (some 13) = .access ⟨10, 11, some 12, false⟩ ∧
        twoImports.data (some 16) = .access ⟨13, 14, some 15, false⟩) ∧
      ∀ leaf ∈ [(1, "a"), (3, "b"), (6, "C"), (10, "a"), (12, "b"), (15, "D")],
        twoImports.saysName leaf.1 leaf.2 = true := by
    decide +kernel
  -- Leaves are told by what they say, so that no text is computed twice.
  obtain ⟨hname, hname', hnodes⟩ := hkinds
  have hspelled : twoImports.Spelled := by
    unfold twoImports
    exact ParsedUnit.ofSource_spelled _ _
  have hleaf (id : NodeId) (text : String) (h : (id, text) ∈ [(1, "a"), (3, "b"), (6, "C"), (10, "a"),
      (12, "b"), (15, "D")]) : twoImports.nameText (some id) = text :=
    hspelled.nameText (hleaves (id, text) h)
  constructor
  · have hfirst := Forest.chainSegments?_name hname (hleaf 1 "a" (by simp))
    have hsecond := Forest.chainSegments?_access (hnodes 4 (by simp)) hb rfl (by decide) hfirst
      (hleaf 3 "b" (by simp))
    exact Forest.chainSegments?_access (hnodes 7 (by simp)) hC rfl (by decide) hsecond
      (hleaf 6 "C" (by simp))
  · have hfirst := Forest.chainSegments?_name hname' (hleaf 10 "a" (by simp))
    have hsecond := Forest.chainSegments?_access (hnodes 13 (by simp)) hb' rfl (by decide) hfirst
      (hleaf 12 "b" (by simp))
    exact Forest.chainSegments?_access (hnodes 16 (by simp)) hD rfl (by decide) hsecond
      (hleaf 15 "D" (by simp))

/-- The two imports beside classes of which one has the name of a package. -/
def importing : Setting := { shadowing with forest := twoImports }

/-- The longest package of the path has a class, and yet the import does not make it of the path: the
class `a.b` comes before the package, and has no `C`. -/
theorem importing_importPath_ne_class :
    importing.forest.chainSegments? 7 = some ["a", "b", "C"] ∧
      qualifiedToClass? (dotted ["a", "b", "C"]) importing.env.hasClass = some "a.b.C" ∧
      ¬ (((importing.importPath 7).run {}).1 = .classType (.of "a.b.C") ∧
        ((importing.importPath 7).run {}).2.diagnostics = ({} : State).diagnostics) := by
  have hclasses : importing.env.hasClass = fun name => ["a.b", "a.b$D", "a.b.C"].contains name :=
    funext shadowing_hasClass
  have hpath : importing.forest.chainSegments? 7 = some ["a", "b", "C"] := twoImports_chains.1
  refine ⟨hpath, by rw [hclasses]; decide, ?_⟩
  have hpackage (name : String) : importing.env.hasPackage name = ["a", "a.b", "z"].contains name :=
    shadowing_hasPackage name
  rw [importPath_eq_class_iff_packageClass? hpath]
  simp only [Environment.packageClass?, hpackage, hclasses]
  decide

/-- The class inside the one with the name of a package is what its import makes of the path. -/
theorem importing_importPath_eq_class :
    ((importing.importPath 16).run {}).1 = .classType (.of "a.b$D") ∧
      ((importing.importPath 16).run {}).2.diagnostics = ({} : State).diagnostics := by
  -- Three classes and three packages are all that is known.
  have hclasses : importing.env.hasClass = fun name => ["a.b", "a.b$D", "a.b.C"].contains name :=
    funext shadowing_hasClass
  have hpackage (name : String) : importing.env.hasPackage name = ["a", "a.b", "z"].contains name :=
    shadowing_hasPackage name
  have hclass : qualifiedToClass? (dotted ["a", "b", "D"]) importing.env.hasClass = some "a.b$D" := by
    rw [hclasses]
    decide
  refine (importPath_eq_class_iff twoImports_chains.2 hclass {}).mpr
    ⟨["a"], "b", ["D"], rfl, by decide, ?_, ?_, ?_⟩
  · rw [forall_prefix_cons, hpackage]
    exact ⟨by decide, by simp [List.prefix_nil]⟩
  · rw [forall_prefix_cons, hclasses]
    exact ⟨by decide, by simp [List.prefix_nil]⟩
  · intro part hpart hne
    obtain rfl : part = [] := by
      rcases List.prefix_cons_iff.mp hpart with rfl | ⟨tail, rfl, htail⟩
      · rfl
      · exact absurd (by rw [List.prefix_nil.mp htail]) hne
    rw [hclasses]
    decide

end Attribution.Setting

end KotlinTree
