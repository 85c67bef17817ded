import KotlinTree.Proofs.Attribution.Import
import KotlinTree.Proofs.Types.Assembled

/-!
Imports of members of files. Main statement: the import of a name that a package declares, and that is
beside no class, is left without a report exactly when some declaration of it is no extension, or a
package has the name as well (`importUse_quiet_iff`). Extensions are not looked for by the package that
they are imported from.
-/

namespace KotlinTree

namespace Attribution.Setting

variable {s : Setting}

/-- A name that is only to be named is found among the members of files exactly when there are some. -/
theorem topLevelMember?_any_eq_none {env : Environment} {package name : String} :
    topLevelMember? env package name .any = none ↔ env.topLevel package name = [] := by
  have hall : (env.topLevel package name).filter Purpose.any.fits = env.topLevel package name :=
    List.filter_eq_self.mpr fun _ _ => rfl
  unfold topLevelMember?
  rw [hall]
  constructor
  · intro h
    have hhead := (Option.or_eq_none_iff.mp h).2
    exact List.head?_eq_none_iff.mp hhead
  · intro h
    rw [h]
    rfl

/-- A name in a package, beside no class, is not reported when it is a package or a member of a file
that is no extension. -/
theorem packageMemberMeaning_any_resolved_iff {package name : String}
    (hclass : s.env.hasClass (inPackage package name) = false) :
    (∀ failure, s.packageMemberMeaning package name .any ≠ .unresolved failure) ↔
      s.env.topLevel package name ≠ [] ∨ s.env.hasPackage (inPackage package name) = true := by
  rw [packageMemberMeaning, if_neg (Bool.eq_false_iff.mp hclass)]
  cases hpackage : s.env.hasPackage (inPackage package name) with
  | true => simp [Purpose.count?]
  | false =>
    rw [Ne, ← topLevelMember?_any_eq_none]
    cases topLevelMember? s.env package name .any <;> simp

theorem record_quiet_iff {place : Place} {node : NodeId} {token : Option NodeId}
    {access : AccessKind} {meaning : Meaning} {st : State} :
    ((s.record place node token access meaning).run st).2.diagnostics = st.diagnostics ↔
      ∀ failure, meaning ≠ .unresolved failure := by
  constructor
  · rintro hquiet failure rfl
    rw [record_diagnostics_unresolved] at hquiet
    exact absurd (congrArg Array.size hquiet) (by simp)
  · exact record_diagnostics

/-- The import of a name that a package declares, where no class is named by the path or a front of it,
is left without a report exactly when a declaration of the name in the package is no extension, or when
the path names a package. -/
theorem importUse_quiet_iff {ds : List (String × Member)} (henv : s.env.Assembled ds)
    {id path : NodeId} {directive : ImportDirective} {first name : String} {rest : List String}
    (hdata : s.forest.data (some id) = .importDirective directive)
    (hpath : directive.path = some path)
    (hchain : s.forest.chainSegments? path = some (first :: rest ++ [name])) (hfirst : first ≠ "")
    (hclass : ∀ front, IsDottedFront front (dotted (first :: rest ++ [name])) →
      s.env.hasClass front = false)
    {m : Member} (hm : (dotted (first :: rest), m) ∈ ds) (hname : m.name = name) (st : State) :
    ((s.importUse id).run st).2.diagnostics = st.diagnostics ↔
      (∃ m', (dotted (first :: rest), m') ∈ ds ∧ m'.name = name ∧ m'.receiver = none) ∨
        s.env.hasPackage (dotted (first :: rest ++ [name])) = true := by
  have hdotted := dotted_ne_empty hfirst rest
  -- The path is an access on the package, to which its names lead.
  obtain ⟨-, hone⟩ | ⟨hkind, access, front, haccess, hlt, hfront, hsegments⟩ :=
    Forest.chainSegments?_cases hchain
  · exact absurd (congrArg List.length hone) (by simp)
  obtain ⟨rfl, hlast⟩ := List.append_inj' hsegments rfl
  obtain ⟨rfl⟩ := List.singleton_injective hlast
  have hleads : (first :: rest).foldlM s.enter? (.package "") =
      some (.package (dotted (first :: rest))) := by
    rw [← innerName_root hfirst]
    refine foldlM_enter?_eq_package fun part hpart hne => ?_
    obtain ⟨tail, rfl⟩ : ∃ tail, part = first :: tail := by
      rcases List.prefix_cons_iff.mp hpart with rfl | ⟨tail, rfl, -⟩
      · exact absurd rfl hne
      · exact ⟨tail, rfl⟩
    rw [innerName_root hfirst]
    constructor
    · exact hclass _ (isDottedFront_dotted (hpart.trans (List.prefix_append _ _)) hne)
    · exact henv.declaresPackage hm _ (dotted_ne_empty hfirst tail)
        (isDottedFront_dotted hpart hne)
  obtain ⟨hscope, hquiet⟩ := run_importPath hfront st
  rw [hleads] at hscope hquiet
  have hrun : ((s.importUse id).run st).2 = ((s.importPath path).run st).2 := by
    unfold importUse
    rw [hdata]
    dsimp only
    rw [hpath]
    rfl
  have hfull := inPackage_dotted hdotted (s.forest.nameText access.name)
  rw [hrun, run_importPath_access hkind haccess hlt, eq_of_scope? hscope, ← hquiet rfl,
    record_quiet_iff, memberMeaning, packageMemberMeaning_any_resolved_iff, hfull]
  · refine or_congr_left ?_
    rw [henv.topLevel_eq]
    simp
  · rw [hfull]
    exact hclass _ (.inl rfl)

/-- A file with an import of one name from a package. -/
@[irreducible]
def oneImport : Forest := (ParsedUnit.ofSource "B.kt" "import p.shout").forest

theorem oneImport_parsed : oneImport.chainSegments? 4 = some ["p", "shout"] ∧
    oneImport.data (some 5) = .importDirective ⟨some 4, false, none⟩ := by
  obtain ⟨⟨hname, hnode⟩, haccess, hdirective, hleaves⟩ :
      (oneImport.kind? (some 1) = some (.token .identifier) ∧
        oneImport.kind? (some 4) ≠ some (.token .identifier)) ∧
      oneImport.data (some 4) = .access ⟨1, 2, some 3, false⟩ ∧
      oneImport.data (some 5) = .importDirective ⟨some 4, false, none⟩ ∧
      oneImport.saysName 1 "p" = true ∧ oneImport.saysName 3 "shout" = true := by
    decide +kernel
  have hspelled : oneImport.Spelled := by
    unfold oneImport
    exact ParsedUnit.ofSource_spelled _ _
  have hfirst := Forest.chainSegments?_name hname (hspelled.nameText hleaves.1)
  exact ⟨Forest.chainSegments?_access hnode haccess rfl (by decide) hfirst
    (hspelled.nameText hleaves.2), hdirective⟩

/-- An extension of texts that yields a text. -/
def shout : Member where
  name := "shout"
  kind := .method
  type := .of "kotlin.String"
  owner := "p.AKt"
  isStatic := true
  receiver := some (.of "kotlin.String")

/-- The file with the import beside one in which there is only the extension. -/
def importingExtension : Setting where
  forest := oneImport
  env := ({} : Environment).addTopLevel "p" shout .source
  unit := { fileName := "B.kt", scope := {}, facade := "BKt", classNames := [] }

/-- The import of the extension is reported, although the package declares it. -/
theorem importingExtension_importUse_reports :
    ((importingExtension.importUse 5).run {}).2.diagnostics ≠ ({} : State).diagnostics := by
  have henv : importingExtension.env.Assembled [("p", shout)] := .fileMember "p" shout .source .empty
  have hclass (front : String) : importingExtension.env.hasClass front = false :=
    ((Environment.addTopLevel_grows {} "p" shout .source).1.hasClass front).trans
      (by simp [Environment.hasClass])
  have hpackage : ¬ importingExtension.env.hasPackage "p.shout" = true := by
    change ¬ (({} : Environment).addTopLevel "p" shout .source).hasPackage "p.shout" = true
    rw [Environment.hasPackage_addTopLevel, Environment.hasPackage_addPackage]
    -- No package has the path as its front: the paths are of different lengths.
    rintro (hnone | ⟨-, hself | ⟨back, hback⟩⟩)
    · exact absurd hnone (by simp [Environment.hasPackage])
    · exact absurd hself (by decide)
    · have hlength := congrArg String.length hback
      simp only [String.length_append] at hlength
      have hpath : "p.shout".length = 7 := rfl
      have hone : "p".length = 1 := rfl
      omega
  obtain ⟨hpath, hdata⟩ := oneImport_parsed
  have hchain : importingExtension.forest.chainSegments? 4 = some ("p" :: [] ++ ["shout"]) := hpath
  rw [Ne, importUse_quiet_iff henv hdata rfl hchain (by decide) (fun front _ => hclass front)
    (List.mem_singleton_self _) rfl]
  -- The member of that name is an extension, and there is no package of that name.
  rintro (⟨m, hm, -, hreceiver⟩ | hnamed)
  · obtain rfl : m = shout := (Prod.mk.inj (List.mem_singleton.mp hm)).2
    cases hreceiver
  · exact hpackage hnamed

end Attribution.Setting

end KotlinTree
