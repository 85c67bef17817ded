import KotlinTree.Proofs.Binding.Site
import KotlinTree.Proofs.Syntax.Tree

/-!
What is around the parts of a bound class: the classes that they are in, and the type parameters of
all of these. A class declaration is bound in one way only.
-/

namespace KotlinTree

/-- What is around the parts of a class, given what is around the class. -/
def TypeContext.inside (outer : TypeContext) (name : String) (typeParameters : List String) :
    TypeContext :=
  { enclosing := outer.enclosing ++ [name], typeParameters := outer.typeParameters ++ typeParameters }

namespace Forest

variable {f : Forest} {package : String} {root id : NodeId} {name : String} {d : ClassDeclaration}
  {outer : TypeContext}

/-- The type parameters that a property declares for itself. -/
def propertyTypeParameters (f : Forest) (id : NodeId) : List String :=
  f.typeParameterNames ((f.children (some id)).toList.filter fun child =>
    f.kind? (some child) = some (.node .typeParameterList)).head?

/-- A class, an interface or an object. -/
def IsClass (f : Forest) (id : NodeId) : Prop :=
  f.kind? (some id) = some (.node .classDeclaration) ∨
    f.kind? (some id) = some (.node .objectDeclaration)

/-- A class declaration is bound, with the names of the classes around it and all their type
parameters. -/
inductive Surrounds (f : Forest) (package : String) (root : NodeId) :
    NodeId → String → ClassDeclaration → TypeContext → Prop where
  | topLevel {id : NodeId} {simple : String} {d : ClassDeclaration} :
    id ∈ f.topLevelDeclarations root → f.IsClass id → f.data (some id) = .classDeclaration d →
      f.declaredName? d = some simple → f.Surrounds package root id (inPackage package simple) d {}
  | nested {around id : NodeId} {name simple : String} {o d : ClassDeclaration}
    {outer : TypeContext} :
    f.Surrounds package root around name o outer → id ∈ f.classMembers o.body → f.IsClass id →
      f.data (some id) = .classDeclaration d → f.declaredName? d = some simple →
        f.Surrounds package root id (name ++ "$" ++ simple) d
          (outer.inside name (f.typeParameterNames o.typeParameters))

theorem Surrounds.isBound (h : f.Surrounds package root id name d outer) :
    f.IsBound package root id name d := by
  induction h with
  | topLevel hid _ hd hs => exact .topLevel hid hd hs
  | nested _ hid _ hd hs ih => exact .nested ih hid hd hs

theorem exists_of_mem_topLevelDeclarations (h : id ∈ f.topLevelDeclarations root) :
    ∃ file, f.data (some root) = .sourceFile file ∧ id ∈ file.declarations := by
  unfold topLevelDeclarations at h
  split at h
  · rename_i file hd
    exact ⟨file, hd, h⟩
  · exact absurd h (Array.not_mem_empty _)

theorem Linked.isChild_of_topLevel (hf : f.Linked) (h : id ∈ f.topLevelDeclarations root) :
    f.IsChild id root := by
  obtain ⟨file, hd, hid⟩ := exists_of_mem_topLevelDeclarations h
  exact hf.isChild_of_mem_children
    (hf.mem_children_of_mem_direct hd (by simp [NodeData.direct, hid]))

theorem Linked.isChild_of_body (hf : f.Linked) {b : NodeId}
    (hd : f.data (some id) = .classDeclaration d) (hb : d.body = some b) : f.IsChild b id :=
  hf.isChild_of_mem_children (hf.mem_children_of_mem_direct hd (by simp [NodeData.direct, hb]))

theorem Linked.isChild_of_member (hf : f.Linked) {b member : NodeId} {members : Array NodeId}
    (hd : f.data (some b) = .classBody members) (hm : member ∈ members) : f.IsChild member b :=
  hf.isChild_of_mem_children
    (hf.mem_children_of_mem_direct hd (by simpa [NodeData.direct] using hm))

/-- A class declaration has one binary name: its place in the tree says which. -/
theorem IsBound.unique (hf : f.Linked) {name' : String} {d' : ClassDeclaration}
    (h : f.IsBound package root id name d) (h' : f.IsBound package root id name' d') :
    name' = name := by
  induction h generalizing name' d' with
  | @topLevel id simple d hid hd hs =>
    cases h' with
    | topLevel _ hd' hs' =>
      cases hd.symm.trans hd'
      cases hs.symm.trans hs'
      rfl
    | nested hb hm _ _ =>
      -- The file itself is no class body.
      obtain ⟨b, members, -, hbody, hm⟩ := exists_body_of_mem_classMembers hm
      obtain ⟨file, hroot, -⟩ := exists_of_mem_topLevelDeclarations hid
      cases Option.some.inj ((hf.isChild_of_topLevel hid).symm.trans (hf.isChild_of_member hbody hm))
      cases hroot.symm.trans hbody
  | @nested outer id name simple o d hb hm hd hs ih =>
    obtain ⟨b, members, hob, hbody, hm⟩ := exists_body_of_mem_classMembers hm
    have hparent := hf.isChild_of_member hbody hm
    cases h' with
    | topLevel hid _ _ =>
      obtain ⟨file, hroot, -⟩ := exists_of_mem_topLevelDeclarations hid
      cases Option.some.inj ((hf.isChild_of_topLevel hid).symm.trans hparent)
      cases hroot.symm.trans hbody
    | @nested outer' _ name' simple' o' _ hb' hm' hd' hs' =>
      obtain ⟨b', members', hob', hbody', hm'⟩ := exists_body_of_mem_classMembers hm'
      cases Option.some.inj (hparent.symm.trans (hf.isChild_of_member hbody' hm'))
      have houter := (hf.isChild_of_body hb.data_eq hob).symm.trans
        (hf.isChild_of_body hb'.data_eq hob')
      cases Option.some.inj houter
      cases hd.symm.trans hd'
      cases hs.symm.trans hs'
      rw [ih hb']

/-- The name that a file notes for a class declaration is the one that it is bound with. -/
theorem IsBound.lookup_classSites (hf : f.Linked) {scope : FileScope}
    (h : f.IsBound scope.package root id name d) :
    ((f.fileClassSites scope root).map fun site => (site.node, site.name)).lookup id =
      some name := by
  obtain ⟨enclosing, simple, hs, rfl, hsub⟩ := h.classSites_subset hf
  have hmem : (id, binaryNameIn scope enclosing simple) ∈
      (f.fileClassSites scope root).map fun site => (site.node, site.name) := by
    have hsites := classSites_eq hf scope enclosing h.data_eq hs
    exact List.mem_map.mpr ⟨_, hsub (hsites ▸ List.mem_cons_self), rfl⟩
  -- Whatever is noted for the node is a name that it is bound with.
  have hall : ∀ entry ∈ (f.fileClassSites scope root).map fun site => (site.node, site.name),
      entry.1 = id → entry.2 = binaryNameIn scope enclosing simple := by
    rintro entry hentry rfl
    obtain ⟨site, hsite, rfl⟩ := List.mem_map.mp hentry
    obtain ⟨d', hb, -⟩ := isBound_of_mem_fileClassSites hf hsite
    exact h.unique hf hb
  generalize (f.fileClassSites scope root).map (fun site => (site.node, site.name)) = entries
    at hmem hall
  induction entries with
  | nil => exact absurd hmem List.not_mem_nil
  | cons entry entries ih =>
    rw [List.lookup_cons]
    split
    · rename_i heq
      rw [hall entry List.mem_cons_self (beq_iff_eq.mp heq).symm]
    · rename_i hne
      refine ih ?_ fun e he => hall e (List.mem_cons_of_mem _ he)
      rcases List.mem_cons.mp hmem with rfl | hmem
      · simp at hne
      · exact hmem

end Forest

end KotlinTree
