import KotlinTree.Binding.Site
import KotlinTree.Proofs.Syntax.Extension

/-!
Which class declarations of a file are bound: those at its top level, and those in the body of one
that is bound.
-/

namespace KotlinTree

/-- A class as far as it can conflict with another one. -/
def ClassSite.declared (site : ClassSite) : String × ClassKind := (site.name, site.kind)

namespace Forest

/-- A class declaration of a file is bound, with its binary name. -/
inductive IsBound (f : Forest) (package : String) (root : NodeId) :
    NodeId → String → ClassDeclaration → Prop where
  | topLevel {id : NodeId} {simple : String} {d : ClassDeclaration} :
    id ∈ f.topLevelDeclarations root → f.data (some id) = .classDeclaration d →
      f.declaredName? d = some simple → f.IsBound package root id (inPackage package simple) d
  | nested {outer id : NodeId} {name simple : String} {o d : ClassDeclaration} :
    f.IsBound package root outer name o → id ∈ f.classMembers o.body →
      f.data (some id) = .classDeclaration d → f.declaredName? d = some simple →
        f.IsBound package root id (name ++ "$" ++ simple) d

section
variable {f : Forest} {scope : FileScope} {root id : NodeId} {enclosing : List String}
  {name simple : String} {d : ClassDeclaration}

theorem binaryNameIn_concat (scope : FileScope) (enclosing : List String) (outer name : String) :
    binaryNameIn scope (enclosing ++ [outer]) name = outer ++ "$" ++ name := by
  unfold binaryNameIn
  rw [List.getLast?_concat]

theorem IsBound.data_eq {package : String} (h : f.IsBound package root id name d) :
    f.data (some id) = .classDeclaration d := by
  cases h <;> assumption

/-- The members of a class are in its body. -/
theorem exists_body_of_mem_classMembers {body : Option NodeId} {member : NodeId}
    (h : member ∈ f.classMembers body) :
    ∃ b members, body = some b ∧ f.data (some b) = .classBody members ∧ member ∈ members := by
  unfold classMembers at h
  split at h
  · rename_i members hd
    cases body with
    | none => simp [data, node?] at hd
    | some b => exact ⟨b, members, rfl, hd, h⟩
  · exact absurd h (Array.not_mem_empty _)

/-- The members of a class are in its tree. -/
theorem Linked.beneath_of_mem_classMembers {member : NodeId} (hf : f.Linked)
    (hd : f.data (some id) = .classDeclaration d) (hm : member ∈ f.classMembers d.body) :
    f.Beneath member id := by
  obtain ⟨body, members, hbody, hmembers, hm⟩ := exists_body_of_mem_classMembers hm
  have hmember : f.Beneath member body :=
    hf.beneath_of_mem_parts (by simpa [hmembers, NodeData.parts] using hm)
  have hbelow : f.Beneath body id :=
    hf.beneath_of_mem_parts (by simp [hd, NodeData.parts, hbody])
  exact hmember.trans hbelow

/-- A member of a class body comes before the class. -/
theorem Linked.lt_of_mem_classMembers {member : NodeId} (hf : f.Linked)
    (hd : f.data (some id) = .classDeclaration d) (hm : member ∈ f.classMembers d.body) :
    member < id :=
  hf.lt_of_beneath (hf.beneath_of_mem_classMembers hd hm)

theorem Linked.inside_of_mem_classMembers {member : NodeId} (hf : f.Linked)
    (hd : f.data (some id) = .classDeclaration d) (hm : member ∈ f.classMembers d.body) :
    f.Inside id member :=
  (hf.beneath_of_mem_classMembers hd hm).to_reflTransGen

theorem classSites_eq (hf : f.Linked) (scope : FileScope) (enclosing : List String)
    (hd : f.data (some id) = .classDeclaration d) (hs : f.declaredName? d = some simple) :
    f.classSites scope enclosing id =
      { node := id, name := binaryNameIn scope enclosing simple, kind := d.kind, enclosing
        typeParameters := f.typeParameterNames d.typeParameters
        supertypes := d.supertypes } ::
        (f.classMembers d.body).toList.flatMap
          (f.classSites scope (enclosing ++ [binaryNameIn scope enclosing simple])) := by
  rw [classSites, hd]
  dsimp only
  rw [hs]
  dsimp only
  congr 1
  apply List.flatMap_congr
  intro member hm
  rw [dif_pos (hf.lt_of_mem_classMembers hd (by simpa using hm))]

/-- What is found in a class is bound, if the class is. -/
theorem isBound_of_mem_classSites (hf : f.Linked)
    (hb : ∀ d simple, f.data (some id) = .classDeclaration d → f.declaredName? d = some simple →
      f.IsBound scope.package root id (binaryNameIn scope enclosing simple) d)
    {site : ClassSite} (hsite : site ∈ f.classSites scope enclosing id) :
    ∃ d, f.IsBound scope.package root site.node site.name d ∧ site.kind = d.kind := by
  -- The induction is on the node, as members come before their class.
  induction id using Nat.strongRecOn generalizing enclosing with
  | ind id ih =>
    cases hd : f.data (some id) with
    | classDeclaration d =>
      cases hs : f.declaredName? d with
      | none => simp [classSites, hd, hs] at hsite
      | some simple =>
        have hbound := hb d simple hd hs
        rw [classSites_eq hf scope enclosing hd hs] at hsite
        rcases List.mem_cons.mp hsite with rfl | hinner
        · exact ⟨d, hbound, rfl⟩
        · obtain ⟨member, hm, hin⟩ := List.mem_flatMap.mp hinner
          rw [Array.mem_toList_iff] at hm
          refine ih member (hf.lt_of_mem_classMembers hd hm) ?_ hin
          intro d' simple' hd' hs'
          rw [binaryNameIn_concat]
          exact .nested hbound hm hd' hs'
    | _ => simp [classSites, hd] at hsite

/-- What is found in a file is bound. -/
theorem isBound_of_mem_fileClassSites (hf : f.Linked) {site : ClassSite}
    (hsite : site ∈ f.fileClassSites scope root) :
    ∃ d, f.IsBound scope.package root site.node site.name d ∧ site.kind = d.kind := by
  obtain ⟨id, hid, hin⟩ := List.mem_flatMap.mp hsite
  have htop (d : ClassDeclaration) (simple : String) (hd : f.data (some id) = .classDeclaration d)
      (hs : f.declaredName? d = some simple) :
      f.IsBound scope.package root id (binaryNameIn scope [] simple) d :=
    .topLevel (Array.mem_toList_iff.mp hid) hd hs
  exact isBound_of_mem_classSites hf htop hin

/-- What is bound is found, and so is all that is found in it. -/
theorem IsBound.classSites_subset (hf : f.Linked) (h : f.IsBound scope.package root id name d) :
    ∃ enclosing simple, f.declaredName? d = some simple ∧
      name = binaryNameIn scope enclosing simple ∧
        f.classSites scope enclosing id ⊆ f.fileClassSites scope root := by
  induction h with
  | topLevel hm _ hs =>
    refine ⟨[], _, hs, rfl, ?_⟩
    intro site hsite
    exact List.mem_flatMap.mpr ⟨_, Array.mem_toList_iff.mpr hm, hsite⟩
  | @nested outer id name simple o d hb hm hd hs ih =>
    obtain ⟨enclosing, simple', hs', hname, hsub⟩ := ih
    refine ⟨enclosing ++ [name], simple, hs, (binaryNameIn_concat scope enclosing name simple).symm, ?_⟩
    intro site hsite
    apply hsub
    rw [classSites_eq hf scope enclosing hb.data_eq hs', ← hname]
    exact List.mem_cons_of_mem _ (List.mem_flatMap.mpr ⟨id, Array.mem_toList_iff.mpr hm, hsite⟩)

/-- The class declarations that are found in a file are those that are bound. -/
theorem mem_declared_fileClassSites (hf : f.Linked) (scope : FileScope) (root : NodeId)
    (name : String) (kind : ClassKind) :
    (name, kind) ∈ (f.fileClassSites scope root).map ClassSite.declared ↔
      ∃ id d, f.IsBound scope.package root id name d ∧ d.kind = kind := by
  rw [List.mem_map]
  constructor
  · rintro ⟨site, hsite, hdeclared⟩
    obtain ⟨rfl, rfl⟩ := Prod.mk.inj hdeclared
    obtain ⟨d, hb, hk⟩ := isBound_of_mem_fileClassSites hf hsite
    exact ⟨site.node, d, hb, hk.symm⟩
  · rintro ⟨id, d, hb, rfl⟩
    obtain ⟨enclosing, simple, hs, rfl, hsub⟩ := hb.classSites_subset hf
    have hsites := classSites_eq hf scope enclosing hb.data_eq hs
    exact ⟨_, hsub (hsites ▸ List.mem_cons_self), rfl⟩

/-- The classes around a class are found with it, or are around all that is found. -/
theorem mem_enclosing_of_mem_classSites {site : ClassSite}
    (hsite : site ∈ f.classSites scope enclosing id) {outer : String}
    (houter : outer ∈ site.enclosing) :
    outer ∈ enclosing ∨ ∃ around ∈ f.classSites scope enclosing id, around.name = outer := by
  -- The induction is on the node, as members come before their class.
  induction id using Nat.strongRecOn generalizing enclosing with
  | ind id ih =>
    cases hd : f.data (some id) with
    | classDeclaration d =>
      cases hs : f.declaredName? d with
      | none => simp [classSites, hd, hs] at hsite
      | some simple =>
        have hfound : f.classSites scope enclosing id =
            { node := id, name := binaryNameIn scope enclosing simple, kind := d.kind, enclosing
              typeParameters := f.typeParameterNames d.typeParameters
              supertypes := d.supertypes } ::
              (f.classMembers d.body).toList.flatMap fun member => if _ : member < id then
                f.classSites scope (enclosing ++ [binaryNameIn scope enclosing simple]) member
              else [] := by
          rw [classSites, hd]
          dsimp only
          rw [hs]
        rw [hfound] at hsite ⊢
        rcases List.mem_cons.mp hsite with rfl | hinner
        · exact .inl houter
        · obtain ⟨member, hm, hin⟩ := List.mem_flatMap.mp hinner
          by_cases hlt : member < id
          · rw [dif_pos hlt] at hin
            -- A site among the members of a class is inside what is around the class, or inside the
            -- class.
            rcases ih member hlt hin with hbefore | ⟨around, haround, hname⟩
            · rcases List.mem_append.mp hbefore with hbefore | hself
              · exact .inl hbefore
              · exact .inr ⟨_, List.mem_cons_self, (List.mem_singleton.mp hself).symm⟩
            · refine .inr ⟨around, List.mem_cons_of_mem _ ?_, hname⟩
              exact List.mem_flatMap.mpr ⟨member, hm, by rwa [dif_pos hlt]⟩
          · rw [dif_neg hlt] at hin
            exact absurd hin List.not_mem_nil
    | _ => simp [classSites, hd] at hsite

theorem exists_site_of_mem_enclosing {site : ClassSite}
    (hsite : site ∈ f.fileClassSites scope root) {outer : String} (houter : outer ∈ site.enclosing) :
    ∃ around ∈ f.fileClassSites scope root, around.name = outer := by
  obtain ⟨top, htop, hin⟩ := List.mem_flatMap.mp hsite
  rcases mem_enclosing_of_mem_classSites hin houter with hnil | ⟨around, haround, hname⟩
  · exact absurd hnil List.not_mem_nil
  · exact ⟨around, List.mem_flatMap.mpr ⟨top, htop, haround⟩, hname⟩

end

end Forest

end KotlinTree
