import KotlinTree.Proofs.Syntax.Extension
import Mathlib.Data.List.Nodup

/-!
Trees of a forest lie apart: of two of them one is in the other, or they have no node in common. The
parts of a declaration that are its children are told apart by their order.
-/

namespace KotlinTree.Forest

variable {f : Forest} {a b p x : NodeId} {d : NodeData}

theorem Linked.le_of_inside (hf : f.Linked) (h : f.Inside a x) : x ≤ a := by
  rcases Relation.reflTransGen_iff_eq_or_transGen.mp h with rfl | h
  · exact le_rfl
  · exact (hf.lt_of_beneath h).le

theorem Linked.not_inside_of_lt (hf : f.Linked) (h : a < x) : ¬ f.Inside a x :=
  fun hx => absurd (hf.le_of_inside hx) (Nat.not_le_of_lt h)

/-- A node has one parent, so trees with a common node are in one another. -/
theorem inside_total (ha : f.Inside a x) (hb : f.Inside b x) : f.Inside b a ∨ f.Inside a b := by
  have hunique : Relator.RightUnique f.IsChild := fun _ _ _ h h' => Option.some.inj (h.symm.trans h')
  exact Relation.ReflTransGen.total_of_right_unique hunique ha hb

/-- A child of a node is in none of the trees of the other children. -/
theorem Linked.not_inside_of_ne (hf : f.Linked) (ha : a ∈ f.children (some p))
    (hb : b ∈ f.children (some p)) (hab : a ≠ b) : ¬ f.Inside b a := by
  intro h
  have hap := hf.isChild_of_mem_children ha
  have hbp := hf.isChild_of_mem_children hb
  rcases Relation.ReflTransGen.cases_head h with rfl | ⟨q, hq, hqb⟩
  · exact hab rfl
  · -- The only way up from the one child leads to the parent, which is above the other.
    have hqp : q = p := Option.some.inj (hq.symm.trans hap)
    have hle : p ≤ b := hqp ▸ hf.le_of_inside hqb
    exact absurd hle (Nat.not_le_of_lt (hf.lt_of_isChild hbp))

theorem Linked.not_inside_sibling (hf : f.Linked) (ha : a ∈ f.children (some p))
    (hb : b ∈ f.children (some p)) (hab : a ≠ b) (hx : f.Inside a x) : ¬ f.Inside b x := by
  intro hxb
  rcases inside_total hx hxb with h | h
  · exact hf.not_inside_of_ne ha hb hab h
  · exact hf.not_inside_of_ne hb ha hab.symm h

theorem Linked.describes (hf : f.Linked) {k : Kind} (hk : f.kind? (some p) = some k) :
    f.Describes (f.children (some p)) k (f.data (some p)) := by
  cases hn : f.nodes[p]? with
  | none => simp [kind?, node?, hn] at hk
  | some n =>
    rw [kind?_of_getElem? hn] at hk
    rw [children_of_getElem? hn, data_of_getElem? hn, ← Option.some.inj hk]
    exact (hf p n hn).describes

/-- A node that knows anything is there and of some kind. -/
theorem exists_kind? (hd : f.data (some p) ≠ .plain) : ∃ k, f.kind? (some p) = some k := by
  cases hn : f.nodes[p]? with
  | none => simp [data, node?, hn] at hd
  | some n => exact ⟨n.kind, kind?_of_getElem? hn⟩

theorem Linked.direct_subperm (hf : f.Linked) (hd : f.data (some p) = d) :
    d.direct.Subperm (f.children (some p)).toList := by
  by_cases hplain : d = .plain
  · subst hplain
    exact List.nil_subperm
  · obtain ⟨k, hk⟩ := exists_kind? (hd ▸ hplain)
    exact hd ▸ (hf.describes hk).direct

theorem Linked.children_ordered (hf : f.Linked) (p : NodeId) :
    (f.children (some p)).toList.Pairwise (· < ·) := by
  cases hn : f.nodes[p]? with
  | none => simp [children, node?, hn]
  | some n =>
    rw [children_of_getElem? hn]
    exact (hf p n hn).ordered

theorem Linked.children_nodup (hf : f.Linked) (p : NodeId) : (f.children (some p)).toList.Nodup :=
  (hf.children_ordered p).imp fun h => h.ne

theorem Linked.direct_nodup (hf : f.Linked) (hd : f.data (some p) = d) : d.direct.Nodup := by
  obtain ⟨found, hperm, hsub⟩ := hf.direct_subperm hd
  exact hperm.nodup_iff.mp ((hf.children_nodup p).sublist hsub)

theorem Linked.mem_children_of_mem_direct (hf : f.Linked) (hd : f.data (some p) = d)
    (h : a ∈ d.direct) : a ∈ f.children (some p) :=
  Array.mem_toList_iff.mp ((hf.direct_subperm hd).subset h)

theorem Linked.not_inside_other (hf : f.Linked) (hd : f.data (some p) = d) (ha : a ∈ d.direct)
    (hb : b ∈ d.direct) (hab : a ≠ b) (hx : f.Inside a x) : ¬ f.Inside b x :=
  hf.not_inside_sibling (hf.mem_children_of_mem_direct hd ha) (hf.mem_children_of_mem_direct hd hb)
    hab hx

/-- What is in one part of a node is in none of the parts beside it. -/
theorem Linked.not_inside_beside (hf : f.Linked) (hd : f.data (some p) = d) {before after : List NodeId}
    (hparts : d.direct = before ++ a :: after) (hx : f.Inside a x) (hb : b ∈ before ++ after) :
    ¬ f.Inside b x := by
  have hnodup := hf.direct_nodup hd
  rw [hparts, List.nodup_middle, List.nodup_cons] at hnodup
  have hne : a ≠ b := fun h => hnodup.1 (h ▸ hb)
  refine hf.not_inside_other hd ?_ ?_ hne hx
  · rw [hparts]
    exact List.mem_append_right _ List.mem_cons_self
  · rw [hparts, List.perm_middle.mem_iff]
    exact List.mem_cons_of_mem _ hb

/-- A part that stands after a sign does so among the children. -/
theorem Linked.follows (hf : f.Linked) (hd : f.data (some p) = d) {sign : TokenKind}
    (h : (sign, a) ∈ d.signed) : f.Follows sign (f.children (some p)) a := by
  by_cases hplain : d = .plain
  · subst hplain
    exact absurd h List.not_mem_nil
  · obtain ⟨k, hk⟩ := exists_kind? (hd ▸ hplain)
    exact (hf.describes hk).signed (sign, a) (hd ▸ h)

theorem Linked.exists_role (hf : f.Linked) (hd : f.data (some p) = d) {kinds : List Kind}
    (h : (a, kinds) ∈ d.roles) : ∃ k ∈ kinds, f.kind? (some a) = some k := by
  by_cases hplain : d = .plain
  · subst hplain
    exact absurd h List.not_mem_nil
  · obtain ⟨k, hk⟩ := exists_kind? (hd ▸ hplain)
    exact (hf.describes hk).roles (a, kinds) (hd ▸ h)

theorem Linked.fits (hf : f.Linked) {k : Kind} (hk : f.kind? (some p) = some k) :
    (f.data (some p)).fits k := (hf.describes hk).fits

theorem Linked.first_child (hf : f.Linked) (hd : f.data (some p) = d) (h : d.first? = some a) :
    (f.children (some p))[0]? = some a := by
  by_cases hplain : d = .plain
  · subst hplain
    cases h
  · obtain ⟨k, hk⟩ := exists_kind? (hd ▸ hplain)
    exact (hf.describes hk).first a (hd ▸ h)

theorem Linked.isPath (hf : f.Linked) (hd : f.data (some p) = d) (h : d.path? = some a) :
    f.IsPath a := by
  by_cases hplain : d = .plain
  · subst hplain
    cases h
  · obtain ⟨k, hk⟩ := exists_kind? (hd ▸ hplain)
    exact (hf.describes hk).path a (hd ▸ h)

/-- What is held together is among the children of what holds it. -/
theorem Linked.held_subperm (hf : f.Linked) (hd : f.data (some p) = d) :
    d.held.2.Subperm (f.children d.held.1).toList := by
  by_cases hplain : d = .plain
  · subst hplain
    exact List.nil_subperm
  · obtain ⟨k, hk⟩ := exists_kind? (hd ▸ hplain)
    exact hd ▸ (hf.describes hk).held

/-- An inner node knows what its kind does. -/
theorem Linked.mem_kinds (hf : f.Linked) {k : NodeKind} (hk : f.kind? (some p) = some (.node k)) :
    k ∈ (f.data (some p)).kinds := List.contains_iff_mem.mp (hf.fits hk)

/-- Nodes of one kind only know this of themselves. -/
theorem Linked.kind?_of_data (hf : f.Linked) (hd : f.data (some p) = d) (hl : d.leaf? = none)
    {k : NodeKind} (hk : d.kinds = [k]) : f.kind? (some p) = some (.node k) := by
  have hplain : f.data (some p) ≠ .plain := by
    intro he
    rw [← hd, he] at hk
    cases hk
  obtain ⟨kind, hkind⟩ := exists_kind? hplain
  have hfits := hf.fits hkind
  rw [hd] at hfits
  cases kind with
  | token _ => simp [NodeData.fits, hl] at hfits
  | node _ =>
    rw [NodeData.fits, hk, List.contains_iff_mem, List.mem_singleton] at hfits
    rw [hkind, hfits]

/-- A token is a leaf. -/
theorem Linked.exists_leaf (hf : f.Linked) {k : TokenKind}
    (hk : f.kind? (some p) = some (.token k)) : ∃ leaf, f.data (some p) = .leaf leaf := by
  have hfits : (f.data (some p)).leaf?.isSome = true := hf.fits hk
  obtain ⟨leaf, hleaf⟩ := Option.isSome_iff_exists.mp hfits
  unfold NodeData.leaf? at hleaf
  split at hleaf
  · rename_i hd
    exact ⟨_, hd⟩
  · cases hleaf

theorem Linked.link?_of_token (hf : f.Linked) {k : TokenKind}
    (hk : f.kind? (some p) = some (.token k)) : f.link? p = none := by
  obtain ⟨leaf, hdata⟩ := hf.exists_leaf hk
  rw [link?, hdata]
  rfl

/-- What is linked to what an access is on is its name. -/
theorem exists_access_of_link? {left name : NodeId} (h : f.link? p = some (left, name)) :
    ∃ access, f.data (some p) = .access access ∧ access.expression = left ∧
      access.name = some name := by
  unfold link? NodeData.link? at h
  split at h
  · rename_i access hdata
    obtain ⟨token, hname, hpair⟩ := Option.map_eq_some_iff.mp h
    cases hpair
    exact ⟨access, hdata, rfl, hname⟩
  · cases h

theorem Linked.beneath_of_link? (hf : f.Linked) {left name : NodeId}
    (h : f.link? p = some (left, name)) : f.Beneath name p := by
  obtain ⟨access, hdata, -, hname⟩ := exists_access_of_link? h
  exact hf.beneath_of_mem_parts (by simp [hdata, NodeData.parts, hname])

/-- Nothing is in the tree of a token but the token. -/
theorem Linked.eq_of_inside_token (hf : f.Linked) {k : TokenKind}
    (hk : f.kind? (some p) = some (.token k)) (h : f.Inside p x) : x = p := by
  rcases Relation.ReflTransGen.cases_tail h with rfl | ⟨c, -, hc⟩
  · rfl
  · obtain ⟨m, hm, hmem⟩ := hf.exists_parent hc
    obtain ⟨leaf, hdata⟩ := hf.exists_leaf hk
    rw [data_of_getElem? hm] at hdata
    rcases (hf p m hm).leaf with hleaf | hnone
    · rw [hdata] at hleaf
      cases hleaf
    · rw [hnone] at hmem
      exact absurd hmem (Array.not_mem_empty c)

/-- A node that is a written type by its kind holds one. -/
theorem Linked.exists_typeReference (hf : f.Linked)
    (hk : f.kind? (some p) = some (.node .typeReference)) :
    ∃ reference, f.data (some p) = .typeReference reference := by
  have hkinds := hf.mem_kinds hk
  cases hd : f.data (some p) with
  | typeReference reference => exact ⟨reference, rfl⟩
  | typeOperation operation => grind [NodeData.kinds]
  | _ => simp [hd, NodeData.kinds] at hkinds

/-- A node that is a test of a type by its kind holds one. -/
theorem Linked.exists_typeTest (hf : f.Linked)
    (hk : f.kind? (some p) = some (.node .isExpression)) :
    ∃ operation, f.data (some p) = .typeOperation operation ∧
      (operation.operator = .isKeyword ∨ operation.operator = .notIsKeyword) := by
  have hkinds := hf.mem_kinds hk
  cases hd : f.data (some p) with
  | typeOperation operation => exact ⟨operation, rfl, by grind [NodeData.kinds]⟩
  | _ => simp [hd, NodeData.kinds] at hkinds

end KotlinTree.Forest
