import KotlinTree.Proofs.Grammar.Progress

/-!
How a run changes the forest: it adds nodes after those that are there, and each tree that it leaves
is a walk over nodes that it has added, in the order of their making.
-/

namespace KotlinTree.Grammar

/-- A forest after a run that leaves some trees. -/
structure Grown (f : Forest) (ps : List Piece) (g : Forest) : Prop where
  size_le : f.size ≤ g.size
  old : ∀ i < f.size, g.nodes[i]? = f.nodes[i]?
  linked : g.Linked
  range : ∀ i ∈ ps.flatMap Piece.members, f.size ≤ i ∧ i < g.size
  sorted : (ps.flatMap Piece.members).Pairwise (· < ·)
  walk : ∀ p ∈ ps, g.postorder p.root = p.members
  free : ∀ p ∈ ps, g.parent? (some p.root) = none

section
variable {f g h : Forest} {ps qs : List Piece} {p : Piece}

theorem mem_members_of_mem {i : NodeId} (hp : p ∈ ps) (hi : i ∈ p.members) :
    i ∈ ps.flatMap Piece.members := List.mem_flatMap.mpr ⟨p, hp, hi⟩

theorem mem_roots {i : NodeId} : i ∈ roots ps ↔ ∃ p ∈ ps, p.root = i := by
  simp [roots]

/-- The roots are among the nodes of the trees, in the same order. -/
theorem roots_sublist (ps : List Piece) : (roots ps).toList.Sublist (ps.flatMap Piece.members) := by
  induction ps with
  | nil => exact List.Sublist.refl []
  | cons p ps ih =>
    have hp : [p.root].Sublist p.members := List.singleton_sublist.mpr p.root_mem_members
    exact hp.append ih

namespace Grown

theorem forest_extends (hg : Grown f ps g) : f.Extends g := Forest.extends_of_eq hg.old

theorem root_range (hg : Grown f ps g) (hp : p ∈ ps) : f.size ≤ p.root ∧ p.root < g.size :=
  hg.range p.root (mem_members_of_mem hp p.root_mem_members)

theorem below (hg : Grown f ps g) (j : NodeId) (n : Node) (hn : g.nodes[j]? = some n) :
    ∀ c ∈ n.children, c < j := (hg.linked j n hn).below

/-- The nodes of a tree are those that lie in the tree of its root. -/
theorem mem_members_iff (hg : Grown f ps g) (hp : p ∈ ps) {i : NodeId} :
    i ∈ p.members ↔ g.Within i p.root := by
  rw [← hg.walk p hp]
  constructor
  · intro hi
    refine Forest.within_of_mem_postorder ?_ hi
    intro j _ n hn c hc
    exact ⟨(hg.linked j n hn).below c hc, (hg.linked j n hn).linked c hc⟩
  · intro hi
    refine Forest.mem_postorder_of_within (hg.root_range hp).2 hg.below ?_ hi
    intro c q hc
    obtain ⟨n, hn, hq⟩ := Forest.exists_of_isChild hc
    exact (hg.linked c n hn).owned q hq

theorem adoptable (hg : Grown f ps g) : g.Adoptable (roots ps) where
  lt c hc := by
    obtain ⟨p, hp, rfl⟩ := mem_roots.mp hc
    exact (hg.root_range hp).2
  free c hc := by
    obtain ⟨p, hp, rfl⟩ := mem_roots.mp hc
    exact hg.free p hp
  ordered := hg.sorted.sublist (roots_sublist ps)

theorem covers (hg : Grown f ps g) {ids : List NodeId} (hc : Covers ps ids) :
    ∀ id ∈ ids, ∃ c ∈ roots ps, g.Within id c := by
  intro id hid
  obtain ⟨p, hp, hm⟩ := hc id hid
  exact ⟨p.root, mem_roots.mpr ⟨p, hp, rfl⟩, (hg.mem_members_iff hp).mp hm⟩

theorem refl (hf : f.Linked) : Grown f [] f where
  size_le := le_rfl
  old _ _ := rfl
  linked := hf
  range _ hi := absurd hi List.not_mem_nil
  sorted := List.Pairwise.nil
  walk _ hp := absurd hp List.not_mem_nil
  free _ hp := absurd hp List.not_mem_nil

theorem trans (hg : Grown f ps g) (hh : Grown g qs h) : Grown f (ps ++ qs) h where
  size_le := hg.size_le.trans hh.size_le
  old i hi := (hh.old i (lt_of_lt_of_le hi hg.size_le)).trans (hg.old i hi)
  linked := hh.linked
  range i hi := by
    rw [List.flatMap_append] at hi
    rcases List.mem_append.mp hi with hi | hi
    · have hr := hg.range i hi
      exact ⟨hr.1, lt_of_lt_of_le hr.2 hh.size_le⟩
    · have hr := hh.range i hi
      exact ⟨hg.size_le.trans hr.1, hr.2⟩
  -- The nodes of the first trees were made before those of the second.
  sorted := by
    rw [List.flatMap_append]
    refine List.pairwise_append.mpr ⟨hg.sorted, hh.sorted, ?_⟩
    intro i hi j hj
    exact lt_of_lt_of_le (hg.range i hi).2 (hh.range j hj).1
  walk p hp := by
    rcases List.mem_append.mp hp with hp | hp
    · rw [hh.forest_extends.postorder (hg.root_range hp).2]
      exact hg.walk p hp
    · exact hh.walk p hp
  -- A root of the first trees is not a child of what was made later.
  free p hp := by
    rcases List.mem_append.mp hp with hp | hp
    · have ho := hh.old p.root (hg.root_range hp).2
      have hfree := hg.free p hp
      unfold Forest.parent? Forest.node? at hfree ⊢
      rw [Option.bind_some] at hfree ⊢
      rw [ho]
      exact hfree
    · exact hh.free p hp

theorem leaf (hf : f.Linked) (k : TokenKind) (span : Span) (leading text value : String) :
    Grown f [.leaf f.size] (f.addLeaf k span leading text value).2 where
  size_le := by
    rw [Forest.size_addLeaf]
    exact Nat.le_succ _
  old i hi := by
    rw [Forest.getElem?_addLeaf, if_neg hi.ne]
  linked := hf.addLeaf k span leading text value
  range i hi := by
    obtain rfl : i = f.size := by simpa [Piece.members, Piece.leaf] using hi
    rw [Forest.size_addLeaf]
    exact ⟨le_rfl, Nat.lt_succ_self _⟩
  sorted := List.pairwise_singleton _ _
  -- The tree is the leaf alone, which has no parent yet.
  walk p hp := by
    obtain rfl := List.mem_singleton.mp hp
    have hget := Forest.getElem?_addLeaf f k span leading text value f.size
    rw [if_pos rfl] at hget
    rw [Forest.postorder_eq (i := (Piece.leaf f.size).root) hget
      (fun c hc => absurd hc (Array.not_mem_empty c))]
    rfl
  free p hp := by
    obtain rfl := List.mem_singleton.mp hp
    have hget := Forest.getElem?_addLeaf f k span leading text value f.size
    rw [if_pos rfl] at hget
    exact Forest.parent?_of_getElem? hget

theorem node (hg : Grown f ps g) (k : NodeKind) (place : Nat) {data : NodeData}
    (hl : data.leaf? = none) (hp : Covers ps data.parts)
    (hd : g.Describes (roots ps) (.node k) data) :
    Grown f [.gather ps g.size] (g.addNode k place (roots ps) data).2 := by
  have hc := hg.adoptable
  have hext := Forest.extends_addNode hc k place data
  have hget := Forest.getElem?_addNode g k place (roots ps) data hc.lt
  have hnew := (hget g.size).trans (if_pos rfl)
  have hsize := Forest.size_addNode g k place (roots ps) data
  have hmembers : [Piece.gather ps g.size].flatMap Piece.members =
      ps.flatMap Piece.members ++ [g.size] := by
    simp [Piece.members, Piece.gather]
  -- An old node is no root, so it is not adopted.
  have hold : ∀ i < f.size, i ∉ roots ps := by
    intro i hi hm
    obtain ⟨p, hp, rfl⟩ := mem_roots.mp hm
    exact absurd hi (not_lt_of_ge (hg.root_range hp).1)
  -- The walks over the trees below are what they were, and the new node comes after them.
  have hwalk : (roots ps).toList.flatMap (g.addNode k place (roots ps) data).2.postorder =
      ps.flatMap Piece.members := by
    have hr : (roots ps).toList = ps.map Piece.root := rfl
    rw [hr, List.flatMap_map]
    apply List.flatMap_congr
    intro p hp
    rw [hext.postorder (hg.root_range hp).2]
    exact hg.walk p hp
  exact {
    size_le := by
      rw [hsize]
      exact hg.size_le.trans (Nat.le_succ _)
    old := by
      intro i hi
      rw [hget, if_neg (lt_of_lt_of_le hi hg.size_le).ne, hg.old i hi]
      cases f.nodes[i]? with
      | none => rfl
      | some n => rw [Option.map_some, Forest.adopt_eq_self (hold i hi)]
    linked := hg.linked.addNode hc k place hl (hg.covers hp) hd
    range := by
      intro i hi
      rw [hmembers] at hi
      rw [hsize]
      rcases List.mem_append.mp hi with hi | hi
      · exact ⟨(hg.range i hi).1, (hg.range i hi).2.trans (Nat.lt_succ_self _)⟩
      · rw [List.mem_singleton.mp hi]
        exact ⟨hg.size_le, Nat.lt_succ_self _⟩
    sorted := by
      rw [hmembers]
      refine List.pairwise_append.mpr ⟨hg.sorted, List.pairwise_singleton _ _, ?_⟩
      intro i hi j hj
      rw [List.mem_singleton.mp hj]
      exact (hg.range i hi).2
    walk := by
      intro p hp
      obtain rfl := List.mem_singleton.mp hp
      have hpost := Forest.postorder_eq hnew hc.lt
      rw [hwalk] at hpost
      exact hpost
    free := by
      intro p hp
      obtain rfl := List.mem_singleton.mp hp
      exact Forest.parent?_of_getElem? hnew }

theorem modify (hg : Grown f ps g) (hp : p ∈ ps) {change : Node → Node}
    (hc : Cosmetic change) : Grown f ps (g.modify p.root change) := by
  have hk (n : Node) : n.Kept (change n) := hc.kept n
  have hext : g.Extends (g.modify p.root change) := Forest.extends_modify hk
  -- What is changed is a root, and so it is new.
  have hold : ∀ i < f.size, p.root ≠ i := fun i hi he =>
    absurd hi (not_lt_of_ge (he ▸ (hg.root_range hp).1))
  exact {
    size_le := by
      rw [Forest.size_modify]
      exact hg.size_le
    old := by
      intro i hi
      rw [Forest.getElem?_modify, if_neg (hold i hi)]
      exact hg.old i hi
    linked := hg.linked.modify hk hc.parent
    range := by
      intro i hi
      rw [Forest.size_modify]
      exact hg.range i hi
    sorted := hg.sorted
    walk := by
      intro q hq
      rw [hext.postorder (hg.root_range hq).2]
      exact hg.walk q hq
    free := by
      intro q hq
      obtain ⟨n, hn⟩ := Forest.exists_getElem? (hg.root_range hq).2
      have hfree := hg.free q hq
      rw [Forest.parent?_of_getElem? hn] at hfree
      have hget := Forest.getElem?_modify g p.root change q.root
      rw [hn] at hget
      split at hget
      · rw [Forest.parent?_of_getElem? hget, hc.parent]
        exact hfree
      · rw [Forest.parent?_of_getElem? hget]
        exact hfree }

theorem forget (hg : Grown f ps g) : Grown f [] g where
  size_le := hg.size_le
  old := hg.old
  linked := hg.linked
  range _ hi := absurd hi List.not_mem_nil
  sorted := List.Pairwise.nil
  walk _ hp := absurd hp List.not_mem_nil
  free _ hp := absurd hp List.not_mem_nil

end Grown

end

/-- Every run grows the forest, and leaves sound links. -/
theorem Builds.grown {s s' : State} {ps : List Piece} (h : Builds s ps s')
    (hf : s.forest.Linked) : Grown s.forest ps s'.forest := by
  induction h with
  | refl s => exact .refl hf
  | trans _ _ ih₁ ih₂ =>
    have hg := ih₁ hf
    exact hg.trans (ih₂ hg.linked)
  | bump _ h =>
    obtain ⟨rfl, rfl⟩ := runs_bumpAs.mp h
    rw [State.advance_forest]
    exact .leaf hf _ _ _ _ _
  | node _ _ leaf parts describes _ h ih =>
    obtain ⟨rfl, rfl⟩ := runs_node.mp h
    exact (ih hf).node _ _ leaf parts describes
  | change _ mem cosmetic h ih =>
    obtain rfl := runs_change.mp h
    exact (ih hf).modify mem cosmetic
  | report _ _ ih => exact ih hf
  | deeper _ _ ih => exact ih hf
  | braces _ _ ih => exact ih hf
  | drop _ _ _ ih => exact (ih hf).forget

end KotlinTree.Grammar
