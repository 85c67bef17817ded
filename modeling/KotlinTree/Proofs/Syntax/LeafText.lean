import KotlinTree.Proofs.Grammar.Names
import KotlinTree.Proofs.Syntax.Span

/-!
Another text for one leaf. All other nodes stay what they are, all nodes stay where they are, and all
other leaves keep their names. Main statements: the text of a tree changes in one place, and it is
what it was when the leaf gets its text back.
-/

namespace KotlinTree

/-- A leaf that says something else. -/
def Node.saying (n : Node) (leaf : Leaf) : Node := { n with data := .leaf leaf, isRewritten := true }

namespace Forest

/-- The name that a text is written for, without the quotes around it. -/
def nameIn (text : String) : String := String.ofList (Text.trimBy (· = '`') text.toList)

/-- One forest is another but for the text of a leaf. -/
structure Retold (f g : Forest) (i : NodeId) (leaf : Leaf) (text : String) : Prop where
  was : f.leaf? (some i) = some leaf
  size : g.size = f.size
  names : g.names = (f.names.intern (nameIn text)).2
  nodes : ∀ j : NodeId, g.nodes[j]? = (f.nodes[j]?).map fun n =>
    if j = i then n.saying ⟨leaf.leading, text, (f.names.intern (nameIn text)).1⟩ else n

theorem setText?_eq (f : Forest) (i : NodeId) (text : String) :
    f.setText? (some i) text = (f.leaf? (some i)).map fun leaf =>
      { f with names := (f.names.intern (nameIn text)).2 : Forest }.modify i fun n =>
        n.saying ⟨leaf.leading, text, (f.names.intern (nameIn text)).1⟩ := by
  unfold setText?
  cases f.leaf? (some i) <;> rfl

variable {source : String} {f g h : Forest} {i j root : NodeId} {leaf leaf' : Leaf} {text : String}

/-- Leaves, and nothing else, can be given another text. -/
theorem retold_of_setText? (hg : f.setText? (some i) text = some g) :
    ∃ leaf, f.Retold g i leaf text := by
  rw [setText?_eq] at hg
  obtain ⟨leaf, hleaf, rfl⟩ := Option.map_eq_some_iff.mp hg
  refine ⟨leaf, hleaf, size_modify _ _ _, rfl, fun j => ?_⟩
  rw [getElem?_modify]
  by_cases hj : i = j
  · subst hj
    simp
  · simp [hj, Ne.symm hj]

/-- The text of a leaf can always be set. -/
theorem exists_setText? (hleaf : f.leaf? (some i) = some leaf) (text : String) :
    ∃ g, f.setText? (some i) text = some g := by
  rw [setText?_eq, hleaf]
  exact ⟨_, rfl⟩

namespace Retold

section
variable (hr : f.Retold g i leaf text)
include hr

/-- The node is a leaf. -/
theorem data_eq : f.data (some i) = .leaf leaf := by
  have hwas := hr.was
  rw [leaf?_eq] at hwas
  unfold NodeData.leaf? at hwas
  split at hwas
  · rename_i hd
    rw [hd, Option.some.inj hwas]
  · cases hwas

/-- What is said of nodes apart from their text is said of all nodes as before. -/
theorem map_eq {α : Type} (φ : Node → α) (hφ : ∀ n l, φ (n.saying l) = φ n) (j : NodeId) :
    (g.nodes[j]?).map φ = (f.nodes[j]?).map φ := by
  rw [hr.nodes, Option.map_map]
  congr 1
  funext n
  rw [Function.comp_apply]
  split
  · exact hφ n _
  · rfl

theorem kind? (j : NodeId) : g.kind? (some j) = f.kind? (some j) := hr.map_eq Node.kind (fun _ _ => rfl) j

theorem span (j : NodeId) : g.span (some j) = f.span (some j) :=
  congrArg (Option.getD · _) (hr.map_eq Node.span (fun _ _ => rfl) j)

theorem children (j : NodeId) : g.children (some j) = f.children (some j) :=
  congrArg (Option.getD · _) (hr.map_eq Node.children (fun _ _ => rfl) j)

theorem parent? (j : NodeId) : g.parent? (some j) = f.parent? (some j) := by
  have hparent := congrArg (Option.bind · id) (hr.map_eq Node.parent (fun _ _ => rfl) j)
  rw [Option.bind_map, Option.bind_map] at hparent
  exact hparent

theorem node_other (hj : j ≠ i) : g.nodes[j]? = f.nodes[j]? := by
  rw [hr.nodes]
  simp only [if_neg hj, Option.map_id']

theorem data_other (hj : j ≠ i) : g.data (some j) = f.data (some j) := by
  unfold Forest.data Forest.node?
  rw [Option.bind_some, Option.bind_some, hr.node_other hj]

theorem leaf?_other (hj : j ≠ i) : g.leaf? (some j) = f.leaf? (some j) := by
  rw [leaf?_eq, leaf?_eq, hr.data_other hj]

/-- The leaf has the text that was set, and its name is the one in it. -/
theorem leaf?_self :
    g.leaf? (some i) = some ⟨leaf.leading, text, (f.names.intern (nameIn text)).1⟩ := by
  obtain ⟨n, hn⟩ := exists_getElem? (lt_size_of_leaf? hr.was)
  have hget := hr.nodes i
  rw [hn, Option.map_some, if_pos rfl] at hget
  rw [leaf?_of_getElem? hget]
  rfl

theorem data_self :
    g.data (some i) = .leaf ⟨leaf.leading, text, (f.names.intern (nameIn text)).1⟩ := by
  have hnew := hr.leaf?_self
  rw [leaf?_eq] at hnew
  unfold NodeData.leaf? at hnew
  split at hnew
  · rename_i hd
    rw [hd, Option.some.inj hnew]
  · cases hnew

theorem link? (j : NodeId) : g.link? j = f.link? j := by
  unfold Forest.link?
  by_cases hj : j = i
  · rw [hj, hr.data_eq, hr.data_self]
    rfl
  · rw [hr.data_other hj]

/-- All nodes stay where they are; the leaf is still a leaf. -/
theorem sameShape {n : Node} (hn : f.nodes[j]? = some n) :
    ∃ m, g.nodes[j]? = some m ∧ n.SameShape m ∧ m.parent = n.parent := by
  have hget := hr.nodes j
  rw [hn, Option.map_some] at hget
  refine ⟨_, hget, ?_⟩
  split
  · rename_i hj
    have hd := hr.data_eq
    rw [← hj, data_of_getElem? hn] at hd
    refine ⟨⟨rfl, rfl, rfl, ?_, fun _ hp => hp⟩, rfl⟩
    rw [hd]
    exact ⟨rfl, rfl, rfl, rfl, rfl, rfl, rfl, rfl, rfl, rfl, rfl, rfl⟩
  · exact ⟨.refl n, rfl⟩

/-- The forest after holds the forest before. -/
theorem embeds : f.Embeds g where
  node _ _ hn := by
    obtain ⟨m, hm, hs, -⟩ := hr.sameShape hn
    exact ⟨m, hm, hs⟩

/-- Every node was one before, of the same shape and in the same place. -/
theorem exists_node {m : Node} (hm : g.nodes[j]? = some m) :
    ∃ n, f.nodes[j]? = some n ∧ n.SameShape m ∧ m.parent = n.parent := by
  obtain ⟨n, hn⟩ := exists_getElem? (hr.size ▸ lt_size_of_getElem? hm)
  obtain ⟨m', hm', hs⟩ := hr.sameShape hn
  obtain rfl := Option.some.inj (hm.symm.trans hm')
  exact ⟨n, hn, hs⟩

theorem linked (hf : f.Linked) : g.Linked := by
  intro j m hm
  obtain ⟨n, hn, hs, hparent⟩ := hr.exists_node hm
  refine (hf j n hn).embeds hr.embeds hs fun p hp => ?_
  exact hr.embeds.mem_children ((hf j n hn).owned p (hparent ▸ hp))

theorem placed (hf : f.Linked) (hp : f.Placed source) : g.Placed source := by
  intro j m hm
  obtain ⟨n, hn, hs, -⟩ := hr.exists_node hm
  exact (hp j n hn).embeds hr.embeds hs (hf.child_lt_size hn)

/-- No node has moved. -/
theorem inside_iff : g.Inside root j ↔ f.Inside root j := by
  have hchild : g.IsChild = f.IsChild := by
    funext c p
    unfold IsChild
    rw [hr.parent? c]
  unfold Inside Within
  rw [hchild]

/-- Names are still those of the table. -/
theorem named (hn : f.Named) : g.Named where
  table := hr.names ▸ hn.table.intern _
  leaf j l hl := by
    rw [hr.names]
    by_cases hj : j = i
    · rw [hj, hr.leaf?_self] at hl
      cases hl
      exact hn.table.intern_lt _
    · rw [hr.leaf?_other hj] at hl
      exact (hn.leaf j l hl).trans_le (f.names.size_le_intern _)

theorem nameText_self (hn : f.Named) : g.nameText (some i) = nameIn text := by
  unfold nameText nameAtom
  rw [hr.leaf?_self, hr.names]
  exact hn.table.resolve_intern _

/-- The other leaves have the numbers of their names from before the new name had one. -/
theorem nameText_other (hn : f.Named) (hj : j ≠ i) : g.nameText (some j) = f.nameText (some j) := by
  unfold nameText nameAtom
  rw [hr.leaf?_other hj, hr.names]
  cases hl : f.leaf? (some j) with
  | none => exact Interner.resolve_intern_of_lt _ hn.table.pos
  | some l => exact Interner.resolve_intern_of_lt _ (hn.leaf j l hl)

/-- The walk over the tree is the same. -/
theorem preorder (hf : f.Linked) (hroot : root < f.size) : g.preorder root = f.preorder root := by
  induction root using Nat.strongRecOn with
  | ind root ih =>
    rw [hf.preorder_eq hroot, (hr.linked hf).preorder_eq (hr.size ▸ hroot), hr.children]
    congr 1
    refine List.flatMap_congr fun c hc => ?_
    have hchild := hf.isChild_of_mem_children (Array.mem_toList_iff.mp hc)
    exact ih c (hf.lt_of_isChild hchild) (hf.lt_size_of_isChild hchild).1

/-- Where the leaf is not, the same is written. -/
theorem written_other {ids : List NodeId} (hi : i ∉ ids) : g.written ids = f.written ids := by
  unfold written
  congr 1
  refine List.map_congr_left fun j hj => ?_
  rw [hr.leaf?_other fun he => hi (he ▸ hj)]

/-- The walk through a tree comes to the leaf once, so that the text changes in one place. -/
theorem print (hf : f.Linked) (hroot : root < f.size) (hin : f.Inside root i) :
    ∃ p q, f.print (some root) = p ++ leaf.text ++ q ∧ g.print (some root) = p ++ text ++ q := by
  obtain ⟨before, after, hsplit⟩ := List.append_of_mem ((hf.mem_preorder hroot).mpr hin)
  have hnodup := hf.preorder_nodup hroot
  rw [hsplit, List.nodup_middle, List.nodup_cons, List.mem_append, not_or] at hnodup
  have hsays {h : Forest} {l : Leaf} (hl : h.leaf? (some i) = some l) :
      h.written (before ++ i :: after) =
        h.written before ++ l.leading ++ l.text ++ h.written after := by
    rw [← List.singleton_append, written_append, written_append, written_singleton, hl]
    simp only [Option.map_some, Option.getD_some, Leaf.written, String.append_assoc]
  refine ⟨f.written before ++ leaf.leading, f.written after, ?_, ?_⟩
  · rw [hf.print_some hroot, hsplit, hsays hr.was]
  · rw [(hr.linked hf).print_some (hr.size ▸ hroot), hr.preorder hf hroot, hsplit,
      hsays hr.leaf?_self, hr.written_other hnodup.1.1, hr.written_other hnodup.1.2]

end

/-- A leaf that gets its text back says what it said, and so do all trees. -/
theorem print_back (hr : f.Retold g i leaf text) (hb : g.Retold h i leaf' leaf.text)
    (hf : f.Linked) (hroot : root < f.size) : h.print (some root) = f.print (some root) := by
  have hroot' : root < g.size := hr.size ▸ hroot
  rw [hf.print_some hroot, (hb.linked (hr.linked hf)).print_some (hb.size ▸ hroot'),
    hb.preorder (hr.linked hf) hroot', hr.preorder hf hroot]
  unfold written
  congr 1
  refine List.map_congr_left fun j _ => ?_
  by_cases hj : j = i
  · have hleading : leaf'.leading = leaf.leading := by
      have hsame := hr.leaf?_self.symm.trans hb.was
      rw [← Option.some.inj hsame]
    rw [hj, hb.leaf?_self, hr.was]
    simp only [Option.map_some, Option.getD_some, Leaf.written, hleading]
  · rw [hb.leaf?_other hj, hr.leaf?_other hj]

end Retold

end Forest

end KotlinTree
