import KotlinTree.Proofs.Grammar.Growth
import KotlinTree.Proofs.Grammar.Unit
import KotlinTree.Proofs.Syntax.Tree

/-!
What the nodes of a parse tell of parameters: all that a declaration lists as its parameters are
parameters, and they say so if they stand for any number of arguments.
-/

namespace KotlinTree

namespace Forest

/-- What every node tells of parameters is so. -/
def Told (f : Forest) : Prop :=
  ∀ (i : NodeId) (n : Node), f.nodes[i]? = some n → f.Tells n.children n.data

/-- A parameter with the word for any number of arguments among its modifiers. -/
def IsVararg (f : Forest) (id : NodeId) : Prop := f.HasModifier (f.children (some id)) "vararg"

section
variable {f g : Forest} {children : Array NodeId} {data data' : NodeData}

theorem Extends.kind?_of_lt (hx : f.Extends g) {i : NodeId} (hi : i < f.size) :
    g.kind? (some i) = f.kind? (some i) := by
  obtain ⟨n, hn⟩ := exists_getElem? hi
  obtain ⟨m, hm, hk⟩ := hx.kept hn
  rw [kind?_of_getElem? hn, kind?_of_getElem? hm, hk.kind]

theorem Extends.children_of_lt (hx : f.Extends g) {i : NodeId} (hi : i < f.size) :
    g.children (some i) = f.children (some i) := by
  obtain ⟨n, hn⟩ := exists_getElem? hi
  obtain ⟨m, hm, hk⟩ := hx.kept hn
  rw [children_of_getElem? hn, children_of_getElem? hm, hk.children]

/-- Children that are there say the same when the forest grows. -/
theorem Extends.hasModifier_iff (hx : f.Extends g) (hf : f.Linked)
    (hchildren : ∀ c ∈ children, c < f.size) {word : String} :
    g.HasModifier children word ↔ f.HasModifier children word := by
  refine exists_congr fun list => and_congr_right fun hfirst => ?_
  have hlist := hchildren list (Array.mem_of_getElem? hfirst)
  rw [hx.kind?_of_lt hlist, hx.children_of_lt hlist]
  refine and_congr_right fun _ => exists_congr fun leaf => and_congr_right fun hleaf => ?_
  have hlt := hf.lt_of_isChild (hf.isChild_of_mem_children hleaf)
  rw [leafText, leafText, hx.leaf? leaf (hlt.trans hlist)]

theorem Tells.extends (h : f.Tells children data) (hx : f.Extends g) (hf : f.Linked)
    (hchildren : ∀ c ∈ children, c < f.size) (hd : data.Alike data') : g.Tells children data' where
  parameters id hid := hx.toEmbeds.kind? (h.parameters id (hd.parameters ▸ hid))
  vararg b hb := (h.vararg b (hd.vararg? ▸ hb)).trans (hx.hasModifier_iff hf hchildren).symm

/-- A forest grows by nodes that tell what is so. -/
theorem Told.extends (h : f.Told) (hf : f.Linked) (hx : f.Extends g)
    (hnew : ∀ (i : NodeId) (m : Node), f.size ≤ i → g.nodes[i]? = some m →
      g.Tells m.children m.data) : g.Told := by
  intro i m hm
  -- The nodes that were there have the children they had, and these say what they said.
  rcases Nat.lt_or_ge i f.size with hi | hi
  · obtain ⟨n, hn⟩ := exists_getElem? hi
    obtain ⟨m', hm', hk⟩ := hx.kept hn
    obtain rfl := Option.some.inj (hm'.symm.trans hm)
    rw [hk.children]
    exact (h i n hn).extends hx hf (hf.child_lt_size hn) hk.data
  · exact hnew i m hi hm

/-- What is listed as a parameter is one, and says whether it stands for any number of arguments. -/
theorem Told.exists_parameter (h : f.Told) (hf : f.Linked) {id p : NodeId}
    (hp : p ∈ (f.data (some id)).parameters) :
    ∃ d : Parameter, f.data (some p) = .parameter d ∧
      (d.modifiers.contains .varargWord = true ↔ f.IsVararg p) := by
  -- What lists something is there, and what it lists is of the kind of a parameter.
  have hplain : f.data (some id) ≠ .plain := fun he => absurd (he ▸ hp) List.not_mem_nil
  obtain ⟨k, hk⟩ := exists_kind? hplain
  obtain ⟨n, hn, -⟩ := exists_of_kind? hk
  have hkind := (h id n hn).parameters p (data_of_getElem? hn ▸ hp)
  have hkinds := hf.mem_kinds hkind
  obtain ⟨m, hm, -⟩ := exists_of_kind? hkind
  cases hd : f.data (some p) with
  | parameter d =>
    refine ⟨d, rfl, ?_⟩
    rw [data_of_getElem? hm] at hd
    have hsays := (h p m hm).vararg (d.modifiers.contains .varargWord) (by rw [hd]; rfl)
    rwa [← children_of_getElem? hm] at hsays
  | typeOperation operation => grind [NodeData.kinds]
  | _ => simp [hd, NodeData.kinds] at hkinds

end

end Forest

namespace Grammar

/-- Every run keeps what nodes tell of parameters. -/
theorem Builds.told {s s' : State} {ps : List Piece} (h : Builds s ps s') (hf : s.forest.Linked)
    (ht : s.forest.Told) : s'.forest.Told := by
  -- Leaves tell nothing, and a node is only made of what is so; what is changed later is no matter here.
  induction h with
  | refl s => exact ht
  | trans first _ ih₁ ih₂ => exact ih₂ (first.grown hf).linked (ih₁ hf ht)
  | bump _ h =>
    obtain ⟨-, rfl⟩ := runs_bumpAs.mp h
    rw [State.advance_forest]
    refine ht.extends hf (Forest.extends_addLeaf _ _ _ _ _ _) fun i m hi hm => ?_
    rw [State.leafed, Forest.getElem?_addLeaf] at hm
    split at hm
    · cases hm
      exact Forest.tells_of_none rfl rfl
    · exact absurd (Forest.lt_size_of_getElem? hm) (Nat.not_lt_of_le hi)
  | @node _ s₁ _ _ k start data _ below _ _ _ _ tells h ih =>
    obtain ⟨-, rfl⟩ := runs_node.mp h
    have hg := below.grown hf
    have hx := Forest.extends_addNode hg.adoptable k start data
    refine (ih hf ht).extends hg.linked hx fun i m hi hm => ?_
    rw [State.noded, Forest.getElem?_addNode _ _ _ _ _ hg.adoptable.lt] at hm
    split at hm
    · cases hm
      exact tells.extends hx hg.linked hg.adoptable.lt (.refl _)
    · obtain ⟨n, hn, -⟩ := Option.map_eq_some_iff.mp hm
      exact absurd (Forest.lt_size_of_getElem? hn) (Nat.not_lt_of_le hi)
  | change made _ cosmetic h ih =>
    obtain rfl := runs_change.mp h
    refine (ih hf ht).extends (made.grown hf).linked (Forest.extends_modify cosmetic.kept)
      fun i m hi hm => ?_
    have hlt := Forest.lt_size_of_getElem? hm
    rw [Forest.size_modify] at hlt
    exact absurd hlt (Nat.not_lt_of_le hi)
  | report _ _ ih => exact ih hf ht
  | deeper _ _ ih => exact ih hf ht
  | braces _ _ ih => exact ih hf ht
  | drop _ _ _ ih => exact ih hf ht

end Grammar

theorem ParsedUnit.ofSource_told (fileName source : String) :
    (ofSource fileName source).forest.Told := by
  obtain ⟨s, q, hb, -, hforest, -⟩ := Grammar.ofSource_builds fileName source
  have hempty := Grammar.forest_ofSource fileName source
  rw [← hforest]
  refine hb.told (hempty ▸ Forest.linked_empty) ?_
  rw [hempty]
  exact fun i n hn => nomatch hn

end KotlinTree
