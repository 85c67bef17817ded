import Mathlib.Data.List.Perm.Subperm
import KotlinTree.Proofs.Syntax.Links

/-!
How a forest grows: the nodes that are there stay what they are, and at most get a parent. The links
between nodes stay sound under every making of a node, whatever leaves say.
-/

namespace KotlinTree

/-- A node where it was in its tree; a leaf may say something else. -/
structure Node.SameShape (n m : Node) : Prop where
  kind : m.kind = n.kind
  span : m.span = n.span
  children : m.children = n.children
  data : n.data.Alike m.data
  parent : ∀ p, n.parent = some p → m.parent = some p

theorem Node.SameShape.refl (n : Node) : n.SameShape n := ⟨rfl, rfl, rfl, .refl _, fun _ h => h⟩

/-- A node after its forest has grown. -/
structure Node.Kept (n m : Node) : Prop extends n.SameShape m where
  leaf? : m.data.leaf? = n.data.leaf?

theorem Node.Kept.refl (n : Node) : n.Kept n := ⟨.refl n, rfl⟩

namespace Forest

/-- All nodes of one forest are in another, each where it was in its tree. -/
structure Embeds (f g : Forest) : Prop where
  node : ∀ (i : NodeId) (n : Node), f.nodes[i]? = some n → ∃ m, g.nodes[i]? = some m ∧ n.SameShape m

/-- All nodes of one forest are in another, and have kept what they are. -/
structure Extends (f g : Forest) : Prop extends f.Embeds g where
  leaf? : ∀ i < f.size, g.leaf? (some i) = f.leaf? (some i)

section
variable {f g h : Forest} {i c p : NodeId}

/-- A forest goes on from another if each node is kept in it. -/
theorem extends_of_kept (h : ∀ (i : NodeId) (n : Node), f.nodes[i]? = some n →
    ∃ m, g.nodes[i]? = some m ∧ n.Kept m) : f.Extends g where
  node i n hn := by
    obtain ⟨m, hm, hk⟩ := h i n hn
    exact ⟨m, hm, hk.toSameShape⟩
  leaf? i hi := by
    obtain ⟨n, hn⟩ := exists_getElem? hi
    obtain ⟨m, hm, hk⟩ := h i n hn
    rw [leaf?_of_getElem? hn, leaf?_of_getElem? hm, hk.leaf?]

/-- A node of the first forest is kept in the second. -/
theorem Extends.kept (hfg : f.Extends g) {n : Node} (hn : f.nodes[i]? = some n) :
    ∃ m, g.nodes[i]? = some m ∧ n.Kept m := by
  obtain ⟨m, hm, hk⟩ := hfg.node i n hn
  have hleaf := hfg.leaf? i (lt_size_of_getElem? hn)
  rw [leaf?_of_getElem? hn, leaf?_of_getElem? hm] at hleaf
  exact ⟨m, hm, hk, hleaf⟩

/-- A forest goes on from another if the nodes of that one are the same in it. -/
theorem extends_of_eq (h : ∀ i < f.size, g.nodes[i]? = f.nodes[i]?) : f.Extends g :=
  extends_of_kept fun i n hn => ⟨n, (h i (lt_size_of_getElem? hn)).trans hn, .refl n⟩

/-- A child is one in a larger forest, too. -/
theorem Embeds.isChild (hfg : f.Embeds g) (hc : f.IsChild c p) : g.IsChild c p := by
  obtain ⟨n, hn, hp⟩ := exists_of_isChild hc
  obtain ⟨m, hm, hk⟩ := hfg.node c n hn
  unfold IsChild
  rw [parent?_of_getElem? hm]
  exact hk.parent p hp

/-- What is in a tree is in it in a larger forest, too. -/
theorem Embeds.within (hfg : f.Embeds g) (h : f.Within c p) : g.Within c p :=
  Relation.ReflTransGen.mono (fun _ _ => hfg.isChild) _ _ h

theorem Embeds.beneath (hfg : f.Embeds g) (h : f.Beneath c p) : g.Beneath c p :=
  Relation.TransGen.mono (fun _ _ => hfg.isChild) _ _ h

/-- A tree that is complete has the same nodes in a larger forest. -/
theorem Embeds.postorder (hfg : f.Embeds g) (hi : i < f.size) :
    g.postorder i = f.postorder i := by
  apply postorder_congr
  intro j hj
  obtain ⟨n, hn⟩ := exists_getElem? (lt_of_le_of_lt hj hi)
  obtain ⟨m, hm, hk⟩ := hfg.node j n hn
  rw [hn, hm, Option.map_some, Option.map_some, hk.children]

/-- Spans of nodes remain. -/
theorem Embeds.span (hfg : f.Embeds g) (hi : i < f.size) : g.span (some i) = f.span (some i) := by
  obtain ⟨n, hn⟩ := exists_getElem? hi
  obtain ⟨m, hm, hk⟩ := hfg.node i n hn
  rw [span_of_getElem? hn, span_of_getElem? hm, hk.span]

/-- Kinds of nodes remain. -/
theorem Embeds.kind? (hfg : f.Embeds g) {k : Kind} (hk : f.kind? (some i) = some k) :
    g.kind? (some i) = some k := by
  obtain ⟨n, hn, rfl⟩ := exists_of_kind? hk
  obtain ⟨m, hm, hnm⟩ := hfg.node i n hn
  rw [kind?_of_getElem? hm, hnm.kind]

/-- What stands after a sign does so in a larger forest. -/
theorem Embeds.follows (hfg : f.Embeds g) {sign : TokenKind} {children : Array NodeId}
    (h : f.Follows sign children i) : g.Follows sign children i := by
  obtain ⟨before, word, after, hc, hk⟩ := h
  exact ⟨before, word, after, hc, hfg.kind? hk⟩

/-- An access links the same two nodes in a larger forest. -/
theorem Embeds.link? (hfg : f.Embeds g) {l : NodeId × NodeId} (h : f.link? i = some l) :
    g.link? i = some l := by
  obtain ⟨n, hn, hlink⟩ := exists_of_link? h
  obtain ⟨m, hm, hk⟩ := hfg.node i n hn
  rw [Forest.link?, data_of_getElem? hm, hk.data.link?, hlink]

/-- A chain of names is one in a larger forest. -/
theorem Embeds.isPath (hfg : f.Embeds g) (h : f.IsPath i) : g.IsPath i := by
  induction h with
  | name h => exact .name (hfg.kind? h)
  | link h _ ih => exact .link (hfg.link? h) ih

/-- Children stay what they are, where there are any. -/
theorem Embeds.children_eq (hfg : f.Embeds g) (hp : f.children (some p) ≠ #[]) :
    g.children (some p) = f.children (some p) := by
  cases hn : f.nodes[p]? with
  | none => simp [children, node?, hn] at hp
  | some n =>
    obtain ⟨m, hm, hk⟩ := hfg.node p n hn
    rw [children_of_getElem? hn, children_of_getElem? hm, hk.children]

/-- Having children means being there. -/
theorem Embeds.mem_children (hfg : f.Embeds g) (hc : c ∈ f.children (some p)) :
    c ∈ g.children (some p) := by
  rw [hfg.children_eq]
  · exact hc
  · intro hnone
    rw [hnone] at hc
    exact absurd hc (Array.not_mem_empty c)

/-- What has been written is written in a larger forest. -/
theorem Extends.written (hfg : f.Extends g) {ids : List NodeId} (hids : ∀ i ∈ ids, i < f.size) :
    g.written ids = f.written ids := by
  unfold Forest.written
  congr 1
  apply List.map_congr_left
  intro i hi
  rw [hfg.leaf? i (hids i hi)]

end

section
variable {f : Forest}

/-- A leaf that is added leaves all other nodes as they are. -/
theorem extends_addLeaf (f : Forest) (k : TokenKind) (span : Span) (leading text value : String) :
    f.Extends (f.addLeaf k span leading text value).2 := by
  apply extends_of_eq
  intro i hi
  rw [getElem?_addLeaf, if_neg hi.ne]

/-- A node without a parent is kept when it is adopted. -/
theorem kept_adopt {cs : Array NodeId} {p i : NodeId} {n : Node} (hn : n.parent = none) :
    n.Kept (adopt cs p i n) := by
  refine ⟨⟨adopt_kind .., adopt_span .., adopt_children .., ?_, ?_⟩, by rw [adopt_data]⟩
  · rw [adopt_data]
    exact .refl _
  · intro q hq
    rw [hn] at hq
    cases hq

/-- What is no child is not adopted. -/
theorem adopt_eq_self {cs : Array NodeId} {p i : NodeId} {n : Node} (hi : i ∉ cs) :
    adopt cs p i n = n := if_neg hi

/-- A child has the new node for a parent. -/
theorem adopt_parent {cs : Array NodeId} {p i : NodeId} {n : Node} (hi : i ∈ cs) :
    (adopt cs p i n).parent = some p := by
  unfold adopt
  rw [if_pos hi]

/-- Only nodes without a parent may become children. -/
structure Adoptable (f : Forest) (children : Array NodeId) : Prop where
  lt : ∀ c ∈ children, c < f.size
  free : ∀ c ∈ children, f.parent? (some c) = none
  ordered : children.toList.Pairwise (· < ·)

/-- A node that is added changes nothing about others but the parent of its children. -/
theorem extends_addNode {children : Array NodeId} (hc : f.Adoptable children) (k : NodeKind)
    (place : Nat) (data : NodeData) : f.Extends (f.addNode k place children data).2 := by
  refine extends_of_kept fun i n hn => ?_
  refine ⟨adopt children f.size i n, ?_, ?_⟩
  · rw [getElem?_addNode f k place children data hc.lt, if_neg (lt_size_of_getElem? hn).ne, hn,
      Option.map_some]
  · by_cases hi : i ∈ children
    · refine kept_adopt ?_
      rw [← parent?_of_getElem? hn]
      exact hc.free i hi
    · rw [adopt_eq_self hi]
      exact .refl n

/-- A node without a parent is the new one, or was there and has not become a child. -/
theorem free_addNode {children : Array NodeId} {k : NodeKind} {place : Nat} {data : NodeData}
    {i : NodeId} {n : Node} (hc : ∀ c ∈ children, c < f.size)
    (hn : (f.addNode k place children data).2.nodes[i]? = some n) (hp : n.parent = none) :
    i = f.size ∨ i ∉ children ∧ f.nodes[i]? = some n := by
  rw [getElem?_addNode f k place children data hc] at hn
  split at hn
  · rename_i hi
    exact Or.inl hi
  · right
    obtain ⟨m, hm, rfl⟩ := Option.map_eq_some_iff.mp hn
    by_cases hi : i ∈ children
    · rw [adopt_parent hi] at hp
      cases hp
    · rw [adopt_eq_self hi]
      exact ⟨hi, hm⟩

/-- A change that keeps each node goes on from the forest that is changed. -/
theorem extends_modify {id : NodeId} {change : Node → Node} (hk : ∀ n : Node, n.Kept (change n)) :
    f.Extends (f.modify id change) := by
  refine extends_of_kept fun i n hn => ?_
  rw [getElem?_modify, hn]
  split
  · exact ⟨change n, rfl, hk n⟩
  · exact ⟨n, rfl, .refl n⟩

end

/-- A changed node was there before, with the same parent. -/
theorem exists_of_getElem?_modify {f : Forest} {id i : NodeId} {change : Node → Node} {m : Node}
    (hp : ∀ n, (change n).parent = n.parent) (hm : (f.modify id change).nodes[i]? = some m) :
    ∃ n, f.nodes[i]? = some n ∧ n.parent = m.parent := by
  rw [getElem?_modify] at hm
  split at hm
  · obtain ⟨n, hn, rfl⟩ := Option.map_eq_some_iff.mp hm
    exact ⟨n, hn, (hp n).symm⟩
  · exact ⟨m, hm, rfl⟩

section
variable {f : Forest}

/-- A leaf adds its text, and what stands before it. -/
theorem text_addLeaf (f : Forest) (k : TokenKind) (span : Span) (leading text value : String) :
    (f.addLeaf k span leading text value).2.text = f.text ++ (leading ++ text) := by
  have hext := extends_addLeaf f k span leading text value
  have hnew := getElem?_addLeaf f k span leading text value f.size
  rw [if_pos rfl] at hnew
  have hold := hext.written (fun i hi => List.mem_range.mp hi)
  unfold Forest.text
  rw [size_addLeaf, List.range_succ, written_append, hold, written_singleton,
    leaf?_of_getElem? hnew]
  rfl

/-- A node that is no leaf adds no text. -/
theorem text_addNode {children : Array NodeId} (hc : f.Adoptable children) (k : NodeKind)
    (place : Nat) {data : NodeData} (hl : data.leaf? = none) :
    (f.addNode k place children data).2.text = f.text := by
  have hext := extends_addNode hc k place data
  have hnew := getElem?_addNode f k place children data hc.lt f.size
  rw [if_pos rfl] at hnew
  have hold := hext.written (fun i hi => List.mem_range.mp hi)
  unfold Forest.text
  rw [size_addNode, List.range_succ, written_append, hold, written_singleton,
    leaf?_of_getElem? hnew, hl]
  exact String.append_empty

/-- Nor does a change. -/
theorem text_modify {id : NodeId} {change : Node → Node} (hk : ∀ n : Node, n.Kept (change n)) :
    (f.modify id change).text = f.text := by
  have hext : f.Extends (f.modify id change) := extends_modify hk
  have hold := hext.written (fun i hi => List.mem_range.mp hi)
  unfold Forest.text
  rw [size_modify, hold]

end

/-- What a node knows is so of its children and of the nodes below them. -/
structure Describes (f : Forest) (children : Array NodeId) (kind : Kind) (data : NodeData) :
    Prop where
  direct : data.direct.Subperm children.toList
  first : ∀ id, data.first? = some id → children[0]? = some id
  held : data.held.2.Subperm (f.children data.held.1).toList
  signed : ∀ r ∈ data.signed, f.Follows r.1 children r.2
  roles : ∀ r ∈ data.roles, ∃ k ∈ r.2, f.kind? (some r.1) = some k
  path : ∀ id, data.path? = some id → f.IsPath id
  fits : data.fits kind

/-- Some nodes are parameters, each of them. -/
def AreParameters (f : Forest) (ids : List NodeId) : Prop :=
  ∀ id ∈ ids, f.kind? (some id) = some (.node .parameter)

/-- Children start with modifiers, and a word is one of them. -/
def HasModifier (f : Forest) (children : Array NodeId) (word : String) : Prop :=
  ∃ list, children[0]? = some list ∧ f.kind? (some list) = some (.node .modifierList) ∧
    ∃ leaf ∈ f.children (some list), f.leafText (some leaf) = word

/-- A node lists nothing but parameters as its parameters, and one for any number of arguments says so
if and only if that word is one of its modifiers. -/
structure Tells (f : Forest) (children : Array NodeId) (data : NodeData) : Prop where
  parameters : f.AreParameters data.parameters
  vararg : ∀ b, data.vararg? = some b → (b = true ↔ f.HasModifier children "vararg")

/-- Where there is nothing, nothing is no parameter. -/
theorem areParameters_of_nil {f : Forest} {ids : List NodeId} (h : ids = []) : f.AreParameters ids :=
  fun _ hid => absurd (h ▸ hid) List.not_mem_nil

/-- A node without parameters tells nothing. -/
theorem tells_of_none {f : Forest} {children : Array NodeId} {data : NodeData}
    (hp : data.parameters = []) (hv : data.vararg? = none) : f.Tells children data :=
  ⟨areParameters_of_nil hp, fun _ hb => nomatch hv.symm.trans hb⟩

/-- A node that is no parameter tells what its parameters are. -/
theorem AreParameters.tells {f : Forest} {children : Array NodeId} {data : NodeData}
    (h : f.AreParameters data.parameters) (hv : data.vararg? = none) : f.Tells children data :=
  ⟨h, fun _ hb => nomatch hv.symm.trans hb⟩

/-- The links of a node to others are sound: children come before it, in order, and know it as
their parent; its parent knows it; a leaf has no children; its parts are below it; and what it knows
is so of them. -/
structure LinkedAt (f : Forest) (i : NodeId) (n : Node) : Prop where
  ordered : n.children.toList.Pairwise (· < ·)
  below : ∀ c ∈ n.children, c < i
  linked : ∀ c ∈ n.children, f.IsChild c i
  owned : ∀ p, n.parent = some p → i ∈ f.children (some p)
  leaf : n.data.leaf? = none ∨ n.children = #[]
  parts : ∀ id ∈ n.data.parts, f.Beneath id i
  describes : f.Describes n.children n.kind n.data

/-- All links of a forest are sound. -/
def Linked (f : Forest) : Prop :=
  ∀ (i : NodeId) (n : Node), f.nodes[i]? = some n → f.LinkedAt i n

section
variable {f g : Forest} {i : NodeId} {n m : Node}

/-- What the data of a node say of its children is said in a larger forest. -/
theorem Describes.embeds {children : Array NodeId} {kind : Kind} {d e : NodeData}
    (h : f.Describes children kind d) (hfg : f.Embeds g) (hd : d.Alike e) :
    g.Describes children kind e where
  direct := hd.direct ▸ h.direct
  first id hid := h.first id (hd.first? ▸ hid)
  held := by
    rw [hd.held]
    cases hnone : d.held.2 with
    | nil => exact List.nil_subperm
    | cons id ids =>
      -- There is something held, so that what holds it has children.
      have hheld := h.held
      cases htop : d.held.1 with
      | none => simp [htop, hnone, Forest.children, node?] at hheld
      | some top =>
        rw [htop, hnone] at hheld
        rw [hfg.children_eq]
        · exact hheld
        · intro he
          simp [he] at hheld
  signed r hr := hfg.follows (h.signed r (hd.signed ▸ hr))
  roles r hr := by
    obtain ⟨k, hk, hkind⟩ := h.roles r (hd.roles ▸ hr)
    exact ⟨k, hk, hfg.kind? hkind⟩
  path id hid := hfg.isPath (h.path id (hd.path? ▸ hid))
  fits := hd.fits kind ▸ h.fits

/-- A node that is linked remains so, if it is still a child of its parent. -/
theorem LinkedAt.embeds (h : f.LinkedAt i n) (hfg : f.Embeds g) (hk : n.SameShape m)
    (hp : ∀ p, m.parent = some p → i ∈ g.children (some p)) : g.LinkedAt i m where
  ordered := hk.children ▸ h.ordered
  below c hc := h.below c (hk.children ▸ hc)
  linked c hc := hfg.isChild (h.linked c (hk.children ▸ hc))
  owned := hp
  leaf := by
    have hleaf := hk.data.isLeaf
    rw [Bool.eq_iff_iff, Option.isSome_iff_ne_none, Option.isSome_iff_ne_none, not_iff_not] at hleaf
    rw [hleaf, hk.children]
    exact h.leaf
  parts id hid := hfg.beneath (h.parts id (hk.data.parts ▸ hid))
  describes := by
    rw [hk.kind, hk.children]
    exact h.describes.embeds hfg hk.data

/-- A node that stays exactly what it is stays linked. -/
theorem LinkedAt.embeds_self (h : f.LinkedAt i n) (hfg : f.Embeds g) : g.LinkedAt i n :=
  h.embeds hfg (.refl n) fun p hp => hfg.mem_children (h.owned p hp)

/-- Where there are no nodes, all are linked. -/
theorem linked_empty : Linked {} := by
  intro i n hn
  cases hn

/-- Children are nodes of the forest. -/
theorem Linked.child_lt_size (hf : f.Linked) (hn : f.nodes[i]? = some n) :
    ∀ c ∈ n.children, c < f.size := by
  intro c hc
  exact ((hf i n hn).below c hc).trans (lt_size_of_getElem? hn)

/-- On a forest whose links are sound, the walk with a stack of its own comes to the nodes of a tree in
the order of the recursion, and then goes on with what else there is. -/
theorem Linked.run_cons {σ : Type} [Nonempty σ] (hf : f.Linked) {w : Walk NodeId σ}
    (hbelow : ∀ i < f.size, w.below i = (f.children (some i)).toList) (hi : i < f.size)
    (stack : List NodeId) (met : σ) :
    w.run (i :: stack) met = w.run stack ((f.preorder i).foldl w.meet met) := by
  induction i using Nat.strongRecOn generalizing stack met with
  | ind i ih =>
    obtain ⟨n, hn⟩ := exists_getElem? hi
    have hbefore := (hf i n hn).below
    have hchild : ∀ c ∈ n.children.toList, ∀ stack met,
        w.run (c :: stack) met = w.run stack ((f.preorder c).foldl w.meet met) := by
      intro c hc
      have hlt := hbefore c (Array.mem_toList_iff.mp hc)
      exact ih c hlt (hlt.trans hi)
    rw [Walk.run, hbelow i hi, children_of_getElem? hn, run_append stack hchild,
      preorder_eq hn hbefore, List.foldl_cons]

/-- Nothing is left on the stack after the walk through a tree. -/
theorem Linked.run_eq_foldl {σ : Type} [Nonempty σ] (hf : f.Linked) {w : Walk NodeId σ}
    (hbelow : ∀ i < f.size, w.below i = (f.children (some i)).toList) (hi : i < f.size) (met : σ) :
    w.run [i] met = (f.preorder i).foldl w.meet met := by
  rw [hf.run_cons hbelow hi, Walk.run]

/-- A leaf has no children, so that nothing of the text is left out by not looking into it. -/
theorem Linked.print_some (hf : f.Linked) (hi : i < f.size) :
    f.print (some i) = f.written (f.preorder i) := by
  have hbelow : ∀ i < f.size, f.printing.below i = (f.children (some i)).toList := by
    intro i hi
    obtain ⟨n, hn⟩ := exists_getElem? hi
    dsimp only [printing]
    rw [leaf?_of_getElem? hn, children_of_getElem? hn]
    obtain hnone | hempty := (hf i n hn).leaf
    · simp [hnone]
    · simp [hempty]
  have hsaid (ids : List NodeId) (said : String) :
      ids.foldl f.printing.meet said = said ++ f.written ids := by
    induction ids generalizing said with
    | nil => simp
    | cons i ids ih =>
      rw [List.foldl_cons, ih, ← List.singleton_append (x := i), written_append, written_singleton,
        ← String.append_assoc]
      rfl
  rw [print, Option.toList_some, hf.run_eq_foldl hbelow hi, hsaid, String.empty_append]

/-- A parent is a node that knows its child. -/
theorem Linked.exists_parent {c p : NodeId} (hf : f.Linked) (h : f.IsChild c p) :
    ∃ m, f.nodes[p]? = some m ∧ c ∈ m.children := by
  obtain ⟨n, hn, hpar⟩ := exists_of_isChild h
  have hmem := (hf c n hn).owned p hpar
  cases hp : f.nodes[p]? with
  | none => simp [children, node?, hp] at hmem
  | some m => exact ⟨m, rfl, children_of_getElem? hp ▸ hmem⟩

/-- A child comes before its parent. -/
theorem Linked.lt_of_isChild {c p : NodeId} (hf : f.Linked) (h : f.IsChild c p) : c < p := by
  obtain ⟨m, hm, hmem⟩ := hf.exists_parent h
  exact (hf p m hm).below c hmem

/-- So does whatever is beneath a node. -/
theorem Linked.lt_of_beneath {i j : NodeId} (hf : f.Linked) (h : f.Beneath j i) : j < i := by
  induction h with
  | single hc => exact hf.lt_of_isChild hc
  | tail _ hc ih => exact lt_trans ih (hf.lt_of_isChild hc)

/-- What the data of a node speak of is beneath it. -/
theorem Linked.beneath_of_mem_parts {i j : NodeId} (hf : f.Linked)
    (h : j ∈ (f.data (some i)).parts) : f.Beneath j i := by
  cases hn : f.nodes[i]? with
  | none => simp [data, node?, hn, NodeData.parts] at h
  | some n =>
    have hd : f.data (some i) = n.data := by simp [data, node?, hn]
    exact (hf i n hn).parts j (hd ▸ h)

/-- A child has its parent noted. -/
theorem Linked.isChild_of_mem_children {c p : NodeId} (hf : f.Linked)
    (h : c ∈ f.children (some p)) : f.IsChild c p := by
  cases hn : f.nodes[p]? with
  | none => simp [children, node?, hn] at h
  | some n => exact (hf p n hn).linked c (children_of_getElem? hn ▸ h)

theorem inside_self (f : Forest) (top : NodeId) : f.Inside top top := Relation.ReflTransGen.refl

/-- What is inside a part is inside the whole. -/
theorem Inside.trans {top mid id : NodeId} (h : f.Inside top mid) (hid : f.Inside mid id) :
    f.Inside top id :=
  Relation.ReflTransGen.trans hid h

/-- Children are inside their parent. -/
theorem Linked.inside_of_mem_children {c p : NodeId} (hf : f.Linked)
    (h : c ∈ f.children (some p)) : f.Inside p c :=
  .single (hf.isChild_of_mem_children h)

/-- So is what the data of a node speak of. -/
theorem Linked.inside_of_mem_parts {i j : NodeId} {d : NodeData} (hf : f.Linked)
    (hd : f.data (some i) = d) (h : j ∈ d.parts) : f.Inside i j :=
  (hf.beneath_of_mem_parts (hd ▸ h)).to_reflTransGen

/-- A node's parts come before it. -/
theorem Linked.lt_of_mem_parts {i j : NodeId} (hf : f.Linked) (h : j ∈ (f.data (some i)).parts) :
    j < i :=
  hf.lt_of_beneath (hf.beneath_of_mem_parts h)

/-- A node says what its children are if what it speaks of is among them, and is of the kinds that it
says. -/
theorem describes_of_isRoled {children : Array NodeId} {k : NodeKind} {data : NodeData}
    (hs : data.isRoled k) (hd : data.direct.Subperm children.toList)
    (hr : ∀ r ∈ data.roles, ∃ k ∈ r.2, f.kind? (some r.1) = some k) :
    f.Describes children (.node k) data := by
  obtain ⟨-, hfirst, hheld, hsigned, hpath, hfits⟩ := NodeData.isRoled_iff.mp hs
  refine ⟨hd, ?_, hheld ▸ List.nil_subperm, ?_, hr, ?_, hfits⟩
  · intro id hid
    rw [hfirst] at hid
    cases hid
  · rw [hsigned]
    exact fun _ hr => absurd hr List.not_mem_nil
  · intro id hid
    rw [hpath] at hid
    cases hid

/-- If it says nothing of kinds, it is enough that its parts are among them. -/
theorem describes_of_isSimple {children : Array NodeId} {k : NodeKind} {data : NodeData}
    (hs : data.isSimple k) (hd : data.direct.Subperm children.toList) :
    f.Describes children (.node k) data := by
  obtain ⟨hroles, -, -, hs⟩ := NodeData.isSimple_iff.mp hs
  refine describes_of_isRoled hs hd ?_
  rw [hroles]
  exact fun _ hr => absurd hr List.not_mem_nil

/-- A leaf has nothing to say about children. -/
theorem describes_leaf {children : Array NodeId} {k : TokenKind} {leaf : Leaf} :
    f.Describes children (.token k) (.leaf leaf) where
  direct := List.nil_subperm
  first _ hid := nomatch hid
  held := List.nil_subperm
  signed _ hr := absurd hr List.not_mem_nil
  roles _ hr := absurd hr List.not_mem_nil
  path _ hid := nomatch hid
  fits := rfl

/-- With a leaf, the forest is still linked. -/
theorem Linked.addLeaf (hf : f.Linked) (k : TokenKind) (span : Span)
    (leading text value : String) : (f.addLeaf k span leading text value).2.Linked := by
  intro i n hn
  rw [getElem?_addLeaf] at hn
  split at hn
  · cases hn
    constructor
    · exact List.Pairwise.nil
    · exact fun c hc => absurd hc (Array.not_mem_empty c)
    · exact fun c hc => absurd hc (Array.not_mem_empty c)
    · intro p hp
      cases hp
    · exact Or.inr rfl
    · exact fun id hid => absurd hid List.not_mem_nil
    · exact describes_leaf
  · exact (hf i n hn).embeds_self
      (extends_addLeaf f k span leading text value).toEmbeds

/-- So it is with a node whose children wait for a parent, and whose data speak of what is in them. -/
theorem Linked.addNode (hf : f.Linked) {children : Array NodeId} (hc : f.Adoptable children)
    (k : NodeKind) (place : Nat) {data : NodeData} (hl : data.leaf? = none)
    (hp : ∀ id ∈ data.parts, ∃ c ∈ children, f.Within id c)
    (hd : f.Describes children (.node k) data) :
    (f.addNode k place children data).2.Linked := by
  -- Children are adopted by the new node, which comes last; all else is embedded.
  have hext := extends_addNode hc k place data
  have hget := getElem?_addNode f k place children data hc.lt
  have hnew : (f.addNode k place children data).2.children (some f.size) = children := by
    rw [children_of_getElem? ((hget f.size).trans (if_pos rfl))]
  have hlink : ∀ c ∈ children, (f.addNode k place children data).2.IsChild c f.size := by
    intro c hm
    obtain ⟨n, hn⟩ := exists_getElem? (hc.lt c hm)
    have hg := hget c
    rw [if_neg (hc.lt c hm).ne, hn, Option.map_some] at hg
    unfold IsChild
    rw [parent?_of_getElem? hg]
    exact adopt_parent hm
  intro i n hn
  rw [hget] at hn
  split at hn
  · rename_i hi
    subst hi
    cases hn
    refine ⟨hc.ordered, hc.lt, hlink, ?_, Or.inl hl, ?_, hd.embeds hext.toEmbeds (.refl data)⟩
    · intro p hp
      cases hp
    · intro id hid
      obtain ⟨c, hm, hw⟩ := hp id hid
      exact Relation.TransGen.tail' (hext.within hw) (hlink c hm)
  · obtain ⟨n, hn', rfl⟩ := Option.map_eq_some_iff.mp hn
    have hat := hf i n hn'
    -- A node is a child of the new one or is left as it is.
    by_cases hi : i ∈ children
    · have hfree : n.parent = none := by
        rw [← parent?_of_getElem? hn']
        exact hc.free i hi
      refine hat.embeds hext.toEmbeds (kept_adopt hfree).toSameShape ?_
      intro p hp
      rw [adopt_parent hi] at hp
      cases hp
      rw [hnew]
      exact hi
    · rw [adopt_eq_self hi]
      exact hat.embeds_self hext.toEmbeds

/-- So it is after a change that leaves the parent alone. -/
theorem Linked.modify (hf : f.Linked) {id : NodeId} {change : Node → Node}
    (hk : ∀ n : Node, n.Kept (change n)) (hp : ∀ n, (change n).parent = n.parent) :
    (f.modify id change).Linked := by
  have hext : f.Extends (f.modify id change) := extends_modify hk
  intro i m hm
  rw [getElem?_modify] at hm
  split at hm
  · obtain ⟨n, hn, rfl⟩ := Option.map_eq_some_iff.mp hm
    refine (hf i n hn).embeds hext.toEmbeds (hk n).toSameShape ?_
    intro p hpar
    rw [hp] at hpar
    exact hext.mem_children ((hf i n hn).owned p hpar)
  · exact (hf i m hm).embeds_self hext.toEmbeds

end

end Forest

end KotlinTree
