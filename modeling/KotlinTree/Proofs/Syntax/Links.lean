import Mathlib.Data.List.Basic
import Mathlib.Logic.Relation
import Mathlib.Order.Nat
import KotlinTree.Proofs.Syntax.Data
import KotlinTree.Syntax.Forest

/-!
How the nodes of a forest hang together: parents, what lies under a node, the nodes of a tree with
each after its descendants, and what the making of a node does to the others.
-/

namespace KotlinTree

namespace Forest

/-- One node is the parent of another. -/
def IsChild (f : Forest) (c p : NodeId) : Prop := f.parent? (some c) = some p

/-- A node is in the tree of another, which may be the node itself. -/
def Within (f : Forest) : NodeId → NodeId → Prop := Relation.ReflTransGen f.IsChild

/-- The nodes in the tree of one. -/
def Inside (f : Forest) (top id : NodeId) : Prop := f.Within id top

/-- A node is a proper descendant of another. -/
def Beneath (f : Forest) : NodeId → NodeId → Prop := Relation.TransGen f.IsChild

/-- A sign stands right before a node among some children. -/
def Follows (f : Forest) (sign : TokenKind) (children : Array NodeId) (id : NodeId) : Prop :=
  ∃ before word after, children.toList = before ++ word :: id :: after ∧
    f.kind? (some word) = some (.token sign)

/-- What an access with a name is on, and the name. -/
def link? (f : Forest) (id : NodeId) : Option (NodeId × NodeId) := (f.data (some id)).link?

/-- A path: a name, or an access with a name to a path. -/
inductive IsPath (f : Forest) : NodeId → Prop
  | name {id : NodeId} (h : f.kind? (some id) = some (.token .identifier)) : IsPath f id
  | link {id left name : NodeId} (h : f.link? id = some (left, name)) (path : IsPath f left) :
    IsPath f id

/-- The text of some nodes one after another, which only leaves have. -/
def written (f : Forest) (ids : List NodeId) : String :=
  String.join (ids.map fun n => ((f.leaf? (some n)).map Leaf.written).getD "")

/-- The text of all leaves in the order of their making. -/
def text (f : Forest) : String := f.written (List.range f.size)

/-- A tree's nodes, each before its descendants and after its earlier siblings. -/
def preorder (f : Forest) (id : NodeId) : List NodeId :=
  match f.nodes[id]? with
  | none => []
  | some node =>
    id :: node.children.toList.flatMap fun c => if _ : c < id then f.preorder c else []
termination_by id

/-- A tree's nodes, each after its descendants and its earlier siblings. -/
def postorder (f : Forest) (id : NodeId) : List NodeId :=
  match f.nodes[id]? with
  | none => []
  | some node =>
    (node.children.toList.flatMap fun c => if _ : c < id then f.postorder c else []) ++ [id]
termination_by id

/-- What a leaf is, its data say. -/
theorem leaf?_eq (f : Forest) (id : Option NodeId) : f.leaf? id = (f.data id).leaf? := by
  unfold leaf?
  cases f.data id <;> rfl

theorem parent?_of_getElem? {f : Forest} {i : NodeId} {n : Node} (h : f.nodes[i]? = some n) :
    f.parent? (some i) = n.parent := by
  simp only [parent?, node?, Option.bind_some, h]

theorem children_of_getElem? {f : Forest} {i : NodeId} {n : Node} (h : f.nodes[i]? = some n) :
    f.children (some i) = n.children := by
  simp only [children, node?, Option.bind_some, h, Option.map_some, Option.getD_some]

theorem span_of_getElem? {f : Forest} {i : NodeId} {n : Node} (h : f.nodes[i]? = some n) :
    f.span (some i) = n.span := by
  simp only [span, node?, Option.bind_some, h, Option.map_some, Option.getD_some]

theorem data_of_getElem? {f : Forest} {i : NodeId} {n : Node} (h : f.nodes[i]? = some n) :
    f.data (some i) = n.data := by
  simp only [data, node?, Option.bind_some, h, Option.map_some, Option.getD_some]

theorem kind?_of_getElem? {f : Forest} {i : NodeId} {n : Node} (h : f.nodes[i]? = some n) :
    f.kind? (some i) = some n.kind := by
  simp only [kind?, node?, Option.bind_some, h, Option.map_some]

/-- A kind is that of a node. -/
theorem exists_of_kind? {f : Forest} {i : NodeId} {k : Kind} (h : f.kind? (some i) = some k) :
    ∃ n, f.nodes[i]? = some n ∧ n.kind = k := by
  simpa [kind?, node?] using h

/-- A link is that of the data of a node. -/
theorem exists_of_link? {f : Forest} {i : NodeId} {l : NodeId × NodeId} (h : f.link? i = some l) :
    ∃ n, f.nodes[i]? = some n ∧ n.data.link? = some l := by
  cases hn : f.nodes[i]? with
  | none => simp [link?, data, node?, hn, NodeData.link?] at h
  | some n =>
    rw [link?, data_of_getElem? hn] at h
    exact ⟨n, rfl, h⟩

theorem leaf?_of_getElem? {f : Forest} {i : NodeId} {n : Node} (h : f.nodes[i]? = some n) :
    f.leaf? (some i) = n.data.leaf? := by
  simp only [leaf?_eq, data, node?, Option.bind_some, h, Option.map_some, Option.getD_some]

/-- A child is a node that has its parent noted. -/
theorem exists_of_isChild {f : Forest} {c p : NodeId} (h : f.IsChild c p) :
    ∃ n, f.nodes[c]? = some n ∧ n.parent = some p := by
  unfold IsChild parent? node? at h
  rw [Option.bind_some, Option.bind_eq_some_iff] at h
  exact h

/-- What is found in a forest has a place in it. -/
theorem lt_size_of_getElem? {f : Forest} {i : NodeId} {n : Node} (h : f.nodes[i]? = some n) :
    i < f.size := by
  obtain ⟨hi, -⟩ := Array.getElem?_eq_some_iff.mp h
  exact hi

/-- What has a place in it is found. -/
theorem exists_getElem? {f : Forest} {i : NodeId} (h : i < f.size) : ∃ n, f.nodes[i]? = some n :=
  ⟨_, Array.getElem?_eq_getElem h⟩

@[simp] theorem written_nil (f : Forest) : f.written [] = "" := rfl

/-- What is written by nodes one after another is what the first ones write, and then the rest. -/
theorem written_append (f : Forest) (a b : List NodeId) :
    f.written (a ++ b) = f.written a ++ f.written b := by
  simp only [written, List.map_append, String.join_append]

/-- A single node writes what it is the leaf of, if it is one. -/
theorem written_singleton (f : Forest) (i : NodeId) :
    f.written [i] = ((f.leaf? (some i)).map Leaf.written).getD "" := by
  simp only [written, List.map_cons, List.map_nil, String.join_cons, String.join_nil,
    String.append_empty]

/-- A stack is worked off part by part: where each of its upper entries is left with nothing but what
was met along some order, all of them are. -/
theorem run_append {α σ : Type} [Nonempty σ] {w : Walk α σ} {order : α → List α} (stack : List α)
    {tops : List α}
    (h : ∀ top ∈ tops, ∀ stack met,
      w.run (top :: stack) met = w.run stack ((order top).foldl w.meet met)) (met : σ) :
    w.run (tops ++ stack) met = w.run stack ((tops.flatMap order).foldl w.meet met) := by
  induction tops generalizing met with
  | nil => rfl
  | cons top tops ih =>
    rw [List.cons_append, h top List.mem_cons_self, ih fun t ht => h t (List.mem_cons_of_mem top ht),
      List.flatMap_cons, List.foldl_append]

/-- A node comes before its children, and these in their order. -/
theorem preorder_eq {f : Forest} {i : NodeId} {n : Node} (h : f.nodes[i]? = some n)
    (hc : ∀ c ∈ n.children, c < i) :
    f.preorder i = i :: n.children.toList.flatMap f.preorder := by
  rw [preorder, h]
  dsimp only
  congr 1
  apply List.flatMap_congr
  intro c hm
  rw [dif_pos (hc c (by simpa using hm))]

/-- A node comes after its children. -/
theorem postorder_eq {f : Forest} {i : NodeId} {n : Node} (h : f.nodes[i]? = some n)
    (hc : ∀ c ∈ n.children, c < i) :
    f.postorder i = n.children.toList.flatMap f.postorder ++ [i] := by
  rw [postorder, h]
  dsimp only
  congr 1
  apply List.flatMap_congr
  intro c hm
  rw [dif_pos (hc c (by simpa using hm))]

/-- Walks follow the children only. -/
theorem postorder_congr {f g : Forest} {i : NodeId}
    (h : ∀ j ≤ i, (g.nodes[j]?).map Node.children = (f.nodes[j]?).map Node.children) :
    g.postorder i = f.postorder i := by
  -- The induction is on the node, as children come before it.
  induction i using Nat.strongRecOn with
  | ind i ih =>
    have hi := h i le_rfl
    rw [postorder, postorder]
    cases hf : f.nodes[i]? with
    | none =>
      rw [hf, Option.map_none, Option.map_eq_none_iff] at hi
      simp only [hi]
    | some n =>
      rw [hf, Option.map_some, Option.map_eq_some_iff] at hi
      obtain ⟨m, hm, hmc⟩ := hi
      simp only [hm, hmc]
      congr 1
      apply List.flatMap_congr
      intro c _
      split
      · rename_i hc
        exact ih c hc (fun j hj => h j (hj.trans hc.le))
      · rfl

/-- Both walks come to the leaves in the same order, if no leaf has children. -/
theorem written_preorder {f : Forest} {i : NodeId}
    (h : ∀ j ≤ i, ∀ n, f.nodes[j]? = some n →
      (∀ c ∈ n.children, c < j) ∧ (n.data.leaf? = none ∨ n.children = #[])) :
    f.written (f.preorder i) = f.written (f.postorder i) := by
  -- Leaves have no children, so it makes no difference whether a node is written before them or after.
  induction i using Nat.strongRecOn with
  | ind i ih =>
    cases hf : f.nodes[i]? with
    | none => rw [preorder, postorder, hf]
    | some n =>
      obtain ⟨hc, hl⟩ := h i le_rfl n hf
      have hw : f.written (n.children.toList.flatMap f.preorder) =
          f.written (n.children.toList.flatMap f.postorder) := by
        have hs : ∀ c ∈ n.children.toList,
            f.written (f.preorder c) = f.written (f.postorder c) := by
          intro c hm
          have hci : c < i := hc c (by simpa using hm)
          exact ih c hci (fun j hj => h j (hj.trans hci.le))
        generalize n.children.toList = cs at hs
        induction cs with
        | nil => rfl
        | cons c cs ihc =>
          rw [List.flatMap_cons, List.flatMap_cons, written_append, written_append,
            hs c List.mem_cons_self, ihc (fun d hd => hs d (List.mem_cons_of_mem c hd))]
      rw [preorder_eq hf hc, postorder_eq hf hc, ← List.singleton_append, written_append,
        written_append, hw]
      rcases hl with hl | hl
      · simp [written_singleton, leaf?_of_getElem? hf, hl]
      · simp [hl]

/-- What a walk comes to lies in the tree, if children know their parents. -/
theorem within_of_mem_postorder {f : Forest} {i x : NodeId}
    (h : ∀ j ≤ i, ∀ n, f.nodes[j]? = some n → ∀ c ∈ n.children, c < j ∧ f.IsChild c j)
    (hx : x ∈ f.postorder i) : f.Within x i := by
  induction i using Nat.strongRecOn with
  | ind i ih =>
    cases hf : f.nodes[i]? with
    | none => rw [postorder, hf] at hx; exact absurd hx List.not_mem_nil
    | some n =>
      have hc := h i le_rfl n hf
      rw [postorder_eq hf (fun c hm => (hc c hm).1)] at hx
      rcases List.mem_append.mp hx with hx | hx
      · obtain ⟨c, hm, hxc⟩ := List.mem_flatMap.mp hx
        obtain ⟨hlt, hp⟩ := hc c (by simpa using hm)
        exact (ih c hlt (fun j hj => h j (hj.trans hlt.le)) hxc).tail hp
      · rw [List.mem_singleton.mp hx]
        exact Relation.ReflTransGen.refl

/-- A node is in its own tree. -/
theorem mem_postorder_self {f : Forest} {i : NodeId} (hi : i < f.size) : i ∈ f.postorder i := by
  obtain ⟨n, hn⟩ := exists_getElem? hi
  rw [postorder, hn]
  exact List.mem_append_right _ (List.mem_singleton_self i)

/-- A walk comes to the children of what it comes to. -/
theorem postorder_closed {f : Forest} {i x c : NodeId}
    (h : ∀ (j : NodeId) (n : Node), f.nodes[j]? = some n → ∀ c ∈ n.children, c < j)
    (hx : x ∈ f.postorder i) (hc : c ∈ f.children (some x)) (hs : c < f.size) :
    c ∈ f.postorder i := by
  induction i using Nat.strongRecOn with
  | ind i ih =>
    cases hf : f.nodes[i]? with
    | none => rw [postorder, hf] at hx; exact absurd hx List.not_mem_nil
    | some n =>
      have hlt := h i n hf
      rw [postorder_eq hf hlt] at hx ⊢
      apply List.mem_append_left
      rcases List.mem_append.mp hx with hx | hx
      · obtain ⟨d, hd, hxd⟩ := List.mem_flatMap.mp hx
        exact List.mem_flatMap.mpr ⟨d, hd, ih d (hlt d (by simpa using hd)) hxd⟩
      · rw [List.mem_singleton.mp hx, children_of_getElem? hf] at hc
        exact List.mem_flatMap.mpr ⟨c, by simpa using hc, mem_postorder_self hs⟩

/-- All that lies in a tree is on its walk, if parents know their children. -/
theorem mem_postorder_of_within {f : Forest} {i x : NodeId} (hi : i < f.size)
    (h : ∀ (j : NodeId) (n : Node), f.nodes[j]? = some n → ∀ c ∈ n.children, c < j)
    (hp : ∀ c p, f.IsChild c p → c ∈ f.children (some p)) (hx : f.Within x i) :
    x ∈ f.postorder i := by
  induction hx using Relation.ReflTransGen.head_induction_on with
  | refl => exact mem_postorder_self hi
  | head hc _ ih =>
    obtain ⟨n, hn, -⟩ := exists_of_isChild hc
    exact postorder_closed h ih (hp _ _ hc) (lt_size_of_getElem? hn)

/-- A node after another has been made over some, which now have a parent. -/
def adopt (children : Array NodeId) (parent i : NodeId) (n : Node) : Node :=
  if i ∈ children then { n with parent := some parent } else n

@[simp] theorem adopt_kind (cs : Array NodeId) (p i : NodeId) (n : Node) :
    (adopt cs p i n).kind = n.kind := by unfold adopt; split <;> rfl

@[simp] theorem adopt_span (cs : Array NodeId) (p i : NodeId) (n : Node) :
    (adopt cs p i n).span = n.span := by unfold adopt; split <;> rfl

@[simp] theorem adopt_data (cs : Array NodeId) (p i : NodeId) (n : Node) :
    (adopt cs p i n).data = n.data := by unfold adopt; split <;> rfl

@[simp] theorem adopt_children (cs : Array NodeId) (p i : NodeId) (n : Node) :
    (adopt cs p i n).children = n.children := by unfold adopt; split <;> rfl

/-- To change some nodes in the same way makes each of them as one change does, if a second one changes
nothing. -/
theorem getElem?_foldl_modify (g : Node → Node) (hg : ∀ n, g (g n) = g n) (cs : List NodeId)
    (nodes : Array Node) (i : NodeId) :
    (cs.foldl (fun nodes c => nodes.modify c g) nodes)[i]? =
      (nodes[i]?).map fun n => if i ∈ cs then g n else n := by
  induction cs generalizing nodes with
  | nil => simp
  | cons c cs ih =>
    rw [List.foldl_cons, ih, Array.getElem?_modify]
    by_cases hci : c = i
    · subst hci
      cases nodes[c]? with
      | none => simp
      | some n => by_cases hm : c ∈ cs <;> simp [hm, hg]
    · have hic : i ≠ c := fun h => hci h.symm
      simp [hci, hic]

/-- A leaf comes after all nodes that there are, which remain. -/
theorem getElem?_addLeaf (f : Forest) (k : TokenKind) (span : Span) (leading text value : String)
    (i : NodeId) :
    (f.addLeaf k span leading text value).2.nodes[i]? =
      if i = f.size then some
        { kind := .token k, span,
          data := .leaf ⟨leading, text,
            (if k.isName then f.names.intern value else (Atom.none, f.names)).1⟩ }
      else f.nodes[i]? := by
  unfold addLeaf
  exact Array.getElem?_push

/-- A node comes after all nodes that there are, and its children have it for a parent. -/
theorem getElem?_addNode_of_any (f : Forest) (k : NodeKind) (place : Nat) (children : Array NodeId)
    (data : NodeData) (i : NodeId) :
    (f.addNode k place children data).2.nodes[i]? =
      (if i = f.size then
          some { kind := .node k, span := f.spanOver place children, data, children }
        else f.nodes[i]?).map (adopt children f.size i) := by
  have hg := getElem?_foldl_modify (fun n => { n with parent := some f.size }) (fun _ => rfl)
    children.toList
    (f.nodes.push { kind := .node k, span := f.spanOver place children, data, children }) i
  rw [Array.foldl_toList, Array.getElem?_push] at hg
  simp only [Array.mem_toList_iff] at hg
  exact hg

/-- Where the children are nodes that there are, the new node is none of them. -/
theorem getElem?_addNode (f : Forest) (k : NodeKind) (place : Nat) (children : Array NodeId)
    (data : NodeData) (hc : ∀ c ∈ children, c < f.size) (i : NodeId) :
    (f.addNode k place children data).2.nodes[i]? =
      if i = f.size then some { kind := .node k, span := f.spanOver place children, data, children }
      else (f.nodes[i]?).map (adopt children f.size i) := by
  rw [getElem?_addNode_of_any]
  split
  · rename_i hi
    have hnew : i ∉ children := fun hm => absurd (hc i hm) (hi ▸ Nat.lt_irrefl f.size)
    rw [Option.map_some, adopt, if_neg hnew]
  · rfl

/-- Making a node leaves the others what they are, but for their parents. -/
theorem getElem?_addNode_of_lt {f : Forest} {i : NodeId} {n : Node} (h : f.nodes[i]? = some n)
    (k : NodeKind) (place : Nat) (children : Array NodeId) (data : NodeData) :
    (f.addNode k place children data).2.nodes[i]? = some (adopt children f.size i n) := by
  rw [getElem?_addNode_of_any, if_neg (lt_size_of_getElem? h).ne, h, Option.map_some]

/-- The new node has the data that it is given. -/
theorem data_addNode (f : Forest) (k : NodeKind) (place : Nat) (children : Array NodeId)
    (data : NodeData) : (f.addNode k place children data).2.data (some f.size) = data := by
  have hget := getElem?_addNode_of_any f k place children data f.size
  rw [if_pos rfl, Option.map_some] at hget
  rw [data_of_getElem? hget, adopt_data]

/-- It has the kind that it is given. -/
theorem kind?_addNode (f : Forest) (k : NodeKind) (place : Nat) (children : Array NodeId)
    (data : NodeData) :
    (f.addNode k place children data).2.kind? (some f.size) = some (.node k) := by
  have hget := getElem?_addNode_of_any f k place children data f.size
  rw [if_pos rfl, Option.map_some] at hget
  rw [kind?_of_getElem? hget, adopt_kind]

/-- It has the children that it is given. -/
theorem children_addNode (f : Forest) (k : NodeKind) (place : Nat) (children : Array NodeId)
    (data : NodeData) : (f.addNode k place children data).2.children (some f.size) = children := by
  have hget := getElem?_addNode_of_any f k place children data f.size
  rw [if_pos rfl, Option.map_some] at hget
  rw [children_of_getElem? hget, adopt_children]

/-- Accesses link what they did before. -/
theorem link?_addNode {f : Forest} {i : NodeId} {l : NodeId × NodeId} (h : f.link? i = some l)
    (k : NodeKind) (place : Nat) (children : Array NodeId) (data : NodeData) :
    (f.addNode k place children data).2.link? i = some l := by
  obtain ⟨n, hn, hlink⟩ := exists_of_link? h
  rw [link?, data_of_getElem? (getElem?_addNode_of_lt hn k place children data), adopt_data, hlink]

/-- Chains of names are still such. -/
theorem IsPath.addNode {f : Forest} {i : NodeId} (h : f.IsPath i) (k : NodeKind) (place : Nat)
    (children : Array NodeId) (data : NodeData) :
    (f.addNode k place children data).2.IsPath i := by
  induction h with
  | name h =>
    obtain ⟨n, hn, hkind⟩ := exists_of_kind? h
    refine .name ?_
    rw [kind?_of_getElem? (getElem?_addNode_of_lt hn k place children data), adopt_kind, hkind]
  | link h _ ih => exact .link (link?_addNode h k place children data) ih

theorem size_addLeaf (f : Forest) (k : TokenKind) (span : Span) (leading text value : String) :
    (f.addLeaf k span leading text value).2.size = f.size + 1 := Array.size_push _

theorem size_addNode (f : Forest) (k : NodeKind) (place : Nat) (children : Array NodeId)
    (data : NodeData) : (f.addNode k place children data).2.size = f.size + 1 := by
  have hs (g : Node → Node) (cs : List NodeId) (nodes : Array Node) :
      (cs.foldl (fun nodes c => nodes.modify c g) nodes).size = nodes.size := by
    induction cs generalizing nodes with
    | nil => rfl
    | cons c cs ih => rw [List.foldl_cons, ih, Array.size_modify]
  simp only [addNode, size, ← Array.foldl_toList]
  rw [hs, Array.size_push]

/-- Only the node that is meant is changed. -/
theorem getElem?_modify (f : Forest) (id : NodeId) (change : Node → Node) (i : NodeId) :
    (f.modify id change).nodes[i]? =
      if id = i then (f.nodes[i]?).map change else f.nodes[i]? := Array.getElem?_modify

/-- A change adds no node. -/
theorem size_modify (f : Forest) (id : NodeId) (change : Node → Node) :
    (f.modify id change).size = f.size := Array.size_modify

end Forest

end KotlinTree
