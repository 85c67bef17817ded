import Mathlib.Data.List.Pairwise
import KotlinTree.Proofs.Grammar.Placement
import KotlinTree.Proofs.Syntax.Tree
import KotlinTree.Scope.File

/-!
Where trees lie in the source: a node lies over all that is inside it, and nodes of which neither is inside
the other lie one after the other. Main statements: what is inside one of several trees that lie apart is
told from what is inside another by where it lies, if it lies over anything; the walk through a tree comes
to the nodes that can be reached along children and to nothing else, to each of them once, to a node before
what is beneath it, and to what lies apart in the order of the source.
-/

namespace KotlinTree

namespace Span

/-- One stretch lies in another. -/
def Within (a b : Span) : Prop := b.start ≤ a.start ∧ a.stop ≤ b.stop

/-- One stretch ends before the other begins. -/
def Apart (a b : Span) : Prop := a.stop ≤ b.start ∨ b.stop ≤ a.start

/-- There is something between the ends. -/
def Filled (a : Span) : Prop := a.start < a.stop

variable {a b c d : Span}

theorem Within.refl (a : Span) : a.Within a := ⟨le_rfl, le_rfl⟩

theorem Within.trans (h : a.Within b) (h' : b.Within c) : a.Within c :=
  ⟨h'.1.trans h.1, h.2.trans h'.2⟩

theorem Filled.mono (ha : a.Filled) (h : a.Within b) : b.Filled :=
  (h.1.trans_lt ha).trans_le h.2

theorem Apart.symm (h : a.Apart b) : b.Apart a := Or.symm h

theorem Apart.mono (h : c.Apart d) (ha : a.Within c) (hb : b.Within d) : a.Apart b := by
  rcases h with h | h
  · exact Or.inl (ha.2.trans (h.trans hb.1))
  · exact Or.inr (hb.2.trans (h.trans ha.1))

/-- Stretches that lie apart begin at different places, if there is something in each. -/
theorem Apart.start_ne (h : a.Apart b) (ha : a.Filled) (hb : b.Filled) : a.start ≠ b.start := by
  unfold Filled at ha hb
  rcases h with h | h <;> omega

/-- What lies apart from a part of a stretch and in the stretch makes the two differ. -/
theorem ne_of_within_apart (hc : c.Within b) (hf : c.Filled) (h : a.Apart c) : a ≠ b := by
  rintro rfl
  have h : c.Apart c := h.mono hc (.refl c)
  exact h.start_ne hf hf rfl

end Span

namespace Forest

/-- A node lies over something. -/
def Filled (f : Forest) (id : NodeId) : Prop := (f.span (some id)).Filled

/-- Two trees have no node in common, and all that is in one lies before or after all that is in the
other. -/
structure Apart (f : Forest) (a b : NodeId) : Prop where
  trees : ∀ x, f.Inside a x → ¬ f.Inside b x
  spans : ∀ x y, f.Inside a x → f.Inside b y → (f.span (some x)).Apart (f.span (some y))

variable {source : String} {f : Forest} {a b c p root x y : NodeId}

theorem Apart.symm (h : f.Apart a b) : f.Apart b a :=
  ⟨fun x hb ha => h.trees x ha hb, fun x y hb ha => (h.spans y x ha hb).symm⟩

theorem Apart.inside (h : f.Apart a b) (hx : f.Inside a x) (hy : f.Inside b y) : f.Apart x y where
  trees _ hz hz' := h.trees _ (hx.trans hz) (hy.trans hz')
  spans _ _ hz hz' := h.spans _ _ (hx.trans hz) (hy.trans hz')

/-- Nodes in different trees begin at different places, if they lie over something. -/
theorem Apart.start_ne (h : f.Apart a b) (hx : f.Inside a x) (hy : f.Inside b y) (hfx : f.Filled x)
    (hfy : f.Filled y) : (f.span (some x)).start ≠ (f.span (some y)).start :=
  (h.spans x y hx hy).start_ne hfx hfy

/-- A child stands among the children of its parent. -/
theorem Linked.mem_children_of_isChild (hf : f.Linked) (h : f.IsChild c p) :
    c ∈ f.children (some p) := by
  obtain ⟨n, hn, hpar⟩ := exists_of_isChild h
  exact (hf c n hn).owned p hpar

/-- A child lies in its parent, since the first child starts it and the last one ends it. -/
theorem Placed.span_child (hp : f.Placed source) (hf : f.Linked) (h : f.IsChild c p) :
    (f.span (some c)).Within (f.span (some p)) := by
  obtain ⟨m, hm, hc⟩ := hf.exists_parent h
  have hat := hp p m hm
  have hforward {d : NodeId} (hd : d ∈ m.children.toList) :
      (f.span (some d)).start ≤ (f.span (some d)).stop := by
    obtain ⟨n, hn⟩ := exists_getElem? (hf.child_lt_size hm d (Array.mem_toList_iff.mp hd))
    rw [span_of_getElem? hn]
    exact (hp d n hn).forward
  rw [span_of_getElem? hm]
  rw [← Array.mem_toList_iff] at hc
  -- Siblings do not overlap: a child starts where the first does or later, and stops where the last
  -- does or sooner.
  constructor
  · obtain ⟨first, rest, hl⟩ := List.exists_cons_of_ne_nil (List.ne_nil_of_mem hc)
    have hfirst := hat.first first (by rw [← Array.getElem?_toList, hl]; rfl)
    have hapart := hat.apart
    rw [hl, List.pairwise_cons] at hapart
    rw [hfirst]
    rw [hl] at hc
    rcases List.mem_cons.mp hc with rfl | hrest
    · exact le_rfl
    · exact (hforward (hl ▸ List.mem_cons_self)).trans (hapart.1 c hrest)
  · obtain hnil | ⟨front, last, hl⟩ := List.eq_nil_or_concat' m.children.toList
    · rw [hnil] at hc
      exact absurd hc List.not_mem_nil
    · have hlast := hat.last last (by rw [← Array.getLast?_toList, hl, List.getLast?_concat])
      have hapart := hat.apart
      rw [hl, List.pairwise_append] at hapart
      rw [hlast]
      rw [hl] at hc
      rcases List.mem_append.mp hc with hfront | hc
      · have hmem : last ∈ m.children.toList := hl ▸ List.mem_append_right _ (List.mem_singleton_self _)
        exact (hapart.2.2 c hfront last (List.mem_singleton_self last)).trans (hforward hmem)
      · rw [List.mem_singleton.mp hc]

/-- What is inside a node lies within its place. -/
theorem Placed.span_inside (hp : f.Placed source) (hf : f.Linked) (h : f.Inside p x) :
    (f.span (some x)).Within (f.span (some p)) := by
  induction h with
  | refl => exact .refl _
  | tail _ hc ih => exact ih.trans (hp.span_child hf hc)

/-- A node that holds something that is not empty is not empty. -/
theorem Placed.filled_of_inside (hp : f.Placed source) (hf : f.Linked) (hx : f.Filled x)
    (h : f.Inside p x) : f.Filled p :=
  Span.Filled.mono hx (hp.span_inside hf h)

/-- A token lies over its text, and only the end of the file has none. -/
theorem Placed.filled_of_token (hp : f.Placed source) {k : TokenKind}
    (hk : f.kind? (some x) = some (.token k)) (hend : k ≠ .endOfFile) : f.Filled x := by
  obtain ⟨n, hn, hkind⟩ := exists_of_kind? hk
  unfold Filled
  rw [span_of_getElem? hn]
  exact (hp x n hn).filled k hkind hend

/-- Two children of a node have neither nodes nor places in common. -/
theorem Placed.apart_of_children (hp : f.Placed source) (hf : f.Linked)
    (ha : a ∈ f.children (some p)) (hb : b ∈ f.children (some p)) (hab : a ≠ b) : f.Apart a b where
  trees _ hx := hf.not_inside_sibling ha hb hab hx
  spans x y hx hy := by
    refine Span.Apart.mono ?_ (hp.span_inside hf hx) (hp.span_inside hf hy)
    obtain ⟨m, hm, hmem⟩ := hf.exists_parent (hf.isChild_of_mem_children ha)
    rw [children_of_getElem? hm, ← Array.mem_toList_iff] at ha hb
    have hpair : m.children.toList.Pairwise fun c d => (f.span (some c)).Apart (f.span (some d)) :=
      (hp p m hm).apart.imp Or.inl
    have : Std.Symm fun c d => (f.span (some c)).Apart (f.span (some d)) := ⟨fun _ _ h => h.symm⟩
    exact hpair.forall ha hb hab

theorem Placed.children_apart (hp : f.Placed source) (hf : f.Linked) (p : NodeId) :
    (f.children (some p)).toList.Pairwise f.Apart :=
  (hf.children_nodup p).imp_of_mem fun ha hb hab =>
    hp.apart_of_children hf (Array.mem_toList_iff.mp ha) (Array.mem_toList_iff.mp hb) hab

/-- From one node upwards: as soon as the other is inside what is above, it is so in another child,
and children lie apart. -/
theorem Placed.apart_of_not_inside (hp : f.Placed source) (hf : f.Linked) (hx : f.Inside root x)
    (hy : f.Inside root y) (hxy : ¬ f.Inside x y) (hyx : ¬ f.Inside y x) : f.Apart x y := by
  induction hx with
  | refl => exact absurd hy hxy
  | @tail a top hxa hchild ih =>
    rcases Relation.ReflTransGen.cases_tail hy with rfl | ⟨b, hyb, hb⟩
    · exact absurd (hxa.tail hchild) hyx
    · by_cases hab : a = b
      · exact ih (hab ▸ hyb)
      · have hapart := hp.apart_of_children hf (hf.mem_children_of_isChild hchild)
          (hf.mem_children_of_isChild hb) hab
        exact hapart.inside hxa hyb

/-- What is beneath a node and beside a child that lies over something is told from the node by where
it lies. -/
theorem Placed.span_ne_of_beneath (hp : f.Placed source) (hf : f.Linked) (hc : f.IsChild c x)
    (hfilled : f.Filled c) (hy : f.Beneath y x) (hcy : ¬ f.Inside c y) :
    f.span (some y) ≠ f.span (some x) := by
  obtain ⟨d, hyd, hd⟩ := Relation.TransGen.tail'_iff.mp hy
  have hne : d ≠ c := by
    rintro rfl
    exact hcy hyd
  have hapart := hp.apart_of_children hf (hf.mem_children_of_isChild hd)
    (hf.mem_children_of_isChild hc) hne
  have hspans := hapart.spans y c hyd (f.inside_self c)
  exact Span.ne_of_within_apart (hp.span_child hf hc) hfilled hspans

/-- What the data of a node refers to stands directly below it. -/
theorem Linked.isChild_of_mem_direct (hf : f.Linked) {d : NodeData} (hd : f.data (some x) = d)
    (h : c ∈ d.direct) : f.IsChild c x :=
  hf.isChild_of_mem_children (hf.mem_children_of_mem_direct hd h)

/-- The point of an access tells whether the access is null-safe. -/
theorem Linked.kind?_operator (hf : f.Linked) {d : Access} (hd : f.data (some x) = .access d) :
    f.kind? (some d.operator) = some (.token (if d.isNullSafe then .questionDot else .dot)) := by
  obtain ⟨k, hk, hkind⟩ := hf.exists_role hd List.mem_cons_self
  rw [hkind, List.mem_singleton.mp hk]

/-- The point of an access is there, and so the access lies over it. -/
theorem Placed.filled_operator (hp : f.Placed source) (hf : f.Linked) {d : Access}
    (hd : f.data (some x) = .access d) : f.Filled d.operator := by
  refine hp.filled_of_token (hf.kind?_operator hd) ?_
  cases d.isNullSafe <;> decide

theorem Linked.isChild_operator (hf : f.Linked) {d : Access} (hd : f.data (some x) = .access d) :
    f.IsChild d.operator x :=
  hf.isChild_of_mem_direct hd (List.mem_cons_of_mem _ List.mem_cons_self)

/-- An access has an operator, which is written. -/
theorem Placed.filled_access (hp : f.Placed source) (hf : f.Linked) {d : Access}
    (hd : f.data (some x) = .access d) : f.Filled x :=
  hp.filled_of_inside hf (hp.filled_operator hf hd) (.single (hf.isChild_operator hd))

/-- What stands for a receiver lies over its keyword. -/
theorem Placed.filled_self (hp : f.Placed source) (hf : f.Linked) {d : SelfReference}
    (hd : f.data (some x) = .selfReference d) : f.Filled x := by
  obtain ⟨k, hk, hkind⟩ := hf.exists_role hd (List.mem_singleton_self _)
  have hfilled : f.Filled d.keyword := by
    rcases List.mem_pair.mp hk with rfl | rfl
    · exact hp.filled_of_token hkind (by decide)
    · exact hp.filled_of_token hkind (by decide)
  exact hp.filled_of_inside hf hfilled
    (.single (hf.isChild_of_mem_direct hd (List.mem_singleton_self _)))

/-- A receiver is a keyword, which is written. -/
theorem Placed.filled_receiver (hp : f.Placed source) (hf : f.Linked) {k : NodeKind}
    (hk : f.kind? (some x) = some (.node k)) (h : k = .thisExpression ∨ k = .superExpression) :
    f.Filled x := by
  have hkinds := hf.mem_kinds hk
  cases hd : f.data (some x) with
  | selfReference reference => exact hp.filled_self hf hd
  | typeOperation operation => grind [NodeData.kinds]
  | _ => rcases h with rfl | rfl <;> simp [hd, NodeData.kinds] at hkinds

/-- An identifier is written. -/
theorem Placed.filled_name (hp : f.Placed source)
    (hk : f.kind? (some x) = some (.token .identifier)) : f.Filled x :=
  hp.filled_of_token hk (by decide)

/-- The name of an access is a child beside what the access is on. -/
theorem Placed.access_name (hp : f.Placed source) (hf : f.Linked) {access : Access}
    (hd : f.data (some x) = .access access) {name : NodeId} (hname : access.name = some name) :
    f.Filled name ∧ f.Inside x name ∧ f.Apart access.expression name := by
  have hdirect : (NodeData.access access).direct = [access.expression, access.operator, name] := by
    simp [NodeData.direct, hname]
  have hrole : (name, [Kind.token .identifier]) ∈ (NodeData.access access).roles := by
    simp [NodeData.roles, hname]
  obtain ⟨k, hk, hkind⟩ := hf.exists_role hd hrole
  rw [List.mem_singleton.mp hk] at hkind
  have hmem := hf.mem_children_of_mem_direct hd (a := name) (by simp [hdirect])
  have hexpression := hf.mem_children_of_mem_direct hd (a := access.expression) (by simp [hdirect])
  have hne : access.expression ≠ name := by
    have hnodup := hf.direct_nodup hd
    rw [hdirect, List.nodup_cons] at hnodup
    rintro he
    exact hnodup.1 (by simp [he])
  exact ⟨hp.filled_name hkind, hf.inside_of_mem_children hmem,
    hp.apart_of_children hf hexpression hmem hne⟩

/-- A chain of names lies over them. -/
theorem Placed.filled_chain (hp : f.Placed source) (hf : f.Linked) {segments : List String}
    (h : f.chainSegments? x = some segments) : f.Filled x := by
  unfold chainSegments? at h
  split at h
  · exact hp.filled_name ‹_›
  · split at h
    · exact hp.filled_access hf ‹_›
    · cases h

end Forest

end KotlinTree

namespace KotlinTree.Forest

/-- A node is reached from another along children. -/
def Reaches (f : Forest) : NodeId → NodeId → Prop :=
  Relation.ReflTransGen fun p c => c ∈ f.children (some p)

variable {source : String} {f : Forest} {a b p root x y : NodeId}

theorem Linked.isChild_iff_mem_children (hf : f.Linked) :
    f.IsChild a p ↔ a ∈ f.children (some p) :=
  ⟨hf.mem_children_of_isChild, hf.isChild_of_mem_children⟩

/-- Children know their parents, so that the way down is the way up. -/
theorem Linked.reaches_iff_inside (hf : f.Linked) : f.Reaches root x ↔ f.Inside root x := by
  have hswap : (fun p c => c ∈ f.children (some p)) = Function.swap f.IsChild := by
    funext p c
    exact propext hf.isChild_iff_mem_children.symm
  unfold Reaches
  rw [hswap, Relation.reflTransGen_swap]
  rfl

/-- A walk over a tree comes to its root, and then goes over the trees of the children. -/
theorem Linked.preorder_eq (hf : f.Linked) (hroot : root < f.size) :
    f.preorder root = root :: (f.children (some root)).toList.flatMap f.preorder := by
  obtain ⟨n, hn⟩ := exists_getElem? hroot
  rw [Forest.preorder_eq hn (hf root n hn).below, children_of_getElem? hn]

theorem Linked.lt_size_of_isChild (hf : f.Linked) (h : f.IsChild a p) : a < f.size ∧ p < f.size := by
  obtain ⟨n, hn, -⟩ := exists_of_isChild h
  obtain ⟨m, hm, -⟩ := hf.exists_parent h
  exact ⟨lt_size_of_getElem? hn, lt_size_of_getElem? hm⟩

/-- A walk over a tree comes to the nodes in it. -/
theorem Linked.mem_preorder (hf : f.Linked) (hroot : root < f.size) :
    x ∈ f.preorder root ↔ f.Inside root x := by
  induction root using Nat.strongRecOn with
  | ind root ih =>
    rw [hf.preorder_eq hroot, List.mem_cons, List.mem_flatMap]
    constructor
    · rintro (rfl | ⟨c, hc, hx⟩)
      · exact f.inside_self x
      · have hchild := hf.isChild_of_mem_children (Array.mem_toList_iff.mp hc)
        have hin := (ih c (hf.lt_of_isChild hchild) (hf.lt_size_of_isChild hchild).1).mp hx
        exact hin.tail hchild
    · intro h
      rcases Relation.ReflTransGen.cases_tail h with rfl | ⟨c, hx, hchild⟩
      · exact Or.inl rfl
      · refine Or.inr ⟨c, Array.mem_toList_iff.mpr (hf.mem_children_of_isChild hchild), ?_⟩
        exact (ih c (hf.lt_of_isChild hchild) (hf.lt_size_of_isChild hchild).1).mpr hx

/-- Siblings have no node in common, so no node is met twice. -/
theorem Linked.preorder_nodup (hf : f.Linked) (hroot : root < f.size) : (f.preorder root).Nodup := by
  induction root using Nat.strongRecOn with
  | ind root ih =>
    rw [hf.preorder_eq hroot, List.nodup_cons, List.nodup_flatMap]
    have hchild {c : NodeId} (hc : c ∈ (f.children (some root)).toList) :
        f.IsChild c root ∧ c < f.size := by
      have h := hf.isChild_of_mem_children (Array.mem_toList_iff.mp hc)
      exact ⟨h, (hf.lt_size_of_isChild h).1⟩
    refine ⟨?_, fun c hc => ih c (hf.lt_of_isChild (hchild hc).1) (hchild hc).2, ?_⟩
    · rw [List.mem_flatMap]
      rintro ⟨c, hc, hmem⟩
      have hin := (hf.mem_preorder (hchild hc).2).mp hmem
      exact absurd (hf.le_of_inside hin) (Nat.not_le_of_lt (hf.lt_of_isChild (hchild hc).1))
    · refine (hf.children_nodup root).imp_of_mem fun {a b} ha hb hab x hxa hxb => ?_
      rw [hf.mem_preorder (hchild ha).2] at hxa
      rw [hf.mem_preorder (hchild hb).2] at hxb
      exact hf.not_inside_sibling (Array.mem_toList_iff.mp ha) (Array.mem_toList_iff.mp hb) hab hxa hxb

/-- The walk through a part is part of the walk. -/
theorem Linked.preorder_sublist (hf : f.Linked) (h : f.Inside root x) :
    (f.preorder x).Sublist (f.preorder root) := by
  induction h with
  | refl => exact List.Sublist.refl _
  | @tail c p _ hc ih =>
    rw [hf.preorder_eq (hf.lt_size_of_isChild hc).2]
    have hmem := Array.mem_toList_iff.mpr (hf.mem_children_of_isChild hc)
    exact ih.trans ((List.sublist_flatten_of_mem (List.mem_map_of_mem hmem)).cons p)

/-- What is beneath a node comes after it. -/
theorem Linked.before_of_beneath (hf : f.Linked) (h : f.Inside root x) (hy : f.Beneath y x) :
    [x, y].Sublist (f.preorder root) := by
  refine List.Sublist.trans ?_ (hf.preorder_sublist h)
  obtain ⟨c, hyc, hc⟩ := Relation.TransGen.tail'_iff.mp hy
  obtain ⟨hcs, hxs⟩ := hf.lt_size_of_isChild hc
  rw [hf.preorder_eq hxs, List.cons_sublist_cons, List.singleton_sublist, List.mem_flatMap]
  refine ⟨c, Array.mem_toList_iff.mpr (hf.mem_children_of_isChild hc), ?_⟩
  exact (hf.mem_preorder hcs).mpr hyc

/-- Children are met in their order, each with all that is beneath it before the next. -/
theorem Linked.children_sublist (hf : f.Linked) (h : f.Inside root p) :
    (f.children (some p)).toList.Sublist (f.preorder root) := by
  cases hn : f.nodes[p]? with
  | none => simp [children, node?, hn]
  | some n =>
    refine List.Sublist.trans ?_ (hf.preorder_sublist h)
    rw [hf.preorder_eq (lt_size_of_getElem? hn)]
    refine List.Sublist.cons p ?_
    have hroots (cs : List NodeId) (hcs : ∀ c ∈ cs, c < f.size) : cs.Sublist (cs.flatMap f.preorder) := by
      induction cs with
      | nil => exact List.Sublist.refl []
      | cons c cs ih =>
        have hfirst : [c].Sublist (f.preorder c) := by
          rw [List.singleton_sublist, hf.mem_preorder (hcs c List.mem_cons_self)]
          exact f.inside_self c
        exact hfirst.append (ih fun d hd => hcs d (List.mem_cons_of_mem c hd))
    refine hroots _ fun c hc => ?_
    rw [children_of_getElem? hn, Array.mem_toList_iff] at hc
    exact hf.child_lt_size hn c hc

/-- The walk follows the source: what comes after a node is beneath it or lies after it. -/
theorem Placed.preorder_pairwise (hp : f.Placed source) (hf : f.Linked) (hroot : root < f.size) :
    (f.preorder root).Pairwise fun x y =>
      f.Beneath y x ∨ (f.span (some x)).stop ≤ (f.span (some y)).start := by
  induction root using Nat.strongRecOn with
  | ind root ih =>
    obtain ⟨n, hn⟩ := exists_getElem? hroot
    have hchild {c : NodeId} (hc : c ∈ (f.children (some root)).toList) :
        f.IsChild c root ∧ c < f.size := by
      have h := hf.isChild_of_mem_children (Array.mem_toList_iff.mp hc)
      exact ⟨h, (hf.lt_size_of_isChild h).1⟩
    rw [hf.preorder_eq hroot, List.pairwise_cons, List.pairwise_flatMap]
    refine ⟨?_, fun c hc => ih c (hf.lt_of_isChild (hchild hc).1) (hchild hc).2, ?_⟩
    -- A node comes before what is below it; of two children, the first ends before the second starts.
    · intro y hy
      obtain ⟨c, hc, hyc⟩ := List.mem_flatMap.mp hy
      rw [hf.mem_preorder (hchild hc).2] at hyc
      exact Or.inl (Relation.TransGen.tail' hyc (hchild hc).1)
    · have hapart := (hp root n hn).apart
      rw [← children_of_getElem? hn] at hapart
      refine hapart.imp_of_mem fun {a b} ha hb hab x hx y hy => Or.inr ?_
      rw [hf.mem_preorder (hchild ha).2] at hx
      rw [hf.mem_preorder (hchild hb).2] at hy
      calc
        (f.span (some x)).stop ≤ (f.span (some a)).stop := (hp.span_inside hf hx).2
        _ ≤ (f.span (some b)).start := hab
        _ ≤ (f.span (some y)).start := (hp.span_inside hf hy).1

end KotlinTree.Forest
