import KotlinTree.Proofs.Grammar.Primitive
import KotlinTree.Proofs.RoundTrip
import KotlinTree.Proofs.Syntax.Span
import KotlinTree.Proofs.Token.Partition
import KotlinTree.Proofs.WellFormed

/-!
Where a tree lies and what it prints, kept apart by the parse, agree: a tree of a source that is
printed in full prints the trivia before it and then the source between the ends of its span.
-/

namespace KotlinTree

/-- Each leaf is made of a token that begins where the text of the nodes before it ends. -/
def Forest.Aligned (f : Forest) : Prop :=
  ∀ i leaf, f.leaf? (some i) = some leaf →
    ∃ k t, f.IsLeafOf i k t ∧ t.start = (f.written (List.range i)).utf8ByteSize

/-- An older leaf stays where it is when the forest grows. -/
theorem Forest.Aligned.old {f g : Forest} {i : NodeId} {leaf : Leaf} (hf : f.Aligned)
    (hx : f.Extends g) (hi : i < f.size) (hl : g.leaf? (some i) = some leaf) :
    ∃ k t, g.IsLeafOf i k t ∧ t.start = (g.written (List.range i)).utf8ByteSize := by
  rw [hx.leaf? i hi] at hl
  obtain ⟨k, t, ht, hstart⟩ := hf i leaf hl
  refine ⟨k, t, ht.grown hx, ?_⟩
  rw [hx.written fun j hj => (List.mem_range.mp hj).trans hi]
  exact hstart

namespace Grammar

section
variable {source : String} {s s' : State} {ps : List Piece}

/-- The leaves and the tokens ahead say the source between them, and its tokens cut it. -/
def Continues (source : String) (f : Forest) (ts : List Token) : Prop :=
  Ahead source ts ∧ f.text ++ String.join (ts.map Token.written) = source

theorem Builds.continues (h : Builds s ps s') (hf : s.forest.Linked)
    (hs : Continues source s.forest s.tokens) : Continues source s'.forest s'.tokens :=
  ⟨h.ahead hs.1, (h.text hf).trans hs.2⟩

/-- The current token begins where the text of the leaves ends. -/
theorem Continues.start_eq (h : Continues source s.forest s.tokens) :
    s.current.start = s.forest.text.utf8ByteSize := by
  obtain ⟨⟨front, rest, hsource, hcuts⟩, htext⟩ := h
  rw [hcuts.written_eq, ← hsource] at htext
  rw [(String.append_left_inj rest).mp htext]
  exact hcuts.start_of_mem_head? s.current rfl

theorem Continues.aligned_leafed (h : Continues source s.forest s.tokens) (hs : s.forest.Aligned)
    (k : TokenKind) : (s.leafed k).Aligned := by
  have hx : s.forest.Extends (s.leafed k) := Forest.extends_addLeaf _ _ _ _ _ _
  intro i leaf hl
  have hlt : i < s.forest.size + 1 :=
    lt_of_lt_of_eq (Forest.lt_size_of_leaf? hl) (Forest.size_addLeaf _ _ _ _ _ _)
  rcases Nat.lt_succ_iff_lt_or_eq.mp hlt with hi | rfl
  · exact hs.old hx hi hl
  · refine ⟨k, s.current, s.isLeafOf_leafed k, ?_⟩
    rw [h.start_eq, hx.written fun j hj => List.mem_range.mp hj]
    rfl

/-- A run makes a leaf of each token that it takes, where the text so far ends. -/
theorem Builds.aligned (h : Builds s ps s') (hf : s.forest.Linked)
    (hc : Continues source s.forest s.tokens) (hs : s.forest.Aligned) : s'.forest.Aligned := by
  refine h.forest_induction_along (Q := Continues source) (fun hb hf => hb.continues hf)
    (fun s k hc hs => hc.aligned_leafed hs k) ?_ hf hc hs
  intro f g hx _ hnew hs i leaf hl
  rcases Nat.lt_or_ge i f.size with hi | hi
  · exact hs.old hx hi hl
  · exact nomatch (hnew i hi).symm.trans hl

end

end Grammar

theorem ParsedUnit.ofSource_aligned (fileName source : String) :
    (ParsedUnit.ofSource fileName source).forest.Aligned := by
  obtain ⟨s, q, hb, -, hforest, -⟩ := Grammar.ofSource_builds fileName source
  have hempty := Grammar.forest_ofSource fileName source
  rw [← hforest]
  have hcontinues : Grammar.Continues source (Grammar.State.ofSource fileName source).forest
      (Grammar.State.ofSource fileName source).tokens := by
    refine ⟨Grammar.ahead_ofSource fileName source, ?_⟩
    rw [hempty, Grammar.tokens_ofSource]
    exact String.empty_append.trans (Token.ofSource_cuts source).written_eq
  refine hb.aligned (hempty ▸ Forest.linked_empty) hcontinues ?_
  rw [hempty]
  intro i leaf hl
  exact absurd (Forest.lt_size_of_leaf? hl) (Nat.not_lt_zero i)

namespace Forest

/-- All inner nodes of a tree have children. -/
def Full (f : Forest) (i : NodeId) : Prop :=
  ∀ j k, f.Reaches i j → f.kind? (some j) = some (.node k) → f.children (some j) ≠ #[]

/-- A tree lies after the text of the nodes before it, without the trivia that its own text begins
with, up to where its text ends. -/
structure LiesAfter (f : Forest) (before : List NodeId) (i : NodeId) : Prop where
  start : (f.span (some i)).start =
    (f.written before).utf8ByteSize + (f.leading (some i)).utf8ByteSize
  stop : (f.span (some i)).stop =
    (f.written before).utf8ByteSize + (f.written (f.postorder i)).utf8ByteSize
  begins : ∃ said, f.written (f.postorder i) = f.leading (some i) ++ said

section
variable {source : String} {f : Forest} {i c p : NodeId} {k : NodeKind} {before after : List NodeId}

theorem Full.child (h : f.Full p) (hc : c ∈ f.children (some p)) : f.Full c :=
  fun j k hj hk => h j k (Relation.ReflTransGen.head hc hj) hk

/-- A leaf, or a node with children. -/
def isFilled (f : Forest) (i : NodeId) : Bool :=
  match f.kind? (some i) with
  | some (.node _) => !(f.children (some i)).isEmpty
  | _ => true

/-- All that is in a tree has been made before its root. -/
theorem Linked.full_of_isFilled (hf : f.Linked) (h : ∀ j ≤ i, f.isFilled j = true) : f.Full i := by
  intro j k hj hk hempty
  have hmade := h j (hf.le_of_inside (hf.reaches_iff_inside.mp hj))
  simp [isFilled, hk, hempty] at hmade

/-- A composite begins with the trivia of its first child. -/
theorem leading_of_first (hf : f.Linked) (hk : f.kind? (some p) = some (.node k))
    (hc : (f.children (some p))[0]? = some c) : f.leading (some p) = f.leading (some c) := by
  obtain ⟨n, hn, hkind⟩ := exists_of_kind? hk
  rw [children_of_getElem? hn] at hc
  have hlt : c < p := (hf p n hn).below c (Array.mem_of_getElem? hc)
  unfold leading
  rw [Option.bind_some, Option.bind_some, firstLeaf?]
  simp only [hn, hkind, hc, dif_pos hlt]

theorem leading_of_leaf {leaf : Leaf} {k : TokenKind} (hk : f.kind? (some i) = some (.token k))
    (hl : f.leaf? (some i) = some leaf) : f.leading (some i) = leaf.leading := by
  obtain ⟨n, hn, hkind⟩ := exists_of_kind? hk
  unfold leading
  rw [Option.bind_some, firstLeaf?]
  simp only [hn, hkind, hl, Option.map_some, Option.getD_some]

theorem Linked.postorder_leaf (hf : f.Linked) {k : TokenKind}
    (hk : f.kind? (some i) = some (.token k)) : f.postorder i = [i] := by
  obtain ⟨n, hn, hkind⟩ := exists_of_kind? hk
  obtain ⟨leaf, hleaf⟩ := hf.exists_leaf hk
  have hnone : n.children = #[] := by
    refine (hf i n hn).leaf.resolve_left ?_
    rw [← data_of_getElem? hn, hleaf]
    exact Option.some_ne_none leaf
  rw [postorder_eq hn (hf i n hn).below, hnone]
  rfl

/-- The nodes before one in a list of all are those made before it. -/
theorem eq_range_of_append (h : before ++ i :: after = List.range f.size) :
    before = List.range i := by
  have hlength := congrArg List.length h
  rw [List.length_append, List.length_cons, List.length_range] at hlength
  have hi : before.length = i := by
    have hget := congrArg (fun l => l[before.length]?) h
    simp only [List.getElem?_append_right le_rfl, Nat.sub_self, List.getElem?_cons_zero] at hget
    rw [List.getElem?_range (by omega)] at hget
    exact (Option.some.inj hget).symm
  have htake := congrArg (List.take before.length) h
  rwa [List.take_left, List.take_range, min_eq_left (by omega), hi] at htake

/-- A leaf lies after the text of the nodes made before it. -/
theorem Aligned.liesAfter_leaf (ha : f.Aligned) (hf : f.Linked) {k : TokenKind}
    (hk : f.kind? (some i) = some (.token k)) (h : before ++ i :: after = List.range f.size) :
    f.LiesAfter before i := by
  obtain ⟨leaf, hdata⟩ := hf.exists_leaf hk
  have hl : f.leaf? (some i) = some leaf := by rw [leaf?_eq, hdata]; rfl
  obtain ⟨j, t, ht, hstart⟩ := ha i leaf hl
  obtain ⟨atom, hleaf⟩ := ht.leaf?
  have hbefore := eq_range_of_append h
  have hwritten : f.written (f.postorder i) = t.leading ++ t.text := by
    rw [hf.postorder_leaf hk, written_singleton, hleaf]
    rfl
  have hleading : f.leading (some i) = t.leading := leading_of_leaf hk hleaf
  refine ⟨?_, ?_, t.text, ?_⟩
  · rw [ht.span, hbefore, hleading, ← hstart]
    rfl
  · rw [ht.span, hbefore, hwritten, ← hstart]
    exact Token.stop_eq t
  · rw [hwritten, hleading]

/-- The first of the children of a node, and the last of them, with the others before it. -/
theorem Linked.postorder_ends (hf : f.Linked) (hp : p < f.size) (hne : f.children (some p) ≠ #[]) :
    ∃ a b initial others, (f.children (some p))[0]? = some a ∧
      (f.children (some p)).back? = some b ∧
      f.postorder p = f.postorder a ++ others ∧
      f.postorder p = initial ++ f.postorder b ++ [p] := by
  obtain ⟨n, hn⟩ := exists_getElem? hp
  rw [children_of_getElem? hn] at hne ⊢
  rw [postorder_eq hn (hf p n hn).below]
  generalize n.children = children at hne
  obtain ⟨cs⟩ := children
  obtain ⟨a, rest, rfl⟩ := List.exists_cons_of_ne_nil fun he : cs = [] => hne (by rw [he])
  obtain ⟨initial, b, hlast⟩ := List.eq_nil_or_concat' (a :: rest) |>.resolve_left (by simp)
  refine ⟨a, b, initial.flatMap f.postorder, rest.flatMap f.postorder ++ [p], rfl, ?_, ?_, ?_⟩
  · rw [List.back?_toArray, hlast, List.getLast?_concat]
  · rw [List.flatMap_cons, List.append_assoc]
  · rw [hlast, List.flatMap_append, List.flatMap_singleton]

/-- A composite lies where its children do, from the first to the last. -/
theorem Placed.liesAfter_node (hp : f.Placed source) (hf : f.Linked)
    (hk : f.kind? (some p) = some (.node k)) (hne : f.children (some p) ≠ #[])
    (hchild : ∀ c ∈ f.children (some p), ∀ front back,
      front ++ f.postorder c ++ back = List.range f.size → f.LiesAfter front c)
    (h : before ++ f.postorder p ++ after = List.range f.size) : f.LiesAfter before p := by
  obtain ⟨n, hn, hkind⟩ := exists_of_kind? hk
  have hleaf : f.leaf? (some p) = none := by
    have hnone := (hf p n hn).leaf.resolve_right (children_of_getElem? hn ▸ hne)
    rw [leaf?_of_getElem? hn, hnone]
  obtain ⟨a, b, initial, others, hfirst, hlast, ha, hb⟩ :=
    hf.postorder_ends (lt_size_of_getElem? hn) hne
  have hla := hchild a (Array.mem_of_getElem? hfirst) before (others ++ after) (by
    rw [← h, ha]
    simp only [List.append_assoc])
  have hlb := hchild b (Array.mem_of_back? hlast) (before ++ initial) ([p] ++ after) (by
    rw [← h, hb]
    simp only [List.append_assoc])
  have hleading := leading_of_first hf hk hfirst
  rw [children_of_getElem? hn] at hfirst hlast
  refine ⟨?_, ?_, ?_⟩
  · rw [span_of_getElem? hn, (hp p n hn).first a hfirst, hla.start, hleading]
  · -- The composite itself says nothing.
    rw [span_of_getElem? hn, (hp p n hn).last b hlast, hlb.stop, hb]
    simp only [written_append, written_singleton, hleaf, String.utf8ByteSize_append]
    simp [Nat.add_assoc]
  · obtain ⟨said, hsaid⟩ := hla.begins
    refine ⟨said ++ f.written others, ?_⟩
    rw [ha, written_append, hsaid, hleading, String.append_assoc]

/-- By induction on the tree: leaves lie where their text does, and composites where children do. -/
theorem Aligned.liesAfter (ha : f.Aligned) (hf : f.Linked) (hp : f.Placed source) (hi : f.Full i)
    (hs : i < f.size) (h : before ++ f.postorder i ++ after = List.range f.size) :
    f.LiesAfter before i := by
  induction i using Nat.strongRecOn generalizing before after with
  | ind i ih =>
    obtain ⟨n, hn⟩ := exists_getElem? hs
    have hkind := kind?_of_getElem? hn
    cases hk : n.kind with
    | token k =>
      rw [hk] at hkind
      rw [hf.postorder_leaf hkind, List.append_assoc] at h
      exact ha.liesAfter_leaf hf hkind h
    | node k =>
      rw [hk] at hkind
      refine hp.liesAfter_node hf hkind (hi i k .refl hkind) ?_ h
      intro c hc front back hfront
      have hchild := hf.isChild_of_mem_children hc
      exact ih c (hf.lt_of_isChild hchild) (hi.child hc) (hf.lt_size_of_isChild hchild).1 hfront

end

end Forest

/-- The walk through a part of a tree is a stretch of the walk through the tree. -/
theorem Forest.Linked.postorder_infix {f : Forest} {root i : NodeId} (hf : f.Linked)
    (hi : f.Inside root i) : f.postorder i <:+: f.postorder root := by
  induction hi using Relation.ReflTransGen.head_induction_on with
  | refl => exact List.infix_rfl
  | @head c p hc _ ih =>
    obtain ⟨m, hm, hmem⟩ := hf.exists_parent hc
    refine List.IsInfix.trans ?_ ih
    rw [Forest.postorder_eq hm (hf p m hm).below]
    obtain ⟨left, right, hsplit⟩ := List.append_of_mem (Array.mem_toList_iff.mpr hmem)
    rw [hsplit, List.flatMap_append, List.flatMap_cons]
    refine ⟨left.flatMap f.postorder, right.flatMap f.postorder ++ [p], ?_⟩
    simp only [List.append_assoc]

namespace ParsedUnit

variable {source : String} {f : Forest} {root i : NodeId} {members : List NodeId}

open Classical in
/-- A tree that prints all of its source is a walk over all nodes in the order of their making. -/
theorem Made.postorder_eq_range (h : Made source f root members) (hp : f.print (some root) = source) :
    f.postorder root = List.range f.size := by
  rw [h.walk, h.members_eq_filter]
  refine List.filter_eq_self.mpr fun i _ => ?_
  exact decide_eq_true fun o ho _ => (h.print_eq_source_iff.mp hp o).mp ho

theorem Made.print_eq_leading_append (h : Made source f root members) (ha : f.Aligned)
    (hp : f.Placed source) (hprint : f.print (some root) = source) (hi : f.Reaches root i)
    (hfull : f.Full i) :
    ∃ part, Text.slice? source.toList (f.span (some i)).start (f.span (some i)).stop = some part ∧
      f.print (some i) = f.leading (some i) ++ String.ofList part := by
  -- The trees are leaves in a row, of which those of the node are a part.
  have hinside := h.linked.reaches_iff_inside.mp hi
  have hsize : i < f.size := lt_of_le_of_lt (h.linked.le_of_inside hinside) h.root_top.1
  obtain ⟨before, after, hsplit⟩ := h.linked.postorder_infix hinside
  rw [h.postorder_eq_range hprint] at hsplit
  have hlies := ha.liesAfter h.linked hp hfull hsize hsplit
  obtain ⟨said, hsaid⟩ := hlies.begins
  have hprinted : f.print (some i) = f.leading (some i) ++ said := by
    rw [h.linked.print_some hsize, ← hsaid]
    exact Forest.written_preorder fun j _ n hn => ⟨(h.linked j n hn).below, (h.linked j n hn).leaf⟩
  -- What is written before the node, the node and what is written after it make up the source.
  have hsource : (f.written before ++ f.leading (some i)) ++ said ++ f.written after = source := by
    calc
      _ = f.written before ++ (f.leading (some i) ++ said) ++ f.written after := by
        simp only [String.append_assoc]
      _ = f.written (before ++ f.postorder i ++ after) := by
        rw [← hsaid, Forest.written_append, Forest.written_append]
      _ = source := by
        rw [hsplit]
        exact h.text
  -- White space before the node is not part of its place.
  have hstart : (f.span (some i)).start =
      Text.byteSize (f.written before ++ f.leading (some i)).toList := by
    rw [hlies.start, Text.byteSize_toList, String.utf8ByteSize_append]
  have hstop : (f.span (some i)).stop =
      Text.byteSize (f.written before ++ f.leading (some i)).toList + Text.byteSize said.toList := by
    rw [hlies.stop, hsaid, Text.byteSize_toList, Text.byteSize_toList]
    simp only [String.utf8ByteSize_append]
    omega
  have hlist : source.toList = (f.written before ++ f.leading (some i)).toList ++ said.toList ++
      (f.written after).toList := by
    rw [← hsource]
    simp only [String.toList_append]
  refine ⟨said.toList, ?_, by rw [hprinted, String.ofList_toList]⟩
  rw [hlist, hstart, hstop]
  exact Text.slice?_append _ _ _

/-- Where a source is printed in full, a node that is made of something prints the trivia before it
and then the source from the start to the end of its span. -/
theorem print_eq_leading_append_slice (fileName source : String)
    (hprint : (ofSource fileName source).print = source) (i : NodeId)
    (hi : (ofSource fileName source).forest.Reaches (ofSource fileName source).root i)
    (hfull : (ofSource fileName source).forest.Full i) :
    ∃ part, Text.slice? source.toList
        ((ofSource fileName source).forest.span (some i)).start
        ((ofSource fileName source).forest.span (some i)).stop = some part ∧
      (ofSource fileName source).forest.print (some i) =
        (ofSource fileName source).forest.leading (some i) ++ String.ofList part := by
  obtain ⟨members, hm⟩ := ofSource_made fileName source
  exact hm.print_eq_leading_append (ofSource_aligned fileName source)
    (ofSource_sound fileName source).placed hprint hi hfull

/-- The body of a function that follows a comment. -/
theorem print_eq_leading_append_slice_body :
    (ofSource "a.kt" "// sum\nfun f() = 1 + 2").print = "// sum\nfun f() = 1 + 2" ∧
      (ofSource "a.kt" "// sum\nfun f() = 1 + 2").forest.Reaches
        (ofSource "a.kt" "// sum\nfun f() = 1 + 2").root 8 ∧
      (ofSource "a.kt" "// sum\nfun f() = 1 + 2").forest.Full 8 ∧
      ∃ part, Text.slice? "// sum\nfun f() = 1 + 2".toList
          ((ofSource "a.kt" "// sum\nfun f() = 1 + 2").forest.span (some 8)).start
          ((ofSource "a.kt" "// sum\nfun f() = 1 + 2").forest.span (some 8)).stop = some part ∧
        (ofSource "a.kt" "// sum\nfun f() = 1 + 2").forest.print (some 8) =
          (ofSource "a.kt" "// sum\nfun f() = 1 + 2").forest.leading (some 8) ++
            String.ofList part := by
  have hprint := print_ofSource "a.kt" "// sum\nfun f() = 1 + 2" (by decide +kernel)
  have hreaches : (ofSource "a.kt" "// sum\nfun f() = 1 + 2").forest.Reaches
      (ofSource "a.kt" "// sum\nfun f() = 1 + 2").root 8 :=
    .tail (.single (show 9 ∈ _ by decide +kernel)) (by decide +kernel)
  have hlinked := (ofSource_sound "a.kt" "// sum\nfun f() = 1 + 2").linked
  have hfull := hlinked.full_of_isFilled (i := 8) (by decide +kernel)
  exact ⟨hprint, hreaches, hfull,
    print_eq_leading_append_slice "a.kt" "// sum\nfun f() = 1 + 2" hprint 8 hreaches hfull⟩

end ParsedUnit

end KotlinTree
