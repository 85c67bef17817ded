import KotlinTree.Proofs.Grammar.Growth

/-!
Where the nodes that a run makes lie in the source: between the tokens where the run starts and
ends, one after another, and each from its first child to its last.
-/

namespace KotlinTree

namespace Forest

/-- A node lies between places of the source, over its children, which lie one after another. A token
other than the end of the file lies over something. -/
structure PlacedAt (source : String) (f : Forest) (n : Node) : Prop where
  forward : n.span.start ≤ n.span.stop
  start_place : Text.IsPlace source n.span.start
  stop_place : Text.IsPlace source n.span.stop
  first : ∀ c, n.children[0]? = some c → n.span.start = (f.span (some c)).start
  last : ∀ c, n.children.back? = some c → n.span.stop = (f.span (some c)).stop
  apart : n.children.toList.Pairwise fun c d => (f.span (some c)).stop ≤ (f.span (some d)).start
  filled : ∀ k, n.kind = .token k → k ≠ .endOfFile → n.span.start < n.span.stop

/-- All nodes of a forest lie in the source as they should. -/
def Placed (source : String) (f : Forest) : Prop :=
  ∀ (i : NodeId) (n : Node), f.nodes[i]? = some n → f.PlacedAt source n

section
variable {source : String} {f g : Forest} {n m : Node}

theorem PlacedAt.embeds (h : f.PlacedAt source n) (hx : f.Embeds g) (hk : n.SameShape m)
    (hc : ∀ c ∈ n.children, c < f.size) : g.PlacedAt source m where
  forward := hk.span ▸ h.forward
  start_place := hk.span ▸ h.start_place
  stop_place := hk.span ▸ h.stop_place
  -- Children are older nodes, so they lie where they did.
  first c hm := by
    rw [hk.children] at hm
    rw [hk.span, hx.span (hc c (Array.mem_of_getElem? hm))]
    exact h.first c hm
  last c hm := by
    rw [hk.children] at hm
    rw [hk.span, hx.span (hc c (Array.mem_of_back? hm))]
    exact h.last c hm
  apart := by
    rw [hk.children]
    refine h.apart.imp_of_mem ?_
    intro c d hcm hdm hcd
    rw [hx.span (hc c (by simpa using hcm)), hx.span (hc d (by simpa using hdm))]
    exact hcd
  filled := by
    rw [hk.kind, hk.span]
    exact h.filled

theorem spanOver_empty (f : Forest) (place : Nat) : f.spanOver place #[] = ⟨place, place⟩ := rfl

theorem spanOver_of_ends {cs : Array NodeId} {a b : NodeId} (place : Nat) (ha : cs[0]? = some a)
    (hb : cs.back? = some b) (hsa : a < f.size) (hsb : b < f.size) :
    f.spanOver place cs = ⟨(f.span (some a)).start, (f.span (some b)).stop⟩ := by
  obtain ⟨na, hna⟩ := exists_getElem? hsa
  obtain ⟨nb, hnb⟩ := exists_getElem? hsb
  unfold spanOver
  rw [ha, hb, span_of_getElem? hna, span_of_getElem? hnb]
  simp only [hna, hnb, Option.map_some, Option.getD_some]

end

end Forest

namespace Grammar

section
variable {source : String} {s s' : State} {ps : List Piece}

/-- The current token lies between places of the source. -/
theorem Ahead.isPlace (h : Ahead source s.tokens) :
    Text.IsPlace source s.current.place ∧ Text.IsPlace source s.current.stop := by
  obtain ⟨front, rest, rfl, hc⟩ := h
  generalize hts : s.tokens = ts at hc
  generalize hn : front.utf8ByteSize = n at hc
  cases hc with
  | @last t hend htext =>
    -- The end of the file is empty, so that both places are one.
    obtain ⟨rfl, -⟩ := List.cons.inj hts
    have hp : Text.IsPlace (front ++ s.current.leading) s.current.place := by
      refine ⟨front ++ s.current.leading, "", String.append_empty, ?_⟩
      rw [String.utf8ByteSize_append, hn]
      rfl
    have hs : s.current.stop = s.current.place := by
      rw [Token.stop, htext]
      rfl
    exact ⟨hp, hs ▸ hp⟩
  | @next t rest ts hend _ hc =>
    obtain ⟨rfl, -⟩ := List.cons.inj hts
    unfold Token.written
    constructor
    · refine ⟨front ++ s.current.leading, s.current.text ++ rest, ?_, ?_⟩
      · simp only [String.append_assoc]
      · rw [String.utf8ByteSize_append, hn]
        rfl
    · refine ⟨front ++ s.current.written, rest, ?_, ?_⟩
      · simp only [Token.written, String.append_assoc]
      · rw [String.utf8ByteSize_append, hn, Token.stop_eq]

/-- Only the end of the file has no text. -/
theorem Ahead.place_lt_stop (h : Ahead source s.tokens) (hend : s.current.isEnd = false) :
    s.current.place < s.current.stop := by
  obtain ⟨front, rest, -, hc⟩ := h
  have htext : s.current.text.utf8ByteSize ≠ 0 := by
    rw [ne_eq, String.utf8ByteSize_eq_zero_iff]
    exact hc.text_ne s.current List.mem_cons_self hend
  exact Nat.lt_add_of_pos_right (Nat.pos_of_ne_zero htext)

/-- The next token does not lie before the end of the current one. -/
theorem Ahead.stop_le_advance (h : Ahead source s.tokens) :
    s.current.stop ≤ s.advance.current.place := by
  obtain ⟨front, rest, rfl, hc⟩ := h
  generalize hts : s.tokens = ts at hc
  generalize hn : front.utf8ByteSize = n at hc
  unfold State.advance
  cases hc with
  | last _ _ =>
    obtain ⟨-, ha⟩ := List.cons.inj hts
    rw [ha]
    exact le_rfl
  | @next t rest ts _ _ hc =>
    obtain ⟨rfl, ha⟩ := List.cons.inj hts
    generalize hstop : s.current.stop = stop at hc
    rw [ha]
    cases hc with
    | last _ _ => exact Token.start_le_place _
    | next _ _ _ => exact Token.start_le_place _

/-- What a run leaves, seen from where it started and where it ends. -/
structure Lies (source : String) (s : State) (ps : List Piece) (s' : State) : Prop where
  onward : s.current.place ≤ s'.current.place
  placed : s'.forest.Placed source
  within : ∀ p ∈ ps, s.current.place ≤ (s'.forest.span (some p.root)).start ∧
    (s'.forest.span (some p.root)).stop ≤ s'.current.place
  apart : ps.Pairwise fun p q =>
    (s'.forest.span (some p.root)).stop ≤ (s'.forest.span (some q.root)).start

theorem Lies.forward {p : Piece} (h : Lies source s ps s') (hr : p.root < s'.forest.size) :
    (s'.forest.span (some p.root)).start ≤ (s'.forest.span (some p.root)).stop := by
  obtain ⟨n, hn⟩ := Forest.exists_getElem? hr
  rw [Forest.span_of_getElem? hn]
  exact (h.placed _ n hn).forward

theorem Lies.trans {s₁ : State} {qs : List Piece} (h : Lies source s ps s₁)
    (h' : Lies source s₁ qs s') (hr : ∀ p ∈ ps, p.root < s₁.forest.size)
    (hx : s₁.forest.Extends s'.forest) : Lies source s (ps ++ qs) s' where
  onward := h.onward.trans h'.onward
  placed := h'.placed
  within p hp := by
    rcases List.mem_append.mp hp with hp | hp
    · rw [hx.span (hr p hp)]
      exact ⟨(h.within p hp).1, (h.within p hp).2.trans h'.onward⟩
    · exact ⟨h.onward.trans (h'.within p hp).1, (h'.within p hp).2⟩
  apart := by
    refine List.pairwise_append.mpr ⟨?_, h'.apart, ?_⟩
    · refine h.apart.imp_of_mem ?_
      intro p q hp hq hpq
      rw [hx.span (hr p hp), hx.span (hr q hq)]
      exact hpq
    · intro p hp q hq
      rw [hx.span (hr p hp)]
      exact (h.within p hp).2.trans (h'.within q hq).1

/-- Growth that leaves the tokens leaves the places of trees. -/
theorem Lies.extends {s₁ : State} (h : Lies source s ps s₁) (hr : ∀ p ∈ ps, p.root < s₁.forest.size)
    (hx : s₁.forest.Extends s'.forest) (hp : s'.forest.Placed source)
    (ht : s'.current = s₁.current) : Lies source s ps s' where
  onward := ht ▸ h.onward
  placed := hp
  within p hp := by
    rw [hx.span (hr p hp), ht]
    exact h.within p hp
  apart := by
    refine h.apart.imp_of_mem ?_
    intro p q hp hq hpq
    rw [hx.span (hr p hp), hx.span (hr q hq)]
    exact hpq

/-- A leaf lies where its token does. -/
theorem lies_bump {k : TokenKind} (ha : Ahead source s.tokens) (hf : s.forest.Linked)
    (hp : s.forest.Placed source) (ends : s.current.isEnd = true → k = .endOfFile) :
    Lies source s [.leaf s.forest.size] ({ s with forest := s.leafed k } : State).advance := by
  have hplace := ha.isPlace
  have hstop : s.current.stop ≤ s.advance.current.place := ha.stop_le_advance
  have hsame : ({ s with forest := s.leafed k } : State).advance.current = s.advance.current := by
    unfold State.advance
    cases s.ahead <;> rfl
  have hget := Forest.getElem?_addLeaf s.forest k ⟨s.current.place, s.current.stop⟩
    s.current.leading s.current.text s.current.value
  have hnew := (hget s.forest.size).trans (if_pos rfl)
  have hspan : (s.leafed k).span (some s.forest.size) = ⟨s.current.place, s.current.stop⟩ :=
    Forest.span_of_getElem? hnew
  refine ⟨?_, ?_, ?_, List.pairwise_singleton _ _⟩
  · rw [hsame]
    exact s.current.place_le_stop.trans hstop
  · intro i n hn
    rw [State.advance_forest] at hn ⊢
    have hi := hget i
    split at hi
    · -- The new leaf has no children, so only its ends count.
      obtain rfl := Option.some.inj (hi.symm.trans hn)
      refine ⟨s.current.place_le_stop, hplace.1, hplace.2, ?_, ?_, List.Pairwise.nil, ?_⟩
      · intro c hc
        cases hc
      · intro c hc
        cases hc
      · intro k' hk hend
        cases hk
        exact ha.place_lt_stop (Bool.eq_false_iff.mpr fun he => hend (ends he))
    · have hn := hi.symm.trans hn
      exact (hp i n hn).embeds (Forest.extends_addLeaf _ _ _ _ _ _).toEmbeds (.refl n)
        (hf.child_lt_size hn)
  · intro p hp
    obtain rfl := List.mem_singleton.mp hp
    rw [State.advance_forest, hsame]
    exact ⟨by rw [Piece.leaf, hspan], by rw [Piece.leaf, hspan]; exact hstop⟩

/-- The first and the last of some trees. -/
theorem exists_ends {p : Piece} (hp : p ∈ ps) :
    ∃ a b, a ∈ ps ∧ b ∈ ps ∧ (roots ps)[0]? = some a.root ∧ (roots ps).back? = some b.root ∧
      (b = a ∨ ∀ {R : Piece → Piece → Prop}, ps.Pairwise R → R a b) := by
  cases ps with
  | nil => exact absurd hp List.not_mem_nil
  | cons a ps =>
    obtain ⟨b, hb⟩ : ∃ b, (a :: ps).getLast? = some b := ⟨_, List.getLast?_cons⟩
    have hmem := List.mem_of_getLast? hb
    refine ⟨a, b, List.mem_cons_self, hmem, by simp [roots], ?_, ?_⟩
    · rw [roots, List.back?_toArray, List.getLast?_map, hb, Option.map_some]
    · rcases List.mem_cons.mp hmem with rfl | hm
      · exact Or.inl rfl
      · exact Or.inr fun hpair => (List.pairwise_cons.mp hpair).1 b hm

/-- From the first tree to the last, or nothing at the current place. -/
theorem Lies.spanOver {s₁ : State} {start : Nat} (h : Lies source s ps s₁)
    (hr : ∀ p ∈ ps, p.root < s₁.forest.size) (ha : Ahead source s₁.tokens)
    (he : ps = [] → start = s₁.current.place) :
    s.current.place ≤ (s₁.forest.spanOver start (roots ps)).start ∧
      (s₁.forest.spanOver start (roots ps)).stop ≤ s₁.current.place ∧
      (s₁.forest.spanOver start (roots ps)).start ≤ (s₁.forest.spanOver start (roots ps)).stop ∧
      Text.IsPlace source (s₁.forest.spanOver start (roots ps)).start ∧
      Text.IsPlace source (s₁.forest.spanOver start (roots ps)).stop := by
  by_cases hps : ps = []
  · subst hps
    rw [roots_nil, Forest.spanOver_empty, he rfl]
    exact ⟨h.onward, le_rfl, le_rfl, ha.isPlace.1, ha.isPlace.1⟩
  · obtain ⟨p, hp⟩ := List.exists_mem_of_ne_nil ps hps
    obtain ⟨a, b, hma, hmb, hfirst, hlast, hab⟩ := exists_ends hp
    have hplace (q : Piece) (hq : q.root < s₁.forest.size) :
        Text.IsPlace source (s₁.forest.span (some q.root)).start ∧
          Text.IsPlace source (s₁.forest.span (some q.root)).stop := by
      obtain ⟨n, hn⟩ := Forest.exists_getElem? hq
      rw [Forest.span_of_getElem? hn]
      exact ⟨(h.placed _ n hn).start_place, (h.placed _ n hn).stop_place⟩
    rw [Forest.spanOver_of_ends start hfirst hlast (hr a hma) (hr b hmb)]
    refine ⟨(h.within a hma).1, (h.within b hmb).2, ?_, (hplace a (hr a hma)).1,
      (hplace b (hr b hmb)).2⟩
    -- One tree lies forward, and of several the last lies after the first.
    rcases hab with rfl | hab
    · exact h.forward (hr b hma)
    · exact ((h.forward (hr a hma)).trans (hab h.apart)).trans (h.forward (hr b hmb))

/-- A node over some trees lies from the first to the last, if the forest keeps where they lie. -/
theorem Lies.placedAt_node {s₁ : State} {start : Nat} {f : Forest} {n : Node} {k : NodeKind}
    (hk : n.kind = .node k) (h : Lies source s ps s₁) (hr : ∀ p ∈ ps, p.root < s₁.forest.size)
    (ha : Ahead source s₁.tokens) (he : ps = [] → start = s₁.current.place)
    (hchild : ∀ c ∈ roots ps, f.span (some c) = s₁.forest.span (some c))
    (hc : n.children = roots ps) (hs : n.span = s₁.forest.spanOver start (roots ps)) :
    f.PlacedAt source n := by
  obtain ⟨-, -, hforward, hstart, hstop⟩ := h.spanOver hr ha he
  refine ⟨hs ▸ hforward, hs ▸ hstart, hs ▸ hstop, ?_, ?_, ?_, ?_⟩
  -- The first child begins where the node does, and the last one ends there.
  · intro c hfirst
    rw [hc] at hfirst
    obtain ⟨p, hp, rfl⟩ := mem_roots.mp (Array.mem_of_getElem? hfirst)
    obtain ⟨a, b, -, hmb, -, hlast, -⟩ := exists_ends hp
    rw [hs, hchild _ (Array.mem_of_getElem? hfirst),
      Forest.spanOver_of_ends start hfirst hlast (hr p hp) (hr b hmb)]
  · intro c hlast
    rw [hc] at hlast
    obtain ⟨p, hp, rfl⟩ := mem_roots.mp (Array.mem_of_back? hlast)
    obtain ⟨a, b, hma, -, hfirst, -, -⟩ := exists_ends hp
    rw [hs, hchild _ (Array.mem_of_back? hlast),
      Forest.spanOver_of_ends start hfirst hlast (hr a hma) (hr p hp)]
  · rw [hc]
    refine List.pairwise_map.mpr (h.apart.imp_of_mem ?_)
    intro p q hp hq hpq
    rw [hchild _ (mem_roots.mpr ⟨p, hp, rfl⟩), hchild _ (mem_roots.mpr ⟨q, hq, rfl⟩)]
    exact hpq
  · intro k' hk'
    rw [hk] at hk'
    cases hk'

/-- A node lies from its first child to its last, or nowhere at the end of the file. -/
theorem Lies.node {s₁ : State} {start : Nat} (h : Lies source s ps s₁)
    (hg : Grown s.forest ps s₁.forest) (ha : Ahead source s₁.tokens)
    (he : ps = [] → start = s₁.current.place) (k : NodeKind) (data : NodeData) :
    Lies source s [.gather ps s₁.forest.size]
      { s₁ with forest := s₁.noded k start (roots ps) data } := by
  have hr : ∀ p ∈ ps, p.root < s₁.forest.size := fun p hp => (hg.root_range hp).2
  have hx := Forest.extends_addNode hg.adoptable k start data
  have hget := Forest.getElem?_addNode s₁.forest k start (roots ps) data hg.adoptable.lt
  have hnew := (hget s₁.forest.size).trans (if_pos rfl)
  have hspan : (s₁.noded k start (roots ps) data).span (some s₁.forest.size) =
      s₁.forest.spanOver start (roots ps) := Forest.span_of_getElem? hnew
  obtain ⟨hfrom, hto, -⟩ := h.spanOver hr ha he
  refine ⟨h.onward, ?_, ?_, List.pairwise_singleton _ _⟩
  · intro i n hn
    have hi := hget i
    split at hi
    · obtain rfl := Option.some.inj (hi.symm.trans hn)
      exact placedAt_node rfl h hr ha he (fun c hc => hx.span (hg.adoptable.lt c hc)) rfl rfl
    · -- An old node may have been adopted, which does not move it.
      obtain ⟨m, hm, rfl⟩ := Option.map_eq_some_iff.mp (hi.symm.trans hn)
      obtain ⟨m', hm', hk⟩ := hx.node i m hm
      obtain rfl := Option.some.inj (hn.symm.trans hm')
      exact (h.placed i m hm).embeds hx.toEmbeds hk (hg.linked.child_lt_size hm)
  · intro p hp
    obtain rfl := List.mem_singleton.mp hp
    rw [Piece.gather, hspan]
    exact ⟨hfrom, hto⟩

theorem Forest.Placed.modify {f : Forest} {id : NodeId} {change : Node → Node}
    (hp : f.Placed source) (hf : f.Linked) (hk : ∀ n : Node, n.Kept (change n)) :
    (f.modify id change).Placed source := by
  have hx : f.Extends (f.modify id change) := Forest.extends_modify hk
  intro i m hm
  rw [Forest.getElem?_modify] at hm
  split at hm
  · obtain ⟨n, hn, rfl⟩ := Option.map_eq_some_iff.mp hm
    exact (hp i n hn).embeds hx.toEmbeds (hk n).toSameShape (hf.child_lt_size hn)
  · exact (hp i m hm).embeds hx.toEmbeds (.refl m) (hf.child_lt_size hm)

/-- The trees of a run lie one after another between its ends. -/
theorem Builds.lies (h : Builds s ps s') (hf : s.forest.Linked) (ha : Ahead source s.tokens)
    (hp : s.forest.Placed source) : Lies source s ps s' := by
  -- The induction is on how the trees have been built; only tokens and nodes add to what lies
  -- somewhere.
  induction h with
  | refl s =>
    exact ⟨le_rfl, hp, fun p hp => absurd hp List.not_mem_nil, List.Pairwise.nil⟩
  | trans first rest ih₁ ih₂ =>
    have hg := first.grown hf
    have h₁ := ih₁ hf ha hp
    exact h₁.trans (ih₂ hg.linked (first.ahead ha) h₁.placed) (fun p hp => (hg.root_range hp).2)
      (rest.grown hg.linked).forest_extends
  | bump taken h =>
    obtain ⟨rfl, rfl⟩ := runs_bumpAs.mp h
    exact lies_bump ha hf hp taken.eq_endOfFile
  | node below empty _ _ _ _ h ih =>
    obtain ⟨rfl, rfl⟩ := runs_node.mp h
    exact (ih hf ha hp).node (below.grown hf) (below.ahead ha) (fun he => (empty he).2) _ _
  | change made _ cosmetic h ih =>
    have hg := made.grown hf
    have hl := ih hf ha hp
    obtain rfl := runs_change.mp h
    exact hl.extends (fun p hp => (hg.root_range hp).2) (Forest.extends_modify cosmetic.kept)
      (Forest.Placed.modify hl.placed hg.linked cosmetic.kept) rfl
  | report _ _ ih =>
    have hl := ih hf ha hp
    exact ⟨hl.onward, hl.placed, hl.within, hl.apart⟩
  | deeper _ _ ih =>
    have hl := ih hf ha hp
    exact ⟨hl.onward, hl.placed, hl.within, hl.apart⟩
  | braces _ _ ih =>
    have hl := ih hf ha hp
    exact ⟨hl.onward, hl.placed, hl.within, hl.apart⟩
  | drop _ _ _ ih =>
    have hl := ih hf ha hp
    exact ⟨hl.onward, hl.placed, fun p hp => absurd hp List.not_mem_nil, List.Pairwise.nil⟩

end

end Grammar

end KotlinTree
