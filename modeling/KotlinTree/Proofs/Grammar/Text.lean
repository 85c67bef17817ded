import KotlinTree.Proofs.Grammar.Growth
import KotlinTree.Proofs.Grammar.Primitive

/-!
What a run does to the text: what the leaves say and what the tokens ahead say stay one text, and each
token that is taken stays a leaf. A tree that is left behind has some of the text.
-/

namespace KotlinTree.Grammar

/-- The text of the tokens from the current one on. -/
def State.pending (s : State) : String := String.join (s.tokens.map Token.written)

theorem State.pending_advance (s : State) : s.current.written ++ s.advance.pending = s.pending := by
  unfold pending advance tokens
  cases s.ahead with
  | nil => simp [String.join_cons, Token.endAt, Token.written]
  | cons t ts => simp [String.join_cons]

section
variable {source : String} {s s' : State} {ps : List Piece}

/-- A token that is taken moves from the text ahead to the text of the leaves. -/
theorem Builds.text (h : Builds s ps s') (hf : s.forest.Linked) :
    s'.forest.text ++ s'.pending = s.forest.text ++ s.pending := by
  -- Text is written by tokens only; all other steps leave what has been made as it is written.
  induction h with
  | refl s => rfl
  | trans first _ ih₁ ih₂ => exact (ih₂ (first.grown hf).linked).trans (ih₁ hf)
  | @bump s s' k id _ h =>
    obtain ⟨-, rfl⟩ := runs_bumpAs.mp h
    have hp := State.pending_advance { s with forest := s.leafed k }
    have ht := Forest.text_addLeaf s.forest k ⟨s.current.place, s.current.stop⟩ s.current.leading
      s.current.text s.current.value
    calc
      _ = s.forest.text ++ s.current.written ++
          ({ s with forest := s.leafed k } : State).advance.pending := by
        rw [State.advance_forest]
        exact congrArg (· ++ _) ht
      _ = s.forest.text ++ s.pending := by
        rw [String.append_assoc]
        exact congrArg (s.forest.text ++ ·) hp
  | node below _ leaf _ _ _ h ih =>
    obtain ⟨-, rfl⟩ := runs_node.mp h
    rw [← ih hf]
    exact congrArg (· ++ _) (Forest.text_addNode (below.grown hf).adoptable _ _ leaf)
  | change _ _ cosmetic h ih =>
    obtain rfl := runs_change.mp h
    rw [← ih hf]
    exact congrArg (· ++ _) (Forest.text_modify cosmetic.kept)
  | report _ _ ih => exact ih hf
  | deeper _ _ ih => exact ih hf
  | braces _ _ ih => exact ih hf
  | drop _ _ _ ih => exact ih hf

/-- A token that was ahead still is, or there is a leaf of it. -/
theorem Builds.takes (h : Builds s ps s') (hf : s.forest.Linked) {t : Token} (ht : t ∈ s.tokens) :
    t ∈ s'.tokens ∨ ∃ i k, TakenAs k t ∧ s'.forest.IsLeafOf i k t := by
  -- A token is ahead until a step takes it, and is a leaf from then on.
  induction h with
  | refl s => exact .inl ht
  | trans first rest ih₁ ih₂ =>
    have hlinked := (first.grown hf).linked
    rcases ih₁ hf ht with hahead | ⟨i, k, hk, hi⟩
    · exact ih₂ hlinked hahead
    · exact .inr ⟨i, k, hk, hi.grown (rest.grown hlinked).forest_extends⟩
  | @bump s s' k id taken h =>
    rcases List.mem_cons.mp ht with rfl | hahead
    · exact .inr ⟨id, k, taken, isLeafOf_bumpAs h⟩
    · obtain ⟨-, rfl⟩ := runs_bumpAs.mp h
      left
      unfold State.advance
      cases hs : s.ahead with
      | nil =>
        rw [hs] at hahead
        exact absurd hahead List.not_mem_nil
      | cons u us =>
        rw [hs] at hahead
        exact hahead
  | node _ _ _ _ _ _ h ih =>
    rcases ih hf ht with hahead | ⟨i, k, hk, hi⟩
    · obtain ⟨-, rfl⟩ := runs_node.mp h
      exact .inl hahead
    · exact .inr ⟨i, k, hk, IsLeafOf.node hi h⟩
  | change _ _ cosmetic h ih =>
    rcases ih hf ht with hahead | ⟨i, k, hk, hi⟩
    · obtain rfl := runs_change.mp h
      exact .inl hahead
    · exact .inr ⟨i, k, hk, IsLeafOf.change hi cosmetic h⟩
  | report _ _ ih => exact ih hf ht
  | deeper _ _ ih => exact ih hf ht
  | braces _ _ ih => exact ih hf ht
  | drop _ _ _ ih => exact ih hf ht

/-- A node is a leaf that says what a token says. -/
def IsLeafFor (f : Forest) (i : NodeId) (t : Token) : Prop :=
  ∃ n l, f.nodes[i]? = some n ∧ n.data.leaf? = some l ∧ l.written = t.written

theorem IsLeafFor.extends {f g : Forest} {i : NodeId} {t : Token} (h : IsLeafFor f i t)
    (hx : f.Extends g) : IsLeafFor g i t := by
  obtain ⟨n, l, hn, hl, hw⟩ := h
  obtain ⟨m, hm, hk⟩ := hx.kept hn
  exact ⟨m, l, hm, hk.leaf?.trans hl, hw⟩

/-- Before the end of the file, the first node that a run makes is a leaf for the current token. -/
theorem Builds.first_leaf (h : Builds s ps s') (hf : s.forest.Linked)
    (ha : Ahead source s.tokens) (hend : s.current.isEnd = false) :
    (s'.tokens = s.tokens ∧ s'.forest.size = s.forest.size) ∨
      IsLeafFor s'.forest s.forest.size s.current := by
  induction h with
  | refl s => exact Or.inl ⟨rfl, rfl⟩
  | trans first rest ih₁ ih₂ =>
    have hlinked := (first.grown hf).linked
    obtain ⟨ht, hs⟩ | hl := ih₁ hf ha hend
    · -- Nothing has been made so far, so the second run begins where the first one did.
      obtain ⟨hcur, -⟩ := List.cons.inj ht
      rw [← hcur] at hend
      have hrest := ih₂ hlinked (ht ▸ ha) hend
      rw [ht, hs, hcur] at hrest
      exact hrest
    · exact Or.inr (hl.extends (rest.grown hlinked).forest_extends)
  | @bump s s' k id _ h =>
    obtain ⟨-, rfl⟩ := runs_bumpAs.mp h
    right
    have hget := Forest.getElem?_addLeaf s.forest k ⟨s.current.place, s.current.stop⟩
      s.current.leading s.current.text s.current.value s.forest.size
    rw [if_pos rfl] at hget
    rw [State.advance_forest]
    exact ⟨_, _, hget, rfl, rfl⟩
  | node below empty leaf _ _ _ h ih =>
    have hx := Forest.extends_addNode (below.grown hf).adoptable
    obtain ⟨-, rfl⟩ := runs_node.mp h
    obtain ⟨ht, -⟩ | hl := ih hf ha hend
    · -- A node without anything below it is made at the end of the file only.
      obtain ⟨hcur, hahead⟩ := List.cons.inj ht
      obtain ⟨-, he⟩ | hlt := below.progress ha hend
      · rw [← hcur, (empty he).1] at hend
        cases hend
      · rw [hahead] at hlt
        exact absurd hlt (lt_irrefl _)
    · exact Or.inr (hl.extends (hx _ _ _))
  | change _ _ cosmetic h ih =>
    obtain rfl := runs_change.mp h
    obtain ⟨ht, hs⟩ | hl := ih hf ha hend
    · exact Or.inl ⟨ht, (Forest.size_modify _ _ _).trans hs⟩
    · exact Or.inr (hl.extends (Forest.extends_modify cosmetic.kept))
  | report _ _ ih => exact ih hf ha hend
  | deeper _ _ ih => exact ih hf ha hend
  | braces _ _ ih => exact ih hf ha hend
  | drop _ _ _ ih => exact ih hf ha hend

/-- Some leaf below a node has a text. -/
def HasText (f : Forest) (i : NodeId) : Prop :=
  ∃ k n l, f.nodes[k]? = some n ∧ n.data.leaf? = some l ∧ l.written ≠ "" ∧ f.Within k i

theorem HasText.extends {f g : Forest} {i : NodeId} (h : HasText f i) (hx : f.Extends g) :
    HasText g i := by
  obtain ⟨k, n, l, hn, hl, hw, hi⟩ := h
  obtain ⟨m, hm, hk⟩ := hx.kept hn
  exact ⟨k, m, l, hm, hk.leaf?.trans hl, hw, hx.within hi⟩

/-- Only the end of the file has no text. -/
theorem Ahead.written_ne (h : Ahead source s.tokens) (hend : s.current.isEnd = false) :
    s.current.written ≠ "" := by
  obtain ⟨front, rest, -, hc⟩ := h
  have ht := hc.text_ne s.current List.mem_cons_self hend
  intro hw
  exact ht (String.append_eq_empty_iff.mp hw).2

/-- A tree that begins with the current token has the text of that token. -/
theorem Builds.hasText {q : Piece} (h : Builds s [q] s') (hf : s.forest.Linked)
    (ha : Ahead source s.tokens) (hend : s.current.isEnd = false)
    (hfirst : s.forest.size ∈ q.members) : HasText s'.forest q.root := by
  have hg := h.grown hf
  have hself := List.mem_singleton_self q
  obtain ⟨-, hsize⟩ | ⟨m, l, hm, hl, hw⟩ := h.first_leaf hf ha hend
  · have hr := hg.root_range hself
    rw [hsize] at hr
    exact absurd hr.2 (not_lt_of_ge hr.1)
  · refine ⟨s.forest.size, m, l, hm, hl, ?_, (hg.mem_members_iff hself).mp hfirst⟩
    rw [hw]
    exact ha.written_ne hend

/-- No sign of an annotation comes up that was not among the tokens. -/
theorem Builds.signs {signs : List Token} (h : Builds s ps s')
    (hs : ∀ t ∈ s.tokens, t.kind = .atSign → t ∈ signs) :
    ∀ t ∈ s'.tokens, t.kind = .atSign → t ∈ signs := by
  refine h.tokens_induction (P := fun ts => ∀ t ∈ ts, t.kind = .atSign → t ∈ signs) ?_ hs
  intro s hs t ht hk
  unfold State.tokens State.advance at ht
  cases hahead : s.ahead with
  | nil =>
    rw [hahead] at ht
    obtain rfl := List.mem_singleton.mp ht
    cases hk
  | cons token tokens =>
    rw [hahead] at ht
    exact hs t (List.mem_cons_of_mem _ (hahead ▸ ht)) hk

/-- A new node without a parent is the root of a tree that the run leaves, or else it was left
behind: it has a text, and there is the sign of an annotation among the tokens. -/
theorem Builds.orphan {signs : List Token} (h : Builds s ps s') (hf : s.forest.Linked)
    (ha : Ahead source s.tokens) (hs : ∀ t ∈ s.tokens, t.kind = .atSign → t ∈ signs) {i : NodeId}
    {n : Node} (hi : s.forest.size ≤ i) (hn : s'.forest.nodes[i]? = some n)
    (hp : n.parent = none) :
    (∃ p ∈ ps, p.root = i) ∨
      HasText s'.forest i ∧ ∃ t ∈ signs, t.kind = .atSign := by
  induction h generalizing i n with
  | refl s => exact absurd (Forest.lt_size_of_getElem? hn) (not_lt_of_ge hi)
  | @trans s s₁ s' ps qs first rest ih₁ ih₂ =>
    have hg := first.grown hf
    have hr := rest.grown hg.linked
    by_cases hlt : i < s₁.forest.size
    · rw [hr.old i hlt] at hn
      obtain ⟨p, hp, hroot⟩ | ⟨htext, hsign⟩ := ih₁ hf ha hs hi hn hp
      · exact Or.inl ⟨p, List.mem_append_left _ hp, hroot⟩
      · exact Or.inr ⟨htext.extends hr.forest_extends, hsign⟩
    · have hrest := ih₂ hg.linked (first.ahead ha) (first.signs hs) (not_lt.mp hlt) hn hp
      obtain ⟨p, hp, hroot⟩ | hleft := hrest
      · exact Or.inl ⟨p, List.mem_append_right _ hp, hroot⟩
      · exact Or.inr hleft
  | bump _ h =>
    obtain ⟨rfl, rfl⟩ := runs_bumpAs.mp h
    rw [State.advance_forest] at hn
    have hlt := Forest.lt_size_of_getElem? hn
    have hsize := Forest.size_addLeaf
    unfold State.leafed at hlt
    rw [hsize] at hlt
    exact Or.inl ⟨_, List.mem_singleton_self _, le_antisymm hi (Nat.le_of_lt_succ hlt)⟩
  | @node s s₁ s' ps k start data id below _ leaf _ _ _ h ih =>
    have hg := below.grown hf
    have hx := Forest.extends_addNode hg.adoptable k start data
    obtain ⟨rfl, rfl⟩ := runs_node.mp h
    obtain hnew | ⟨hc, hm⟩ := Forest.free_addNode hg.adoptable.lt hn hp
    · exact Or.inl ⟨_, List.mem_singleton_self _, hnew.symm⟩
    · -- What was the root of a tree below has the new node as its parent.
      obtain ⟨p, hmem, hroot⟩ | ⟨htext, hsign⟩ := ih hf ha hs hi hm hp
      · exact absurd (mem_roots.mpr ⟨p, hmem, hroot⟩) hc
      · exact Or.inr ⟨htext.extends hx, hsign⟩
  | change made _ cosmetic h ih =>
    obtain rfl := runs_change.mp h
    obtain ⟨m, hm, hback⟩ := Forest.exists_of_getElem?_modify cosmetic.parent hn
    obtain hroot | ⟨htext, hsign⟩ := ih hf ha hs hi hm (hback.trans hp)
    · exact Or.inl hroot
    · exact Or.inr ⟨htext.extends (Forest.extends_modify cosmetic.kept), hsign⟩
  | report _ _ ih => exact ih hf ha hs hi hn hp
  | deeper _ _ ih => exact ih hf ha hs hi hn hp
  | braces _ _ ih => exact ih hf ha hs hi hn hp
  | @drop s s' p sign first made ih =>
    have hend : s.current.isEnd = false := by
      simp [Token.isEnd, sign]
    obtain ⟨q, hq, rfl⟩ | hleft := ih hf ha hs hi hn hp
    · -- The tree is left behind: it begins with the sign, which is its text.
      obtain rfl := List.mem_singleton.mp hq
      right
      exact ⟨made.hasText hf ha hend first, s.current, hs _ List.mem_cons_self sign, sign⟩
    · exact Or.inr hleft

end

end KotlinTree.Grammar
