import KotlinTree.Proofs.Grammar.Phrase

/-!
Modifiers as they are kept: the word for any number of arguments is among the modifiers that are found if
and only if a leaf of their list has it for its text.
-/

namespace KotlinTree

theorem Modifier.ofToken?_ne_vararg (k : TokenKind) : ofToken? k ≠ some .varargWord := by
  unfold ofToken?
  split <;> simp

namespace Grammar

theorem mem_modifiersOf_vararg {t : Token} : Modifier.varargWord ∈ modifiersOf t ↔ t.text = "vararg" := by
  have hnot : Modifier.varargWord ∉ (Modifier.ofToken? t.kind).toList := by
    rw [Option.mem_toList]
    exact Modifier.ofToken?_ne_vararg t.kind
  unfold modifiersOf
  by_cases ht : t.text = "vararg" <;> simp [ht, hnot]

/-- Modifiers so far, with those that are found: all are made, and what they say is found. -/
structure Words (s : State) (x : Array NodeId × List Modifier) : Prop where
  made : ∀ id ∈ x.1, ∃ k, s.forest.kind? (some id) = some k
  vararg : Modifier.varargWord ∈ x.2 ↔ ∃ id ∈ x.1, s.forest.leafText (some id) = "vararg"

section
variable {rec : Productions} {s s' : State} {id list : NodeId} {o : Option NodeId}
  {cs cs' children : Array NodeId} {x : Array NodeId × List Modifier} {found : List Modifier}

theorem words_nil (s : State) : Words s (#[], []) :=
  ⟨fun _ h => absurd h (Array.not_mem_empty _), by simp⟩

theorem Words.mono (h : Words s x)
    (hkept : ∀ id k, s.forest.kind? (some id) = some k → s'.forest.kind? (some id) = some k ∧
      s'.forest.leafText (some id) = s.forest.leafText (some id)) : Words s' x := by
  refine ⟨fun id hid => ?_, h.vararg.trans ?_⟩
  · obtain ⟨k, hk⟩ := h.made id hid
    exact ⟨k, (hkept id k hk).1⟩
  · refine exists_congr fun id => and_congr_right fun hid => ?_
    obtain ⟨k, hk⟩ := h.made id hid
    rw [(hkept id k hk).2]

theorem Words.builds {ps : List Piece} (h : Words s x) (hb : Builds s ps s') : Words s' x :=
  h.mono fun _ _ hk => ⟨hb.kind? hk, hb.leafText hk⟩

theorem Words.node {k : NodeKind} {start : Nat} {data : NodeData} (h : Words s x)
    (hn : Runs (Grammar.node k start cs data) s id s') : Words s' x := by
  obtain ⟨rfl, rfl⟩ := runs_node.mp hn
  refine h.mono fun i j hk => ?_
  obtain ⟨n, hget, rfl⟩ := Forest.exists_of_kind? hk
  have hnew := Forest.getElem?_addNode_of_lt hget k start cs data
  refine ⟨(Forest.kind?_of_getElem? hnew).trans (congrArg some (Forest.adopt_kind ..)), ?_⟩
  rw [Forest.leafText, Forest.leafText, Forest.leaf?_of_getElem? hget]
  exact congrArg (fun l => (Option.map Leaf.text l).getD "")
    ((Forest.leaf?_of_getElem? hnew).trans (congrArg _ (Forest.adopt_data ..)))

/-- One more modifier, which says what is found with it. -/
theorem Words.push {ps : List Piece} {new : List Modifier} (h : Words s (cs, found))
    (hb : Builds s ps s') {k : Kind} (hk : s'.forest.kind? (some id) = some k)
    (hnew : .varargWord ∈ new ↔ s'.forest.leafText (some id) = "vararg") :
    Words s' (cs.push id, found ++ new) := by
  obtain ⟨hmade, hvararg⟩ := h.builds hb
  dsimp only at hmade hvararg
  refine ⟨fun i hi => ?_, ?_⟩
  · rcases Array.mem_push.mp hi with hi | rfl
    · exact hmade i hi
    · exact ⟨k, hk⟩
  · simp only [List.mem_append, hvararg, hnew, Array.mem_push, or_and_right, exists_or,
      exists_eq_left]

/-- An annotation is no word. -/
theorem annotationUse_leafText (h : Runs (annotationUse rec) s id s') :
    s'.forest.kind? (some id) = some (.node .annotationUse) ∧ s'.forest.leafText (some id) = "" := by
  unfold annotationUse at h
  obtain ⟨sign, s₁, -, h⟩ := runs_bind.mp (runs_bind_place.mp h)
  obtain ⟨⟨name, star⟩, s₂, -, h⟩ := runs_bind.mp h
  have h := runs_bind_isAttached.mp (runs_bind_isAt.mp h)
  -- A target and arguments may be there or not; a node is made of what there is.
  extract_lets afterArguments afterTarget at h
  obtain ⟨targeted, s₃, h⟩ : ∃ cs s₃, Runs (afterTarget cs) s₃ id s' := by
    obtain ⟨-, h⟩ | ⟨-, h⟩ := runs_ite.mp h
    · obtain ⟨colon, t, -, h⟩ := runs_bind.mp h
      obtain ⟨⟨target, star⟩, t', -, h⟩ := runs_bind.mp h
      exact ⟨_, _, h⟩
    · exact ⟨_, _, h⟩
  have h := runs_bind_isAttached.mp (runs_bind_isAt.mp h)
  obtain ⟨children, s₄, h⟩ : ∃ cs s₄, Runs (afterArguments cs) s₄ id s' := by
    obtain ⟨-, h⟩ | ⟨-, h⟩ := runs_ite.mp h
    · obtain ⟨⟨list, arguments⟩, t, -, h⟩ := runs_bind.mp h
      exact ⟨_, _, h⟩
    · exact ⟨_, _, h⟩
  obtain ⟨rfl, rfl⟩ := runs_node.mp h
  refine ⟨Forest.kind?_addNode .., ?_⟩
  rw [Forest.leafText, Forest.leaf?_eq, State.noded, Forest.data_addNode]
  rfl

theorem modifierStep_words (hr : rec.Sound) {r : Step (Array NodeId × List Modifier)}
    (hx : Words s x) (h : Runs (modifierStep rec x) s r s') : Words s' r.value := by
  obtain ⟨list, found⟩ := x
  -- An annotation adds no word to either side, and a word adds itself to both.
  unfold modifierStep at h
  obtain ⟨-, h⟩ | ⟨-, h⟩ := runs_ite.mp (runs_bind_isAt.mp h)
  · obtain ⟨use, t, ha, h⟩ := runs_bind.mp h
    obtain ⟨rfl, rfl⟩ := runs_pure.mp h
    obtain ⟨qs, -, -, hb⟩ := annotationUse_appends hr ha #[]
    obtain ⟨hk, htext⟩ := annotationUse_leafText ha
    have hpush : Words t (list.push use, found ++ []) := hx.push hb hk (by simp [htext])
    rwa [List.append_nil] at hpush
  · obtain ⟨-, h⟩ | ⟨-, h⟩ := runs_ite.mp (runs_bind_isAtModifier.mp h)
    · obtain ⟨word, t, hb, h⟩ := runs_bind.mp (runs_bind_get.mp h)
      obtain ⟨rfl, rfl⟩ := runs_pure.mp h
      obtain ⟨q, -, hbuilds⟩ := bump_makes hb
      obtain ⟨atom, hleaf⟩ := (isLeafOf_bumpAs (runs_bump.mp hb)).leaf?
      refine hx.push hbuilds (bump_kind? hb) (mem_modifiersOf_vararg.trans ?_)
      rw [Forest.leafText, hleaf]
      rfl
    · obtain ⟨rfl, rfl⟩ := runs_pure.mp h
      exact hx

/-- There are no modifiers, or there is a list of them that says which they are. -/
theorem modifiers_words (hr : rec.Sound) (h : Runs (modifiers rec #[]) s (children, found) s') :
    (children = #[] ∧ .varargWord ∉ found) ∨
      ∃ list, children = #[list] ∧ s'.forest.kind? (some list) = some (.node .modifierList) ∧
        Words s' (s'.forest.children (some list), found) := by
  unfold modifiers at h
  obtain ⟨⟨list, found'⟩, s₁, hl, h⟩ := runs_bind.mp (runs_bind_place.mp h)
  have hwords : Words s₁ (list, found') :=
    runs_repeating_value (I := Words) (fun _ _ _ _ => modifierStep_words hr) (words_nil s) hl
  obtain ⟨hnil, h⟩ | ⟨-, h⟩ := runs_ite.mp h
  · obtain ⟨he, rfl⟩ := runs_pure.mp h
    cases he
    refine Or.inl ⟨rfl, fun hmem => ?_⟩
    obtain ⟨id, hid, -⟩ := hwords.vararg.mp hmem
    simp [Array.isEmpty_iff.mp hnil] at hid
  · obtain ⟨made, s₂, hn, h⟩ := runs_bind.mp h
    obtain ⟨he, rfl⟩ := runs_pure.mp h
    cases he
    have hkept := hwords.node hn
    obtain ⟨rfl, rfl⟩ := runs_node.mp hn
    refine Or.inr ⟨_, rfl, Forest.kind?_addNode .., ?_⟩
    rwa [State.noded, Forest.children_addNode]

/-- Nothing comes before a first child. -/
theorem Adds.getElem?_zero {found : List NodeId} (h : Adds s cs found s' cs') (h₀ : cs[0]? = some id) :
    cs'[0]? = some id := by
  obtain ⟨qs, rfl, -, -⟩ := h.appends
  rw [Array.getElem?_append_left (Array.getElem?_eq_some_iff.mp h₀).1, h₀]

/-- Children that start with a leaf, if there are any. -/
def LeafFirst (s : State) (cs : Array NodeId) : Prop :=
  ∀ id, cs[0]? = some id → ∃ k, s.forest.kind? (some id) = some (.token k)

theorem leafFirst_empty (s : State) : LeafFirst s #[] := fun _ h => nomatch h

theorem LeafFirst.adds {found : List NodeId} (h : LeafFirst s cs) (hne : cs ≠ #[])
    (ha : Adds s cs found s' cs') : LeafFirst s' cs' := by
  intro id hid
  have hsize : 0 < cs.size := Array.size_pos_iff.mpr hne
  have hfirst := ha.getElem?_zero (Array.getElem?_eq_getElem hsize)
  obtain rfl := Option.some.inj (hfirst.symm.trans hid)
  obtain ⟨k, hk⟩ := h _ (Array.getElem?_eq_getElem hsize)
  exact ⟨k, ha.appends.kind? hk⟩

theorem LeafFirst.push {k : TokenKind} (h : LeafFirst s cs) (hm : Makes s id s')
    (hk : s'.forest.kind? (some id) = some (.token k)) : LeafFirst s' (cs.push id) := by
  by_cases hcs : cs = #[]
  · subst hcs
    intro i hi
    cases hi
    exact ⟨k, hk⟩
  · exact h.adds hcs (hm.adds cs)

theorem LeafFirst.bump (h : LeafFirst s cs) (hb : Runs Grammar.bump s id s') :
    LeafFirst s' (cs.push id) := h.push (bump_makes hb) (bump_kind? hb)

theorem LeafFirst.bumpName (h : LeafFirst s cs) (hn : Runs Grammar.bumpName s o s') :
    LeafFirst s' (add cs o) := by
  have hy := bumpName_yields hn
  cases o with
  | none =>
    obtain rfl := hy.eq_of_none
    exact h
  | some id => exact h.push hy.makes (bumpName_kind? hn)

theorem LeafFirst.not_hasModifier (h : LeafFirst s cs) (word : String) :
    ¬s.forest.HasModifier cs word := by
  rintro ⟨list, hlist, hk, -⟩
  obtain ⟨k, hk'⟩ := h list hlist
  cases hk.symm.trans hk'

/-- A list of modifiers says the same when there are more children behind it. -/
theorem Words.hasModifier_iff {more : List NodeId}
    (h : Words s (s.forest.children (some list), found))
    (hk : s.forest.kind? (some list) = some (.node .modifierList)) (h₀ : cs[0]? = some list)
    (ha : Adds s cs more s' cs') : .varargWord ∈ found ↔ s'.forest.HasModifier cs' "vararg" := by
  obtain ⟨qs, -, -, hb⟩ := ha.appends
  have hwords := (h.builds hb).vararg
  rw [← hb.children hk] at hwords
  refine hwords.trans ⟨fun hleaf => ⟨list, ha.getElem?_zero h₀, hb.kind? hk, hleaf⟩, ?_⟩
  rintro ⟨list', hfirst, -, hleaf⟩
  obtain rfl := Option.some.inj ((ha.getElem?_zero h₀).symm.trans hfirst)
  exact hleaf

end

end Grammar

end KotlinTree
