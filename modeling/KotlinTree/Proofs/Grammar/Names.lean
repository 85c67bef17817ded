import KotlinTree.Proofs.Grammar.Growth
import KotlinTree.Proofs.Grammar.Unit

/-!
Names of leaves: the table of a forest finds each text where it stands, and every leaf has its name
in the table. A text that enters the table changes no name that is there. A leaf that can be a name has
its own text for a name, as long as there are no quotes in the text.
-/

namespace KotlinTree

namespace Interner

/-- A table finds texts where they stand, and has the empty text. -/
structure Sound (t : Interner) : Prop where
  found : ∀ (text : String) (i : Nat), t.numbers[text]? = some i → t.texts[i]? = some text
  empty : t.texts[0]? = some ""

variable {t : Interner}

theorem Sound.pos (h : t.Sound) : 0 < t.size := (Array.getElem?_eq_some_iff.mp h.empty).1

theorem Sound.resolve_none (h : t.Sound) : t.resolve .none = "" := by
  have hget : t.texts[Atom.none.index]? = some "" := h.empty
  rw [resolve, Array.getD_eq_getD_getElem?, hget, Option.getD_some]

theorem lookup?_eq_some {text : String} {atom : Atom} (h : t.lookup? text = some atom) :
    t.numbers[text]? = some atom.index := by
  obtain ⟨i, hi, rfl⟩ := Option.map_eq_some_iff.mp h
  exact hi

/-- A text that is new comes last. -/
theorem texts_intern (t : Interner) (text : String) :
    (t.intern text).2.texts = t.texts ∨ (t.intern text).2.texts = t.texts.push text := by
  unfold intern
  split
  · exact Or.inl rfl
  · exact Or.inr rfl

theorem size_le_intern (t : Interner) (text : String) : t.size ≤ (t.intern text).2.size := by
  unfold size
  rcases t.texts_intern text with h | h
  · rw [h]
  · rw [h, Array.size_push]
    exact Nat.le_succ _

/-- The texts that are in the table keep their numbers. -/
theorem resolve_intern_of_lt {atom : Atom} (text : String) (h : atom.index < t.size) :
    (t.intern text).2.resolve atom = t.resolve atom := by
  unfold resolve
  rcases t.texts_intern text with ht | ht
  · rw [ht]
  · rw [ht, Array.getD_eq_getD_getElem?, Array.getD_eq_getD_getElem?,
      Array.getElem?_push_lt (h : atom.index < t.texts.size)]
    simp only [Array.getElem?_eq_getElem (h : atom.index < t.texts.size)]

theorem Sound.getElem?_intern (h : t.Sound) (text : String) :
    (t.intern text).2.texts[(t.intern text).1.index]? = some text := by
  unfold intern
  split
  · rename_i atom hfound
    exact h.found text atom.index (lookup?_eq_some hfound)
  · exact Array.getElem?_push_size

/-- The number that is given to a text is its own. -/
theorem Sound.resolve_intern (h : t.Sound) (text : String) :
    (t.intern text).2.resolve (t.intern text).1 = text := by
  unfold resolve
  rw [Array.getD_eq_getD_getElem?, h.getElem?_intern text, Option.getD_some]

theorem Sound.intern_lt (h : t.Sound) (text : String) :
    (t.intern text).1.index < (t.intern text).2.size :=
  (Array.getElem?_eq_some_iff.mp (h.getElem?_intern text)).1

theorem Sound.intern (h : t.Sound) (text : String) : (t.intern text).2.Sound where
  empty := by
    rcases t.texts_intern text with ht | ht
    · rw [ht]
      exact h.empty
    · rw [ht, Array.getElem?_push_lt h.pos, ← Array.getElem?_eq_getElem h.pos]
      exact h.empty
  found := by
    intro other i hi
    unfold Interner.intern at hi ⊢
    split
    · rename_i hfound
      rw [hfound] at hi
      exact h.found other i hi
    · rename_i hnone
      rw [hnone] at hi
      simp only [Std.HashMap.getElem?_insert, beq_iff_eq] at hi
      -- The text is the new one or was there before.
      split at hi
      · rename_i he
        cases hi
        rw [← he]
        exact Array.getElem?_push_size
      · have hold := h.found other i hi
        have hlt := (Array.getElem?_eq_some_iff.mp hold).1
        rw [Array.getElem?_push_lt hlt, ← Array.getElem?_eq_getElem hlt]
        exact hold

theorem sound_new : new.Sound := by
  have hfold (texts : List String) (t : Interner) (ht : t.Sound) :
      (texts.foldl (fun t text => (t.intern text).2) t).Sound := by
    induction texts generalizing t with
    | nil => exact ht
    | cons text texts ih => exact ih _ (ht.intern text)
  refine hfold common _ ⟨?_, rfl⟩
  intro text i hi
  simp only [Std.HashMap.getElem?_insert, beq_iff_eq, Std.HashMap.getElem?_empty] at hi
  split at hi
  · rename_i he
    cases hi
    rw [← he]
    rfl
  · cases hi

end Interner

namespace Forest

/-- Every leaf has its name in the table of the forest. -/
structure Named (f : Forest) : Prop where
  table : f.names.Sound
  leaf : ∀ (i : NodeId) (leaf : Leaf), f.leaf? (some i) = some leaf → leaf.atom.index < f.names.size

/-- A name that is missing is empty. -/
theorem Named.nameText_none {f : Forest} (h : f.Named) : f.nameText none = "" := h.table.resolve_none

theorem lt_size_of_leaf? {f : Forest} {i : NodeId} {leaf : Leaf} (h : f.leaf? (some i) = some leaf) :
    i < f.size := by
  cases hn : f.nodes[i]? with
  | none => simp [leaf?_eq, data, node?, hn, NodeData.leaf?] at h
  | some n => exact lt_size_of_getElem? hn

/-- What makes no leaf leaves all names in the table. -/
theorem Named.extends {f g : Forest} (h : f.Named) (hx : f.Extends g) (hnames : g.names = f.names)
    (hnew : ∀ i, f.size ≤ i → g.leaf? (some i) = none) : g.Named where
  table := hnames ▸ h.table
  leaf i leaf hl := by
    rw [hnames]
    rcases Nat.lt_or_ge i f.size with hi | hi
    · exact h.leaf i leaf ((hx.leaf? i hi).symm.trans hl)
    · exact nomatch (hnew i hi).symm.trans hl

theorem Named.addLeaf {f : Forest} (h : f.Named) (k : TokenKind) (span : Span)
    (leading text value : String) : (f.addLeaf k span leading text value).2.Named := by
  have hnames : (f.addLeaf k span leading text value).2.names =
      (if k.isName then f.names.intern value else (Atom.none, f.names)).2 := rfl
  have hnew := getElem?_addLeaf f k span leading text value f.size
  rw [if_pos rfl] at hnew
  -- A leaf that cannot be a name has the empty text for one.
  have hatom : (if k.isName then f.names.intern value else (Atom.none, f.names)).1.index <
      (if k.isName then f.names.intern value else (Atom.none, f.names)).2.size := by
    split
    · exact h.table.intern_lt value
    · exact h.table.pos
  have hgrows : f.names.size ≤
      (if k.isName then f.names.intern value else (Atom.none, f.names)).2.size := by
    split
    · exact f.names.size_le_intern value
    · exact le_rfl
  constructor
  · rw [hnames]
    split
    · exact h.table.intern value
    · exact h.table
  · intro i leaf hl
    rw [hnames]
    have hlt := lt_size_of_leaf? hl
    rw [size_addLeaf] at hlt
    rcases Nat.lt_succ_iff_lt_or_eq.mp hlt with hi | rfl
    · have hold := (extends_addLeaf f k span leading text value).leaf? i hi
      exact (h.leaf i leaf (hold.symm.trans hl)).trans_le hgrows
    · rw [leaf?_of_getElem? hnew] at hl
      cases hl
      exact hatom

theorem named_empty : Named {} := by
  constructor
  · dsimp only
    exact Interner.sound_new
  · intro i leaf h
    simp [leaf?_eq, data, node?, NodeData.leaf?] at h

end Forest

namespace Grammar

/-- Every run keeps what each new leaf keeps, and what is kept where forests grow by nodes that are no
leaves. What all runs keep of the forest and the tokens ahead can be used on the way. -/
theorem Builds.forest_induction_along {P : Forest → Prop} {Q : Forest → List Token → Prop}
    (hruns : ∀ {s ps s'}, Builds s ps s' → s.forest.Linked → Q s.forest s.tokens →
      Q s'.forest s'.tokens)
    (hleafed : ∀ (s : State) (k : TokenKind), Q s.forest s.tokens → P s.forest → P (s.leafed k))
    (hextends : ∀ f g : Forest, f.Extends g → g.names = f.names →
      (∀ i, f.size ≤ i → g.leaf? (some i) = none) → P f → P g)
    {s s' : State} {ps : List Piece} (h : Builds s ps s') (hf : s.forest.Linked)
    (hq : Q s.forest s.tokens) (hn : P s.forest) : P s'.forest := by
  have hout {f : Forest} {i : NodeId} (hi : f.size ≤ i) : f.leaf? (some i) = none := by
    rw [Forest.leaf?_eq, Forest.data, Forest.node?, Option.bind_some, Array.getElem?_eq_none hi]
    rfl
  -- Leaves are made by tokens only, so nodes and changes extend the forest without one.
  induction h with
  | refl s => exact hn
  | trans first _ ih₁ ih₂ => exact ih₂ (first.grown hf).linked (hruns first hf hq) (ih₁ hf hq hn)
  | bump _ h =>
    obtain ⟨-, rfl⟩ := runs_bumpAs.mp h
    rw [State.advance_forest]
    exact hleafed _ _ hq hn
  | @node _ s₁ _ ps k start data _ below _ leaf _ _ _ h ih =>
    obtain ⟨-, rfl⟩ := runs_node.mp h
    refine hextends s₁.forest _ (Forest.extends_addNode (below.grown hf).adoptable _ _ _) rfl ?_
      (ih hf hq hn)
    intro i hi
    rcases Nat.eq_or_lt_of_le hi with rfl | hlt
    · rw [Forest.leaf?_eq]
      exact (congrArg _ (Forest.data_addNode ..)).trans leaf
    · refine hout (le_of_eq_of_le ?_ hlt)
      exact Forest.size_addNode ..
  | @change _ s₁ _ _ _ _ _ _ cosmetic h ih =>
    obtain rfl := runs_change.mp h
    refine hextends s₁.forest _ (Forest.extends_modify cosmetic.kept) rfl (fun i hi => ?_)
      (ih hf hq hn)
    exact hout (le_of_eq_of_le (Forest.size_modify _ _ _) hi)
  | report _ _ ih => exact ih hf hq hn
  | deeper _ _ ih => exact ih hf hq hn
  | braces _ _ ih => exact ih hf hq hn
  | drop _ _ _ ih => exact ih hf hq hn

theorem Builds.forest_induction {P : Forest → Prop}
    (hleafed : ∀ (s : State) (k : TokenKind), P s.forest → P (s.leafed k))
    (hextends : ∀ f g : Forest, f.Extends g → g.names = f.names →
      (∀ i, f.size ≤ i → g.leaf? (some i) = none) → P f → P g)
    {s s' : State} {ps : List Piece} (h : Builds s ps s') (hf : s.forest.Linked)
    (hn : P s.forest) : P s'.forest :=
  h.forest_induction_along (Q := fun _ _ => True) (fun _ _ _ => trivial)
    (fun s k _ => hleafed s k) hextends hf trivial hn

/-- Every run keeps the names of leaves in the table. -/
theorem Builds.named {s s' : State} {ps : List Piece} (h : Builds s ps s') (hf : s.forest.Linked)
    (hn : s.forest.Named) : s'.forest.Named :=
  h.forest_induction (fun _ _ hn => hn.addLeaf _ _ _ _ _)
    (fun _ _ hx hnames hnew hn => hn.extends hx hnames hnew) hf hn

end Grammar

theorem ParsedUnit.ofSource_named (fileName source : String) :
    (ofSource fileName source).forest.Named := by
  obtain ⟨s, q, hb, -, hforest, -⟩ := Grammar.ofSource_builds fileName source
  have hempty := Grammar.forest_ofSource fileName source
  rw [← hforest]
  exact hb.named (hempty ▸ Forest.linked_empty) (hempty ▸ Forest.named_empty)

/-- Without quotes there is nothing to take off a token. -/
theorem Token.value_eq_text {t : Token} (h : '`' ∉ t.text.toList) : t.value = t.text := by
  have hfree {cs : List Char} (hcs : '`' ∉ cs) : cs.dropWhile (· = '`') = cs := by
    cases cs with
    | nil => rfl
    | cons c cs =>
      have hc : c ≠ '`' := fun he => hcs (he ▸ List.mem_cons_self)
      simp [hc]
  have htrim : Text.trimBy (· = '`') t.text.toList = t.text.toList := by
    rw [Text.trimBy, hfree h, hfree (by rwa [List.mem_reverse]), List.reverse_reverse]
  unfold value
  split
  · rw [htrim, String.ofList_toList]
  · rfl

namespace Forest

/-- Every leaf of a kind that can be a name, and without quotes, has its text for a name. -/
def Spelled (f : Forest) : Prop :=
  ∀ (i : NodeId) (k : TokenKind) (leaf : Leaf), f.kind? (some i) = some (.token k) → k.isName →
    f.leaf? (some i) = some leaf → '`' ∉ leaf.text.toList → f.names.resolve leaf.atom = leaf.text

/-- What makes no leaf leaves names as they are. -/
theorem Spelled.extends {f g : Forest} (h : f.Spelled) (hx : f.Extends g) (hnames : g.names = f.names)
    (hnew : ∀ i, f.size ≤ i → g.leaf? (some i) = none) : g.Spelled := by
  intro i k leaf hkind hname hleaf hfree
  rw [hnames]
  rcases Nat.lt_or_ge i f.size with hi | hi
  · obtain ⟨n, hn⟩ := exists_getElem? hi
    obtain ⟨m, hm, hkept⟩ := hx.kept hn
    rw [kind?_of_getElem? hm, hkept.kind, ← kind?_of_getElem? hn] at hkind
    exact h i k leaf hkind hname ((hx.leaf? i hi).symm.trans hleaf) hfree
  · exact nomatch (hnew i hi).symm.trans hleaf

/-- A leaf for a token keeps the names there are, and gets that of the token. -/
theorem Spelled.addLeaf {f : Forest} (h : f.Spelled) (hn : f.Named) (k : TokenKind) (span : Span)
    (leading text value : String) (hvalue : '`' ∉ text.toList → value = text) :
    (f.addLeaf k span leading text value).2.Spelled := by
  intro i k' leaf hkind hname hleaf hfree
  have hnames : (f.addLeaf k span leading text value).2.names =
      (if k.isName then f.names.intern value else (Atom.none, f.names)).2 := rfl
  have hnew := getElem?_addLeaf f k span leading text value f.size
  rw [if_pos rfl] at hnew
  have hlt := lt_size_of_leaf? hleaf
  rw [size_addLeaf] at hlt
  rcases Nat.lt_succ_iff_lt_or_eq.mp hlt with hi | rfl
  · -- The name of an older leaf stays in the table.
    have hx := extends_addLeaf f k span leading text value
    obtain ⟨n, hget⟩ := exists_getElem? hi
    obtain ⟨m, hm, hkept⟩ := hx.kept hget
    rw [kind?_of_getElem? hm, hkept.kind, ← kind?_of_getElem? hget] at hkind
    have hold : f.leaf? (some i) = some leaf := (hx.leaf? i hi).symm.trans hleaf
    have hresolve : (f.addLeaf k span leading text value).2.names.resolve leaf.atom =
        f.names.resolve leaf.atom := by
      rw [hnames]
      split
      · exact f.names.resolve_intern_of_lt value (hn.leaf i leaf hold)
      · rfl
    rw [hresolve]
    exact h i k' leaf hkind hname hold hfree
  · rw [kind?_of_getElem? hnew] at hkind
    obtain rfl := Kind.token.inj (Option.some.inj hkind)
    rw [leaf?_of_getElem? hnew] at hleaf
    obtain rfl := Option.some.inj hleaf
    rw [hnames]
    dsimp only at hfree ⊢
    rw [if_pos hname, hn.table.resolve_intern, hvalue hfree]

theorem spelled_empty : Spelled {} := by
  intro i k leaf _ _ hleaf
  simp [leaf?_eq, data, node?, NodeData.leaf?] at hleaf

/-- A leaf says a text that is a name as it stands. -/
def saysName (f : Forest) (i : NodeId) (text : String) : Bool :=
  match f.kind? (some i), f.leaf? (some i) with
  | some (.token k), some leaf => k.isName && leaf.text = text && !text.toList.contains '`'
  | _, _ => false

theorem Spelled.nameText {f : Forest} (hs : f.Spelled) {i : NodeId} {text : String}
    (h : f.saysName i text = true) : f.nameText (some i) = text := by
  unfold saysName at h
  split at h
  · rename_i k leaf hkind hleaf
    simp only [Bool.and_eq_true, decide_eq_true_eq, Bool.not_eq_true', List.contains_eq_mem,
      decide_eq_false_iff_not] at h
    obtain ⟨⟨hname, rfl⟩, hfree⟩ := h
    rw [Forest.nameText, Forest.nameAtom, hleaf]
    exact hs i k leaf hkind hname hleaf hfree
  · cases h

end Forest

/-- A name that is written without quotes in a source is the text of its leaf. -/
theorem ParsedUnit.ofSource_spelled (fileName source : String) :
    (ofSource fileName source).forest.Spelled := by
  obtain ⟨s, q, hb, -, hforest, -⟩ := Grammar.ofSource_builds fileName source
  have hempty := Grammar.forest_ofSource fileName source
  rw [← hforest]
  refine (hb.forest_induction (P := fun f => f.Named ∧ f.Spelled) ?_ ?_ (hempty ▸ Forest.linked_empty)
    (hempty ▸ ⟨Forest.named_empty, Forest.spelled_empty⟩)).2
  · rintro s k ⟨hn, hs⟩
    exact ⟨hn.addLeaf _ _ _ _ _, hs.addLeaf hn _ _ _ _ _ Token.value_eq_text⟩
  · rintro f g hx hnames hnew ⟨hn, hs⟩
    exact ⟨hn.extends hx hnames hnew, hs.extends hx hnames hnew⟩

end KotlinTree
