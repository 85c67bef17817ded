import KotlinTree.Proofs.Grammar.Derivation
import KotlinTree.Proofs.Syntax.Extension
import KotlinTree.Proofs.Token.Partition

/-!
How a run moves through the tokens: they always cut the rest of the source, and no tree is made
without taking one before the end of the file.
-/

namespace KotlinTree.Grammar

/-- The forest with a leaf for the current token. -/
def State.leafed (s : State) (k : TokenKind) : Forest :=
  (s.forest.addLeaf k ⟨s.current.place, s.current.stop⟩ s.current.leading s.current.text
    s.current.value).2

/-- The forest with a node over some others. -/
def State.noded (s : State) (k : NodeKind) (start : Nat) (children : Array NodeId)
    (data : NodeData) : Forest :=
  (s.forest.addNode k start children data).2

section
variable {s s' : State} {id : NodeId} {ps : List Piece}

theorem runs_bumpAs {k : TokenKind} :
    Runs (bumpAs k) s id s' ↔
      s.forest.size = id ∧ { s with forest := s.leafed k }.advance = s' :=
  Prod.mk.injEq _ _ _ _ ▸ Iff.rfl

theorem runs_node {k : NodeKind} {start : Nat} {children : Array NodeId} {data : NodeData} :
    Runs (node k start children data) s id s' ↔
      s.forest.size = id ∧ { s with forest := s.noded k start children data } = s' :=
  Prod.mk.injEq _ _ _ _ ▸ Iff.rfl

theorem runs_change {f : Node → Node} :
    Runs (change id f) s () s' ↔ { s with forest := s.forest.modify id f } = s' := by
  constructor
  · intro h
    exact congrArg Prod.snd h
  · rintro rfl
    rfl

theorem Cosmetic.kept {change : Node → Node} (hc : Cosmetic change) (n : Node) :
    n.Kept (change n) :=
  ⟨⟨hc.kind n, hc.span n, hc.children n, hc.data n, fun _ hq => (hc.parent n).trans hq⟩, hc.leaf? n⟩

@[simp] theorem State.advance_forest (s : State) : s.advance.forest = s.forest := by
  unfold State.advance
  split <;> rfl

/-- A run leaves the nodes that are there what they are, apart from their parents and marks. -/
theorem Builds.kept (h : Builds s ps s') {n : Node} (hn : s.forest.nodes[id]? = some n) :
    ∃ m, s'.forest.nodes[id]? = some m ∧ m.kind = n.kind ∧ m.children = n.children ∧
      n.data.Alike m.data ∧ m.data.leaf? = n.data.leaf? := by
  -- A node keeps its kind and children for good; adopting it changes its parent, and a change is
  -- cosmetic.
  induction h generalizing n with
  | refl s => exact ⟨n, hn, rfl, rfl, .refl _, rfl⟩
  | trans _ _ ih₁ ih₂ =>
    obtain ⟨m, hm, hkind, hchildren, hdata, hleaf⟩ := ih₁ hn
    obtain ⟨m', hm', hkind', hchildren', hdata', hleaf'⟩ := ih₂ hm
    exact ⟨m', hm', hkind'.trans hkind, hchildren'.trans hchildren, hdata.trans hdata',
      hleaf'.trans hleaf⟩
  | bump _ h =>
    obtain ⟨-, rfl⟩ := runs_bumpAs.mp h
    rw [State.advance_forest]
    obtain ⟨m, hm, hk⟩ := (Forest.extends_addLeaf _ _ _ _ _ _).kept hn
    exact ⟨m, hm, hk.kind, hk.children, hk.data, hk.leaf?⟩
  | node _ _ _ _ _ _ h ih =>
    obtain ⟨-, rfl⟩ := runs_node.mp h
    obtain ⟨m, hm, hkind, hchildren, hdata, hleaf⟩ := ih hn
    refine ⟨_, Forest.getElem?_addNode_of_lt hm _ _ _ _, (Forest.adopt_kind ..).trans hkind,
      (Forest.adopt_children ..).trans hchildren, ?_⟩
    rw [Forest.adopt_data]
    exact ⟨hdata, hleaf⟩
  | change _ _ cosmetic h ih =>
    obtain rfl := runs_change.mp h
    obtain ⟨m, hm, hkind, hchildren, hdata, hleaf⟩ := ih hn
    obtain ⟨m', hm', hk⟩ := (Forest.extends_modify cosmetic.kept).kept hm
    exact ⟨m', hm', hk.kind.trans hkind, hk.children.trans hchildren, hdata.trans hk.data,
      hk.leaf?.trans hleaf⟩
  | report _ _ ih => exact ih hn
  | deeper _ _ ih => exact ih hn
  | braces _ _ ih => exact ih hn
  | drop _ _ _ ih => exact ih hn

theorem Builds.kind? (h : Builds s ps s') {k : Kind} (hk : s.forest.kind? (some id) = some k) :
    s'.forest.kind? (some id) = some k := by
  obtain ⟨n, hn, rfl⟩ := Forest.exists_of_kind? hk
  obtain ⟨m, hm, hkind, -⟩ := h.kept hn
  rw [Forest.kind?_of_getElem? hm, hkind]

theorem Builds.children (h : Builds s ps s') {list : NodeId} {k : Kind}
    (hk : s.forest.kind? (some list) = some k) :
    s'.forest.children (some list) = s.forest.children (some list) := by
  obtain ⟨n, hn, -⟩ := Forest.exists_of_kind? hk
  obtain ⟨m, hm, -, hchildren, -⟩ := h.kept hn
  rw [Forest.children_of_getElem? hm, Forest.children_of_getElem? hn, hchildren]

theorem Builds.leafText (h : Builds s ps s') {k : Kind} (hk : s.forest.kind? (some id) = some k) :
    s'.forest.leafText (some id) = s.forest.leafText (some id) := by
  obtain ⟨n, hn, -⟩ := Forest.exists_of_kind? hk
  obtain ⟨m, hm, -, -, -, hleaf⟩ := h.kept hn
  rw [Forest.leafText, Forest.leafText, Forest.leaf?_of_getElem? hm, Forest.leaf?_of_getElem? hn, hleaf]

theorem Builds.link? (h : Builds s ps s') {l : NodeId × NodeId} (hl : s.forest.link? id = some l) :
    s'.forest.link? id = some l := by
  obtain ⟨n, hn, hlink⟩ := Forest.exists_of_link? hl
  obtain ⟨m, hm, -, -, hdata, -⟩ := h.kept hn
  rw [Forest.link?, Forest.data_of_getElem? hm, hdata.link?, hlink]

theorem Builds.isPath (h : Builds s ps s') (hp : s.forest.IsPath id) : s'.forest.IsPath id := by
  induction hp with
  | name hk => exact .name (h.kind? hk)
  | link hl _ ih => exact .link (h.link? hl) ih

theorem MakesIfAny.kind? {o : Option NodeId} (h : MakesIfAny s o s') {k : Kind}
    (hk : s.forest.kind? (some id) = some k) : s'.forest.kind? (some id) = some k := by
  obtain ⟨q, -, hb⟩ := h
  exact hb.kind? hk

theorem Appends.kind? {cs cs' : Array NodeId} {found : List NodeId}
    (h : Appends s cs found s' cs') {k : Kind} (hk : s.forest.kind? (some id) = some k) :
    s'.forest.kind? (some id) = some k := by
  obtain ⟨qs, -, -, hb⟩ := h
  exact hb.kind? hk

theorem Adds.areParameters {cs cs' : Array NodeId} {found ids : List NodeId}
    (h : Adds s cs found s' cs') (hp : s.forest.AreParameters ids) : s'.forest.AreParameters ids :=
  fun id hid => h.appends.kind? (hp id hid)

/-- What follows a sign still does after more children. -/
theorem Adds.follows {sign : TokenKind} {cs cs' : Array NodeId} {found : List NodeId}
    (h : Adds s cs found s' cs') (hc : s.forest.Follows sign cs id) :
    s'.forest.Follows sign cs' id := by
  obtain ⟨before, word, after, hcs, hk⟩ := hc
  obtain ⟨qs, rfl, -, hb⟩ := h.appends
  refine ⟨before, word, after ++ (roots qs).toList, ?_, hb.kind? hk⟩
  rw [Array.toList_append, hcs, List.append_assoc, List.cons_append, List.cons_append]

/-- What holds of the tokens ahead, and is kept when one of them is taken, still holds after a
run. -/
theorem Builds.tokens_induction {P : List Token → Prop}
    (hP : ∀ s : State, P s.tokens → P s.advance.tokens) (h : Builds s ps s')
    (h₀ : P s.tokens) : P s'.tokens := by
  induction h with
  | refl s => exact h₀
  | trans _ _ ih₁ ih₂ => exact ih₂ (ih₁ h₀)
  | bump _ h =>
    obtain ⟨-, rfl⟩ := runs_bumpAs.mp h
    exact hP _ h₀
  | node _ _ _ _ _ _ h ih =>
    obtain ⟨-, rfl⟩ := runs_node.mp h
    exact ih h₀
  | change _ _ _ h ih =>
    obtain rfl := runs_change.mp h
    exact ih h₀
  | report _ _ ih => exact ih h₀
  | deeper _ _ ih => exact ih h₀
  | braces _ _ ih => exact ih h₀
  | drop _ _ _ ih => exact ih h₀

theorem Builds.ahead_length_le (h : Builds s ps s') : s'.ahead.length ≤ s.ahead.length := by
  have hlen := h.tokens_induction (P := fun ts => ts.length ≤ s.tokens.length) (fun t ht => by
    refine le_trans ?_ ht
    unfold State.advance
    cases ha : t.ahead with
    | nil => simp [State.tokens]
    | cons token tokens => simp [State.tokens, ha]) le_rfl
  exact Nat.le_of_succ_le_succ hlen

end

/-- The tokens cut what is left of a source after its front. -/
def Ahead (source : String) (ts : List Token) : Prop :=
  ∃ front rest, front ++ rest = source ∧ Token.Cuts front.utf8ByteSize rest ts

section
variable {source : String} {s s' : State} {ps : List Piece}

theorem ahead_ofSource (file source : String) :
    Ahead source (State.ofSource file source).tokens := by
  have hc := Token.ofSource_cuts source
  unfold State.ofSource
  cases ht : Token.ofSource source with
  | nil => exact absurd ht hc.ne_nil
  | cons t ts =>
    rw [ht] at hc
    exact ⟨"", source, String.empty_append, hc⟩

/-- Only the end of the file has nothing after it. -/
theorem Ahead.isEnd_iff (h : Ahead source s.tokens) : s.current.isEnd = true ↔ s.ahead = [] := by
  obtain ⟨front, rest, -, hc⟩ := h
  generalize hts : s.tokens = ts at hc
  generalize front.utf8ByteSize = n at hc
  cases hc with
  | last hend _ =>
    obtain ⟨rfl, ha⟩ := List.cons.inj hts
    exact ⟨fun _ => ha, fun _ => hend⟩
  | next hend _ hc =>
    obtain ⟨rfl, rfl⟩ := List.cons.inj hts
    rw [hend]
    exact ⟨fun h => absurd h Bool.false_ne_true, fun ha => absurd ha hc.ne_nil⟩

theorem Ahead.advance (h : Ahead source s.tokens) : Ahead source s.advance.tokens := by
  obtain ⟨front, rest, rfl, hc⟩ := h
  generalize hts : s.tokens = ts at hc
  generalize hn : front.utf8ByteSize = n at hc
  cases hc with
  | @last t hend htext =>
    -- The end of the file gives way to an end without trivia, which cuts the empty rest.
    obtain ⟨rfl, ha⟩ := List.cons.inj hts
    have hw : s.current.written = s.current.leading := by
      rw [Token.written, htext, String.append_empty]
    have hstop : s.current.stop = (front ++ s.current.leading).utf8ByteSize := by
      rw [Token.stop_eq, hw, String.utf8ByteSize_append, hn]
    unfold State.advance
    rw [ha]
    refine ⟨front ++ s.current.leading, "", String.append_empty, ?_⟩
    rw [← hstop]
    exact Token.Cuts.endAt _
  | @next t rest ts hend _ hc =>
    obtain ⟨rfl, ha⟩ := List.cons.inj hts
    have hstop : s.current.stop = (front ++ s.current.written).utf8ByteSize := by
      rw [Token.stop_eq, String.utf8ByteSize_append, hn]
    unfold State.advance
    rw [ha]
    cases ts with
    | nil => exact absurd rfl hc.ne_nil
    | cons token tokens =>
      refine ⟨front ++ s.current.written, rest, String.append_assoc, ?_⟩
      rw [← hstop]
      exact hc

theorem runs_bumpAs_ahead {id : NodeId} {k : TokenKind} (h : Runs (bumpAs k) s id s')
    (hs : Ahead source s.tokens) : Ahead source s'.tokens := by
  obtain ⟨-, rfl⟩ := runs_bumpAs.mp h
  exact hs.advance (s := { s with forest := s.leafed k })

theorem Builds.ahead (h : Builds s ps s') (h₀ : Ahead source s.tokens) : Ahead source s'.tokens :=
  h.tokens_induction (fun _ ht => ht.advance) h₀

/-- A run before the end of the file takes a token, unless it makes no tree and takes none. -/
theorem Builds.progress (h : Builds s ps s') (h₀ : Ahead source s.tokens)
    (hend : s.current.isEnd = false) :
    (s'.tokens = s.tokens ∧ ps = []) ∨ s'.ahead.length < s.ahead.length := by
  induction h with
  | refl s => exact Or.inl ⟨rfl, rfl⟩
  | @trans s s₁ s' ps qs first rest ih₁ ih₂ =>
    obtain ⟨ht, rfl⟩ | hlt := ih₁ h₀ hend
    · -- The first run has taken nothing, so the second one is still before the end.
      obtain ⟨hcur, hahead⟩ := List.cons.inj ht
      rw [← ht, ← hahead]
      rw [← hcur] at hend
      exact ih₂ (ht ▸ h₀) hend
    · exact Or.inr (lt_of_le_of_lt rest.ahead_length_le hlt)
  | @bump s s' k id _ h =>
    obtain ⟨-, rfl⟩ := runs_bumpAs.mp h
    right
    cases ha : s.ahead with
    | nil =>
      -- Nothing comes after the end of the file only.
      rw [h₀.isEnd_iff.mpr ha] at hend
      cases hend
    | cons token tokens => simp [State.advance]
  | @node s s₁ s' ps k start data id below empty _ _ _ _ h ih =>
    obtain ⟨-, rfl⟩ := runs_node.mp h
    obtain ⟨ht, he⟩ | hlt := ih h₀ hend
    · -- Without children, the node is made at the end of the file.
      obtain ⟨hcur, -⟩ := List.cons.inj ht
      rw [← hcur, (empty he).1] at hend
      cases hend
    · exact Or.inr hlt
  | change _ _ _ h ih =>
    obtain rfl := runs_change.mp h
    exact ih h₀ hend
  | report _ _ ih => exact ih h₀ hend
  | deeper _ _ ih => exact ih h₀ hend
  | braces _ _ ih => exact ih h₀ hend
  | drop _ _ _ ih =>
    obtain ⟨-, he⟩ | hlt := ih h₀ hend
    · cases he
    · exact Or.inr hlt

theorem Makes.progress {id : NodeId} (h : Makes s id s') (h₀ : Ahead source s.tokens)
    (hend : s.current.isEnd = false) : s'.ahead.length < s.ahead.length := by
  obtain ⟨q, -, hb⟩ := h
  obtain ⟨-, he⟩ | hlt := hb.progress h₀ hend
  · cases he
  · exact hlt

end

end KotlinTree.Grammar
