import KotlinTree.Proofs.Grammar.Keeps
import KotlinTree.Proofs.Syntax.Slot

/-!
Trees as the grammar makes them: every node that a production makes is shaped, in the forest that the
parse ends with. What a production yields is said of that forest too, so that it need not be carried from
state to state.
-/

namespace KotlinTree

namespace Forest

/-- All nodes of one forest are in another, with the same children and the same slots. -/
structure PartOf (f F : Forest) : Prop where
  node : ∀ (i : NodeId) (n : Node), f.nodes[i]? = some n →
    ∃ m, F.nodes[i]? = some m ∧ m.kind = n.kind ∧ m.children = n.children ∧ m.data.slots = n.data.slots

/-- A node is plain or suits a slot, whatever stands before it. -/
def Stands (F : Forest) (slot : Slot) (id : NodeId) : Prop := F.Plain id ∨ ∀ cs, F.Suits cs id slot

section
variable {f g F : Forest} {id c : NodeId} {cs : Array NodeId} {slots slots' : List (Option NodeId × Slot)}
  {slot : Slot} {k : NodeKind} {kinds : List NodeKind}

theorem PartOf.refl (f : Forest) : f.PartOf f := ⟨fun _ n hn => ⟨n, hn, rfl, rfl, rfl⟩⟩

/-- To be part of a forest, no more is needed than that each node has its kind, its children and its
slots there. -/
theorem PartOf.of_grows (h : g.PartOf F)
    (hfg : ∀ (i : NodeId) (n : Node), f.nodes[i]? = some n →
      ∃ m, g.nodes[i]? = some m ∧ m.kind = n.kind ∧ m.children = n.children ∧ m.data.slots = n.data.slots) :
    f.PartOf F := by
  refine ⟨fun i n hn => ?_⟩
  obtain ⟨m, hm, hkind, hchildren, hslots⟩ := hfg i n hn
  obtain ⟨m', hm', hkind', hchildren', hslots'⟩ := h.node i m hm
  exact ⟨m', hm', hkind'.trans hkind, hchildren'.trans hchildren, hslots'.trans hslots⟩

/-- A leaf has nothing in it that could be a type. -/
theorem typeless_of_leaf {k : TokenKind} (hk : F.kind? (some id) = some (.token k))
    (hc : F.children (some id) = #[]) : F.Typeless id :=
  .inner (fun h => nomatch hk.symm.trans h) fun c hm => absurd (hc ▸ hm) (Array.not_mem_empty c)

/-- A node in which there is no type stands in no slot for one. -/
theorem Typeless.plain (h : F.Typeless id) (hk : F.kind? (some id) = some (.node k)) : F.Plain id :=
  ⟨h, fun hword => nomatch hk.symm.trans hword⟩

/-- A node is of its own kind. -/
theorem isOf_only (hk : F.kind? (some id) = some (.node k)) : F.IsOf [k] id :=
  ⟨k, List.mem_singleton_self k, hk⟩

/-- A node of the tree is not the word that stands before a delegate. -/
theorem IsOf.noWord (h : F.IsOf kinds id) : F.kind? (some id) ≠ some (.token .byKeyword) := by
  obtain ⟨k, -, hk⟩ := h
  exact fun hword => nomatch hk.symm.trans hword

/-- A node of one of the kinds that a slot takes stands in it. -/
theorem IsOf.stands (h : F.IsOf kinds id) : F.Stands (.of kinds) id := Or.inr fun _ => h

/-- A plain node stands in any slot. -/
theorem Plain.stands (h : F.Plain id) : F.Stands slot id := Or.inl h

/-- A slot that takes more kinds takes what stood in it. -/
theorem Stands.mono {kinds' : List NodeKind} (h : F.Stands (.of kinds) id) (hs : kinds ⊆ kinds') :
    F.Stands (.of kinds') id := by
  refine h.imp_right fun h cs => ?_
  obtain ⟨k, hk, hid⟩ := h cs
  exact ⟨k, hs hk, hid⟩

/-- A child that suits a slot does so when more children come after it. -/
theorem Suits.append (h : F.Suits cs c slot) (added : Array NodeId) : F.Suits (cs ++ added) c slot := by
  cases slot with
  | typeless | of _ | arguments _ | beside _ _ => exact h
  | delegate =>
    obtain ⟨hcode, before, word, after, hcs, hword, hbefore⟩ := h
    exact ⟨hcode, before, word, after ++ added.toList, by simp [hcs], hword, hbefore⟩

theorem Suits.push (h : F.Suits cs c slot) (id : NodeId) : F.Suits (cs.push id) c slot :=
  Array.push_eq_append ▸ h.append #[id]

/-- Nothing is out of place where there are no children. -/
theorem fills_empty : F.Fills #[] slots := fun c hc => absurd hc (Array.not_mem_empty c)

/-- Children that fill some slots fill more of them. -/
theorem Fills.mono (h : F.Fills cs slots) (hs : slots ⊆ slots') : F.Fills cs slots' := by
  intro c hc
  exact (h c hc).imp_right fun ⟨entry, hentry, hfor, hsuits⟩ => ⟨entry, hs hentry, hfor, hsuits⟩

/-- One more child, in a slot of its own. -/
theorem Fills.push_of (h : F.Fills cs slots)
    (hid : F.Plain id ∨ ∃ entry ∈ slots, (∀ i ∈ entry.1, i = id) ∧ F.Suits (cs.push id) id entry.2) :
    F.Fills (cs.push id) slots := by
  intro c hc
  rcases Array.mem_push.mp hc with hc | rfl
  · exact (h c hc).imp_right fun ⟨entry, hentry, hfor, hsuits⟩ => ⟨entry, hentry, hfor, hsuits.push id⟩
  · exact hid

/-- A plain child is never out of place. -/
theorem Fills.plain (h : F.Fills cs slots) (hid : F.Plain id) : F.Fills (cs.push id) slots :=
  h.push_of (Or.inl hid)

/-- A child may come as often as it likes where its slot is for any number of them. -/
theorem Fills.push_any (h : F.Fills cs slots) (hid : F.Stands slot id)
    (hany : Slot.any slot ∈ slots) : F.Fills (cs.push id) slots := by
  refine h.push_of (hid.imp_right fun hid => ⟨_, hany, ?_, hid _⟩)
  exact fun i hi => absurd hi (Option.not_mem_none i)

/-- So may a child without types where such are taken. -/
theorem Fills.typeless (h : F.Fills cs slots) (hid : F.Typeless id)
    (hany : Slot.any .typeless ∈ slots) : F.Fills (cs.push id) slots :=
  h.push_any (show F.Stands .typeless id from Or.inr fun _ => hid) hany

theorem fills_first (hid : F.Typeless id) (hany : Slot.any .typeless ∈ slots) :
    F.Fills #[id] slots := Fills.typeless fills_empty hid hany

/-- A child may come once where a slot is put in for it. -/
theorem Fills.push (h : F.Fills cs slots) (hid : F.Stands slot id) :
    F.Fills (cs.push id) (slots ++ slot.each [id]) := by
  refine (h.mono (List.subset_append_left _ _)).push_of (hid.imp_right fun hid => ?_)
  refine ⟨(some id, slot), List.mem_append_right _ (List.mem_singleton_self _), ?_, hid _⟩
  exact fun i hi => (Option.some.inj hi).symm

/-- Children without types fill the slots of any node. -/
theorem fills_of_typeless (h : ∀ c ∈ cs, F.Typeless c) {data : NodeData} {kind : NodeKind} :
    F.Fills cs (data.slots kind) := by
  refine fun c hc => Or.inr ⟨Slot.any .typeless, List.mem_cons_self, ?_, h c hc⟩
  exact fun i hi => absurd hi (Option.not_mem_none i)

/-- What any code can stand for has a place of its own where the body of a function is told from it. -/
theorem Fills.beside {body : Option NodeId} (h : F.Fills cs (Slot.any .code :: slots))
    (hbody : ∀ b ∈ body, F.Stands (.of kinds) b) :
    F.Fills cs (Slot.any (.beside body kinds) :: slots) := by
  intro c hc
  rcases h c hc with hplain | ⟨entry, hentry, hfor, hsuits⟩
  · exact Or.inl hplain
  rcases List.mem_cons.mp hentry with rfl | hentry
  · by_cases hb : body = some c
    · refine (hbody c hb).imp_right fun hkinds => ?_
      exact ⟨_, List.mem_cons_self, hfor, hsuits, fun _ => hkinds #[]⟩
    · exact Or.inr ⟨_, List.mem_cons_self, hfor, hsuits, fun h => absurd h hb⟩
  · exact Or.inr ⟨entry, List.mem_cons_of_mem _ hentry, hfor, hsuits⟩

/-- As long as there is no place for the word for a delegate, it is not there. -/
theorem Fills.noWord (h : F.Fills cs slots)
    (hs : ∀ entry ∈ slots, ∃ kinds, entry.2 = .of kinds) (hc : c ∈ cs) :
    F.kind? (some c) ≠ some (.token .byKeyword) := by
  rcases h c hc with hplain | ⟨entry, hentry, -, hsuits⟩
  · exact hplain.noWord
  · obtain ⟨kinds, hkinds⟩ := hs entry hentry
    rw [hkinds] at hsuits
    exact IsOf.noWord hsuits

end

end Forest

namespace Grammar

/-- Every run that ends in part of a forest starts in part of it, makes only shaped nodes and yields what is
right for the forest. -/
def Shapes {α : Type} (F : Forest) (R : Prop) (p : Parser α) (Q : α → Prop) : Prop :=
  ∀ ⦃s a s'⦄, Runs p s a s' → s'.forest.PartOf F → s.forest.PartOf F ∧
    (R → (∀ i, s.forest.size ≤ i → i < s'.forest.size → F.ShapedAt i) ∧ Q a)

/-- The same for runs from a token of some kind. -/
def ShapesAt {α : Type} (k : TokenKind) (F : Forest) (R : Prop) (p : Parser α) (Q : α → Prop) : Prop :=
  ∀ ⦃s a s'⦄, s.current.kind = k → Runs p s a s' → s'.forest.PartOf F → s.forest.PartOf F ∧
    (R → (∀ i, s.forest.size ≤ i → i < s'.forest.size → F.ShapedAt i) ∧ Q a)

section
variable {α β : Type} {F : Forest} {R R' : Prop} {p q : Parser α} {f : α → Parser β} {Q Q' : α → Prop}
  {T : β → Prop} {k : TokenKind}

namespace Shapes

/-- A value that is given outright makes no node. -/
protected theorem pure {a : α} (h : R → Q a) : Shapes F R (pure a) Q := by
  intro s b s' hr hF
  obtain ⟨rfl, rfl⟩ := runs_pure.mp hr
  exact ⟨hF, fun hR => ⟨fun i hle hlt => absurd hlt (Nat.not_lt_of_le hle), h hR⟩⟩

/-- What is known of a value is known where it is used. -/
protected theorem bind (hp : Shapes F R p Q) (hf : ∀ a, Shapes F (R ∧ Q a) (f a) T) :
    Shapes F R (p >>= f) T := by
  intro s b s' hr hF
  obtain ⟨a, s₁, hp', hf'⟩ := runs_bind.mp hr
  obtain ⟨hmid, hrest⟩ := hf a hf' hF
  obtain ⟨hstart, hfirst⟩ := hp hp' hmid
  refine ⟨hstart, fun hR => ?_⟩
  obtain ⟨hmade, hQ⟩ := hfirst hR
  obtain ⟨hmade', hT⟩ := hrest ⟨hR, hQ⟩
  refine ⟨fun i hle hlt => ?_, hT⟩
  -- The nodes of the first part come before those of the second.
  exact (Nat.lt_or_ge i s₁.forest.size).elim (hmade i hle) fun hge => hmade' i hge hlt

/-- Less may be said of what is yielded. -/
theorem mono (h : Shapes F R p Q) (hQ : ∀ a, Q a → Q' a) : Shapes F R p Q' := by
  intro s a s' hr hF
  obtain ⟨hstart, hrest⟩ := h hr hF
  exact ⟨hstart, fun hR => (hrest hR).imp_right (hQ a)⟩

/-- More may be asked of the start. -/
theorem of_imp (h : Shapes F R p Q) (hR : R' → R) : Shapes F R' p Q := by
  intro s a s' hr hF
  obtain ⟨hstart, hrest⟩ := h hr hF
  exact ⟨hstart, fun hR' => hrest (hR hR')⟩

/-- A part that only looks at the state. -/
theorem look [Looks p] (hf : ∀ a, Shapes F R (f a) T) : Shapes F R (p >>= f) T := by
  intro s b s' hr hF
  obtain ⟨a, s₁, hp, hf'⟩ := runs_bind.mp hr
  obtain rfl : s₁ = s := (congrArg Prod.snd hp).symm.trans (Looks.same s)
  exact hf a hf' hF

/-- What is said of the result of a function is said of what goes into it. -/
theorem map {g : α → β} (h : Shapes F R p fun a => T (g a)) : Shapes F R (g <$> p) T := by
  intro s b s' hr hF
  obtain ⟨a, hp, rfl⟩ := runs_map.mp hr
  exact h hp hF

protected theorem ite {c : Prop} [Decidable c] (hp : Shapes F R p Q) (hq : Shapes F R q Q) :
    Shapes F R (if c then p else q) Q := by
  split
  · exact hp
  · exact hq

/-- The kind of the current token is known where it has been looked at. -/
theorem lookKind {f : TokenKind → Parser β} (hf : ∀ k, ShapesAt k F R (f k) T) :
    Shapes F R (kind >>= f) T :=
  fun s _ _ hr hF => hf s.current.kind rfl (runs_bind_kind.mp hr) hF

/-- A step that keeps a promise about its value keeps it when it is repeated. -/
theorem repeatUpTo {σ : Type} {step : σ → Parser (Step σ)} {I : σ → Prop}
    (h : ∀ x, Shapes F (I x) (step x) fun r => I r.value) (n : Nat) (x : σ) :
    Shapes F (I x) (repeatUpTo step n x) I := by
  induction n generalizing x with
  | zero => exact .pure id
  | succ n ih =>
    refine (h x).bind fun r => ?_
    cases r with
    | more y => exact (ih y).of_imp And.right
    | done y => exact .pure And.right

/-- What every step keeps holds when the repetition is over. -/
protected theorem repeating {σ : Type} {step : σ → Parser (Step σ)} {I : σ → Prop}
    (h : ∀ x, Shapes F (I x) (step x) fun r => I r.value) (x : σ) :
    Shapes F (I x) (repeating step x) I :=
  .look fun _ => repeatUpTo h _ x

/-- What is made is yielded. -/
theorem yielding {p : Parser NodeId} {P : NodeId → Prop} (h : Shapes F R p P) :
    Shapes F R (p >>= fun id => pure (some id)) fun o => ∀ id ∈ o, P id :=
  h.bind fun id => .pure fun hid i hi => by
    cases hi
    exact hid.2

/-- A node that is yielded is one that may be there. -/
theorem map_some {p : Parser NodeId} {P : NodeId → Prop} (h : Shapes F R p P) :
    Shapes F R (some <$> p) fun o => ∀ id ∈ o, P id :=
  .map <| h.mono fun id hid i hi => by
    cases hi
    exact hid

/-- Nothing can be said of a node that is not there. -/
theorem nothing {P : NodeId → Prop} : Shapes F R (pure none) fun o => ∀ id ∈ o, P id :=
  .pure fun _ id hid => absurd hid (Option.not_mem_none id)

/-- A step that leaves the tree alone makes no node. -/
theorem modify {g : State → State} {Q : Unit → Prop} (hg : ∀ s, (g s).forest = s.forest) (h : R → Q ()) :
    Shapes F R (modify g) Q := by
  rintro s ⟨⟩ s' hr hF
  rw [runs_modify.mp hr, hg] at hF ⊢
  exact ⟨hF, fun hR => ⟨fun i hle hlt => absurd hlt (Nat.not_lt_of_le hle), h hR⟩⟩

end Shapes

/-- A leaf of a kind. -/
structure IsToken (F : Forest) (k : TokenKind) (id : NodeId) : Prop where
  kind : F.kind? (some id) = some (.token k)
  typeless : F.Typeless id

/-- A token other than the word before a delegate is plain. -/
theorem IsToken.plain {id : NodeId} (h : IsToken F k id) (hk : k ≠ .byKeyword) : F.Plain id :=
  ⟨h.typeless, fun hword => hk (Kind.token.inj (Option.some.inj (h.kind.symm.trans hword)))⟩

namespace Shapes

/-- A token that is taken is the leaf of its kind. -/
theorem bumpAs (k : TokenKind) : Shapes F R (bumpAs k) (IsToken F k) := by
  intro s id s' hr hF
  obtain ⟨rfl, rfl⟩ := runs_bumpAs.mp hr
  rw [State.advance_forest] at hF ⊢
  dsimp only [State.leafed] at hF ⊢
  have hget := Forest.getElem?_addLeaf s.forest k ⟨s.current.place, s.current.stop⟩ s.current.leading
    s.current.text s.current.value
  have hnew := hget s.forest.size
  rw [if_pos rfl] at hnew
  obtain ⟨m, hm, hkind, hchildren, -⟩ := hF.node _ _ hnew
  have htoken : F.kind? (some s.forest.size) = some (.token k) := by
    rw [Forest.kind?_of_getElem? hm, hkind]
  -- The leaf is all that is made, and it has no children that would have to be in slots.
  refine ⟨hF.of_grows fun i n hn => ⟨n, ?_, rfl, rfl, rfl⟩, fun _ => ⟨fun i hle hlt => ?_, htoken, ?_⟩⟩
  · rw [hget, if_neg (Forest.lt_size_of_getElem? hn).ne, hn]
  · rw [Forest.size_addLeaf] at hlt
    obtain rfl : i = s.forest.size := Nat.le_antisymm (Nat.le_of_lt_succ hlt) hle
    exact fun k hk => nomatch htoken.symm.trans hk
  · refine Forest.typeless_of_leaf htoken ?_
    rw [Forest.children_of_getElem? hm, hchildren]

/-- A token that is taken has no type in it. -/
theorem bump : Shapes F R bump F.Typeless :=
  .look fun k => (bumpAs k).mono fun _ h => h.typeless

/-- A name that is taken is plain. -/
theorem bumpName : Shapes F R bumpName fun o => ∀ id ∈ o, F.Plain id := by
  refine .look fun _ => .ite ((bumpAs _).bind fun name => .pure fun h id hid => ?_) .nothing
  · cases hid
    exact h.2.plain (by decide)

end Shapes

namespace ShapesAt

/-- What holds at any token holds at this one. -/
theorem of_shapes (h : Shapes F R p Q) : ShapesAt k F R p Q := fun _ _ _ _ hr hF => h hr hF

/-- A look ahead takes nothing and makes nothing. -/
theorem look [Looks p] (hf : ∀ a, ShapesAt k F R (f a) T) : ShapesAt k F R (p >>= f) T := by
  intro s b s' hk hr hF
  obtain ⟨a, s₁, hp, hf'⟩ := runs_bind.mp hr
  obtain rfl : s₁ = s := (congrArg Prod.snd hp).symm.trans (Looks.same s)
  exact hf a hk hf' hF

theorem mono (h : ShapesAt k F R p Q) (hQ : ∀ a, Q a → Q' a) : ShapesAt k F R p Q' := by
  intro s a s' hk hr hF
  obtain ⟨hstart, hrest⟩ := h hk hr hF
  exact ⟨hstart, fun hR => (hrest hR).imp_right (hQ a)⟩

theorem map {g : α → β} (h : ShapesAt k F R p fun a => T (g a)) : ShapesAt k F R (g <$> p) T := by
  intro s b s' hk hr hF
  obtain ⟨a, hp, rfl⟩ := runs_map.mp hr
  exact h hk hp hF

/-- The token that is taken is the current one. -/
protected theorem bump {f : NodeId → Parser β} (hf : ∀ id, Shapes F (R ∧ IsToken F k id) (f id) T) :
    ShapesAt k F R (bump >>= f) T := by
  rintro s b s' rfl hr hF
  exact Shapes.bind (.bumpAs s.current.kind) hf hr hF

/-- At any other token than the word before a delegate, what is taken is plain. -/
theorem bump_plain (hk : k ≠ .byKeyword) : ShapesAt k F R Grammar.bump F.Plain := by
  rintro s id s' rfl hr hF
  exact (Shapes.bumpAs s.current.kind).mono (fun _ h => h.plain hk) (runs_bump.mp hr) hF

end ShapesAt

namespace Shapes

/-- What is known of the current token is known when it is taken. -/
theorem knowAt {f : Bool → Parser β} (hat : ShapesAt k F R (f true) T) (hnot : Shapes F R (f false) T) :
    Shapes F R (isAt k >>= f) T := by
  intro s b s' hr hF
  rw [runs_bind_isAt] at hr
  by_cases hk : s.current.kind = k
  · rw [decide_eq_true hk] at hr
    exact hat hk hr hF
  · rw [decide_eq_false hk] at hr
    exact hnot hr hF

/-- A token that is looked for before it is taken is known. -/
theorem ifAt {f : NodeId → Parser β} {q : Parser β} (hp : ∀ id, Shapes F (R ∧ IsToken F k id) (f id) T)
    (hq : Shapes F R q T) :
    Shapes F R (isAt k >>= fun b => if b = true then Grammar.bump >>= f else q) T := by
  refine knowAt ?_ ?_
  · rw [if_pos rfl]
    exact .bump hp
  · rw [if_neg Bool.false_ne_true]
    exact hq

/-- A sign that is taken if it is there is plain. -/
theorem eat (hk : k ≠ .byKeyword) : Shapes F R (eat k) fun o => ∀ id ∈ o, F.Plain id := by
  refine .ifAt (fun id => .pure fun h i hi => ?_) .nothing
  cases hi
  exact h.2.plain hk

/-- A node has its kind and its children, if these fill its slots and what is thrown comes last. -/
theorem node_of_throws {kind : NodeKind} {start : Nat} {cs : Array NodeId} {data : NodeData}
    (h : R → kind.isSkipped = false → F.Fills cs (data.slots kind) ∧ (kind = .jumpExpression → F.Throws cs)) :
    Shapes F R (node kind start cs data) fun id =>
      F.kind? (some id) = some (.node kind) ∧ F.children (some id) = cs := by
  intro s id s' hr hF
  obtain ⟨rfl, rfl⟩ := runs_node.mp hr
  have hnew := Forest.getElem?_addNode_of_any s.forest kind start cs data s.forest.size
  rw [if_pos rfl, Option.map_some] at hnew
  obtain ⟨m, hm, hkind, hchildren, hslots⟩ := hF.node _ _ hnew
  rw [Forest.adopt_kind] at hkind
  rw [Forest.adopt_children] at hchildren
  rw [Forest.adopt_data] at hslots
  have hid : F.kind? (some s.forest.size) = some (.node kind) ∧ F.children (some s.forest.size) = cs :=
    ⟨by rw [Forest.kind?_of_getElem? hm, hkind], by rw [Forest.children_of_getElem? hm, hchildren]⟩
  -- The children get a parent, which is nothing that the final forest is asked for.
  refine ⟨hF.of_grows fun i n hn => ?_, fun hR => ⟨fun i hle hlt => ?_, hid⟩⟩
  · exact ⟨_, Forest.getElem?_addNode_of_lt hn kind start cs data, by simp, by simp, by simp⟩
  · dsimp only [State.noded] at hlt
    rw [Forest.size_addNode] at hlt
    obtain rfl : i = s.forest.size := Nat.le_antisymm (Nat.le_of_lt_succ hlt) hle
    intro k hk hskipped
    obtain rfl : kind = k := Kind.node.inj (Option.some.inj (hid.1.symm.trans hk))
    rw [hid.2, Forest.data_of_getElem? hm, hslots]
    exact h hR hskipped

/-- So has every node other than a jump. -/
theorem node {kind : NodeKind} {start : Nat} {cs : Array NodeId} {data : NodeData}
    (hkind : kind ≠ .jumpExpression) (h : R → F.Fills cs (data.slots kind)) :
    Shapes F R (node kind start cs data) fun id =>
      F.kind? (some id) = some (.node kind) ∧ F.children (some id) = cs :=
  node_of_throws fun hR _ => ⟨h hR, fun hk => absurd hk hkind⟩

/-- A node of a kind that is right for a slot. -/
theorem node_stands {kind : NodeKind} {kinds : List NodeKind} {start : Nat} {cs : Array NodeId}
    {data : NodeData} (hkind : kind ≠ .jumpExpression ∧ kind ∈ kinds)
    (h : R → F.Fills cs (data.slots kind)) :
    Shapes F R (Grammar.node kind start cs data) (F.Stands (.of kinds)) :=
  (node hkind.1 h).mono fun _ hid => Forest.IsOf.stands ⟨kind, hkind.2, hid.1⟩

/-- A node over trees without types has no type in it either. -/
theorem node_typeless {kind : NodeKind} {start : Nat} {cs : Array NodeId} {data : NodeData}
    (hkind : kind ≠ .typeReference ∧ kind ≠ .jumpExpression) (h : R → ∀ c ∈ cs, F.Typeless c) :
    Shapes F R (Grammar.node kind start cs data) F.Plain := by
  intro s id s' hr hF
  obtain ⟨hstart, hrest⟩ := node hkind.2 (fun hR => Forest.fills_of_typeless (h hR)) hr hF
  refine ⟨hstart, fun hR => ?_⟩
  obtain ⟨hmade, hid, hchildren⟩ := hrest hR
  refine ⟨hmade, Forest.Typeless.plain (.inner (fun htype => ?_) (hchildren ▸ h hR)) hid⟩
  exact hkind.1 (Kind.node.inj (Option.some.inj (hid.symm.trans htype)))

/-- Where nobody looks for types, children can be anything. -/
theorem skipped {kind : NodeKind} {start : Nat} {cs : Array NodeId} {data : NodeData}
    (hkind : kind.isSkipped = true) : Shapes F R (Grammar.node kind start cs data) F.Plain := by
  refine (node_of_throws fun _ hk => absurd (hk.symm.trans hkind) (by decide)).mono fun id h => ?_
  exact (Forest.Typeless.skipped h.1 hkind).plain h.1

/-- A change that leaves kind, children and slots alone leaves each node where it stands. -/
theorem change {id : NodeId} {f : Node → Node} {Q : Unit → Prop}
    (hf : ∀ n, (f n).kind = n.kind ∧ (f n).children = n.children ∧ (f n).data.slots = n.data.slots)
    (h : R → Q ()) : Shapes F R (change id f) Q := by
  rintro s ⟨⟩ s' hr hF
  obtain rfl := runs_change.mp hr
  refine ⟨hF.of_grows fun i n hn => ?_, fun hR => ⟨fun i hle hlt => ?_, h hR⟩⟩
  · dsimp only
    rw [Forest.getElem?_modify, hn]
    split
    · exact ⟨f n, rfl, hf n⟩
    · exact ⟨n, rfl, rfl, rfl, rfl⟩
  · dsimp only at hlt
    rw [Forest.size_modify] at hlt
    exact absurd hlt (Nat.not_lt_of_le hle)

/-- A node that is reported as wrong is the same node. -/
theorem recovered {id : NodeId} : Shapes F R (recovered id) fun kept => R ∧ kept = id := by
  refine .bind (Q := fun _ => True) (.change (fun n => ⟨rfl, rfl, rfl⟩) fun _ => trivial) fun _ => ?_
  refine .bind (Q := fun _ => True) (.modify (fun _ => rfl) fun _ => trivial) fun _ => ?_
  exact .pure fun h => ⟨h.1.1, rfl⟩

/-- Nothing is asked of what is passed over. -/
theorem unknownStep (x : Array NodeId × Nat) : Shapes F True (unknownStep x) fun _ => True := by
  refine .look fun s => .ite (.pure id) (.ite (.pure id) (.ite ?_ ?_))
  · exact bump.bind fun token => .pure fun _ => trivial
  · exact bump.bind fun token => .pure fun _ => trivial

/-- What is not understood is plain. -/
theorem unknown : Shapes F R unknown F.Plain := by
  refine .look fun start => ((Shapes.repeating unknownStep _).of_imp fun _ => trivial).bind fun kept => ?_
  exact (skipped rfl).bind fun id => recovered.mono fun kept h => h.2 ▸ h.1.2

/-- So is a single token that is not understood. -/
theorem unknownToken : Shapes F R unknownToken F.Plain := by
  refine .look fun start => bump.bind fun token => ?_
  exact (skipped rfl).bind fun id => recovered.mono fun kept h => h.2 ▸ h.1.2

/-- Whether a lambda may follow has nothing to do with what is made. -/
theorem withTrailingLambda {allowed : Bool} (h : Shapes F R p Q) :
    Shapes F R (withTrailingLambda allowed p) Q := by
  intro s a s' hr hF
  obtain ⟨s₁, hin, rfl⟩ := runs_withTrailingLambda hr
  have hinner := h hin hF
  exact hinner

/-- Past the limit of nesting, what is made is plain. -/
theorem nested {p : Parser (Option NodeId)} {Q : Option NodeId → Prop} (h : Shapes F R p Q)
    (hdeep : ∀ id, F.Plain id → Q (some id)) : Shapes F R (nested p) Q := by
  refine .look fun s => .ite (unknown.bind fun id => .pure fun h => hdeep id h.2) ?_
  refine .bind (Q := fun _ => True) (.modify (fun _ => rfl) fun _ => trivial) fun _ => ?_
  refine (h.of_imp And.left).bind fun o => ?_
  refine .bind (Q := fun _ => True) (.modify (fun _ => rfl) fun _ => trivial) fun _ => ?_
  exact .pure fun h => h.1.2

end Shapes

end

/-- The place for what a production yields. -/
def Nonterminal.slot : Nonterminal → Slot
  | .typeReference _ => .type
  | .declaration => .declaration
  | _ => .code

/-- What each production promises of those that it recurs through. -/
def Productions.Shape (rec : Productions) (F : Forest) : Prop :=
  ∀ n, Shapes F True (rec n) fun o => ∀ id ∈ o, F.Stands n.slot id

end Grammar

end KotlinTree
