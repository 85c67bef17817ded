import KotlinTree.Grammar.Unit
import KotlinTree.Proofs.Syntax.Extension

/-!
Runs of productions: from one state to a result and another state. A run of a composed production falls
apart into the runs of its parts. What a run may do to the state, apart from which tokens decide it: take
tokens, make nodes over trees that it has made, and mark such nodes. Every production is such a run, so
what holds of all of them holds of every parse.
-/

namespace KotlinTree.Grammar

/-- A production that starts in one state ends in another with a result. -/
def Runs {α : Type} (p : Parser α) (s : State) (a : α) (s' : State) : Prop :=
  Id.run (p.run s) = (a, s')

section
variable {α β : Type} {s s' : State}

/-- A parser runs to what it computes. -/
theorem runs_self (p : Parser α) (s : State) :
    Runs p s (Id.run (p.run s)).1 (Id.run (p.run s)).2 := rfl

/-- A value that is given outright takes no step. -/
theorem runs_pure {a b : α} : Runs (pure a) s b s' ↔ a = b ∧ s = s' := Prod.mk.injEq _ _ _ _ ▸ Iff.rfl

/-- One parser after another: the second goes on from where the first has come to. -/
theorem runs_bind {p : Parser α} {f : α → Parser β} {b : β} :
    Runs (p >>= f) s b s' ↔ ∃ a s₁, Runs p s a s₁ ∧ Runs (f a) s₁ b s' := by
  constructor
  · intro h
    exact ⟨_, _, runs_self p s, h⟩
  · rintro ⟨a, s₁, hp, hf⟩
    unfold Runs at hp hf ⊢
    simp only [StateT.run_bind, Id.run_bind, hp, hf]

/-- What is made of a value changes nothing about the run. -/
theorem runs_map {p : Parser α} {f : α → β} {b : β} :
    Runs (f <$> p) s b s' ↔ ∃ a, Runs p s a s' ∧ f a = b := by
  constructor
  · intro h
    exact ⟨_, congrArg (fun r : β × State => ((Id.run (p.run s)).1, r.2)) h, congrArg Prod.fst h⟩
  · rintro ⟨a, hp, rfl⟩
    unfold Runs at hp ⊢
    simp only [StateT.run_map, Id.run_map, hp]

/-- A choice is run as the branch that is taken. -/
theorem runs_ite {c : Prop} [Decidable c] {p q : Parser α} {a : α} :
    Runs (if c then p else q) s a s' ↔ c ∧ Runs p s a s' ∨ ¬c ∧ Runs q s a s' := by
  by_cases hc : c <;> simp [hc]

variable {f : TokenKind → Parser β} {g : Bool → Parser β} {b : β}

/-- A parser that reads the state goes on with the state it is in. -/
theorem runs_bind_get {f : State → Parser β} : Runs (get >>= f) s b s' ↔ Runs (f s) s b s' := Iff.rfl

/-- A parser that asks what is next goes on with the kind of the current token. -/
theorem runs_bind_kind : Runs (kind >>= f) s b s' ↔ Runs (f s.current.kind) s b s' := Iff.rfl

/-- To ask for a kind is to compare the current token with it. -/
theorem runs_bind_isAt {k : TokenKind} :
    Runs (isAt k >>= g) s b s' ↔ Runs (g (s.current.kind = k)) s b s' := Iff.rfl

/-- The place that is asked for is that of the current token. -/
theorem runs_bind_place {f : Nat → Parser β} :
    Runs (place >>= f) s b s' ↔ Runs (f s.current.place) s b s' := Iff.rfl

/-- Whether a line starts here is a matter of the current token alone. -/
theorem runs_bind_startsLine :
    Runs (startsLine >>= g) s b s' ↔ Runs (g s.current.startsLine) s b s' := Iff.rfl

/-- So is whether a name stands here. -/
theorem runs_bind_isAtName :
    Runs (isAtName >>= g) s b s' ↔ Runs (g s.current.kind.isName) s b s' := Iff.rfl

/-- So is whether some text stands here. -/
theorem runs_bind_isAtText {text : String} :
    Runs (isAtText text >>= g) s b s' ↔ Runs (g (s.current.text = text)) s b s' := Iff.rfl

/-- The kind of the token after the current one. -/
def State.nextKind (s : State) : TokenKind := (s.ahead.head?.map Token.kind).getD .endOfFile

/-- What is next but one is read off the tokens that are left. -/
theorem runs_bind_peek : Runs (peek >>= f) s b s' ↔ Runs (f s.nextKind) s b s' := Iff.rfl

/-- Whether a modifier stands here may take a look at the token after it. -/
theorem runs_bind_isAtModifier :
    Runs (isAtModifier >>= g) s b s' ↔ Runs (g (isModifierAhead s.tokens)) s b s' := Iff.rfl

/-- A token is attached to the one before it if there is nothing in between. -/
theorem runs_bind_isAttached :
    Runs (isAttached >>= g) s b s' ↔ Runs (g s.current.leading.isEmpty) s b s' := Iff.rfl

end

/-- A finished tree: the nodes below its root in the order of their making, and the root. -/
structure Piece where
  below : List NodeId
  root : NodeId

namespace Piece

/-- The nodes of a tree, the root last. -/
def members (p : Piece) : List NodeId := p.below ++ [p.root]

def leaf (id : NodeId) : Piece := ⟨[], id⟩

/-- A tree over finished ones. -/
def gather (ps : List Piece) (id : NodeId) : Piece := ⟨ps.flatMap members, id⟩

/-- The root of a piece is among its nodes. -/
theorem root_mem_members (p : Piece) : p.root ∈ p.members :=
  List.mem_append_right _ (List.mem_singleton_self _)

end Piece

/-- The roots of some trees, as the children of a node over them. -/
def roots (ps : List Piece) : Array NodeId := (ps.map Piece.root).toArray

/-- The nodes are in the trees. -/
def Covers (ps : List Piece) (ids : List NodeId) : Prop := ∀ id ∈ ids, ∃ p ∈ ps, id ∈ p.members

/-- A change of a node that leaves its place in the tree, its text and its parts. -/
structure Cosmetic (f : Node → Node) : Prop where
  kind : ∀ n, (f n).kind = n.kind
  span : ∀ n, (f n).span = n.span
  children : ∀ n, (f n).children = n.children
  parent : ∀ n, (f n).parent = n.parent
  data : ∀ n : Node, n.data.Alike (f n).data
  leaf? : ∀ n : Node, (f n).data.leaf? = n.data.leaf?

/-- A token is taken for one of its own kind, or a name for an identifier. -/
def TakenAs (k : TokenKind) (t : Token) : Prop :=
  k = t.kind ∨ k = .identifier ∧ t.kind.isName = true

/-- The end of the file is no name. -/
theorem TakenAs.eq_endOfFile {k : TokenKind} {t : Token} (h : TakenAs k t) (hend : t.isEnd = true) :
    k = .endOfFile := by
  have hkind : t.kind = .endOfFile := of_decide_eq_true hend
  rcases h with rfl | ⟨-, hname⟩
  · exact hkind
  · rw [hkind] at hname
    cases hname

/-- A run from one state to another leaves some finished trees, in order. Only trees that start with
the sign of an annotation are ever left behind. -/
inductive Builds : State → List Piece → State → Prop
  | refl (s : State) : Builds s [] s
  | trans {s s₁ s' : State} {ps qs : List Piece} (first : Builds s ps s₁) (rest : Builds s₁ qs s') :
      Builds s (ps ++ qs) s'
  | bump {s s' : State} {k : TokenKind} {id : NodeId} (taken : TakenAs k s.current)
      (h : Runs (bumpAs k) s id s') : Builds s [.leaf id] s'
  -- Nothing but the end of the file is a reason for a node without children.
  | node {s s₁ s' : State} {ps : List Piece} {k : NodeKind} {start : Nat} {data : NodeData}
      {id : NodeId} (below : Builds s ps s₁)
      (empty : ps = [] → s₁.current.isEnd = true ∧ start = s₁.current.place)
      (leaf : data.leaf? = none) (parts : Covers ps data.parts)
      (describes : s₁.forest.Describes (roots ps) (.node k) data)
      (tells : s₁.forest.Tells (roots ps) data)
      (h : Runs (node k start (roots ps) data) s₁ id s') : Builds s [.gather ps id] s'
  -- A node is marked after it has been made, but only while it has no parent yet.
  | change {s s₁ s' : State} {ps : List Piece} {p : Piece} {f : Node → Node}
      (made : Builds s ps s₁) (mem : p ∈ ps) (cosmetic : Cosmetic f)
      (h : Runs (change p.root f) s₁ () s') : Builds s ps s'
  | report {s s₁ : State} {ps : List Piece} (made : Builds s ps s₁) (ds : Array Diagnostic) :
      Builds s ps { s₁ with diagnostics := ds }
  | deeper {s s₁ : State} {ps : List Piece} (depth : s.depth < maxDepth)
      (inner : Builds { s with depth := s.depth + 1 } ps s₁) :
      Builds s ps { s₁ with depth := s₁.depth - 1 }
  | braces {s s₁ : State} {ps : List Piece} (allowed : Bool)
      (inner : Builds { s with noTrailingLambda := !allowed } ps s₁) :
      Builds s ps { s₁ with noTrailingLambda := s.noTrailingLambda }
  -- The one loss: an annotation that no type follows.
  | drop {s s' : State} {p : Piece} (sign : s.current.kind = .atSign)
      (first : s.forest.size ∈ p.members) (made : Builds s [p] s') : Builds s [] s'

section
variable {ps qs : List Piece} {ids jds : List NodeId}

@[simp] theorem roots_nil : roots [] = #[] := rfl

@[simp] theorem roots_singleton (p : Piece) : roots [p] = #[p.root] := rfl

@[simp] theorem roots_append : roots (ps ++ qs) = roots ps ++ roots qs := by
  simp [roots]

/-- Only where nothing has been made is there no root. -/
theorem roots_eq_empty_iff : roots ps = #[] ↔ ps = [] := by
  simp [roots]

theorem covers_nil : Covers ps [] := fun _ h => absurd h List.not_mem_nil

/-- What pieces cover is covered by more of them. -/
theorem Covers.left (h : Covers ps ids) (qs : List Piece) : Covers (ps ++ qs) ids := by
  intro id hid
  obtain ⟨p, hp, hm⟩ := h id hid
  exact ⟨p, List.mem_append_left qs hp, hm⟩

theorem Covers.right (h : Covers qs ids) (ps : List Piece) : Covers (ps ++ qs) ids := by
  intro id hid
  obtain ⟨q, hq, hm⟩ := h id hid
  exact ⟨q, List.mem_append_right ps hq, hm⟩

/-- Together, pieces cover what each of them covers. -/
theorem Covers.append (hi : Covers ps ids) (hj : Covers qs jds) :
    Covers (ps ++ qs) (ids ++ jds) := by
  intro id hid
  rcases List.mem_append.mp hid with hid | hid
  · exact hi.left qs id hid
  · exact hj.right ps id hid

/-- Part of what is covered is covered. -/
theorem Covers.mono (h : Covers ps ids) (hs : jds ⊆ ids) : Covers ps jds :=
  fun id hid => h id (hs hid)

theorem covers_root (p : Piece) : Covers [p] [p.root] := by
  intro id hid
  rw [List.mem_singleton.mp hid]
  exact ⟨p, List.mem_singleton_self p, p.root_mem_members⟩

end

/-- A run makes one tree. -/
def Makes (s : State) (id : NodeId) (s' : State) : Prop :=
  ∃ q : Piece, q.root = id ∧ Builds s [q] s'

/-- A run makes one tree or none. -/
def MakesIfAny (s : State) (found : Option NodeId) (s' : State) : Prop :=
  ∃ q : Option Piece, found = q.map Piece.root ∧ Builds s q.toList s'

/-- A run makes one tree, or does nothing. -/
def Yields (s : State) (found : Option NodeId) (s' : State) : Prop :=
  (found = none ∧ s' = s) ∨ ∃ id, found = some id ∧ Makes s id s'

/-- A run adds trees at the end of some children, among them trees with the nodes that it found. -/
def Appends (s : State) (children : Array NodeId) (found : List NodeId) (s' : State)
    (children' : Array NodeId) : Prop :=
  ∃ qs, children' = children ++ roots qs ∧ Covers qs found ∧ Builds s qs s'

/-- Some nodes are among those at the end of some children. -/
def Lists (children : Array NodeId) (found : List NodeId) (children' : Array NodeId) : Prop :=
  ∃ added : Array NodeId, children' = children ++ added ∧ found.Subperm added.toList

/-- A run adds trees at the end of some children, and what it found are roots among them. -/
structure Adds (s : State) (children : Array NodeId) (found : List NodeId) (s' : State)
    (children' : Array NodeId) : Prop where
  appends : Appends s children found s' children'
  listed : Lists children found children'

section
variable {s s₁ s' : State} {id : NodeId} {o : Option NodeId} {cs cs₁ cs' : Array NodeId}
  {found found₁ : List NodeId}

/-- To make a node, if any, is to make the one that there is. -/
theorem makesIfAny_some_iff : MakesIfAny s (some id) s' ↔ Makes s id s' := by
  constructor
  · rintro ⟨_ | q, he, h⟩
    · cases he
    · exact ⟨q, (Option.some.inj he).symm, h⟩
  · rintro ⟨q, rfl, h⟩
    exact ⟨some q, rfl, h⟩

/-- Where none is made, nothing has been built. -/
theorem makesIfAny_none_iff : MakesIfAny s none s' ↔ Builds s [] s' := by
  constructor
  · rintro ⟨_ | q, he, h⟩
    · exact h
    · cases he
  · intro h
    exact ⟨none, rfl, h⟩

/-- What is certain to be made is so if at all. -/
theorem Makes.ifAny (h : Makes s id s') : MakesIfAny s (some id) s' := makesIfAny_some_iff.mpr h

/-- A node that is made is yielded. -/
theorem Makes.yields (h : Makes s id s') : Yields s (some id) s' := Or.inr ⟨id, rfl, h⟩

/-- Nothing is yielded without a step. -/
theorem yields_none (s : State) : Yields s none s := Or.inl ⟨rfl, rfl⟩

/-- What is yielded is made, if it is a node. -/
theorem Yields.ifAny (h : Yields s o s') : MakesIfAny s o s' := by
  rcases h with ⟨rfl, rfl⟩ | ⟨id, rfl, h⟩
  · exact makesIfAny_none_iff.mpr (.refl _)
  · exact h.ifAny

/-- A node that is yielded is made. -/
theorem Yields.makes (h : Yields s (some id) s') : Makes s id s' := makesIfAny_some_iff.mp h.ifAny

/-- Where nothing is yielded, the state is as before. -/
theorem Yields.eq_of_none (h : Yields s none s') : s' = s := by
  rcases h with ⟨-, h⟩ | ⟨id, h, -⟩
  · exact h
  · cases h

/-- A parser that always makes a node yields it. -/
theorem yields_of_runs_some {p : Parser NodeId} {s₀ : State}
    (hp : ∀ {id}, Runs p s id s' → Makes s₀ id s') (h : Runs (some <$> p) s o s') :
    Yields s₀ o s' := by
  obtain ⟨id, hid, rfl⟩ := runs_map.mp h
  exact (hp hid).yields

theorem Appends.refl (s : State) (cs : Array NodeId) : Appends s cs [] s cs :=
  ⟨[], (Array.append_empty).symm, covers_nil, .refl s⟩

/-- What one step appends and what the next one does stand one after the other. -/
theorem Appends.trans (h : Appends s cs found s₁ cs₁) (h₁ : Appends s₁ cs₁ found₁ s' cs') :
    Appends s cs (found ++ found₁) s' cs' := by
  obtain ⟨ps, rfl, hp, hs⟩ := h
  obtain ⟨qs, rfl, hq, hs₁⟩ := h₁
  refine ⟨ps ++ qs, ?_, hp.append hq, hs.trans hs₁⟩
  rw [roots_append, Array.append_assoc]

/-- Of all that has been found, some may be left out of account. -/
theorem Appends.mono (h : Appends s cs found s' cs') (hs : found₁ ⊆ found) :
    Appends s cs found₁ s' cs' := by
  obtain ⟨qs, hc, hq, hb⟩ := h
  exact ⟨qs, hc, hq.mono hs, hb⟩

/-- Trees that are left behind, or nothing at all, between the ones that are kept. -/
theorem Appends.skip (h : Appends s cs found s₁ cs') (hb : Builds s₁ [] s') :
    Appends s cs found s' cs' := by
  obtain ⟨qs, hc, hq, hs⟩ := h
  exact ⟨qs, hc, hq, List.append_nil qs ▸ hs.trans hb⟩

/-- A node that is made is appended as a child. -/
theorem Appends.push (h : Appends s cs found s₁ cs₁) (hm : Makes s₁ id s') :
    Appends s cs (found ++ [id]) s' (cs₁.push id) := by
  obtain ⟨q, rfl, hq⟩ := hm
  exact h.trans ⟨[q], by simp, covers_root q, hq⟩

/-- So is a node that may be there or not. -/
theorem Appends.add (h : Appends s cs found s₁ cs₁) (hm : MakesIfAny s₁ o s') :
    Appends s cs (found ++ o.toList) s' (Grammar.add cs₁ o) := by
  cases o with
  | none => simpa [Grammar.add] using h.skip (makesIfAny_none_iff.mp hm)
  | some id => exact h.push (makesIfAny_some_iff.mp hm)

/-- To make one node is to append it. -/
theorem Makes.appends (hm : Makes s id s') (cs : Array NodeId) :
    Appends s cs [id] s' (cs.push id) := (Appends.refl s cs).push hm

/-- What is added to nothing can be added to anything. -/
theorem Appends.onto (h : Appends s #[] found s' cs') (cs : Array NodeId) :
    Appends s cs found s' (cs ++ cs') := by
  obtain ⟨qs, rfl, hq, hb⟩ := h
  exact ⟨qs, by rw [Array.empty_append], hq, hb⟩

/-- Adding one tree to nothing leaves that tree. -/
theorem Appends.single (h : Appends s #[] found s' #[id]) :
    ∃ q : Piece, q.root = id ∧ Covers [q] found ∧ Builds s [q] s' := by
  obtain ⟨qs, he, hq, hb⟩ := h
  rw [Array.empty_append] at he
  match qs with
  | [] => simp at he
  | [q] =>
    simp only [roots_singleton] at he
    exact ⟨q, by simpa using he.symm, hq, hb⟩
  | q :: r :: qs => simp [roots] at he

/-- Children are not taken away again. -/
theorem Appends.ne_empty (h : Appends s cs found s' cs') (hc : cs ≠ #[]) : cs' ≠ #[] := by
  obtain ⟨qs, rfl, -, -⟩ := h
  intro he
  exact hc (Array.append_eq_empty_iff.mp he).1

/-- A node over all that has been gathered, which is not nothing. -/
theorem Appends.gather {k : NodeKind} {start : Nat} {data : NodeData}
    (h : Appends s #[] found s₁ cs) (hc : cs ≠ #[]) (hl : data.leaf? = none)
    (hp : data.parts ⊆ found) (hd : s₁.forest.Describes cs (.node k) data)
    (ht : s₁.forest.Tells cs data) (hn : Runs (Grammar.node k start cs data) s₁ id s') :
    ∃ qs, Covers qs found ∧ Builds s [.gather qs id] s' := by
  obtain ⟨qs, rfl, hq, hs⟩ := h
  rw [Array.empty_append] at hc hd ht hn
  have hne : qs = [] → s₁.current.isEnd = true ∧ start = s₁.current.place :=
    fun he => absurd (roots_eq_empty_iff.mpr he) hc
  exact ⟨qs, hq, hs.node hne hl (hq.mono hp) hd ht hn⟩

/-- What was found below a node stays found. -/
theorem Appends.node_appends {k : NodeKind} {start : Nat} {data : NodeData}
    (h : Appends s #[] found s₁ cs) (hc : cs ≠ #[]) (hb : data.isBare k)
    (hp : data.parts ⊆ found) (hn : Runs (Grammar.node k start cs data) s₁ id s')
    (cs₁ : Array NodeId) : Appends s cs₁ (id :: found) s' (cs₁.push id) := by
  obtain ⟨hd, hb⟩ := NodeData.isBare_iff.mp hb
  obtain ⟨-, hps, hv, hr⟩ := NodeData.isSimple_iff.mp hb
  obtain ⟨qs, hq, hs⟩ := h.gather hc (NodeData.isRoled_iff.mp hr).1 hp
    (Forest.describes_of_isSimple hb (hd ▸ List.nil_subperm)) (Forest.tells_of_none hps hv) hn
  refine ⟨[.gather qs id], rfl, ?_, hs⟩
  intro x hx
  refine ⟨.gather qs id, List.mem_singleton_self _, ?_⟩
  rcases List.mem_cons.mp hx with rfl | hx
  · exact (Piece.gather qs x).root_mem_members
  · obtain ⟨q, hqs, hm⟩ := hq x hx
    exact List.mem_append_left _ (List.mem_flatMap.mpr ⟨q, hqs, hm⟩)

/-- A node that knows more of its children. -/
theorem Appends.node_of_describes {k : NodeKind} {start : Nat} {data : NodeData}
    (h : Appends s #[] found s₁ cs) (hc : cs ≠ #[]) (hl : data.leaf? = none)
    (hp : data.parts ⊆ found) (hd : s₁.forest.Describes cs (.node k) data)
    (ht : s₁.forest.Tells cs data) (hn : Runs (Grammar.node k start cs data) s₁ id s') :
    Makes s id s' := by
  obtain ⟨qs, -, hs⟩ := h.gather hc hl hp hd ht hn
  exact ⟨.gather qs id, rfl, hs⟩

/-- What has been appended becomes a node, whose parts are among what has been found. -/
theorem Appends.node {k : NodeKind} {start : Nat} {data : NodeData}
    (h : Appends s #[] found s₁ cs) (hc : cs ≠ #[]) (hb : data.isBare k)
    (hp : data.parts ⊆ found) (hn : Runs (Grammar.node k start cs data) s₁ id s') :
    Makes s id s' := by
  obtain ⟨hd, hb⟩ := NodeData.isBare_iff.mp hb
  obtain ⟨-, hps, hv, hr⟩ := NodeData.isSimple_iff.mp hb
  exact h.node_of_describes hc (NodeData.isRoled_iff.mp hr).1 hp
    (Forest.describes_of_isSimple hb (hd ▸ List.nil_subperm)) (Forest.tells_of_none hps hv) hn

theorem Lists.refl (cs : Array NodeId) : Lists cs [] cs :=
  ⟨#[], (Array.append_empty).symm, List.Subperm.refl []⟩

/-- What is listed first comes before what is listed after it. -/
theorem Lists.trans (h : Lists cs found cs₁) (h₁ : Lists cs₁ found₁ cs') :
    Lists cs (found ++ found₁) cs' := by
  obtain ⟨added, rfl, hf⟩ := h
  obtain ⟨added₁, rfl, hf₁⟩ := h₁
  refine ⟨added ++ added₁, Array.append_assoc, ?_⟩
  rw [Array.toList_append]
  exact hf.append hf₁

/-- A child that is pushed comes last in the list. -/
theorem Lists.push (h : Lists cs found cs₁) (id : NodeId) :
    Lists cs (found ++ [id]) (cs₁.push id) :=
  h.trans ⟨#[id], by simp, List.Subperm.refl [id]⟩

theorem Lists.add (h : Lists cs found cs₁) (o : Option NodeId) :
    Lists cs (found ++ o.toList) (Grammar.add cs₁ o) := by
  cases o with
  | none => simpa [Grammar.add] using h
  | some id => exact h.push id

/-- Fewer nodes may be asked for, in any order. -/
theorem Lists.mono (h : Lists cs found cs') (hs : found₁.Subperm found) : Lists cs found₁ cs' := by
  obtain ⟨added, hc, hf⟩ := h
  exact ⟨added, hc, hs.trans hf⟩

/-- What is listed is among the children, each at a place of its own. -/
theorem Lists.subperm (h : Lists #[] found cs') : found.Subperm cs'.toList := by
  obtain ⟨added, rfl, hf⟩ := h
  rwa [Array.empty_append]

/-- A node that says of some of its parts that they are its children, and what they are. -/
theorem Appends.node_of_roles {k : NodeKind} {start : Nat} {data : NodeData}
    (h : Appends s #[] found s₁ cs) (hc : cs ≠ #[]) (hs : data.isRoled k)
    (hp : data.parts ⊆ found) (hl : Lists #[] data.direct cs)
    (hr : ∀ r ∈ data.roles, ∃ k ∈ r.2, s₁.forest.kind? (some r.1) = some k)
    (ht : s₁.forest.Tells cs data) (hn : Runs (Grammar.node k start cs data) s₁ id s') :
    Makes s id s' :=
  h.node_of_describes hc (NodeData.isRoled_iff.mp hs).1 hp
    (Forest.describes_of_isRoled hs hl.subperm hr) ht hn

/-- What is appended without being asked for adds nothing to the list. -/
theorem Appends.adds (h : Appends s cs found s' cs') : Adds s cs [] s' cs' where
  appends := h.mono (List.nil_subset _)
  listed := by
    obtain ⟨qs, hc, -, -⟩ := h
    exact ⟨roots qs, hc, List.nil_subperm⟩

namespace Adds

theorem refl (s : State) (cs : Array NodeId) : Adds s cs [] s cs := ⟨.refl s cs, .refl cs⟩

/-- What one step adds comes before what the next one does. -/
theorem trans (h : Adds s cs found s₁ cs₁) (h₁ : Adds s₁ cs₁ found₁ s' cs') :
    Adds s cs (found ++ found₁) s' cs' :=
  ⟨h.appends.trans h₁.appends, h.listed.trans h₁.listed⟩

/-- A node that is made is added as the last child. -/
theorem push (h : Adds s cs found s₁ cs₁) (hm : Makes s₁ id s') :
    Adds s cs (found ++ [id]) s' (cs₁.push id) :=
  ⟨h.appends.push hm, h.listed.push id⟩

/-- So is a node that may be there or not. -/
theorem add (h : Adds s cs found s₁ cs₁) (hm : MakesIfAny s₁ o s') :
    Adds s cs (found ++ o.toList) s' (Grammar.add cs₁ o) :=
  ⟨h.appends.add hm, h.listed.add o⟩

/-- Of all that has been added, some may be left out of account. -/
theorem mono (h : Adds s cs found s' cs') (hs : found₁.Sublist found) : Adds s cs found₁ s' cs' :=
  ⟨h.appends.mono hs.subset, h.listed.mono hs.subperm⟩

theorem perm (h : Adds s cs found s' cs') (hp : found₁.Perm found) : Adds s cs found₁ s' cs' :=
  ⟨h.appends.mono hp.subset, h.listed.mono hp.subperm⟩

/-- Children that are there remain. -/
theorem ne_empty (h : Adds s cs found s' cs') (hc : cs ≠ #[]) : cs' ≠ #[] :=
  h.appends.ne_empty hc

/-- Tokens that are passed over add nothing. -/
theorem skip (h : Adds s cs found s₁ cs') (hb : Builds s₁ [] s') : Adds s cs found s' cs' :=
  ⟨h.appends.skip hb, h.listed⟩

/-- What has been added becomes a node. Its parts are among the children, those that stand for a word of
the language are of the right kind, and its flags say what its children do. -/
theorem node_of_roles {k : NodeKind} {start : Nat} {data : NodeData} (h : Adds s #[] found s₁ cs)
    (hc : cs ≠ #[]) (hs : data.isRoled k) (hp : data.parts ⊆ found) (hd : data.direct.Sublist found)
    (hr : ∀ r ∈ data.roles, ∃ k ∈ r.2, s₁.forest.kind? (some r.1) = some k)
    (ht : s₁.forest.Tells cs data) (hn : Runs (Grammar.node k start cs data) s₁ id s') :
    Makes s id s' :=
  h.appends.node_of_roles hc hs hp (h.listed.mono hd.subperm) hr ht hn

/-- A node that says no more of its parts than which of them are parameters, or what it is as one. -/
theorem node_of_tells {k : NodeKind} {start : Nat} {data : NodeData}
    (h : Adds s #[] found s₁ cs) (hn : Runs (Grammar.node k start cs data) s₁ id s')
    (ht : s₁.forest.Tells cs data) (hc : cs ≠ #[]) (hr : data.roles = [])
    (hs : data.isRoled k) (hp : data.parts ⊆ found) (hd : data.direct.Sublist found) :
    Makes s id s' :=
  h.node_of_roles hc hs hp hd (by simp [hr]) ht hn

/-- So do the children of a node of which nothing more is asked. -/
theorem node {k : NodeKind} {start : Nat} {data : NodeData} (h : Adds s #[] found s₁ cs)
    (hc : cs ≠ #[]) (hs : data.isSimple k) (hp : data.parts ⊆ found)
    (hd : data.direct.Sublist found) (hn : Runs (Grammar.node k start cs data) s₁ id s') :
    Makes s id s' := by
  obtain ⟨hroles, hps, hv, hs⟩ := NodeData.isSimple_iff.mp hs
  exact h.node_of_tells hn (Forest.tells_of_none hps hv) hc hroles hs hp hd

end Adds

theorem Makes.adds (hm : Makes s id s') (cs : Array NodeId) : Adds s cs [id] s' (cs.push id) :=
  (Adds.refl s cs).push hm

/-- Children so far, and those of them that count. -/
def Collects (s₀ : State) (cs₀ : Array NodeId) (s : State) (x : Array NodeId × Array NodeId) :
    Prop :=
  Adds s₀ cs₀ x.2.toList s x.1

/-- Nothing has been collected at the start. -/
theorem collects_start (s : State) (cs : Array NodeId) : Collects s cs s (cs, #[]) :=
  Adds.refl s cs

/-- What makes no node leaves the collection as it is. -/
theorem Collects.skip {s₀ : State} {cs₀ : Array NodeId} {x : Array NodeId × Array NodeId}
    (h : Collects s₀ cs₀ s x) (hb : Builds s [] s') : Collects s₀ cs₀ s' x := Adds.skip h hb

/-- A child that is no member is collected among the children only. -/
theorem Collects.child {s₀ : State} {cs₀ xs : Array NodeId} (h : Collects s₀ cs₀ s (cs, xs))
    (hm : Makes s id s') : Collects s₀ cs₀ s' (cs.push id, xs) :=
  (Adds.push h hm).mono (List.sublist_append_left _ _)

/-- A member is collected among both. -/
theorem Collects.member {s₀ : State} {cs₀ xs : Array NodeId} (h : Collects s₀ cs₀ s (cs, xs))
    (hm : Makes s id s') : Collects s₀ cs₀ s' (cs.push id, xs.push id) := by
  unfold Collects
  rw [Array.toList_push]
  exact Adds.push h hm

end

end KotlinTree.Grammar
