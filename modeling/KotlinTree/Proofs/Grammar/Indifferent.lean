import KotlinTree.Proofs.Grammar.Precedence

/-!
Lambdas inside brackets, which nodes open again for lambdas after calls, and productions to which it makes no
difference whether a brace after a call opens a lambda, put together from others.
-/

namespace KotlinTree

/-- Nodes inside which a brace after a call opens a lambda, whatever is around them. -/
@[reducible] def NodeKind.isShelter : NodeKind → Bool
  | .block | .lambdaExpression | .parenthesizedExpression | .valueArgumentList | .ifExpression => true
  | _ => false

def Kind.isShelter : Kind → Bool
  | .token _ => false
  | .node k => k.isShelter

namespace Forest

/-- A call whose last part is a lambda. -/
def PassesLambda (f : Forest) (c : NodeId) : Prop :=
  f.kind? (some c) = some (.node .callExpression) ∧
    ∃ l ∈ (f.children (some c)).back?, f.kind? (some l) = some (.node .lambdaExpression)

/-- A node has been made after the opening token of a shelter and before the shelter. -/
structure Shelters (f : Forest) (r c : NodeId) : Prop where
  before : c < r
  kind : ∃ k ∈ f.kind? (some r), k.isShelter = true
  opened : ∃ o ∈ (f.children (some r))[0]?, o < c

/-- From some node on, each call that a lambda is passed to is inside a shelter. -/
def LambdasSheltered (f : Forest) (n : Nat) : Prop :=
  ∀ c < f.size, n ≤ c → f.PassesLambda c → ∃ r < f.size, f.Shelters r c

/-- Shelters from some node on have been opened from this node on. -/
def SheltersFrom (f : Forest) (n : Nat) : Prop :=
  ∀ r, n ≤ r → ∀ k ∈ f.kind? (some r), k.isShelter = true → ∃ o ∈ (f.children (some r))[0]?, n ≤ o

instance (f : Forest) (c : NodeId) : Decidable (f.PassesLambda c) :=
  inferInstanceAs (Decidable (_ ∧ ∃ l ∈ (_ : Option NodeId), _))

instance (f : Forest) (r c : NodeId) : Decidable (f.Shelters r c) :=
  decidable_of_iff (c < r ∧ (∃ k ∈ f.kind? (some r), k.isShelter = true) ∧
    ∃ o ∈ (f.children (some r))[0]?, o < c)
    ⟨fun ⟨hbefore, hkind, hopened⟩ => ⟨hbefore, hkind, hopened⟩,
      fun h => ⟨h.before, h.kind, h.opened⟩⟩

instance (f : Forest) (n : Nat) : Decidable (f.LambdasSheltered n) :=
  inferInstanceAs (Decidable (∀ c < f.size, _ → _ → ∃ r < f.size, _))

section
variable {f g : Forest} {c r i : NodeId} {n : Nat}

/-- A node that is of some kind has been made. -/
theorem lt_size_of_kind? {k : Kind} (h : f.kind? (some i) = some k) : i < f.size := by
  obtain ⟨m, hm, -⟩ := exists_of_kind? h
  exact lt_size_of_getElem? hm

namespace Grows

/-- Nothing has been made. -/
theorem refl (f : Forest) : f.Grows f := ⟨fun _ n hn => ⟨n, hn, rfl, rfl, .refl _⟩⟩

/-- No node is lost. -/
theorem size_le (h : f.Grows g) : f.size ≤ g.size := by
  by_contra hlt
  obtain ⟨m, hm⟩ := exists_getElem? (Nat.lt_of_not_le hlt)
  obtain ⟨m', hm', -⟩ := h.node _ m hm
  exact Nat.lt_irrefl _ (lt_size_of_getElem? hm')

/-- What a node was is what it is. -/
theorem kind?_eq (h : f.Grows g) (hi : i < f.size) : g.kind? (some i) = f.kind? (some i) := by
  obtain ⟨m, hm⟩ := exists_getElem? hi
  obtain ⟨m', hm', hkind, -⟩ := h.node i m hm
  rw [kind?_of_getElem? hm, kind?_of_getElem? hm', hkind]

/-- A node keeps its children. -/
theorem children_eq (h : f.Grows g) (hi : i < f.size) : g.children (some i) = f.children (some i) := by
  obtain ⟨m, hm⟩ := exists_getElem? hi
  obtain ⟨m', hm', -, hchildren, -⟩ := h.node i m hm
  rw [children_of_getElem? hm, children_of_getElem? hm', hchildren]

end Grows

/-- A call that passes a lambda does so ever after. -/
theorem PassesLambda.grows (hc : f.PassesLambda c) (h : f.Grows g) : g.PassesLambda c := by
  obtain ⟨hkind, l, hl, hlambda⟩ := hc
  exact ⟨h.kind? hkind, l, h.children_eq (lt_size_of_kind? hkind) ▸ hl, h.kind? hlambda⟩

/-- A shelter of a call that has been made before was one then. -/
theorem Shelters.of_grows (hr : g.Shelters r c) (h : f.Grows g) (hlt : r < f.size) : f.Shelters r c where
  before := hr.before
  kind := h.kind?_eq hlt ▸ hr.kind
  opened := h.children_eq hlt ▸ hr.opened

/-- Calls are sheltered by what has been made up to them: a shelter that comes later begins later. -/
theorem LambdasSheltered.front (hg : g.LambdasSheltered n) (h : f.Grows g) (hlater : g.SheltersFrom f.size) :
    f.LambdasSheltered n := by
  intro c hc hn hpasses
  obtain ⟨r, -, hr⟩ := hg c (hc.trans_le h.size_le) hn (hpasses.grows h)
  obtain hlt | hle := Nat.lt_or_ge r f.size
  · exact ⟨r, hlt, hr.of_grows h hlt⟩
  · obtain ⟨k, hk, hshelter⟩ := hr.kind
    obtain ⟨o, ho, hlt⟩ := hr.opened
    obtain ⟨o', ho', hle⟩ := hlater r hle k hk hshelter
    obtain rfl := Option.mem_unique ho ho'
    exact absurd (hle.trans_lt hlt) (Nat.not_lt_of_ge hc.le)

/-- Fewer calls need shelters the later they have to begin. -/
theorem LambdasSheltered.mono {m : Nat} (h : f.LambdasSheltered n) (hm : n ≤ m) : f.LambdasSheltered m :=
  fun c hc hle => h c hc (hm.trans hle)

/-- Shelters that have been made so far and those made later begin no sooner. -/
theorem SheltersFrom.trans (hf : f.SheltersFrom n) (hn : n ≤ f.size) (h : f.Grows g)
    (hg : g.SheltersFrom f.size) : g.SheltersFrom n := by
  intro r hr k hk hshelter
  obtain hlt | hle := Nat.lt_or_ge r f.size
  · rw [h.children_eq hlt]
    exact hf r hr k (h.kind?_eq hlt ▸ hk) hshelter
  · obtain ⟨o, ho, hle⟩ := hg r hle k hk hshelter
    exact ⟨o, ho, hn.trans hle⟩

/-- Nothing has been made. -/
theorem sheltersFrom_of_size_le (h : f.size ≤ n) : f.SheltersFrom n :=
  fun _ hr _ hk => absurd (lt_size_of_kind? hk) (Nat.not_lt_of_ge (h.trans hr))

/-- A leaf shelters nothing, as it is no region. -/
theorem sheltersFrom_addLeaf (f : Forest) (k : TokenKind) (span : Span) (leading text value : String) :
    (f.addLeaf k span leading text value).2.SheltersFrom f.size := by
  intro r hr k' hk hshelter
  have hlt := lt_size_of_kind? hk
  rw [size_addLeaf] at hlt
  obtain rfl : r = f.size := Nat.le_antisymm (Nat.le_of_lt_succ hlt) hr
  have hget := getElem?_addLeaf f k span leading text value f.size
  rw [if_pos rfl] at hget
  rw [kind?_of_getElem? hget] at hk
  cases hk
  cases hshelter

/-- A new node is no shelter, or has been opened late enough. -/
theorem SheltersFrom.addNode (hf : f.SheltersFrom n) {k : NodeKind} {place : Nat} {children : Array NodeId}
    {data : NodeData} (hk : k.isShelter = true → ∃ o ∈ children[0]?, n ≤ o) :
    (f.addNode k place children data).2.SheltersFrom n := by
  intro r hr k' hk' hshelter
  have hgrows := grows_addNode f k place children data
  have hlt := lt_size_of_kind? hk'
  rw [size_addNode] at hlt
  obtain hlt | rfl := Nat.lt_succ_iff_lt_or_eq.mp hlt
  · rw [hgrows.kind?_eq hlt] at hk'
    rw [hgrows.children_eq hlt]
    exact hf r hr k' hk' hshelter
  · rw [kind?_addNode] at hk'
    rw [children_addNode]
    obtain rfl := Option.some.inj hk'
    exact hk hshelter

end

end Forest

end KotlinTree

namespace KotlinTree.Grammar

/-- The same state where a brace opens a body. -/
def State.guarded (s : State) : State := { s with noTrailingLambda := true }

/-- What a run does to the forest and to the reading of braces, which it restores. -/
structure State.Onward (s s' : State) : Prop where
  grows : s.forest.Grows s'.forest
  braces : s'.noTrailingLambda = s.noTrailingLambda
  shelters : s'.forest.SheltersFrom s.forest.size

/-- A run is the same where a brace opens a body. -/
def Unmoved {α : Type} (p : Parser α) : Prop :=
  ∀ ⦃s a s'⦄, s.noTrailingLambda = false → Runs p s a s' →
    s'.noTrailingLambda = false ∧ Runs p s.guarded a s'.guarded

/-- A run is the same where a brace opens a body, if all lambdas that it passes to calls are sheltered. -/
class Indifferent {α : Type} (p : Parser α) : Prop where
  onward : ∀ ⦃s a s'⦄, Runs p s a s' → s.Onward s'
  same : ∀ ⦃s a s'⦄, s.noTrailingLambda = false → s'.forest.LambdasSheltered s.forest.size →
    Runs p s a s' → Runs p s.guarded a s'.guarded

/-- The same of runs from one state. -/
structure IndifferentFrom {α : Type} (s : State) (p : Parser α) : Prop where
  onward : ∀ ⦃a s'⦄, Runs p s a s' → s.Onward s'
  same : ∀ ⦃a s'⦄, s.noTrailingLambda = false → s'.forest.LambdasSheltered s.forest.size →
    Runs p s a s' → Runs p s.guarded a s'.guarded

/-- All productions that a production recurs through are. -/
class Productions.Indifferent (rec : Productions) : Prop where
  sound : rec.Sound
  recur : ∀ n, Grammar.Indifferent (rec n)

instance (rec : Productions) [rec.Indifferent] (n : Nonterminal) : Indifferent (rec n) :=
  Productions.Indifferent.recur n

/-- A part of a production that leaves the state as it is and does not look at the reading of braces. -/
class Blind {α : Type} (p : Parser α) : Prop extends Looks p where
  blind : ∀ s : State, (Id.run (p.run s.guarded)).1 = (Id.run (p.run s)).1

instance : Blind kind := ⟨fun _ => rfl⟩
instance : Blind peek := ⟨fun _ => rfl⟩
instance : Blind place := ⟨fun _ => rfl⟩
instance : Blind startsLine := ⟨fun _ => rfl⟩
instance : Blind isAtName := ⟨fun _ => rfl⟩
instance : Blind isAtModifier := ⟨fun _ => rfl⟩
instance : Blind isAttached := ⟨fun _ => rfl⟩
instance (k : TokenKind) : Blind (isAt k) := ⟨fun _ => rfl⟩
instance (text : String) : Blind (isAtText text) := ⟨fun _ => rfl⟩

instance noShelter : Fact (false = false) := ⟨rfl⟩

section
variable {α β σ : Type} {p q : Parser α} {f : α → Parser β} {s s' s'' : State}

namespace State.Onward

/-- Nothing has been read. -/
theorem refl (s : State) : s.Onward s := ⟨.refl _, rfl, Forest.sheltersFrom_of_size_le le_rfl⟩

/-- What is read first and then leads onward together. -/
theorem trans (h : s.Onward s') (h' : s'.Onward s'') : s.Onward s'' where
  grows := h.grows.trans h'.grows
  braces := h'.braces.trans h.braces
  shelters := h.shelters.trans h.grows.size_le h'.grows h'.shelters

end State.Onward

namespace Unmoved

/-- A plain value is read from any state. -/
protected theorem pure (a : α) : Unmoved (pure a) := by
  intro s b s' hs h
  obtain ⟨rfl, rfl⟩ := runs_pure.mp h
  exact ⟨hs, runs_pure.mpr ⟨rfl, rfl⟩⟩

/-- Programs that are unmoved one after the other are unmoved. -/
protected theorem bind (hp : Unmoved p) (hf : ∀ a, Unmoved (f a)) : Unmoved (p >>= f) := by
  intro s b s' hs h
  obtain ⟨a, s₁, hp', hf'⟩ := runs_bind.mp h
  obtain ⟨hs₁, hp'⟩ := hp hs hp'
  obtain ⟨hs', hf'⟩ := hf a hs₁ hf'
  exact ⟨hs', runs_bind.mpr ⟨a, s₁.guarded, hp', hf'⟩⟩

/-- What is looked at is not whether braces are lambdas. -/
theorem look [Blind p] : Unmoved p := by
  intro s a s' hs h
  obtain rfl : s' = s := (congrArg Prod.snd h).symm.trans (Looks.same s)
  have hsame : (Id.run (p.run s'.guarded)).1 = a := (Blind.blind s').trans (congrArg Prod.fst h)
  exact ⟨hs, Prod.ext hsame (Looks.same _)⟩

/-- A choice is unmoved if both of its sides are. -/
protected theorem ite {c : Prop} [Decidable c] (hp : Unmoved p) (hq : Unmoved q) :
    Unmoved (if c then p else q) := by
  split
  · exact hp
  · exact hq

/-- Inside, braces are read in one way whatever is around. -/
theorem withTrailingLambda (allowed : Bool) (p : Parser α) : Unmoved (withTrailingLambda allowed p) := by
  intro s a s' hs h
  obtain ⟨s₁, hp, rfl⟩ := runs_withTrailingLambda h
  refine ⟨hs, runs_bind_get.mpr (runs_bind.mpr ⟨(), _, runs_modify.mpr rfl, ?_⟩)⟩
  refine runs_bind.mpr ⟨a, s₁, hp, runs_bind.mpr ⟨(), _, runs_modify.mpr rfl, ?_⟩⟩
  exact runs_pure.mpr ⟨rfl, rfl⟩

/-- What is unmoved makes no difference, if it leads onward. -/
theorem indifferent (h : Unmoved p) (ho : ∀ ⦃s a s'⦄, Runs p s a s' → s.Onward s') : Indifferent p :=
  ⟨ho, fun _ _ _ hs _ hr => (h hs hr).2⟩

end Unmoved

/-- What makes no difference from each state makes none. -/
theorem IndifferentFrom.indifferent (h : ∀ s, IndifferentFrom s p) : Indifferent p :=
  ⟨fun s _ _ hr => (h s).onward hr, fun s _ _ hs hl hr => (h s).same hs hl hr⟩

/-- What is looked at is known of the state. -/
theorem IndifferentFrom.look [Blind p] (h : IndifferentFrom s (f (Id.run (p.run s)).1)) :
    IndifferentFrom s (p >>= f) where
  onward b s' hr := by
    obtain ⟨a, s₁, hp, hf⟩ := runs_bind.mp hr
    obtain rfl : s₁ = s := (congrArg Prod.snd hp).symm.trans (Looks.same s)
    obtain rfl : _ = a := congrArg Prod.fst hp
    exact h.onward hf
  same b s' hs hsheltered hr := by
    obtain ⟨a, s₁, hp, hf⟩ := runs_bind.mp hr
    obtain rfl : s₁ = s := (congrArg Prod.snd hp).symm.trans (Looks.same s)
    obtain rfl : _ = a := congrArg Prod.fst hp
    exact runs_bind.mpr ⟨_, s₁.guarded, (Unmoved.look hs hp).2, h.same hs hsheltered hf⟩

namespace Indifferent

/-- What makes no difference makes none from one state. -/
theorem from_state (h : Indifferent p) (s : State) : IndifferentFrom s p :=
  ⟨fun _ _ hr => h.onward hr, fun _ _ hs hl hr => h.same hs hl hr⟩

instance pure (a : α) : Indifferent (Pure.pure a : Parser α) :=
  (Unmoved.pure a).indifferent fun s _ _ h => (runs_pure.mp h).2 ▸ .refl s

instance bind [Indifferent p] [∀ a, Indifferent (f a)] : Indifferent (p >>= f) where
  onward s b s' h := by
    obtain ⟨a, s₁, hp, hf⟩ := runs_bind.mp h
    exact (Indifferent.onward hp).trans (Indifferent.onward hf)
  same s b s' hs hsheltered h := by
    obtain ⟨a, s₁, hp, hf⟩ := runs_bind.mp h
    have ho := Indifferent.onward hp
    have ho' := Indifferent.onward hf
    -- Shelters that the second part makes begin in it, and are not around calls of the first.
    have hp' := Indifferent.same hs (hsheltered.front ho'.grows ho'.shelters) hp
    have hf' := Indifferent.same (ho.braces.trans hs) (hsheltered.mono ho.grows.size_le) hf
    exact runs_bind.mpr ⟨a, _, hp', hf'⟩

/-- The same, where it depends on the first result how the second part is put together. -/
theorem step [Indifferent p] (hf : ∀ a, Indifferent (f a)) : Indifferent (p >>= f) := bind

instance look [Blind p] : Indifferent p :=
  Unmoved.look.indifferent fun s a s' h => by
    obtain rfl : s' = s := (congrArg Prod.snd h).symm.trans (Looks.same s)
    exact .refl s'

instance ite {c : Prop} [Decidable c] [Indifferent p] [Indifferent q] :
    Indifferent (if c then p else q) := by
  split <;> infer_instance

/-- A choice makes no difference if neither of its sides does. -/
theorem branch {c : Prop} [Decidable c] (hp : Indifferent p) (hq : Indifferent q) :
    Indifferent (if c then p else q) := ite

/-- The state is looked at, but not for the reading of braces. -/
theorem get {f : State → Parser β} (hf : ∀ s, Indifferent (f s)) (hblind : ∀ s, f s.guarded = f s) :
    Indifferent (get >>= f) where
  onward s b s' h := (hf s).onward (runs_bind_get.mp h)
  same s b s' hs hsheltered h := by
    refine runs_bind_get.mpr ?_
    rw [hblind]
    exact (hf s).same hs hsheltered (runs_bind_get.mp h)

instance map (g : α → β) [Indifferent p] : Indifferent (g <$> p) := by
  rw [map_eq_pure_bind]
  infer_instance

instance forM {f : α → Parser PUnit} [∀ a, Indifferent (f a)] (o : Option α) : Indifferent (o.forM f) := by
  cases o with
  | none => exact pure ()
  | some a => exact inferInstanceAs (Indifferent (f a))

/-- A repetition makes no difference if none of its steps does. -/
theorem repeatUpTo {step : σ → Parser (Step σ)} (h : ∀ x, Indifferent (step x)) (n : Nat) (x : σ) :
    Indifferent (repeatUpTo step n x) := by
  induction n generalizing x with
  | zero => exact pure x
  | succ n ih =>
    refine @bind _ _ _ _ (h x) fun r => ?_
    cases r with
    | more y => exact ih y
    | done y => exact pure y

instance repeating {step : σ → Parser (Step σ)} [∀ x, Indifferent (step x)] (x : σ) :
    Indifferent (repeating step x) :=
  get (fun _ => repeatUpTo inferInstance _ _) fun _ => rfl

/-- A change of the state that has nothing to do with the forest or the reading of braces. -/
theorem change {g : State → State} (hforest : ∀ s, (g s).forest = s.forest)
    (hbraces : ∀ s, (g s).noTrailingLambda = s.noTrailingLambda)
    (hguarded : ∀ s, g s.guarded = (g s).guarded) : Indifferent (modify g) where
  onward s _ s' h := by
    obtain rfl := runs_modify.mp h
    refine ⟨?_, hbraces s, ?_⟩
    · rw [hforest]
      exact .refl _
    · rw [hforest]
      exact Forest.sheltersFrom_of_size_le le_rfl
  same s _ s' _ _ h := by
    obtain rfl := runs_modify.mp h
    exact runs_modify.mpr (hguarded s).symm

instance withTrailingLambda {allowed : Bool} [Indifferent p] :
    Indifferent (withTrailingLambda allowed p) := by
  refine (Unmoved.withTrailingLambda allowed p).indifferent fun s a s' h => ?_
  obtain ⟨s₁, hp, rfl⟩ := runs_withTrailingLambda h
  have ho := Indifferent.onward hp
  exact ⟨ho.grows, rfl, ho.shelters⟩

end Indifferent

/-- A guard does not matter to the token that comes next. -/
theorem State.advance_guarded (s : State) :
    s.guarded.advance = s.advance.guarded ∧ s.advance.noTrailingLambda = s.noTrailingLambda := by
  unfold State.advance State.guarded
  cases s.ahead <;> exact ⟨rfl, rfl⟩

/-- A token is taken with or without a guard. -/
theorem Unmoved.bumpAs (k : TokenKind) : Unmoved (bumpAs k) := by
  intro s id s' hs h
  obtain ⟨rfl, rfl⟩ := runs_bumpAs.mp h
  refine ⟨(State.advance_guarded _).2.trans hs, runs_bumpAs.mpr ⟨rfl, ?_⟩⟩
  exact (State.advance_guarded { s with forest := s.leafed k }).1

/-- The same holds for a token that keeps its kind. -/
theorem Unmoved.bump : Unmoved bump := look.bind fun k => bumpAs k

/-- The same holds for a token that may be missing. -/
theorem Unmoved.eat (k : TokenKind) : Unmoved (eat k) :=
  look.bind fun _ => .ite (bump.bind fun _ => .pure _) (.pure none)

/-- A node is made with or without a guard. -/
theorem Unmoved.node (k : NodeKind) (start : Nat) (cs : Array NodeId) (data : NodeData) :
    Unmoved (node k start cs data) := by
  intro s id s' hs h
  obtain ⟨rfl, rfl⟩ := runs_node.mp h
  exact ⟨hs, rfl⟩

/-- A node is changed with or without a guard. -/
theorem Unmoved.change (id : NodeId) (f : Node → Node) : Unmoved (change id f) := by
  intro s _ s' hs h
  obtain rfl := runs_change.mp h
  exact ⟨hs, rfl⟩

/-- A node is made over nodes of which the first is new, or is no shelter. -/
theorem State.Onward.node {k : NodeKind} {start : Nat} {cs : Array NodeId} {data : NodeData} {id : NodeId}
    (h : s.Onward s') (hk : k.isShelter = true → ∃ o ∈ cs[0]?, s.forest.size ≤ o)
    (hn : Runs (node k start cs data) s' id s'') : s.Onward s'' := by
  obtain ⟨rfl, rfl⟩ := runs_node.mp hn
  exact ⟨h.grows.trans (Forest.grows_addNode ..), h.braces, h.shelters.addNode hk⟩

/-- What is added comes after the first child. -/
theorem Appends.first {cs cs' : Array NodeId} {found : List NodeId} {o : NodeId}
    (h : Appends s cs found s' cs') (ho : o ∈ cs[0]?) : o ∈ cs'[0]? := by
  obtain ⟨qs, rfl, -, -⟩ := h
  obtain ⟨hlt, -⟩ := Array.getElem?_eq_some_iff.mp ho
  exact (Array.getElem?_append_left hlt).trans ho

/-- What stands first is still first when something is added. -/
theorem mem_first_add {cs : Array NodeId} {opened : NodeId} (h : opened ∈ cs[0]?) (o : Option NodeId) :
    opened ∈ (add cs o)[0]? := by
  cases o with
  | none => exact h
  | some id =>
    obtain ⟨hlt, -⟩ := Array.getElem?_eq_some_iff.mp h
    exact (Array.getElem?_push.trans (if_neg hlt.ne)).trans h

namespace Indifferent

instance bumpAs (k : TokenKind) : Indifferent (bumpAs k) := by
  refine (Unmoved.bumpAs k).indifferent fun s id s' h => ?_
  obtain ⟨rfl, rfl⟩ := runs_bumpAs.mp h
  refine ⟨?_, (State.advance_guarded _).2, ?_⟩
  · rw [State.advance_forest]
    exact Forest.grows_addLeaf ..
  · rw [State.advance_forest]
    exact Forest.sheltersFrom_addLeaf _ _ _ _ _ _

/-- A node that is no shelter. -/
instance node {k : NodeKind} [hk : Fact (k.isShelter = false)] (start : Nat) (cs : Array NodeId)
    (data : NodeData) : Indifferent (node k start cs data) := by
  refine (Unmoved.node k start cs data).indifferent fun s id s' h => (State.Onward.refl s).node ?_ h
  exact fun hshelter => absurd hshelter (hk.out ▸ Bool.false_ne_true)

/-- A node is marked. -/
theorem mark (id : NodeId) {f : Node → Node} (hf : Cosmetic f) : Indifferent (Grammar.change id f) := by
  refine (Unmoved.change id f).indifferent fun s _ s' h => ?_
  obtain rfl := runs_change.mp h
  exact ⟨Forest.grows_modify _ _ hf, rfl, Forest.sheltersFrom_of_size_le (Forest.size_modify ..).le⟩

instance bump : Indifferent bump := bind

/-- A token is taken as a new node. -/
theorem onward_bump {id : NodeId} (h : Runs Grammar.bump s id s') :
    s.Onward s' ∧ s.forest.size ≤ id :=
  ⟨bump.onward h, (runs_bumpAs.mp (runs_bump.mp h)).1.le⟩

instance bumpName : Indifferent bumpName := by
  unfold Grammar.bumpName
  infer_instance

instance eat (k : TokenKind) : Indifferent (eat k) := by
  unfold Grammar.eat
  infer_instance

instance recovered (id : NodeId) : Indifferent (recovered id) := by
  have hmark := mark id cosmetic_recovered
  unfold Grammar.recovered
  have hreport : Indifferent (modify fun s : State =>
      let span := s.forest.span (some id)
      { s with diagnostics :=
        s.diagnostics.push (.ofFinding s.file (span.start, span.size) .unparsedSource []) }) :=
    change (fun _ => rfl) (fun _ => rfl) fun _ => rfl
  infer_instance

instance unknownStep (x : Array NodeId × Nat) : Indifferent (unknownStep x) := by
  refine get (fun s => ?_) fun _ => rfl
  infer_instance

instance unknown : Indifferent unknown := by
  unfold Grammar.unknown
  infer_instance

instance unknownToken : Indifferent unknownToken := by
  unfold Grammar.unknownToken
  infer_instance

instance nested {p : Parser (Option NodeId)} [Indifferent p] : Indifferent (nested p) := by
  have hdeeper : Indifferent (modify fun s : State => { s with depth := s.depth + 1 }) :=
    change (fun _ => rfl) (fun _ => rfl) fun _ => rfl
  have hback : Indifferent (modify fun s : State => { s with depth := s.depth - 1 }) :=
    change (fun _ => rfl) (fun _ => rfl) fun _ => rfl
  exact get (fun s => inferInstance) fun _ => rfl

end Indifferent

end

end KotlinTree.Grammar
