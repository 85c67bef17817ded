import KotlinTree.Proofs.Grammar.Primitive

/-!
What holds before a production and after it, for productions put together from others. A property of
states that lasts through the taking of a token, the making of a node and the marking of one lasts
through every production that does no more than that. Most productions have looked at a token before
they take it, so that it is enough if the property lasts while the file has not ended.
-/

namespace KotlinTree

/-- Nodes over operands: two around an operator, or one whose type is tested. -/
def NodeKind.isOperation : NodeKind → Bool
  | .binaryExpression | .elvisExpression | .isExpression => true
  | _ => false

def Kind.isOperation : Kind → Bool
  | .token _ => false
  | .node k => k.isOperation

/-- A node that is there, and is not over operands. -/
def Forest.IsOperand (f : Forest) (id : NodeId) : Prop :=
  ∃ k, f.kind? (some id) = some k ∧ k.isOperation = false

namespace Grammar

/-- A part of a production that leaves the state as it is. -/
class Looks {α : Type} (p : Parser α) : Prop where
  same : ∀ s, (Id.run (p.run s)).2 = s

instance : Looks (get : Parser State) := ⟨fun _ => rfl⟩
instance : Looks kind := ⟨fun _ => rfl⟩
instance : Looks peek := ⟨fun _ => rfl⟩
instance : Looks place := ⟨fun _ => rfl⟩
instance : Looks startsLine := ⟨fun _ => rfl⟩
instance : Looks isAtName := ⟨fun _ => rfl⟩
instance : Looks isAtModifier := ⟨fun _ => rfl⟩
instance : Looks isAttached := ⟨fun _ => rfl⟩
instance (k : TokenKind) : Looks (isAt k) := ⟨fun _ => rfl⟩
instance (text : String) : Looks (isAtText text) := ⟨fun _ => rfl⟩
instance {α : Type} (a : α) : Looks (pure a : Parser α) := ⟨fun _ => rfl⟩

/-- What only looks ends in the state that it starts in. -/
theorem Looks.eq_of_runs {α : Type} {p : Parser α} [h : Looks p] {s s' : State} {a : α} (hr : Runs p s a s') :
    s' = s := (congrArg Prod.snd hr).symm.trans (h.same s)

/-- Every run from a state with one property ends with a result and a state that have another. -/
def Leads {α : Type} (P : State → Prop) (p : Parser α) (Q : α → State → Prop) : Prop :=
  ∀ ⦃s a s'⦄, P s → Runs p s a s' → Q a s'

/-- A property of states holds after a run if it does before. -/
def Keeps {α : Type} (I : State → Prop) (p : Parser α) : Prop := Leads I p fun _ => I

/-- A state with a property, before the end of the file. -/
def Amid (I : State → Prop) (s : State) : Prop := I s ∧ s.current.kind ≠ .endOfFile

/-- A state with a property, and a token of a kind to be read. -/
def Facing (I : State → Prop) (k : TokenKind) (s : State) : Prop := I s ∧ s.current.kind = k

/-- A state with a property, which is before the end of the file if something has been seen. -/
def Seeing (I : State → Prop) (seen : Bool) (s : State) : Prop :=
  I s ∧ (seen = true → s.current.kind ≠ .endOfFile)

/-- A state with a property, and a result that is an operand there. -/
def Operand (I : State → Prop) (id : NodeId) (s : State) : Prop := I s ∧ s.forest.IsOperand id

section
variable {α β : Type} {P R I : State → Prop} {Q : α → State → Prop} {T : β → State → Prop}
  {p q : Parser α} {f : α → Parser β}

namespace Leads

/-- Less may be said of where a run leads. -/
theorem mono {Q' : α → State → Prop} (h : Leads P p Q) (hQ : ∀ a s, Q a s → Q' a s) : Leads P p Q' :=
  fun _ _ _ hs hr => hQ _ _ (h hs hr)

/-- What holds in more cases leads there as well. -/
theorem of_imp (h : Leads P p Q) (hP : ∀ s, R s → P s) : Leads R p Q := fun _ _ _ hs hr => h (hP _ hs) hr

/-- A value that is given outright leads to what holds of it at once. -/
theorem yield {a : α} (h : ∀ s, P s → Q a s) : Leads P (pure a) Q := by
  intro s b s' hs hr
  obtain ⟨rfl, rfl⟩ := runs_pure.mp hr
  exact h _ hs

protected theorem pure (a : α) : Leads I (pure a) fun _ => I := yield fun _ hs => hs

/-- What the first of two parts leads to is what the second starts from. -/
protected theorem bind (hp : Leads P p Q) (hf : ∀ a, Leads (Q a) (f a) T) : Leads P (p >>= f) T := by
  intro s b s' hs hr
  obtain ⟨a, s₁, hp', hf'⟩ := runs_bind.mp hr
  exact hf a (hp hs hp') hf'

/-- A part that only looks at the state. -/
theorem look [Looks p] (hf : ∀ a, Leads P (f a) T) : Leads P (p >>= f) T := by
  intro s b s' hs hr
  obtain ⟨a, s₁, hp, hf'⟩ := runs_bind.mp hr
  obtain rfl := Looks.eq_of_runs hp
  exact hf a hs hf'

/-- What has been looked at is known. -/
theorem know [Looks p] (hf : ∀ a, Leads (fun s => P s ∧ (Id.run (p.run s)).1 = a) (f a) T) :
    Leads P (p >>= f) T := by
  intro s b s' hs hr
  obtain ⟨a, s₁, hp, hf'⟩ := runs_bind.mp hr
  obtain rfl := Looks.eq_of_runs hp
  exact hf a ⟨hs, congrArg Prod.fst hp⟩ hf'

/-- What is said of the result of a function is said of what goes into it. -/
theorem map {g : α → β} (h : Leads P p fun a s => T (g a) s) : Leads P (g <$> p) T := by
  intro s b s' hs hr
  obtain ⟨a, hp, rfl⟩ := runs_map.mp hr
  exact h hs hp

/-- A choice leads there if both of its branches do. -/
protected theorem ite {c : Prop} [Decidable c] (hp : Leads P p Q) (hq : Leads P q Q) :
    Leads P (if c then p else q) Q := by
  split
  · exact hp
  · exact hq

/-- The condition is known in its branch. -/
theorem branch {c : Prop} [Decidable c] (hp : c → Leads P p Q) (hq : ¬ c → Leads P q Q) :
    Leads P (if c then p else q) Q := by
  split
  · exact hp ‹_›
  · exact hq ‹_›

/-- A step on the state leads to what holds of the changed state. -/
theorem modify {g : State → State} {T : Unit → State → Prop} (h : ∀ s, P s → T () (g s)) :
    Leads P (modify g) T := by
  rintro s ⟨⟩ s' hs hr
  rw [runs_modify.mp hr]
  exact h s hs

/-- Steps that lead from what holds of one value to what holds of the next. -/
protected theorem repeating {σ : Type} {step : σ → Parser (Step σ)} {J : σ → State → Prop}
    (h : ∀ x, Leads (J x) (step x) fun r => J r.value) (x : σ) :
    Leads (J x) (repeating step x) J :=
  fun _ _ _ hs hr => runs_repeating_value (I := fun s x => J x s) (fun _ x _ _ hx hr => h x hx hr) hs hr

/-- What holds anywhere holds before the end of the file. -/
theorem amid (h : Leads P p Q) : Leads (Amid P) p Q := h.of_imp fun _ hs => hs.1

/-- What holds anywhere holds at any token. -/
theorem facingAny {k : TokenKind} (h : Leads P p Q) : Leads (Facing P k) p Q :=
  h.of_imp fun _ hs => hs.1

/-- At any token but the last, the file has not ended. -/
theorem facing {k : TokenKind} (hk : k ≠ .endOfFile) (h : Leads (Amid P) p Q) :
    Leads (Facing P k) p Q := h.of_imp fun _ hs => ⟨hs.1, hs.2 ▸ hk⟩

/-- Each kind of token may be looked at for itself. -/
theorem lookKind {f : TokenKind → Parser β} (hf : ∀ k, Leads (Facing P k) (f k) T) :
    Leads P (kind >>= f) T := .know hf

/-- So may the kind of the token after it. -/
theorem lookNext {f : TokenKind → Parser β}
    (hf : ∀ k, Leads (fun s => P s ∧ s.nextKind = k) (f k) T) : Leads P (peek >>= f) T := .know hf

section
variable {look : Parser Bool} {f : Bool → Parser β}

/-- What is seen only before the end of the file. -/
theorem see [Looks look] (hlook : ∀ s, (Id.run (look.run s)).1 = true → s.current.kind ≠ .endOfFile)
    (hf : ∀ b, Leads (Seeing P b) (f b) T) : Leads P (look >>= f) T := by
  refine .know fun b => (hf b).of_imp fun s hs => ⟨hs.1, fun hb => hlook s ?_⟩
  exact hs.2.trans hb

/-- A token that is there is not the end of the file. -/
theorem seeAt {k : TokenKind} (hk : k ≠ .endOfFile) (hf : ∀ b, Leads (Seeing P b) (f b) T) :
    Leads P (isAt k >>= f) T := by
  refine .see (fun s hs => ?_) hf
  have hat : s.current.kind = k := of_decide_eq_true hs
  exact hat ▸ hk

/-- Neither is a name. -/
theorem seeName (hf : ∀ b, Leads (Seeing P b) (f b) T) : Leads P (isAtName >>= f) T := by
  refine .see (fun s hs hend => ?_) hf
  have hname : s.current.kind.isName = true := hs
  rw [hend] at hname
  cases hname

/-- Neither is a modifier. -/
theorem seeModifier (hf : ∀ b, Leads (Seeing P b) (f b) T) : Leads P (isAtModifier >>= f) T := by
  refine .see (fun s hs hend => ?_) hf
  have hmodifier : isModifierAhead (s.current :: s.ahead) = true := hs
  simp [isModifierAhead, hend, TokenKind.isModifier, isIdentifierModifier] at hmodifier

end

/-- What is done about a token that has been seen is done before the end of the file. -/
theorem seen {b : Bool} {c : Prop} [Decidable c] (hc : c → b = true) (hp : Leads (Amid P) p Q)
    (hq : Leads P q Q) : Leads (Seeing P b) (if c then p else q) Q :=
  .branch (fun h => hp.of_imp fun _ hs => ⟨hs.1, hs.2 (hc h)⟩) fun _ => hq.of_imp fun _ hs => hs.1

/-- A token is asked for, and it is not the end where it is there. -/
theorem ifAt {k : TokenKind} {p q : Parser β} (hk : k ≠ .endOfFile) (hp : Leads (Amid P) p T)
    (hq : Leads P q T) : Leads P (isAt k >>= fun b => if b = true then p else q) T :=
  .seeAt hk fun _ => .seen id hp hq

/-- It is enough that one of two conditions has seen a token. -/
theorem seenWith {b c : Bool} (hp : Leads (Amid P) p Q) (hq : Leads P q Q) :
    Leads (Seeing P b) (if (b && c) = true then p else q) Q :=
  .seen (fun h => (Bool.and_eq_true_iff.mp h).1) hp hq

/-- Of two looks, either may have seen a token. -/
theorem seenEither {b c : Bool} (hp : Leads (Amid P) p Q) (hq : Leads P q Q) :
    Leads (Seeing (Seeing P b) c) (if (c || b) = true then p else q) Q := by
  refine .branch (fun h => hp.of_imp fun s hs => ⟨hs.1.1, ?_⟩) fun _ => hq.of_imp fun _ hs => hs.1.1
  exact (Bool.or_eq_true_iff.mp h).elim hs.2 hs.1.2

/-- Two parts, of which only the end matters. -/
theorem pair {γ : Type} {p : Parser α} {q : Parser β} {R : State → Prop} {f : α → β → Parser γ}
    {T : γ → State → Prop} (h : Leads P (p >>= fun _ => q) fun _ => R)
    (hf : ∀ a b, Leads R (f a b) T) : Leads P (p >>= fun a => q >>= f a) T := by
  intro s c s' hs hr
  obtain ⟨a, s₁, ha, hr⟩ := runs_bind.mp hr
  obtain ⟨b, s₂, hb, hr⟩ := runs_bind.mp hr
  exact hf a b (h hs (runs_bind.mpr ⟨a, s₁, ha, hb⟩)) hr

/-- Where a production does not start, it has taken nothing, and something else takes the token. -/
theorem instead {p : Parser (Option NodeId)} {k : TokenKind} {f : Option NodeId → Parser β}
    (hk : k ≠ .endOfFile) (hp : Keeps P p) (hnone : ∀ s s', Runs p s none s' → s' = s)
    (hsome : ∀ id, Leads P (f (some id)) T) (hother : Leads (Amid P) (f none) T) :
    Leads (Facing P k) (p >>= f) T := by
  intro s b s' ⟨hs, hcurrent⟩ hr
  obtain ⟨o, t, ho, hrest⟩ := runs_bind.mp hr
  have ht := hp hs ho
  cases o with
  | some id => exact hsome id ht hrest
  | none =>
    obtain rfl := hnone s t ho
    exact hother ⟨ht, hcurrent ▸ hk⟩ hrest

/-- The token that has been seen behind the one that is taken is there after it. -/
theorem bumpToward {k : TokenKind} (hk : k ≠ .endOfFile) (h : Leads P bump fun _ => I) :
    Leads (fun s => P s ∧ s.nextKind = k) bump fun _ => Amid I := by
  intro s id s' hs hr
  refine ⟨h hs.1 hr, ?_⟩
  rw [bump_kind hr, hs.2]
  exact hk

end Leads

/-- The result is not of interest. -/
theorem Leads.forget {p : Parser NodeId} (h : Leads P p (Operand I)) : Leads P p fun _ => I :=
  h.mono fun _ _ hs => hs.1

/-- What each step keeps is kept by any number of them. -/
theorem Keeps.repeating {σ : Type} {step : σ → Parser (Step σ)} (h : ∀ x, Keeps I (step x)) (x : σ) :
    Keeps I (repeating step x) :=
  Leads.repeating (J := fun _ => I) h x

end

/-- Where a property holds, every run of one production is one of the other. -/
def SameFrom {α : Type} (P : State → Prop) (p q : Parser α) : Prop :=
  ∀ ⦃s a s'⦄, P s → Runs p s a s' → Runs q s a s'

section
variable {α β : Type} {P Q : State → Prop} {p q : Parser α} {f g : α → Parser β}

namespace SameFrom

theorem refl (p : Parser α) : SameFrom P p p := fun _ _ _ _ h => h

/-- Parts that are the same in more states are the same in fewer. -/
theorem of_imp (h : SameFrom Q p q) (hP : ∀ s, P s → Q s) : SameFrom P p q :=
  fun _ _ _ hs hr => h (hP _ hs) hr

/-- Two productions that run alike have the same runs. -/
theorem run_eq {s : State} (h : SameFrom P p q) (hs : P s) : p.run s = q.run s :=
  (h hs (runs_self p s)).symm

/-- Parts are the same if their beginnings are, and their ends are where these lead. -/
protected theorem bind {Q : α → State → Prop} (hp : SameFrom P p q) (hleads : Leads P p Q)
    (hf : ∀ a, SameFrom (Q a) (f a) (g a)) : SameFrom P (p >>= f) (q >>= g) := by
  intro s b s' hs h
  obtain ⟨a, s₁, hp', hf'⟩ := runs_bind.mp h
  exact runs_bind.mpr ⟨a, s₁, hp hs hp', hf a (hleads hs hp') hf'⟩

/-- What comes after is the same. -/
theorem onward (hp : SameFrom P p q) (f : α → Parser β) : SameFrom P (p >>= f) (q >>= f) :=
  hp.bind (Q := fun _ _ => True) (fun _ _ _ _ _ => trivial) fun _ => refl _

/-- A look is the same in both. -/
theorem look [Looks p] (hf : ∀ a, SameFrom P (f a) (g a)) : SameFrom P (p >>= f) (p >>= g) :=
  .bind (refl p) (fun _ _ _ hs h => (Looks.eq_of_runs h).symm ▸ hs) hf

/-- What has been looked at is known. -/
theorem know [Looks p] (hf : ∀ a, SameFrom (fun s => P s ∧ (Id.run (p.run s)).1 = a) (f a) (g a)) :
    SameFrom P (p >>= f) (p >>= g) :=
  .bind (refl p) (fun s _ s' hs h => by
    obtain rfl := Looks.eq_of_runs h
    exact ⟨hs, congrArg Prod.fst h⟩) hf

/-- Each kind of token may be compared for itself. -/
theorem lookKind {f g : TokenKind → Parser β} (hf : ∀ k, SameFrom (Facing P k) (f k) (g k)) :
    SameFrom P (kind >>= f) (kind >>= g) := .know hf

/-- A function makes the same of what is the same. -/
theorem map {h : α → β} (hp : SameFrom P p q) : SameFrom P (h <$> p) (h <$> q) := by
  intro s b s' hs hr
  obtain ⟨a, hp', rfl⟩ := runs_map.mp hr
  exact runs_map.mpr ⟨a, hp hs hp', rfl⟩

/-- A choice is the same if each branch is where it is taken. -/
theorem branch {c : Prop} [Decidable c] {p' q' : Parser α} (hp : c → SameFrom P p p')
    (hq : ¬ c → SameFrom P q q') : SameFrom P (if c then p else q) (if c then p' else q') := by
  by_cases hc : c
  · simpa only [if_pos hc] using hp hc
  · simpa only [if_neg hc] using hq hc

/-- It is enough that each branch always is. -/
protected theorem ite {c : Prop} [Decidable c] {p' q' : Parser α} (hp : SameFrom P p p')
    (hq : SameFrom P q q') : SameFrom P (if c then p else q) (if c then p' else q') :=
  branch (fun _ => hp) fun _ => hq

/-- Steps that run alike and keep a property, each where the one before has left it. -/
protected theorem repeating {σ : Type} {step step' : σ → Parser (Step σ)} (hkept : ∀ x, Keeps P (step x))
    (h : ∀ x, SameFrom P (step x) (step' x)) (x : σ) : SameFrom P (repeating step x) (repeating step' x) := by
  have hrounds (n : Nat) (x : σ) : SameFrom P (repeatUpTo step n x) (repeatUpTo step' n x) := by
    induction n generalizing x with
    | zero => exact refl _
    | succ n ih =>
      refine .bind (h x) (hkept x) fun r => ?_
      cases r with
      | more y => exact ih y
      | done y => exact refl _
  -- How many rounds there may be is read off the state, and so is the same for both.
  exact .look fun s => hrounds _ x

/-- What is nested is begun below the outermost level and within the limit. -/
theorem nested {p q : Parser (Option NodeId)} (hp : SameFrom Q p q)
    (hin : ∀ s depth, P s → 0 < depth → depth ≤ maxDepth → Q { s with depth }) :
    SameFrom P (nested p) (nested q) := by
  -- The depth is known to be below the limit when it is raised.
  refine .know fun _ => .branch (fun _ => refl _) fun hdeep => ?_
  refine .bind (refl _) (Q := fun _ => Q) (.modify fun t ht => ?_) fun _ => hp.onward _
  obtain ⟨hs, rfl⟩ := ht
  exact hin t _ hs (Nat.succ_pos _) (Nat.lt_of_not_le hdeep)

/-- Whether a lambda may follow can be left out of the comparison. -/
theorem withTrailingLambda (hp : SameFrom Q p q)
    (hin : ∀ s noTrailingLambda, P s → Q { s with noTrailingLambda }) (allowed : Bool) :
    SameFrom P (withTrailingLambda allowed p) (withTrailingLambda allowed q) :=
  .look fun _ => .bind (refl _) (Q := fun _ => Q) (.modify fun t ht => hin t _ ht) fun _ => hp.onward _

end SameFrom

end

/-- A property of states that lasts, whatever the context is, through the taking of tokens before the end of
the file, the making of nodes that are not over operands and the marking of nodes. Where it holds, nothing
comes after the end of the file. -/
structure Persists (I : State → Prop) : Prop where
  leaf : ∀ k, k ≠ .endOfFile → Leads (Amid I) (bumpAs k) fun _ => I
  node : ∀ k start cs data, k.isOperation = false → Keeps I (node k start cs data)
  change : ∀ id f, Cosmetic f → Keeps I (change id f)
  context : ∀ s depth noTrailingLambda diagnostics, I s →
    I { s with depth, noTrailingLambda, diagnostics }
  next : ∀ s, I s → s.nextKind ≠ .endOfFile → s.current.kind ≠ .endOfFile

section
variable {I : State → Prop} {id : NodeId}

namespace Persists

/-- A token that is taken before the end leaves what lasts as it is. -/
theorem bump (hI : Persists I) : Leads (Amid I) bump fun _ => I := by
  refine .lookKind fun k s id s' hs hr => hI.leaf k ?_ hs.1 hr
  exact hs.2 ▸ hs.1.2

/-- A name is never the end of the file. -/
theorem bumpName (hI : Persists I) : Keeps I bumpName := by
  refine .seeName fun isName => .seen id ?_ (.pure none)
  exact (hI.leaf _ (by decide)).bind fun name => .pure _

/-- Nor is a sign that is asked for by its kind. -/
theorem eat (hI : Persists I) {k : TokenKind} (hk : k ≠ .endOfFile) : Keeps I (eat k) := by
  refine .ifAt hk ?_ (.pure none)
  exact hI.bump.bind fun token => .pure _

/-- Where a token comes next, the file has not ended. -/
theorem toward (hI : Persists I) {α : Type} {p : Parser α} {Q : α → State → Prop} {k : TokenKind}
    (hk : k ≠ .endOfFile) (h : Leads (Amid I) p Q) : Leads (fun s => I s ∧ s.nextKind = k) p Q :=
  h.of_imp fun s hs => ⟨hs.1, hI.next s hs.1 (hs.2 ▸ hk)⟩

/-- After a name that is followed by anything, the file has not ended. -/
theorem bumpNameNext (hI : Persists I) :
    Leads (fun s => I s ∧ s.current.kind.isName = true ∧ s.nextKind ≠ .endOfFile) Grammar.bumpName
      fun _ => Amid I := by
  intro s o s' ⟨hs, hname, hnext⟩ hr
  refine ⟨hI.bumpName hs hr, ?_⟩
  obtain ⟨id, -, hb⟩ := bumpName_of_isName hname hr
  rw [bumpAs_nextKind hb]
  exact hnext

/-- The node that is made is an operand. -/
theorem operand (hI : Persists I) {k : NodeKind} (hk : k.isOperation = false) (start : Nat)
    (cs : Array NodeId) (data : NodeData) : Leads I (Grammar.node k start cs data) (Operand I) := by
  intro s id s' hs hr
  refine ⟨hI.node _ _ _ _ hk hs hr, .node k, ?_, hk⟩
  obtain ⟨rfl, rfl⟩ := runs_node.mp hr
  exact Forest.kind?_addNode ..

/-- A leaf is an operand. -/
theorem operand_leaf (hI : Persists I) {k : TokenKind} (hk : k ≠ .endOfFile) :
    Leads (Amid I) (bumpAs k) (Operand I) :=
  fun _ _ _ hs hr => ⟨hI.leaf k hk hs hr, .token k, bumpAs_kind? hr, rfl⟩

/-- So is any token. -/
theorem operand_bump (hI : Persists I) : Leads (Amid I) Grammar.bump (Operand I) :=
  fun _ _ _ hs hr => ⟨hI.bump hs hr, _, bump_kind? hr, rfl⟩

/-- An operand stays one when it is marked. -/
theorem operand_change (hI : Persists I) {f : Node → Node} (hf : Cosmetic f) :
    Leads (Operand I id) (Grammar.change id f) fun _ => Operand I id := by
  rintro s ⟨⟩ s' ⟨hs, k, hk, hop⟩ hr
  refine ⟨hI.change _ _ hf hs hr, k, ?_, hop⟩
  obtain rfl := runs_change.mp hr
  obtain ⟨n, hn, rfl⟩ := Forest.exists_of_kind? hk
  obtain ⟨m, hm, hkept⟩ := (Forest.extends_modify hf.kept).node id n hn
  rw [Forest.kind?_of_getElem? hm, hkept.kind]

/-- An operand that is reported as wrong is still one. -/
theorem recovered (hI : Persists I) : Leads (Operand I id) (Grammar.recovered id) (Operand I) := by
  refine (hI.operand_change cosmetic_recovered).bind fun _ => Leads.bind (Q := fun _ => Operand I id) ?_ ?_
  · exact .modify fun s hs => ⟨hI.context s _ _ _ hs.1, hs.2⟩
  · exact fun _ => .yield fun _ hs => hs

/-- Tokens are passed over only before the end of the file. -/
theorem unknownStep (hI : Persists I) (x : Array NodeId × Nat) : Keeps I (unknownStep x) := by
  refine .know fun s => .branch (fun _ => .of_imp (.pure _) fun _ hs => hs.1) fun hend => ?_
  have hamid (t : State) (ht : I t ∧ t = s) : Amid I t :=
    ⟨ht.1, fun hk => hend (ht.2 ▸ decide_eq_true hk)⟩
  refine .of_imp (.ite (Leads.amid (.pure _)) (.ite ?_ ?_)) hamid
  · exact hI.bump.bind fun token => .pure _
  · exact hI.bump.bind fun token => .pure _

/-- What is not understood is an operand. -/
theorem unknown (hI : Persists I) : Leads I unknown (Operand I) := by
  refine .look fun start => (Keeps.repeating hI.unknownStep _).bind fun kept => ?_
  exact (hI.operand rfl start kept.1 .plain).bind fun id => hI.recovered

/-- The token is kept alone, wherever it may be taken. -/
theorem unknownToken (hI : Persists I) {P : State → Prop} (hfirst : Leads P Grammar.bump fun _ => I) :
    Leads P unknownToken (Operand I) := by
  refine .look fun start => hfirst.bind fun token => ?_
  exact (hI.operand rfl start #[token] .plain).bind fun id => hI.recovered

/-- Whether a lambda may follow is no part of what lasts. -/
theorem withTrailingLambda (hI : Persists I) {α : Type} {p : Parser α} (hp : Keeps I p)
    (allowed : Bool) : Keeps I (withTrailingLambda allowed p) := by
  intro s a s' hs hr
  obtain ⟨s₁, hin, rfl⟩ := runs_withTrailingLambda hr
  exact hI.context _ _ _ _ (hp (hI.context _ _ _ _ hs) hin)

end Persists

/-- Either too deep, or one level deeper and back. -/
theorem Leads.nested {P I : State → Prop} {Q : Option NodeId → State → Prop}
    {p : Parser (Option NodeId)} (hdeep : Leads P unknown fun id => Q (some id)) (hp : Leads I p Q)
    (hin : ∀ s depth, P s → I { s with depth }) (hout : ∀ o s depth, Q o s → Q o { s with depth }) :
    Leads P (nested p) Q := by
  refine .look fun s => .ite ?_ ?_
  · exact hdeep.bind fun id => .yield fun _ h => h
  · refine .bind (Q := fun _ => I) (.modify fun s hs => hin s _ hs) fun _ => hp.bind fun o => ?_
    exact .bind (Q := fun _ => Q o) (.modify fun s hs => hout o s _ hs) fun _ => .yield fun _ h => h

end

/-- A property of states that lasts through all productions that a production recurs through, once a token
has been taken that may be taken where another property holds. A third one holds where a type comes next that
may turn out to be missing, and is all that is known when it is. -/
structure Carries (rec : Productions) (ready kept blank : State → Prop) : Prop extends Persists kept where
  sound : rec.Sound
  first : Leads ready bump fun _ => kept
  ready_of_amid : ∀ s, Amid kept s → ready s
  recur : ∀ n, Keeps kept (rec n)
  blank_of_amid : ∀ s, Amid kept s → blank s
  named : Leads (fun s => kept s ∧ s.current.kind.isName = true ∧ s.nextKind = .colon)
    (Grammar.bumpName >>= fun _ => Grammar.bump) fun _ => blank
  typed : Leads blank (rec (.typeReference none)) fun o s => kept s ∧ (o = none → blank s)
  untyped : Leads blank unknownToken fun _ => kept

namespace Carries

variable {rec : Productions} {ready kept blank : State → Prop}

/-- A production that starts with a token, where one has been taken before. -/
theorem again {α : Type} {p : Parser α} {Q : α → State → Prop} (h : Carries rec ready kept blank)
    (hp : Leads ready p Q) : Leads (Amid kept) p Q := hp.of_imp h.ready_of_amid

/-- Where a rule is ready, a token that is not understood is an operand. -/
theorem unknownToken (h : Carries rec ready kept blank) :
    Leads ready unknownToken (Operand kept) :=
  h.toPersists.unknownToken h.first

/-- A token that stands where none of its kind may is kept alone. -/
theorem keptAlone (h : Carries rec ready kept blank) {α : Type} {f : NodeId → Parser α}
    (hf : ∀ token, Keeps kept (f token)) :
    Leads (Amid kept) (Grammar.unknownToken >>= f) fun _ => kept :=
  (h.again h.unknownToken.forget).bind hf

/-- The type that is missing leaves nothing but what was known before it. -/
theorem typedOr (h : Carries rec ready kept blank) {α : Type} {f : Option NodeId → Parser α}
    (hsome : ∀ id, Keeps kept (f (some id))) (hnone : Leads blank (f none) fun _ => kept) :
    Leads blank (rec (.typeReference none) >>= f) fun _ => kept := by
  refine h.typed.bind fun o => ?_
  cases o with
  | some id => exact (hsome id).of_imp fun _ hs => hs.1
  | none => exact hnone.of_imp fun _ hs => hs.2 rfl

end Carries

end Grammar

end KotlinTree
