import KotlinTree.Proofs.Grammar.Keeps.Expression
import KotlinTree.Proofs.Grammar.Precedence

/-!
Operators that bind at least as tightly as asked for are taken, and no others: an expression stops where none
goes on with it. A nesting that is deep enough for the tokens ahead never gives an operand up, so all
operations are ordered by precedence.
-/

namespace KotlinTree.Grammar

/-- No operator that binds at least so tightly goes on with an expression here. -/
def State.Stops (s : State) (m : Nat) : Prop :=
  ∀ p, precedence? s.current.kind = some p → m ≤ p →
    s.current.startsLine = true ∧ continuesLine s.current.kind = false

/-- An operator that goes on with an expression here can have it on its left. -/
def State.Fits (s : State) (left : NodeId) : Prop :=
  ∀ p, precedence? s.current.kind = some p →
    (s.current.startsLine = true → continuesLine s.current.kind = true) → s.forest.LeftOf p left

/-- What each production finds when its nesting is deep enough. -/
def Nonterminal.Promise : Nonterminal → Option NodeId → State → Prop
  | .binary m, found, s => s.Stops m ∧ ∀ id ∈ found, s.forest.Tight m id
  | .prefixed, found, s =>
    (found = none → precedence? s.current.kind = none) ∧ ∀ id ∈ found, s.forest.IsOperand id
  | .declaration, found, s => ∀ id ∈ found, s.forest.IsOperand id
  | .expression, _, _ | .typeReference _, _, _ | .statement, _, _ => True

/-- The tokens cut the rest of a source, fewer than so many come after the current one, and all operations so
far are ordered. -/
structure State.Bounded (source : String) (n : Nat) (s : State) : Prop where
  ahead : Ahead source s.tokens
  fewer : s.ahead.length < n
  ordered : s.forest.Ordered

/-- Fewer than so many tokens come after the current one when it has been taken. -/
def State.Ready (source : String) (n : Nat) (s : State) : Prop :=
  s.Bounded source n ∨ s.Bounded source (n + 1) ∧ s.current.isEnd = false

/-- A token has been taken since a state, or none has and no modifiers have been found. -/
def State.Begun (source : String) (n : Nat) (s : State) (x : Array NodeId × List Modifier) (t : State) :
    Prop :=
  t.Bounded source n ∨ t = s ∧ x.1 = #[]

/-- All productions leave operations ordered where fewer than so many tokens are ahead. -/
abbrev OrdersBelow (source : String) (n : Nat) (rec : Productions) : Prop :=
  Carries rec (State.Ready source n) (State.Bounded source n) (State.Bounded source n)

/-- A production keeps its promise where fewer than so many tokens are ahead. -/
def Meets (source : String) (n : Nat) (p : Parser (Option NodeId)) (nt : Nonterminal) : Prop :=
  Leads (State.Bounded source n) p fun found s => s.Bounded source n ∧ nt.Promise found s

section
variable {source : String} {n m : Nat} {s s' : State} {id left : NodeId} {o : Option NodeId}
  {cs cs' : Array NodeId} {start : Nat} {rec : Productions}

/-- A state with fewer leaves is bounded by more. -/
theorem State.Bounded.mono (h : s.Bounded source n) (hn : n ≤ m) : s.Bounded source m :=
  ⟨h.ahead, h.fewer.trans_le hn, h.ordered⟩

theorem State.Bounded.succ (h : s.Bounded source n) : s.Bounded source (n + 1) := h.mono n.le_succ

theorem State.advance_ahead_length (s : State) : s.advance.ahead.length = s.ahead.length - 1 := by
  unfold State.advance
  cases s.ahead <;> simp

/-- A token leaves a bounded state bounded. -/
theorem bounded_leaf (k : TokenKind) : Keeps (State.Bounded source n) (bumpAs k) := by
  intro s id s' hs h
  have hahead := runs_bumpAs_ahead h hs.ahead
  obtain ⟨-, rfl⟩ := runs_bumpAs.mp h
  refine ⟨hahead, ?_, ?_⟩
  · rw [State.advance_ahead_length]
    exact (Nat.sub_le _ _).trans_lt hs.fewer
  · rw [State.advance_forest]
    exact hs.ordered.addLeaf ..

theorem bounded_bump : Keeps (State.Bounded source n) bump := .look fun k => bounded_leaf k

/-- A bound on the leaves lasts through tokens and nodes that are in order. -/
theorem bounded_persists (source : String) (n : Nat) : Persists (State.Bounded source n) where
  leaf k _ := .amid (bounded_leaf k)
  node k start cs data hk s id s' hs h := by
    obtain ⟨-, rfl⟩ := runs_node.mp h
    exact ⟨hs.ahead, hs.fewer, hs.ordered.addNode fun hop => absurd hop (hk ▸ Bool.false_ne_true)⟩
  change id f hf s _ s' hs h := by
    obtain rfl := runs_change.mp h
    exact ⟨hs.ahead, hs.fewer, hs.ordered.modify id hf⟩
  context s _ _ _ hs := ⟨hs.ahead, hs.fewer, hs.ordered⟩
  next s hs hnext hend := by
    have hnil := hs.ahead.isEnd_iff.mp (decide_eq_true hend)
    exact hnext (by rw [State.nextKind, hnil]; rfl)

/-- A token before the end of the file leaves fewer ahead. -/
theorem State.Ready.leaf (k : TokenKind) :
    Leads (State.Ready source n) (bumpAs k) fun _ => State.Bounded source n := by
  intro s id s' hs h
  rcases hs with hs | ⟨hs, hend⟩
  · exact bounded_leaf k hs h
  · have hnext := bounded_leaf k hs h
    refine ⟨hnext.ahead, ?_, hnext.ordered⟩
    -- The token that is taken is not the last, so that the rest gets shorter.
    have hne : s.ahead ≠ [] := fun he => Bool.false_ne_true (hend.symm.trans (hs.ahead.isEnd_iff.mpr he))
    have hpos := List.length_pos_iff.mpr hne
    have hfewer := hs.fewer
    obtain ⟨-, rfl⟩ := runs_bumpAs.mp h
    rw [State.advance_ahead_length]
    change s.ahead.length - 1 < n
    omega

/-- A bounded state that is not at the end is ready to be read from. -/
theorem State.Bounded.ready (h : s.Bounded source (n + 1)) (hk : s.current.kind ≠ .endOfFile) :
    s.Ready source n := .inr ⟨h, decide_eq_false hk⟩

/-- Productions that keep the bound build below it in order. -/
theorem ordersBelow (hr : rec.Sound) (hrec : ∀ nt, Keeps (State.Bounded source n) (rec nt)) :
    OrdersBelow source n rec where
  toPersists := bounded_persists source n
  sound := hr
  first := .look fun k => State.Ready.leaf k
  ready_of_amid _ hs := .inl hs.1
  recur := hrec
  blank_of_amid _ hs := hs.1
  named := ((bounded_persists source n).bumpName.bind fun _ => bounded_bump).of_imp fun _ hs => hs.1
  typed := (hrec _).mono fun _ _ hs => ⟨hs, fun _ => hs⟩
  untyped := ((bounded_persists source n).unknownToken bounded_bump).forget

/-- What is made of an operand keeps what is promised of operands. -/
theorem promise_of_isOperand (h : s.forest.IsOperand id) : Nonterminal.prefixed.Promise (some id) s := by
  refine ⟨fun hn => ?_, fun x hx => ?_⟩
  · cases hn
  · exact Option.mem_some_iff.mp hx ▸ h

/-- A node that is an operand promises what is asked of one. -/
theorem meets_of_operand {P : State → Prop} {p : Parser NodeId}
    (hp : Leads P p (Operand (State.Bounded source m))) (hm : m ≤ n) (hs : P s)
    (hr : Runs (some <$> p) s o s') : s'.Bounded source n ∧ Nonterminal.prefixed.Promise o s' := by
  obtain ⟨id, hid, rfl⟩ := runs_map.mp hr
  obtain ⟨hb, hop⟩ := hp hs hid
  exact ⟨hb.mono hm, promise_of_isOperand hop⟩

/-- The first step takes a sign or a word, or is the last. -/
theorem modifierStep_begun (h : OrdersBelow source n rec) (hs : s.Bounded source (n + 1))
    (x : Array NodeId × List Modifier) :
    Leads (s.Begun source n x) (modifierStep rec x) fun r => s.Begun source n r.value := by
  -- Once a token has been taken, any step will do. Before that, the step starts where the modifiers do.
  rintro t r t' (ht | ⟨rfl, hx⟩) hr
  · exact .inl (h.modifierStep x ht hr)
  · unfold modifierStep at hr
    obtain ⟨hat, hr⟩ | ⟨-, hr⟩ := runs_ite.mp (runs_bind_isAt.mp hr)
    · obtain ⟨use, t₁, hu, hr⟩ := runs_bind.mp hr
      obtain ⟨rfl, rfl⟩ := runs_pure.mp hr
      exact .inl (h.annotationUse (hs.ready (by simp_all)) hu)
    · obtain ⟨hat, hr⟩ | ⟨-, hr⟩ := runs_ite.mp (runs_bind_isAtModifier.mp hr)
      · obtain ⟨word, t₁, hb, hr⟩ := runs_bind.mp (runs_bind_get.mp hr)
        obtain ⟨rfl, rfl⟩ := runs_pure.mp hr
        refine .inl (h.first (hs.ready fun hk => ?_) hb)
        simp [State.tokens, isModifierAhead, hk, TokenKind.isModifier, isIdentifierModifier] at hat
      · obtain ⟨rfl, rfl⟩ := runs_pure.mp hr
        exact .inr ⟨rfl, hx⟩

/-- Modifiers and annotations take a token, or there are none. -/
theorem modifiers_bounded (h : OrdersBelow source n rec) (hs : s.Bounded source (n + 1)) :
    Leads (· = s) (modifiers rec cs) fun _ t => t.Bounded source n ∨ t = s := by
  rintro t ⟨cs', found⟩ t' rfl hr
  unfold modifiers at hr
  obtain ⟨⟨list, found⟩, t₁, hl, hr⟩ := runs_bind.mp (runs_bind_place.mp hr)
  have hlist : t.Begun source n (list, found) t₁ :=
    Leads.repeating (modifierStep_begun h hs) _ (.inr ⟨rfl, rfl⟩) hl
  obtain ⟨-, hr⟩ | ⟨hne, hr⟩ := runs_ite.mp hr
  · obtain ⟨-, rfl⟩ := runs_pure.mp hr
    exact hlist.imp_right And.left
  · obtain ⟨made, t₂, hn, hr⟩ := runs_bind.mp hr
    obtain ⟨-, rfl⟩ := runs_pure.mp hr
    -- A list that is not empty has taken a token.
    rcases hlist with hlist | ⟨-, he⟩
    · exact .inl (h.node _ _ _ _ rfl hlist hn)
    · exact absurd (Array.isEmpty_iff.mpr he) hne

/-- Every token that an accessor takes leaves fewer ahead, whatever it is. -/
theorem keepsAccessors_bounded (h : OrdersBelow source n rec) :
    KeepsAccessors (State.Bounded source n) rec :=
  (h.accessor (h.modifiers _) bounded_bump).of_imp fun _ hs => hs.1

/-- Declarations are operands, whatever they hold. -/
theorem declaration_meets (h : OrdersBelow source n rec) :
    Meets source (n + 1) (declaration rec) .declaration := by
  intro s o s' hs hr
  unfold declaration at hr
  obtain ⟨⟨cs, found⟩, t, hm, hr⟩ := runs_bind.mp (runs_bind_place.mp hr)
  -- Where there are no modifiers, the keyword is the first token of the declaration.
  have ht : t.Bounded source n ∨ t = s := modifiers_bounded h hs rfl hm
  have hthere (hk : t.current.kind ≠ .endOfFile) : t.Ready source n := by
    rcases ht with ht | rfl
    · exact .inl ht
    · exact hs.ready hk
  have hmade {p : Parser NodeId} (hk : t.current.kind ≠ .endOfFile)
      (hp : Leads (State.Ready source n) p (Operand (State.Bounded source n)))
      (hr : Runs (some <$> p) t o s') :
      s'.Bounded source (n + 1) ∧ Nonterminal.declaration.Promise o s' :=
    (meets_of_operand hp n.le_succ (hthere hk) hr).imp_right And.right
  have hr := runs_bind_kind.mp hr
  split at hr
  iterate 2
    · exact hmade (by simp_all) (h.classDeclaration _ _ _) hr
  · exact hmade (by simp_all) (h.objectDeclaration _ _ _) hr
  · exact hmade (by simp_all) (h.functionDeclaration _ _ _) hr
  iterate 2
    · exact hmade (by simp_all) (h.propertyDeclaration (keepsAccessors_bounded h) _ _ _) hr
  · exact hmade (by simp_all) (h.secondaryConstructor _ _ _) hr
  · obtain ⟨hinit, hr⟩ | ⟨-, hr⟩ := runs_ite.mp (runs_bind_peek.mp hr)
    · obtain ⟨hk, hnext⟩ : t.current.kind = .initKeyword ∧ t.nextKind = .openBrace := by
        simpa using hinit
      have hinitializer := (h.initializer s.current.place cs).of_imp
        fun u (hu : u = t) => ⟨hu ▸ hthere (by simp [hk]), hu ▸ hnext⟩
      exact (meets_of_operand hinitializer n.le_succ rfl hr).imp_right And.right
    · have htop : t.Bounded source (n + 1) := ht.elim State.Bounded.succ fun he => he ▸ hs
      obtain ⟨-, hr⟩ | ⟨-, hr⟩ := runs_ite.mp hr
      · obtain ⟨rfl, rfl⟩ := runs_pure.mp hr
        exact ⟨htop, fun x hx => (Option.not_mem_none x hx).elim⟩
      · have hstray := (bounded_persists source (n + 1)).strayModifiers
        exact (meets_of_operand (hstray _ _) le_rfl htop hr).imp_right And.right

/-- A name takes a token at least, so what follows is bounded by one less. -/
theorem nameChain_bounded {limit : Option Nat} {allowStar : Bool} :
    Leads (fun s : State => s.Bounded source (n + 1) ∧ s.current.kind.isName = true)
      (nameChain limit allowStar) fun _ => State.Bounded source n := by
  rintro s x s' ⟨hs, hname⟩ hr
  have hI := bounded_persists source n
  unfold nameChain at hr
  obtain ⟨first, t, hf, hr⟩ := runs_bind.mp (runs_bind_place.mp hr)
  -- The first name is a token that is taken before all else.
  have ht : t.Bounded source n := by
    obtain ⟨word, -, hb⟩ := bumpName_of_isName hname hf
    have hk : s.current.kind ≠ .endOfFile := fun hk => by
      rw [hk] at hname
      cases hname
    exact State.Ready.leaf _ (hs.ready hk) hb
  cases first with
  | none =>
    obtain ⟨-, rfl⟩ := runs_pure.mp hr
    exact ht
  | some first =>
    obtain ⟨chain, t₁, hc, hr⟩ := runs_bind.mp hr
    obtain ⟨-, rfl⟩ := runs_pure.mp hr
    exact Keeps.repeating (hI.nameChainStep _ _ _) _ ht hc

theorem namedType_bounded (h : OrdersBelow source n rec)
    (limit : Option Nat) :
    Leads (fun s : State => s.Bounded source (n + 1) ∧ s.current.kind.isName = true)
      (namedType rec limit start cs) fun _ => State.Bounded source n :=
  h.namedType limit start cs nameChain_bounded

theorem typeAfterAnnotations_bounded (h : OrdersBelow source n rec)
    (limit : Option Nat) :
    Keeps (State.Bounded source (n + 1)) (typeAfterAnnotations rec limit start cs) := by
  have hI := bounded_persists source (n + 1)
  -- A name or a parenthesis is taken before the types inside are reached.
  have hrest (cs : Array NodeId) : Keeps (State.Bounded source (n + 1)) (do
      if ← isAt .openParen then finishType start (← functionTypeRest rec cs) none #[]
      else if ← isAtName then namedType rec limit start cs
      else return none) := by
    intro s o s' hs hr
    obtain ⟨hat, hr⟩ | ⟨-, hr⟩ := runs_ite.mp (runs_bind_isAt.mp hr)
    · obtain ⟨cs', t, hf, hr⟩ := runs_bind.mp hr
      have hk : s.current.kind ≠ .endOfFile := by simp_all
      exact (h.finishType _ _ _ _ (h.functionTypeRest _ (hs.ready hk) hf) hr).succ
    · obtain ⟨hname, hr⟩ | ⟨-, hr⟩ := runs_ite.mp (runs_bind_isAtName.mp hr)
      · exact (namedType_bounded h limit ⟨hs, hname⟩ hr).succ
      · obtain ⟨rfl, rfl⟩ := runs_pure.mp hr
        exact hs
  refine .look fun atSuspend => .look fun next => .ite ?_ ?_
  · exact bounded_bump.bind fun word => .bind (.pure _) hrest
  · exact .bind (.pure _) hrest

theorem typeReference_meets (h : OrdersBelow source n rec)
    (limit : Option Nat) :
    Meets source (n + 1) (typeReference rec limit) (.typeReference limit) := by
  have hI := bounded_persists source (n + 1)
  have hkeeps : Keeps (State.Bounded source (n + 1)) (typeReference rec limit) := by
    refine .look fun start => .nested (hI.unknown.forget) (I := State.Bounded source (n + 1)) ?_
      (fun _ _ hs => hI.context _ _ _ _ hs) (fun _ _ _ hs => hI.context _ _ _ _ hs)
    have hmodifiers : Keeps (State.Bounded source (n + 1)) (modifiers rec #[]) := fun s x s' hs hr =>
      (modifiers_bounded h hs rfl hr).elim State.Bounded.succ fun he => he ▸ hs
    refine .look fun atSign => .ite ?_ ?_
    · refine hmodifiers.bind fun found => .bind (.pure _) fun cs => ?_
      exact typeAfterAnnotations_bounded h limit
    · exact .bind (.pure _) fun cs => typeAfterAnnotations_bounded h limit
  exact fun s o s' hs hr => ⟨hkeeps hs hr, trivial⟩

/-- A primary expression is an operand. Where none starts, there is no operator either. -/
theorem primary_meets (h : OrdersBelow source n rec) (hr : rec.Sound)
    (hd : Meets source (n + 1) (rec .declaration) .declaration) :
    Meets source (n + 1) (primary rec) .prefixed := by
  have hI := bounded_persists source (n + 1)
  intro s o s' hs hrun
  unfold primary at hrun
  have hrun := runs_bind_kind.mp (runs_bind_place.mp hrun)
  -- A case for each kind of token, in the order of the production.
  split at hrun
  iterate 7
    · exact meets_of_operand hI.operand_bump le_rfl ⟨hs, by simp_all⟩ hrun
  · exact meets_of_operand hI.thisExpression le_rfl ⟨hs, by simp_all⟩ hrun
  · exact meets_of_operand h.superExpression n.le_succ (hs.ready (by simp_all)) hrun
  · exact meets_of_operand h.parenthesized n.le_succ (hs.ready (by simp_all)) hrun
  · exact meets_of_operand h.lambda n.le_succ (hs.ready (by simp_all)) hrun
  · exact meets_of_operand h.ifExpression n.le_succ (hs.ready (by simp_all)) hrun
  · exact meets_of_operand h.returnExpression n.le_succ (hs.ready (by simp_all)) hrun
  iterate 3
    · exact meets_of_operand h.jumpExpression n.le_succ (hs.ready (by simp_all)) hrun
  · exact meets_of_operand (hI.callableReference hI.bump _ _) le_rfl ⟨hs, by simp_all⟩ hrun
  · exact meets_of_operand (h.objectDeclaration _ _ _) n.le_succ (hs.ready (by simp_all)) hrun
  · rename_i hk
    obtain ⟨hb, hop⟩ := hd hs hrun
    refine ⟨hb, fun hn => ?_, hop⟩
    subst hn
    -- A declaration that is not there has taken nothing: the keyword is still the current token.
    rw [(hr.declaration hrun).eq_of_none, hk]
    rfl
  iterate 5
    · exact meets_of_operand hI.unknown le_rfl hs hrun
  iterate 8
    · rename_i hk
      obtain ⟨rfl, rfl⟩ := runs_pure.mp hrun
      exact ⟨hs, fun _ => by rw [hk]; rfl, fun x hx => (Option.not_mem_none x hx).elim⟩
  · obtain ⟨-, hrun⟩ | ⟨-, hrun⟩ := runs_ite.mp hrun
    · exact meets_of_operand (hI.operand_leaf (by decide)) le_rfl ⟨hs, ‹_›⟩ hrun
    · exact meets_of_operand h.unknownToken n.le_succ (hs.ready ‹_›) hrun

/-- No primary expression starts at the end of the file. -/
theorem primary_eq_none (hk : s.current.kind = .endOfFile) (hr : Runs (primary rec) s o s') :
    o = none := by
  unfold primary at hr
  have hr := runs_bind_kind.mp (runs_bind_place.mp hr)
  rw [hk] at hr
  exact (runs_pure.mp hr).1.symm

/-- What stands after an operand makes an operand of it. -/
theorem postfixed_meets (h : OrdersBelow source n rec) (hr : rec.Sound)
    (hd : Meets source (n + 1) (rec .declaration) .declaration) :
    Meets source (n + 1) (postfixed rec) .prefixed := by
  intro s o s' hs hrun
  unfold postfixed at hrun
  obtain ⟨first, t, hp, hrun⟩ := runs_bind.mp (runs_bind_place.mp hrun)
  obtain ⟨ht, hpromise⟩ := primary_meets h hr hd hs hp
  cases first with
  | none =>
    obtain ⟨rfl, rfl⟩ := runs_pure.mp hrun
    exact ⟨ht, hpromise⟩
  | some first =>
    -- The first operand has taken a token, so that the operators after it can recur.
    have hend : s.current.isEnd = false := decide_eq_false fun hk => nomatch primary_eq_none hk hp
    have htaken := (primary_yields hr hp).makes.progress hs.ahead hend
    have hfirst : Operand (State.Bounded source n) first t :=
      ⟨⟨ht.ahead, htaken.trans_le (Nat.le_of_lt_succ hs.fewer), ht.ordered⟩, hpromise.2 first rfl⟩
    obtain ⟨id, hid, rfl⟩ := runs_map.mp hrun
    obtain ⟨hb, hop⟩ := Leads.repeating (J := Operand (State.Bounded source n))
      (fun x => h.postfixStep _ x (fun _ hs => hs.1) fun _ _ hs => hs) first hfirst hid
    exact ⟨hb.succ, promise_of_isOperand hop⟩

/-- The depth of nesting is not of interest. -/
theorem State.Ready.depth (h : s.Ready source n) (depth : Nat) :
    State.Ready source n { s with depth } :=
  h.imp (fun hs => (bounded_persists _ _).context _ _ _ _ hs) fun ⟨hs, hend⟩ =>
    ⟨(bounded_persists _ _).context _ _ _ _ hs, hend⟩

/-- An operator before its operand makes an operand of both, which is in order. -/
theorem prefixed_meets (h : OrdersBelow source n rec) (hr : rec.Sound)
    (hd : Meets source (n + 1) (rec .declaration) .declaration) :
    Meets source (n + 1) (prefixed rec) .prefixed := by
  have hI := bounded_persists source (n + 1)
  intro s o s' hs hrun
  unfold prefixed at hrun
  obtain ⟨hop, hrun⟩ | ⟨-, hrun⟩ := runs_ite.mp (runs_bind_kind.mp hrun)
  · have hk : s.current.kind ≠ .endOfFile := fun hk => by
      rw [hk] at hop
      cases hop
    -- The operand is parsed one level deeper; too deep, the rest is kept as it is, which is an operand
    -- too.
    refine Leads.nested (P := (· = s)) (I := State.Ready source n) (Q := fun o t =>
      t.Bounded source (n + 1) ∧ Nonterminal.prefixed.Promise o t) ?_ ?_ ?_ ?_ rfl hrun
    · rintro t id t' rfl hu
      obtain ⟨hb, hmade⟩ := hI.unknown hs hu
      exact ⟨hb, promise_of_isOperand hmade⟩
    · refine .look fun start => h.first.bind fun token => (h.recur .prefixed).bind fun operand => ?_
      refine (h.operand rfl _ _ _).bind fun id => .yield fun t ht => ?_
      exact ⟨ht.1.succ, promise_of_isOperand ht.2⟩
    · rintro t depth rfl
      exact (hs.ready hk).depth depth
    · exact fun o t depth ⟨hb, hpromise⟩ => ⟨hI.context _ _ _ _ hb, hpromise⟩
  · exact postfixed_meets h hr hd hs hrun

theorem castStep_bounded (h : OrdersBelow source n rec) :
    Leads (Operand (State.Bounded source (n + 1)) left) (castStep rec start left) fun r =>
      Operand (State.Bounded source (n + 1)) r.value := by
  rintro s r s' ⟨hs, hleft⟩ hr
  unfold castStep at hr
  obtain ⟨hcast, hr⟩ | ⟨-, hr⟩ := runs_ite.mp (runs_bind_startsLine.mp (runs_bind_kind.mp hr))
  · have hk : s.current.kind ≠ .endOfFile := fun hk => by simp [hk] at hcast
    obtain ⟨token, t, hb, hr⟩ := runs_bind.mp hr
    obtain ⟨type, t₁, ht, hr⟩ := runs_bind.mp hr
    obtain ⟨id, hn, rfl⟩ := runs_map.mp hr
    obtain ⟨hb, hop⟩ := h.operand rfl _ _ _ (h.recur _ (h.first (hs.ready hk) hb) ht) hn
    exact ⟨hb.succ, hop⟩
  · obtain ⟨rfl, rfl⟩ := runs_pure.mp hr
    exact ⟨hs, hleft⟩

theorem operand_meets (h : OrdersBelow source n rec)
    (hp : Meets source (n + 1) (rec .prefixed) .prefixed) :
    Meets source (n + 1) (operand rec) .prefixed := by
  intro s o s' hs hrun
  unfold operand at hrun
  obtain ⟨first, t, hfirst, hrun⟩ := runs_bind.mp (runs_bind_place.mp hrun)
  obtain ⟨ht, hpromise⟩ := hp hs hfirst
  cases first with
  | none =>
    obtain ⟨rfl, rfl⟩ := runs_pure.mp hrun
    exact ⟨ht, hpromise⟩
  | some first =>
    obtain ⟨id, hid, rfl⟩ := runs_map.mp hrun
    obtain ⟨hb, hop⟩ := Leads.repeating (J := Operand (State.Bounded source (n + 1)))
      (fun x => castStep_bounded h) first ⟨ht, hpromise.2 first rfl⟩ hid
    exact ⟨hb, promise_of_isOperand hop⟩

theorem Builds.grows {ps : List Piece} (h : Builds s ps s') : s.forest.Grows s'.forest :=
  ⟨fun _ _ hn => by
    obtain ⟨m, hm, hkind, hchildren, hdata, -⟩ := h.kept hn
    exact ⟨m, hm, hkind, hchildren, hdata⟩⟩

theorem Makes.grows (h : Makes s id s') : s.forest.Grows s'.forest := by
  obtain ⟨q, -, hb⟩ := h
  exact hb.grows

/-- An operation whose sides are in order keeps the bound. -/
theorem State.Bounded.operation (h : s.Bounded source n) {k : NodeKind} {data : NodeData}
    (hn : Runs (node k start cs data) s id s') (hb : s'.forest.OrderedAt id) : s'.Bounded source n := by
  obtain ⟨rfl, rfl⟩ := runs_node.mp hn
  exact ⟨h.ahead, h.fewer, h.ordered.addNode fun _ => hb⟩

/-- What has been joined so far, as the left side of what may follow. -/
structure State.Climbs (source : String) (n m : Nat) (s : State) (left : NodeId) : Prop where
  bounded : s.Bounded source n
  tight : s.forest.Tight m left
  fits : s.Fits left

/-- The end of the file is no operator. -/
theorem ne_endOfFile_of_precedence? {k : TokenKind} {p : Nat} (hp : precedence? k = some p) :
    k ≠ .endOfFile := by
  rintro rfl
  cases hp

section
variable {t t₁ : State} {token : NodeId}

/-- Anything may follow the test of a type. -/
theorem climbs_test (h : OrdersBelow source n rec) (hr : rec.Sound)
    (hs : s.Climbs source (n + 1) m left) (hp : precedence? s.current.kind = some namedCheck)
    (hleft : s.forest.LeftOf namedCheck left) (hm : m ≤ namedCheck) (hb : Runs bump s token t)
    (ht : Runs (rec (.typeReference none)) t o t₁) {k : TokenKind}
    (hn : Runs (node .isExpression start (among [some left, some token, o])
      (.typeOperation { expression := left, operator := k, typeRef := o })) t₁ id s') :
    s'.Climbs source (n + 1) m id ∧ s'.ahead.length < s.ahead.length := by
  have hk := ne_endOfFile_of_precedence? hp
  have htaken := (bump_makes hb).progress hs.bounded.ahead (decide_eq_false hk)
  obtain ⟨_, -, hbuilds⟩ := hr.type ht
  have hgrows := (bump_makes hb).grows.trans (hbuilds.grows.trans (runs_node_grows hn))
  have hbounded := (h.recur _ (h.first (hs.bounded.ready hk) hb) ht).succ
  obtain ⟨htests, hsame⟩ :
      s'.forest.Tests id left (among [some token, o]) ∧ s'.ahead = t₁.ahead := by
    obtain ⟨rfl, rfl⟩ := runs_node.mp hn
    refine ⟨⟨Forest.kind?_addNode .., ⟨_, Forest.data_addNode .., rfl⟩, ?_⟩, rfl⟩
    rw [append_among]
    exact (Forest.children_addNode ..).trans (among_eq _)
  refine ⟨⟨?_, .test htests hm (hs.tight.grows hgrows), fun _ _ _ => .test htests⟩, ?_⟩
  · exact hbounded.operation hn (.test htests (hleft.grows hgrows))
  · exact hsame ▸ hbuilds.ahead_length_le.trans_lt htaken

/-- An operator that binds more tightly would have been taken with the right side. -/
theorem climbs_join (h : OrdersBelow source n rec) (hr : rec.Sound)
    {p : Nat} (hbinary : Meets source n (rec (.binary (p + 1))) (.binary (p + 1)))
    (hs : s.Climbs source (n + 1) m left) (hp : precedence? s.current.kind = some p)
    (hleft : s.forest.LeftOf p left) (hm : m ≤ p) (hb : Runs bump s token t)
    (ht : Runs (rec (.binary (p + 1))) t o t₁)
    (hn : Runs (node (if s.current.kind = .questionColon then .elvisExpression else .binaryExpression)
      start (among [some left, some token, o])
      (.binary { left, operator := s.current.kind, operatorToken := token, right := o })) t₁ id s') :
    s'.Climbs source (n + 1) m id ∧ s'.ahead.length < s.ahead.length := by
  have hk := ne_endOfFile_of_precedence? hp
  have htaken := (bump_makes hb).progress hs.bounded.ahead (decide_eq_false hk)
  obtain ⟨_, -, hbuilds⟩ := (hr.binary ht).ifAny
  have hgrows := (bump_makes hb).grows.trans (hbuilds.grows.trans (runs_node_grows hn))
  -- The right side starts after the operator, with fewer tokens ahead.
  obtain ⟨hbounded, hstops, hright⟩ := hbinary (h.first (hs.bounded.ready hk) hb) ht
  obtain ⟨hjoins, hcurrent, hahead⟩ : s'.forest.Joins id ⟨left, s.current.kind, token, o⟩ p ∧
      s'.current = t₁.current ∧ s'.ahead = t₁.ahead := by
    obtain ⟨rfl, rfl⟩ := runs_node.mp hn
    exact ⟨⟨Forest.kind?_addNode .., Forest.data_addNode .., Forest.children_addNode .., hp⟩, rfl, rfl⟩
  refine ⟨⟨hbounded.succ.operation hn ?_, ?_, fun q hq hline => ?_⟩, ?_⟩
  · exact .join hjoins (hleft.grows hgrows) fun r hr => (hright r hr).grows (runs_node_grows hn)
  · exact .join hjoins hm (hs.tight.grows hgrows)
  · -- The right side stopped at this operator, so that it binds no more tightly.
    refine .join hjoins (Nat.le_of_not_lt fun hlt => ?_)
    rw [hcurrent] at hq hline
    obtain ⟨hstarts, hcontinues⟩ := hstops q hq hlt
    exact Bool.false_ne_true (hcontinues.symm.trans (hline hstarts))
  · exact hahead ▸ hbuilds.ahead_length_le.trans_lt htaken

end

/-- An operator is taken if it binds tightly enough and goes on with the expression. -/
theorem binaryStep_leaves (h : OrdersBelow source n rec)
    (hr : rec.Sound) (hb : ∀ p, Meets source n (rec (.binary p)) (.binary p)) {r : Step NodeId}
    (hs : s.Climbs source (n + 1) m left) (hrun : Runs (binaryStep rec m start left) s r s') :
    r.Leaves (fun x => s'.Climbs source (n + 1) m x ∧ s'.ahead.length < s.ahead.length)
      fun x => s'.Bounded source (n + 1) ∧ s'.Stops m ∧ s'.forest.Tight m x := by
  unfold binaryStep at hrun
  have hrun := runs_bind_kind.mp hrun
  split at hrun
  · rename_i hnone
    obtain ⟨rfl, rfl⟩ := runs_pure.mp hrun
    refine ⟨hs.bounded, fun q hq => ?_, hs.tight⟩
    rw [hnone] at hq
    cases hq
  · rename_i p hp
    obtain ⟨hstop, hrun⟩ | ⟨hgo, hrun⟩ := runs_ite.mp (runs_bind_startsLine.mp hrun)
    · obtain ⟨rfl, rfl⟩ := runs_pure.mp hrun
      refine ⟨hs.bounded, fun q hq hm => ?_, hs.tight⟩
      obtain rfl : p = q := Option.some.inj (hp.symm.trans hq)
      simp only [Bool.or_eq_true, decide_eq_true_eq, Bool.and_eq_true, Bool.not_eq_true'] at hstop
      exact hstop.resolve_left hm.not_gt
    · simp only [Bool.or_eq_true, decide_eq_true_eq, Bool.and_eq_true, Bool.not_eq_true', not_or,
        not_lt, not_and, Bool.not_eq_false] at hgo
      obtain ⟨hm, hline⟩ := hgo
      -- The operator goes on with the expression, so that it fits what has been joined so far.
      have hleft : s.forest.LeftOf p left := hs.fits p hp hline
      obtain ⟨htest, hrun⟩ | ⟨-, hrun⟩ := runs_ite.mp hrun
      · obtain ⟨token, t, ht, hrun⟩ := runs_bind.mp hrun
        obtain ⟨type, t₁, ht₁, hrun⟩ := runs_bind.mp hrun
        obtain ⟨id, hn, rfl⟩ := runs_map.mp hrun
        obtain rfl : p = namedCheck := by
          simp only [Bool.or_eq_true, decide_eq_true_eq] at htest
          exact Option.some.inj (hp.symm.trans (precedence?_of_test htest))
        exact climbs_test h hr hs hp hleft hm ht ht₁ hn
      · obtain ⟨token, t, ht, hrun⟩ := runs_bind.mp hrun
        obtain ⟨right, t₁, ht₁, hrun⟩ := runs_bind.mp hrun
        obtain ⟨id, hn, rfl⟩ := runs_map.mp hrun
        exact climbs_join h hr (hb _) hs hp hleft hm ht ht₁ hn

/-- Operators are taken until none that binds tightly enough goes on with the expression. -/
theorem binary_meets (h : OrdersBelow source n rec) (hr : rec.Sound)
    (hp : Meets source (n + 1) (rec .prefixed) .prefixed)
    (hb : ∀ p, Meets source n (rec (.binary p)) (.binary p)) (m : Nat) :
    Meets source (n + 1) (binary rec m) (.binary m) := by
  intro s o s' hs hrun
  unfold binary at hrun
  obtain ⟨first, t, hfirst, hrun⟩ := runs_bind.mp (runs_bind_place.mp hrun)
  obtain ⟨ht, hnone, hoperand⟩ := operand_meets h hp hs hfirst
  cases first with
  | none =>
    obtain ⟨rfl, rfl⟩ := runs_pure.mp hrun
    refine ⟨ht, fun q hq => ?_, fun x hx => nomatch hx⟩
    rw [hnone rfl] at hq
    cases hq
  | some first =>
    obtain ⟨id, hid, rfl⟩ := runs_map.mp hrun
    have hoperand := hoperand first rfl
    -- Each operator takes a token, which is why the loop ends by itself. An operand alone is tight and fits.
    obtain ⟨hbounded, hstops, htight⟩ := runs_repeating_done
      (I := fun t x => State.Climbs source (n + 1) m t x)
      (Q := fun t x => t.Bounded source (n + 1) ∧ t.Stops m ∧ t.forest.Tight m x)
      (fun _ _ _ _ hx hstep => binaryStep_leaves h hr hb hx hstep)
      ⟨ht, .operand hoperand, fun _ _ _ => .operand hoperand⟩ hid
    exact ⟨hbounded, hstops, fun x hx => Option.mem_some_iff.mp hx ▸ htight⟩

/-- An expression is the climb from the loosest operators, and promises as much. -/
theorem expression_meets (hb : Meets source (n + 1) (rec (.binary 0)) (.binary 0)) :
    Meets source (n + 1) (expression rec) .expression := by
  have hI := bounded_persists source (n + 1)
  have hkeeps : Keeps (State.Bounded source (n + 1)) (expression rec) :=
    Leads.nested hI.unknown.forget (hb.mono fun _ _ hs => hs.1)
      (fun _ _ hs => hI.context _ _ _ _ hs) fun _ _ _ hs => hI.context _ _ _ _ hs
  exact fun s o s' hs hr => ⟨hkeeps hs hr, trivial⟩

/-- A statement promises what a declaration or an expression does. -/
theorem statement_meets (h : OrdersBelow source n rec)
    (hd : Meets source (n + 1) (rec .declaration) .declaration)
    (he : Meets source (n + 1) (rec .expression) .expression) :
    Meets source (n + 1) (statement rec) .statement := by
  intro s o s' hs hr
  refine ⟨?_, trivial⟩
  unfold statement at hr
  obtain ⟨b, hr⟩ := runs_bind_isAtDeclaration hr
  obtain ⟨-, hr⟩ | ⟨-, hr⟩ := runs_ite.mp hr
  · exact (hd hs hr).1
  · unfold assignmentOrExpression at hr
    obtain ⟨target, t, ht, hr⟩ := runs_bind.mp (runs_bind_place.mp hr)
    have hbounded := (he hs ht).1
    cases target with
    -- Without a target, nothing but the expression has been read.
    | none =>
      obtain ⟨-, rfl⟩ := runs_pure.mp hr
      exact hbounded
    | some target =>
      obtain ⟨-, hr⟩ | ⟨hgo, hr⟩ := runs_ite.mp (runs_bind_startsLine.mp (runs_bind_kind.mp hr))
      · obtain ⟨-, rfl⟩ := runs_pure.mp hr
        exact hbounded
      -- An assignment has its operator, a token before the end of the file; what follows is bounded by
      -- one less.
      · have hk : t.current.kind ≠ .endOfFile := fun hk => by
          simp [hk, TokenKind.isAssignmentOperator] at hgo
        obtain ⟨token, t₁, hb, hr⟩ := runs_bind.mp hr
        have hrest : Keeps (State.Bounded source n) (do
            let value ← rec .expression
            return some (← node .assignment s.current.place (among [some target, some token, value])
              (.assignment { target, operator := t.current.kind, value }))) :=
          (h.recur .expression).bind fun value => (h.node _ _ _ _ rfl).bind fun id => .pure _
        exact (hrest (h.first (hbounded.ready hk) hb) hr).succ

/-- How many productions can follow one another before a token is taken. -/
def Nonterminal.rank : Nonterminal → Nat
  | .declaration | .typeReference _ => 0
  | .prefixed => 1
  | .binary _ => 2
  | .expression => 3
  | .statement => 4

theorem Nonterminal.rank_le (nt : Nonterminal) : nt.rank ≤ 4 := by
  cases nt <;> simp [rank]

/-- A production keeps its promise if those do that it recurs through: any after a token has been taken, and
those of a lower rank before. -/
theorem production_meets (hr : rec.Sound) (hbelow : ∀ nt, Meets source n (rec nt) nt)
    {nt : Nonterminal} (hsame : ∀ nt' : Nonterminal, nt'.rank < nt.rank → Meets source (n + 1) (rec nt') nt') :
    Meets source (n + 1) (production rec nt) nt := by
  have h := ordersBelow hr fun nt => (hbelow nt).mono fun _ _ hs => hs.1
  -- A production recurs through another of its rank or of a higher one only after a token has been taken.
  cases nt with
  | declaration => exact declaration_meets h
  | typeReference limit => exact typeReference_meets h limit
  | prefixed => exact prefixed_meets h hr (hsame .declaration (by decide))
  | binary m =>
    exact binary_meets h hr (hsame .prefixed (by decide : 1 < 2)) (fun p => hbelow _) m
  | expression => exact expression_meets (hsame (.binary 0) (by decide))
  | statement => exact statement_meets h (hsame .declaration (by decide)) (hsame .expression (by decide))

/-- Six levels for each token are enough. -/
theorem productions_meet (depth n : Nat) (nt : Nonterminal) (hdepth : 6 * n + nt.rank < depth) :
    Meets source (n + 1) (productions depth nt) nt := by
  induction depth generalizing n nt with
  | zero => exact absurd hdepth (Nat.not_lt_zero _)
  | succ depth ih =>
    refine production_meets (productions_sound depth) (fun nt' s o s' hs hr => ?_) fun nt' hlt => ?_
    · -- There are fewer tokens ahead than before.
      have hrank := nt'.rank_le
      have hfewer := hs.fewer
      obtain ⟨hb, hp⟩ := ih s.ahead.length nt' (by omega) ⟨hs.ahead, Nat.lt_succ_self _, hs.ordered⟩ hr
      exact ⟨hb.mono hfewer, hp⟩
    · exact ih n nt' (by omega)

/-- All operations of a parse are ordered by the precedence of their operators. -/
theorem ofSource_ordered (fileName source : String) :
    (ParsedUnit.ofSource fileName source).forest.Ordered := by
  generalize hstart : State.ofSource fileName source = start
  have hmeet (nt : Nonterminal) :
      Meets source (start.ahead.length + 1) (productions (nestingBound start.tokens.length) nt) nt := by
    -- The bound on nesting counts the tokens of the whole source.
    refine productions_meet _ _ nt ?_
    have hrank := nt.rank_le
    simp only [nestingBound, State.tokens, List.length_cons]
    omega
  have h := ordersBelow (productions_sound _) fun nt => (hmeet nt).mono fun _ _ hs => hs.1
  have hbounded : start.Bounded source (start.ahead.length + 1) := by
    subst hstart
    refine ⟨ahead_ofSource fileName source, Nat.lt_succ_self _, ?_⟩
    rw [forest_ofSource]
    exact Forest.ordered_empty
  have hend : Keeps (State.Bounded source (start.ahead.length + 1)) (sourceFile _) :=
    h.sourceFile (fun _ hs => hs.ahead) fun parts package => (bounded_bump.bind fun last =>
      .look fun s => h.node _ _ _ _ rfl).of_imp fun _ hs => hs.1
  have hend := hend hbounded (runs_self _ start)
  subst hstart
  exact hend.ordered

end

end KotlinTree.Grammar
