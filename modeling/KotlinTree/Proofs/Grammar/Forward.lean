import KotlinTree.Proofs.Grammar.Keeps.Expression
import KotlinTree.Proofs.Grammar.Placement
import KotlinTree.Proofs.Grammar.Unit

/-!
What comes on in the source. A token before the end of the file has text, so that the current token starts
later once one has been taken. Main statements: all productions keep what has been come to (`carries_since`),
and a step of a repetition comes on if it is put together from parts that do (`ComesOn`).
-/

namespace KotlinTree.Grammar

theorem Productions.Sound.makesIfAny {rec : Productions} (hr : rec.Sound) {nt : Nonterminal}
    {s s' : State} {o : Option NodeId} (h : Runs (rec nt) s o s') : MakesIfAny s o s' := by
  cases nt with
  | typeReference limit => exact hr.type h
  | expression => exact (hr.expression h).ifAny
  | binary p => exact (hr.binary h).ifAny
  | prefixed => exact (hr.prefixed h).ifAny
  | statement => exact (hr.statement h).ifAny
  | declaration => exact (hr.declaration h).ifAny

/-- A property of the tokens ahead that is left when one of them is taken. It holds only of tokens that cut the
rest of a source. -/
structure Stays (source : String) (I : State → Prop) : Prop where
  advance : ∀ s, I s → I s.advance
  tokens : ∀ s t : State, t.tokens = s.tokens → I s → I t
  ahead : ∀ s, I s → Ahead source s.tokens

namespace Stays

variable {source : String} {I : State → Prop}

theorem builds (h : Stays source I) {s s' : State} {ps : List Piece} (hb : Builds s ps s') (hs : I s) :
    I s' := by
  have hall := hb.tokens_induction (P := fun ts => ∀ t : State, t.tokens = ts → I t)
    (fun t ht u hu => h.tokens _ _ hu (h.advance t (ht t rfl))) (fun t ht => h.tokens _ _ ht hs)
  exact hall s' rfl

theorem leaf (h : Stays source I) (k : TokenKind) : Keeps I (bumpAs k) := by
  intro s id s' hs hr
  obtain ⟨-, rfl⟩ := runs_bumpAs.mp hr
  exact h.advance _ (h.tokens s _ rfl hs)

theorem bump (h : Stays source I) : Keeps I bump := .look fun k => h.leaf k

theorem node (h : Stays source I) (k : NodeKind) (start : Nat) (cs : Array NodeId) (data : NodeData) :
    Keeps I (node k start cs data) := by
  intro s id s' hs hr
  obtain ⟨-, rfl⟩ := runs_node.mp hr
  exact h.tokens s _ rfl hs

theorem persists (h : Stays source I) : Persists I where
  leaf k _ := .amid (h.leaf k)
  node k start cs data _ := h.node k start cs data
  change id f _ s _ s' hs hr := by
    obtain rfl := runs_change.mp hr
    exact h.tokens s _ rfl hs
  context s _ _ _ hs := h.tokens s _ rfl hs
  next s hs hnext hend := by
    have hnil : s.ahead = [] := (h.ahead s hs).isEnd_iff.mp (decide_eq_true hend)
    exact hnext (by rw [State.nextKind, hnil]; rfl)

theorem recur (h : Stays source I) {rec : Productions} (hr : rec.Sound) (nt : Nonterminal) :
    Keeps I (rec nt) := by
  intro s o s' hs hrun
  obtain ⟨q, -, hb⟩ := hr.makesIfAny hrun
  exact h.builds hb hs

/-- Such a property lasts through all productions, from where the first token that is taken brings it on. -/
theorem carries (h : Stays source I) {rec : Productions} (hr : rec.Sound) {ready : State → Prop}
    (hfirst : Leads ready Grammar.bump fun _ => I) (hready : ∀ s, Amid I s → ready s) :
    Carries rec ready I I where
  toPersists := h.persists
  sound := hr
  first := hfirst
  ready_of_amid := hready
  recur := h.recur hr
  blank_of_amid _ hs := hs.1
  named := (h.persists.bumpName.bind fun _ => h.bump).of_imp fun _ hs => hs.1
  typed := (h.recur hr _).mono fun _ _ hs => ⟨hs, fun _ => hs⟩
  untyped := (h.persists.unknownToken h.bump).forget

end Stays

/-- The tokens cut the rest of a source from a place on, and fewer than so many come after the current one. -/
structure State.Since (source : String) (place n : Nat) (s : State) : Prop where
  ahead : Ahead source s.tokens
  later : place ≤ s.current.place
  fewer : s.ahead.length < n

/-- A token has been taken, or one can be. -/
def State.Going (source : String) (place n : Nat) (s : State) : Prop :=
  s.Since source (place + 1) n ∨ Amid (State.Since source place (n + 1)) s

section
variable {source : String} {place n : Nat} {rec : Productions} {s s' : State}

theorem since_self (h : Ahead source s.tokens) :
    s.Since source s.current.place (s.ahead.length + 1) :=
  ⟨h, le_rfl, Nat.lt_succ_self _⟩

theorem State.advance_place (h : Ahead source s.tokens) : s.current.place ≤ s.advance.current.place :=
  (Nat.le_add_right _ _).trans h.stop_le_advance

theorem since_stays (source : String) (place n : Nat) : Stays source (State.Since source place n) where
  ahead _ hs := hs.ahead
  advance s hs := by
    have hlength : s.advance.ahead.length ≤ s.ahead.length := by
      unfold State.advance
      cases hahead : s.ahead <;> simp
    exact ⟨hs.ahead.advance, hs.later.trans (State.advance_place hs.ahead), hlength.trans_lt hs.fewer⟩
  tokens s t ht hs := by
    obtain ⟨hcurrent, hahead⟩ := List.cons.inj ht
    refine ⟨ht ▸ hs.ahead, ?_, ?_⟩
    · rw [hcurrent]
      exact hs.later
    · rw [hahead]
      exact hs.fewer

/-- A token before the end of the file has text, so that the next one starts later. -/
theorem since_advance (h : Amid (State.Since source place (n + 1)) s) :
    s.advance.Since source (place + 1) n := by
  obtain ⟨hs, hk⟩ := h
  have hend : s.current.isEnd = false := decide_eq_false hk
  have hplace := hs.later
  have htext := hs.ahead.place_lt_stop hend
  have hnext := hs.ahead.stop_le_advance
  have hfewer := hs.fewer
  have hlength : s.advance.ahead.length + 1 = s.ahead.length := by
    unfold State.advance
    cases hahead : s.ahead with
    | nil =>
      rw [hs.ahead.isEnd_iff.mpr hahead] at hend
      cases hend
    | cons token tokens => simp
  exact ⟨hs.ahead.advance, by omega, by omega⟩

theorem going_bump : Leads (State.Going source place n) bump fun _ => State.Since source (place + 1) n := by
  intro s id s' hs hr
  have hr := runs_bump.mp hr
  rcases hs with hs | hs
  · exact (since_stays source (place + 1) n).leaf _ hs hr
  · obtain ⟨-, rfl⟩ := runs_bumpAs.mp hr
    exact since_advance ⟨(since_stays source place (n + 1)).tokens s _ rfl hs.1, hs.2⟩

/-- All productions come on from where a token has been taken. -/
theorem carries_since (hr : rec.Sound) (source : String) (place n : Nat) :
    Carries rec (State.Going source place n) (State.Since source (place + 1) n)
      (State.Since source (place + 1) n) :=
  (since_stays source (place + 1) n).carries hr going_bump fun _ hs => .inl hs.1

/-- A run before the end of the file comes on, or has come to nothing. -/
theorem Builds.since {ps : List Piece} (h : Builds s ps s') (hs : Amid (State.Since source place (n + 1)) s) :
    s'.Since source (place + 1) n ∨ s'.tokens = s.tokens ∧ ps = [] := by
  have hend : s.current.isEnd = false := decide_eq_false hs.2
  have hpast := h.tokens_induction
    (P := fun ts => ts = s.tokens ∨ ∀ t : State, t.tokens = ts → t.Since source (place + 1) n)
    (fun t ht => .inr fun u hu => ?_) (.inl rfl)
  · rcases hpast with hsame | hsince
    · refine .inr ((h.progress hs.1.ahead hend).resolve_right ?_)
      rw [(List.cons.inj hsame).2]
      exact Nat.lt_irrefl _
    · exact .inl (hsince s' rfl)
  · refine (since_stays source (place + 1) n).tokens _ _ hu ?_
    rcases ht with ht | ht
    · refine since_advance ⟨(since_stays source place (n + 1)).tokens s t ht hs.1, ?_⟩
      rw [(List.cons.inj ht).1]
      exact hs.2
    · exact (since_stays source (place + 1) n).advance t (ht t rfl)

/-- A tree that is made before the end of the file takes a token. -/
theorem Makes.since {id : NodeId} (h : Makes s id s') (hs : Amid (State.Since source place (n + 1)) s) :
    s'.Since source (place + 1) n := by
  obtain ⟨q, -, hb⟩ := h
  obtain hs' | ⟨-, hnil⟩ := hb.since hs
  · exact hs'
  · cases hnil

end

/-- A step is the last one, or has come to a later token and left fewer ahead. -/
def Step.Since {σ : Type} (source : String) (place n : Nat) (r : Step σ) (s : State) : Prop :=
  r.Leaves (fun _ => s.Since source (place + 1) n) fun _ => True

/-- Every step is the last one, or comes to a token that starts later. -/
def ComesOn {σ : Type} (source : String) (step : σ → Parser (Step σ)) : Prop :=
  ∀ place n x, Leads (State.Since source place (n + 1)) (step x) (Step.Since source place n)

section
variable {source : String} {place n : Nat} {rec : Productions} {α σ : Type} {x : σ} {P : State → Prop}
  {T : α → State → Prop}

theorem step_stops : Leads P (pure (Step.done x)) (Step.Since source place n) :=
  .yield fun _ _ => trivial

theorem step_goes : Leads (State.Since source (place + 1) n) (pure (Step.more x)) (Step.Since source place n) :=
  .yield fun _ hs => hs

theorem step_goes_map {p : Parser σ} (h : Leads P p fun _ => State.Since source (place + 1) n) :
    Leads P (Step.more <$> p) (Step.Since source place n) := .map h

theorem since_bump :
    Leads (Amid (State.Since source place (n + 1))) bump fun _ => State.Since source (place + 1) n :=
  going_bump.of_imp fun _ hs => .inr hs

theorem since_makes {p : Parser NodeId} (h : ∀ {s id s'}, Runs p s id s' → Makes s id s') :
    Leads (Amid (State.Since source place (n + 1))) p fun _ => State.Since source (place + 1) n :=
  fun _ _ _ hs hr => (h hr).since hs

/-- A production that yields no node has taken no token. -/
theorem since_yields {p : Parser (Option NodeId)} {f : Option NodeId → Parser α}
    (hp : ∀ {s o s'}, Runs p s o s' → Yields s o s')
    (hsome : ∀ id, Leads (State.Since source (place + 1) n) (f (some id)) T)
    (hnone : Leads (Amid (State.Since source place (n + 1))) (f none) T) :
    Leads (Amid (State.Since source place (n + 1))) (p >>= f) T := by
  intro s b s' hs hr
  obtain ⟨o, t, ho, hrest⟩ := runs_bind.mp hr
  cases o with
  | some id => exact hsome id ((hp ho).makes.since hs) hrest
  | none =>
    obtain rfl := (hp ho).eq_of_none
    exact hnone hs hrest

/-- A step goes on after a token that it asks for. -/
theorem since_eat {k : TokenKind} {f : Option NodeId → Parser α} (hk : k ≠ .endOfFile)
    (hsome : ∀ id, Leads (State.Since source (place + 1) n) (f (some id)) T)
    (hnone : Leads (State.Since source place (n + 1)) (f none) T) :
    Leads (State.Since source place (n + 1)) (eat k >>= f) T := by
  intro s b s' hs hr
  obtain ⟨o, t, ho, hrest⟩ := runs_bind.mp hr
  have hy := eat_yields ho
  cases o with
  | some id =>
    refine hsome id (hy.makes.since ⟨hs, fun hend => ?_⟩) hrest
    unfold eat at ho
    obtain ⟨hat, -⟩ | ⟨-, ho⟩ := runs_ite.mp (runs_bind_isAt.mp ho)
    · exact hk ((of_decide_eq_true hat).symm.trans hend)
    · cases (runs_pure.mp ho).1
  | none =>
    obtain rfl := hy.eq_of_none
    exact hnone hs hrest

theorem going_bumpName : Keeps (State.Going source place n) bumpName := by
  intro s o s' hs hr
  rcases hs with hs | hs
  · exact .inl ((since_stays source (place + 1) n).persists.bumpName hs hr)
  · have hy := bumpName_yields hr
    cases o with
    | some id => exact .inl (hy.makes.since hs)
    | none =>
      obtain rfl := hy.eq_of_none
      exact .inr hs

/-- Where no type comes, its annotations may have been taken. -/
theorem going_type (hr : rec.Sound) {f : Option NodeId → Parser α}
    (hsome : ∀ id, Leads (State.Since source (place + 1) n) (f (some id)) T)
    (hnone : Leads (State.Going source place n) (f none) T) :
    Leads (State.Going source place n) (rec (.typeReference none) >>= f) T := by
  intro s b s' hs hrun
  obtain ⟨o, t, ho, hrest⟩ := runs_bind.mp hrun
  obtain ⟨q, hq, hb⟩ := hr.type ho
  -- A type takes a token, or nothing has been read and there is still one to take.
  have ht : t.Since source (place + 1) n ∨
      Amid (State.Since source place (n + 1)) t ∧ q.toList = [] := by
    rcases hs with hs | hs
    · exact .inl ((since_stays source (place + 1) n).builds hb hs)
    · refine (hb.since hs).imp_right fun hsame => ⟨⟨?_, ?_⟩, hsame.2⟩
      · exact (since_stays source place (n + 1)).tokens _ _ hsame.1 hs.1
      · rw [(List.cons.inj hsame.1).1]
        exact hs.2
  cases q with
  | none =>
    obtain rfl : o = none := hq
    exact hnone (ht.imp_right And.left) hrest
  | some q =>
    obtain rfl : o = some q.root := hq
    refine hsome q.root (ht.resolve_right ?_) hrest
    rintro ⟨-, hnil⟩
    cases hnil

end

end KotlinTree.Grammar
