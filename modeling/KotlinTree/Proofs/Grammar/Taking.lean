import KotlinTree.Proofs.Grammar.Primitive
import KotlinTree.Proofs.Grammar.Derivation

/-!
Runs that take the tokens of a phrase and leave those after it: single tokens, names, and repetitions.
-/

namespace KotlinTree.Grammar

/-- These tokens are to be read, so deep inside expressions and types. -/
structure State.At (s : State) (ts : List Token) (depth : Nat) : Prop where
  tokens : s.tokens = ts
  depth : s.depth = depth

section
variable {s s' : State} {t u : Token} {ts rest : List Token} {d : Nat} {id : NodeId}
  {o : Option NodeId}

namespace State.At

theorem current (h : s.At (t :: ts) d) : s.current = t := (List.cons.inj h.tokens).1

theorem ahead (h : s.At (t :: ts) d) : s.ahead = ts := (List.cons.inj h.tokens).2

theorem nextKind (h : s.At (t :: u :: ts) d) : s.nextKind = u.kind := by
  rw [State.nextKind, h.ahead]
  rfl

/-- A token is taken, and those after it are left, of which the last stays for good. -/
theorem bumpAs (h : s.At (t :: ts) d) (hne : ts ≠ []) {k : TokenKind}
    (hb : Runs (Grammar.bumpAs k) s id s') : s'.At ts d := by
  obtain ⟨-, rfl⟩ := runs_bumpAs.mp hb
  have hahead := h.ahead
  unfold State.advance
  cases ts with
  | nil => exact absurd rfl hne
  | cons u ts =>
    simp only [hahead]
    exact ⟨rfl, h.depth⟩

theorem bump (h : s.At (t :: ts) d) (hne : ts ≠ []) (hb : Runs Grammar.bump s id s') : s'.At ts d :=
  h.bumpAs hne (runs_bump.mp hb)

theorem bumpName (h : s.At (t :: ts) d) (hne : ts ≠ []) (hname : t.kind.isName = true)
    (hb : Runs Grammar.bumpName s o s') : (∃ id, o = some id) ∧ s'.At ts d := by
  obtain ⟨-, hb⟩ | ⟨hnot, -⟩ := runs_ite.mp (runs_bind_isAtName.mp hb)
  · obtain ⟨id, s₁, htaken, he⟩ := runs_bind.mp hb
    obtain ⟨rfl, rfl⟩ := runs_pure.mp he
    exact ⟨⟨id, rfl⟩, h.bumpAs hne htaken⟩
  · exact absurd (h.current ▸ hname) hnot

theorem eat (h : s.At (t :: ts) d) (hne : ts ≠ []) (hb : Runs (Grammar.eat t.kind) s o s') :
    ∃ id, o = some id ∧ Runs Grammar.bump s id s' ∧ s'.At ts d := by
  obtain ⟨-, hb⟩ | ⟨hnot, -⟩ := runs_ite.mp (runs_bind_isAt.mp hb)
  · obtain ⟨id, s₁, htaken, he⟩ := runs_bind.mp hb
    obtain ⟨rfl, rfl⟩ := runs_pure.mp he
    exact ⟨id, rfl, htaken, h.bump hne htaken⟩
  · exact absurd (decide_eq_true (congrArg Token.kind h.current)) hnot

theorem node (h : s.At ts d) {k : NodeKind} {start : Nat} {cs : Array NodeId} {data : NodeData}
    (hn : Runs (Grammar.node k start cs data) s id s') : s'.At ts d := by
  obtain ⟨-, rfl⟩ := runs_node.mp hn
  exact ⟨h.tokens, h.depth⟩

/-- One level deeper, the same tokens are to be read, and what is left there is left. -/
theorem of_nested (h : s.At ts d) (hd : d < maxDepth) {p : Parser (Option NodeId)}
    (hn : Runs (Grammar.nested p) s o s') :
    ∃ s₁ s₂, s₁.At ts (d + 1) ∧ Runs p s₁ o s₂ ∧ ∀ us, s₂.At us (d + 1) → s'.At us d := by
  have hdepth : ¬ s.depth ≥ maxDepth := h.depth ▸ Nat.not_le_of_lt hd
  obtain ⟨hdeep, -⟩ | ⟨-, hn⟩ := runs_ite.mp (runs_bind_get.mp hn)
  · exact absurd hdeep hdepth
  · obtain ⟨⟨⟩, s₁, hset, hn⟩ := runs_bind.mp hn
    obtain ⟨found, s₂, hrun, hn⟩ := runs_bind.mp hn
    obtain ⟨⟨⟩, s₃, hreset, hn⟩ := runs_bind.mp hn
    obtain ⟨rfl, rfl⟩ := runs_pure.mp hn
    rw [runs_modify] at hset hreset
    refine ⟨s₁, s₂, hset ▸ ⟨h.tokens, congrArg (· + 1) h.depth⟩, hrun, fun us hleft => ?_⟩
    exact hreset ▸ ⟨hleft.tokens, congrArg (· - 1) hleft.depth⟩

/-- One level deeper, there is room for one level less. -/
theorem nested (h : s.At ts d) (hd : d < maxDepth) {p : Parser (Option NodeId)} {Q : Prop}
    (hp : ∀ s₁ s₂, s₁.At ts (d + 1) → Runs p s₁ o s₂ → Q ∧ s₂.At rest (d + 1))
    (hn : Runs (Grammar.nested p) s o s') : Q ∧ s'.At rest d := by
  obtain ⟨s₁, s₂, hs₁, hrun, hback⟩ := h.of_nested hd hn
  exact (hp s₁ s₂ hs₁ hrun).imp_right (hback rest)

end State.At

end

section
variable {σ : Type} {step : σ → Parser (Step σ)} {s s' : State} {x y : σ} {rest ts : List Token}
  {d : Nat}

/-- A step of a repetition over phrases: it is done in front of the rest, and it goes on with fewer
tokens to the phrases before that. -/
def Takes (step : σ → Parser (Step σ)) (P : List Token → Prop) (rest : List Token) (d : Nat) : Prop :=
  ∀ ⦃ts s x r s'⦄, P ts → s.At (ts ++ rest) d → Runs (step x) s r s' →
    (ts = [] ∧ (∃ y, r = .done y) ∧ s'.At rest d) ∨
      ∃ ts', P ts' ∧ ts'.length < ts.length ∧ (∃ y, r = .more y) ∧ s'.At (ts' ++ rest) d

theorem runs_repeatUpTo_takes {P : List Token → Prop} {n : Nat} (hstep : Takes step P rest d)
    (hP : P ts) (hn : ts.length < n) (hs : s.At (ts ++ rest) d)
    (h : Runs (repeatUpTo step n x) s y s') : s'.At rest d := by
  -- There are always more steps left than tokens of the phrases.
  induction n generalizing ts s x with
  | zero => exact absurd hn (Nat.not_lt_zero _)
  | succ n ih =>
    obtain ⟨r, s₁, hr, h⟩ := runs_bind.mp h
    obtain ⟨rfl, ⟨z, rfl⟩, hleft⟩ | ⟨ts', hP', hlt, ⟨z, rfl⟩, hleft⟩ := hstep hP hs hr
    · obtain ⟨rfl, rfl⟩ := runs_pure.mp h
      exact hleft
    · exact ih hP' (by omega) hleft h

theorem runs_repeating_takes {P : List Token → Prop} (hstep : Takes step P rest d) (hP : P ts)
    (hs : s.At (ts ++ rest) d) (h : Runs (repeating step x) s y s') : s'.At rest d := by
  refine runs_repeatUpTo_takes hstep hP ?_ hs (runs_bind_get.mp h)
  -- The tokens to be read are at least those of the phrases.
  have hlength := congrArg List.length hs.tokens
  rw [State.tokens, List.length_cons, List.length_append] at hlength
  omega

/-- A step that takes a token and goes on. -/
theorem State.At.more {t : Token} {r : Step σ} {f : NodeId → σ} (hs : s.At (t :: ts) d) (hne : ts ≠ [])
    (h : Runs (do return .more (f (← Grammar.bump))) s r s') : (∃ y, r = .more y) ∧ s'.At ts d := by
  obtain ⟨_, s₁, hb, h⟩ := runs_bind.mp h
  obtain ⟨rfl, rfl⟩ := runs_pure.mp h
  exact ⟨⟨_, rfl⟩, hs.bump hne hb⟩

/-- Entries with commas between them. -/
inductive Separated (entry : List Token → Prop) : List Token → Prop
  | nil : Separated entry []
  | comma {comma : Token} {ts : List Token} (h : comma.kind = .comma) (rest : Separated entry ts) :
    Separated entry (comma :: ts)
  | entry {e ts : List Token} (h : entry e) (before : ∀ t ∈ ts.head?, t.kind = .comma)
    (rest : Separated entry ts) : Separated entry (e ++ ts)

/-- A step of a repetition over entries: it is done at what closes them, and takes a comma or an entry
that a comma or the closer comes after. -/
structure TakesEntries (step : σ → Parser (Step σ)) (entry : List Token → Prop) (closer : Token)
    (rest : List Token) (d : Nat) : Prop where
  ends : ∀ ⦃s x r s'⦄, s.At (closer :: rest) d → Runs (step x) s r s' →
    (∃ y, r = .done y) ∧ s' = s
  commas : ∀ ⦃t ts s x r s'⦄, t.kind = .comma → ts ≠ [] → s.At (t :: ts) d →
    Runs (step x) s r s' → (∃ y, r = .more y) ∧ s'.At ts d
  entries : ∀ ⦃e t ts s x r s'⦄, entry e → t.kind = .comma ∨ t = closer → s.At (e ++ t :: ts) d →
    Runs (step x) s r s' → e ≠ [] ∧ (∃ y, r = .more y) ∧ s'.At (t :: ts) d

theorem TakesEntries.takes {entry : List Token → Prop} {closer : Token}
    (h : TakesEntries step entry closer rest d) :
    Takes step (Separated entry) (closer :: rest) d := by
  intro ts s x r s' hts hs hr
  cases hts with
  | nil =>
    obtain ⟨hdone, rfl⟩ := h.ends hs hr
    exact .inl ⟨rfl, hdone, hs⟩
  | @comma comma ts hcomma hts =>
    obtain ⟨hmore, hleft⟩ := h.commas hcomma (by simp) hs hr
    exact .inr ⟨ts, hts, Nat.lt_succ_self _, hmore, hleft⟩
  | @entry e ts he hbefore hts =>
    -- What comes after the entry is a comma, or the closer if there is nothing more.
    obtain ⟨t, after, ht, hsplit⟩ : ∃ t after, (t.kind = .comma ∨ t = closer) ∧
        ts ++ closer :: rest = t :: after := by
      cases ts with
      | nil => exact ⟨closer, rest, .inr rfl, rfl⟩
      | cons t ts => exact ⟨t, ts ++ closer :: rest, .inl (hbefore t rfl), rfl⟩
    rw [List.append_assoc, hsplit] at hs
    obtain ⟨hne, hmore, hleft⟩ := h.entries he ht hs hr
    refine .inr ⟨ts, hts, ?_, hmore, hsplit ▸ hleft⟩
    rw [List.length_append]
    have hpos := List.length_pos_of_ne_nil hne
    omega

end

end KotlinTree.Grammar
