import KotlinTree.Proofs.Grammar.Enclosed
import KotlinTree.Proofs.Grammar.TypeTaking
import KotlinTree.Proofs.Grammar.Unit
import KotlinTree.Proofs.Token.Partition

/-!
Where the parse of type arguments ends. Main statement: it takes what is between the brackets and the
bracket that closes them, which is where the look-ahead for type arguments ends.
-/

namespace KotlinTree.Grammar

/-- Only names read like the words of function types and variance. -/
def Worded (ts : List Token) : Prop :=
  ∀ t ∈ ts, t.text = "suspend" ∨ t.text = "out" → t.kind.isName = true

/-- These tokens of a source are to be read, so deep inside expressions and types. -/
structure State.Faces (s : State) (ts : List Token) (d : Nat) : Prop extends s.At ts d where
  words : Worded ts

/-- The tokens to be read are between brackets up to one that ends types there. -/
structure State.Inside (s : State) (b : Bracket) (n : Nat) (ts : List Token) (u : Token)
    (rest : List Token) (d : Nat) : Prop where
  faces : s.Faces (ts ++ u :: rest) d
  enclosed : Enclosed b n ts
  ends : b.Ends u.kind

/-- Fewer tokens than these are left between the brackets. -/
def State.Past (s : State) (b : Bracket) (n : Nat) (ts : List Token) (u : Token) (rest : List Token)
    (d : Nat) : Prop :=
  ∃ vs, vs.length < ts.length ∧ s.Inside b n vs u rest d

/-- A token that starts no type, with its annotations or without them. -/
def StartsNoType (k : TokenKind) : Prop := k ≠ .openParen ∧ k ≠ .atSign ∧ k.isName = false

/-- A type is read between brackets, or none starts there and nothing is taken but annotations, which leave
something between the brackets. -/
def ReadType (b : Bracket) (n : Nat) (ts : List Token) (u : Token) (rest : List Token) (d : Nat)
    (o : Option NodeId) (s' : State) : Prop :=
  (∃ id, o = some id) ∧ s'.Past b n ts u rest d ∨
    o = none ∧ ∃ vs, vs.length ≤ ts.length ∧ (ts ≠ [] → vs ≠ []) ∧ s'.Inside b n vs u rest d ∧
      StartsNoType s'.current.kind

/-- A production reads types between brackets: what it leaves is between them still, and it yields one
wherever a type starts. -/
def ReadsTypes (rec : Productions) (n d : Nat) : Prop :=
  ∀ ⦃b ts u rest s o s'⦄, 0 < n → s.Inside b n ts u rest d →
    Runs (rec (.typeReference none)) s o s' → ReadType b n ts u rest d o s'

section
variable {rec : Productions} {b : Bracket} {n d : Nat} {s s' : State} {t u : Token}
  {ts rest : List Token} {o : Option NodeId} {id : NodeId}

theorem Worded.tail (h : Worded (t :: ts)) : Worded ts := fun u hu => h u (List.mem_cons_of_mem t hu)

/-- In a source, only names read like words that are no keywords. -/
theorem worded_of_suffix {source : String} (h : ts <:+ Token.ofSource source) : Worded ts := by
  intro t ht htext
  have hkind : t.kind = .identifier := htext.elim (Token.kind_of_text isPlainWord_suspend (h.mem ht))
    (Token.kind_of_text isPlainWord_out (h.mem ht))
  rw [hkind]
  rfl

namespace State.Faces

theorem bump (h : s.Faces (t :: ts) d) (hne : ts ≠ []) (hb : Runs Grammar.bump s id s') :
    s'.Faces ts d := ⟨h.toAt.bump hne hb, h.words.tail⟩

theorem bumpName (h : s.Faces (t :: ts) d) (hne : ts ≠ []) (hname : t.kind.isName = true)
    (hb : Runs Grammar.bumpName s o s') : (∃ id, o = some id) ∧ s'.Faces ts d :=
  (h.toAt.bumpName hne hname hb).imp_right fun hleft => ⟨hleft, h.words.tail⟩

theorem eat (h : s.Faces (t :: ts) d) (hne : ts ≠ []) (hb : Runs (Grammar.eat t.kind) s o s') :
    s'.Faces ts d := by
  obtain ⟨-, -, -, hleft⟩ := h.toAt.eat hne hb
  exact ⟨hleft, h.words.tail⟩

theorem node (h : s.Faces ts d) {k : NodeKind} {start : Nat} {cs : Array NodeId} {data : NodeData}
    (hn : Runs (Grammar.node k start cs data) s id s') : s'.Faces ts d := ⟨h.toAt.node hn, h.words⟩

/-- A word of function types or of variance is a name. -/
theorem isName (h : s.Faces (t :: ts) d)
    (htext : s.current.text = "suspend" ∨ s.current.text = "out") : s.current.kind.isName = true := by
  rw [h.current] at htext ⊢
  exact h.words t List.mem_cons_self htext

end State.Faces

namespace State.Inside

/-- What is next is either between the brackets or what ends types there. -/
theorem cases_current (h : s.Inside b n ts u rest d) :
    (ts = [] ∧ s.current = u) ∨ ∃ t us, ts = t :: us ∧ s.current = t := by
  cases ts with
  | nil => exact .inl ⟨rfl, h.faces.current⟩
  | cons t us => exact .inr ⟨t, us, rfl, h.faces.current⟩

theorem exists_cons (h : s.Inside b n ts u rest d) (hne : ¬ b.Ends s.current.kind) :
    ∃ t us, ts = t :: us ∧ s.current = t := by
  obtain ⟨rfl, hu⟩ | hcons := h.cases_current
  · exact absurd (hu ▸ h.ends) hne
  · exact hcons

theorem ahead_length (h : s.Inside b n (t :: ts) u rest d) :
    s.ahead.length = ts.length + (u :: rest).length :=
  (congrArg List.length h.faces.ahead).trans List.length_append

/-- A token that stands alone is taken. -/
theorem bump (h : s.Inside b n (t :: ts) u rest d) (ht : t.kind ≠ .openParen ∧ t.kind ≠ .atSign)
    (hnext : t.kind.isName = true → ∀ u ∈ ts.head?, u.kind ≠ .less)
    (hb : Runs Grammar.bump s id s') : s'.Inside b n ts u rest d :=
  ⟨h.faces.bump (by simp) hb, h.enclosed.tail ht hnext, h.ends⟩

theorem bumpName (h : s.Inside b n (t :: ts) u rest d) (ht : t.kind.isName = true)
    (hnext : ∀ u ∈ ts.head?, u.kind ≠ .less) (hb : Runs Grammar.bumpName s o s') :
    (∃ id, o = some id) ∧ s'.Inside b n ts u rest d := by
  obtain ⟨hsome, hleft⟩ := h.faces.bumpName (by simp) ht hb
  exact ⟨hsome, hleft, h.enclosed.tail (TokenKind.ne_of_isName ht).2.1 fun _ => hnext, h.ends⟩

end State.Inside

/-- A token that starts no type is kept alone. -/
theorem unknownToken_inside (hs : s.Inside b n (t :: ts) u rest d) (ht : StartsNoType t.kind)
    (h : Runs unknownToken s id s') : s'.Inside b n ts u rest d := by
  obtain ⟨hopen, hsign, hname⟩ := ht
  obtain ⟨_, s₁, hb, h⟩ := runs_bind.mp (runs_bind_place.mp h)
  obtain ⟨kept, s₂, hn, h⟩ := runs_bind.mp h
  obtain ⟨⟨⟩, s₃, hc, h⟩ := runs_bind.mp h
  obtain ⟨⟨⟩, s₄, hd, h⟩ := runs_bind.mp h
  obtain ⟨-, rfl⟩ := runs_pure.mp h
  have hleft := hs.bump ⟨hopen, hsign⟩ (fun hk => absurd hk (by simp [hname])) hb
  have hnode := hleft.faces.node hn
  obtain rfl := runs_change.mp hc
  obtain rfl := runs_modify.mp hd
  exact ⟨⟨⟨hnode.tokens, hnode.depth⟩, hnode.words⟩, hleft.enclosed, hleft.ends⟩

/-- One entry of a list of types: a type, or a token that starts none. -/
theorem entry_inside {σ : Type} {r : Step σ} {f : NodeId → σ} {g : NodeId → σ}
    (hrec : ReadsTypes rec n d) (hs : s.Inside b n (t :: ts) u rest d)
    (h : Runs (do
      match ← rec (.typeReference none) with
      | some found => return .more (f found)
      | none => return .more (g (← unknownToken))) s r s') :
    s'.Past b n (t :: ts) u rest d ∧ ∃ y, r = .more y := by
  obtain ⟨found, s₁, hr, h⟩ := runs_bind.mp h
  obtain ⟨⟨id, rfl⟩, hleft⟩ | ⟨rfl, vs, hle, hne, hleft, hno⟩ := hrec hs.enclosed.pos hs hr
  · obtain ⟨rfl, rfl⟩ := runs_pure.mp h
    exact ⟨hleft, _, rfl⟩
  · obtain ⟨kept, s₂, hk, h⟩ := runs_bind.mp h
    obtain ⟨rfl, rfl⟩ := runs_pure.mp h
    obtain ⟨v, vs, rfl⟩ := List.exists_cons_of_ne_nil (hne (List.cons_ne_nil t ts))
    rw [hleft.faces.current] at hno
    exact ⟨⟨vs, hle, unknownToken_inside hleft hno hk⟩, _, rfl⟩

/-- Tokens between brackets that are closed by a token of a source. -/
def Between (b : Bracket) (n : Nat) (u : Token) (rest ts : List Token) : Prop :=
  Enclosed b n ts ∧ Worded (ts ++ u :: rest)

theorem State.Past.between (h : s.Past b n ts u rest d) {σ : Type} {r : Step σ}
    (hr : ∃ y, r = .more y) :
    ∃ vs, Between b n u rest vs ∧ vs.length < ts.length ∧ (∃ y, r = .more y) ∧
      s.At (vs ++ u :: rest) d := by
  obtain ⟨vs, hlt, hin⟩ := h
  exact ⟨vs, ⟨hin.enclosed, hin.faces.words⟩, hlt, hr, hin.faces.toAt⟩

/-- A separator is taken by a step of its own. -/
theorem separator_past {σ : Type} {r : Step σ} {f : NodeId → σ} (hs : s.Inside b n (t :: ts) u rest d)
    (hopen : t.kind ≠ .openParen ∧ t.kind ≠ .atSign) (hname : t.kind.isName = false)
    (h : Runs (do return .more (f (← bump))) s r s') :
    s'.Past b n (t :: ts) u rest d ∧ ∃ y, r = .more y := by
  obtain ⟨_, s₁, hb, h⟩ := runs_bind.mp h
  obtain ⟨rfl, rfl⟩ := runs_pure.mp h
  have hleft := hs.bump hopen (fun hk => absurd hk (by simp [hname])) hb
  exact ⟨⟨ts, Nat.lt_succ_self _, hleft⟩, _, rfl⟩

theorem typeArgumentStep_inside (hrec : ReadsTypes rec n d) (hu : u.kind = .greater) :
    Takes (typeArgumentStep rec) (Between .angle n u rest) (u :: rest) d := by
  rintro ts s ⟨children, arguments⟩ r s' ⟨hts, hwords⟩ hs hr
  have hin : s.Inside .angle n ts u rest d := ⟨⟨hs, hwords⟩, hts, .inl hu⟩
  have hr := runs_bind_kind.mp hr
  cases ts with
  | nil =>
    rw [hs.current, hu] at hr
    obtain ⟨rfl, rfl⟩ := runs_pure.mp hr
    exact .inl ⟨rfl, ⟨_, rfl⟩, hs⟩
  | cons t ts =>
    right
    obtain ⟨-, hend, hcloser⟩ := hts.head_ne
    rw [hs.current] at hr
    split at hr
    · rename_i hk
      exact absurd hk hcloser
    · rename_i hk
      exact absurd hk hend
    iterate 2
      · rename_i hk
        obtain ⟨hpast, hmore⟩ := separator_past hin (by simp [hk]) (by rw [hk]; rfl) hr
        exact hpast.between hmore
    · have hr := runs_bind_peek.mp (runs_bind_isAtText.mp hr)
      extract_lets afterVariance at hr
      obtain ⟨hword, hr⟩ | ⟨-, hr⟩ := runs_ite.mp hr
      · -- The variance is taken, and a name comes after it.
        obtain ⟨_, s₁, hb, hr⟩ := runs_bind.mp hr
        simp only [Bool.and_eq_true, Bool.or_eq_true, decide_eq_true_iff] at hword
        obtain ⟨hword, hnext⟩ := hword
        have hopen : t.kind ≠ .openParen ∧ t.kind ≠ .atSign := by
          rcases hword with hk | htext
          · simp [hk]
          · exact hs.current ▸ (TokenKind.ne_of_isName (hin.faces.isName (.inr htext))).2.1
        cases ts with
        | nil =>
          rw [hs.nextKind, hu] at hnext
          cases hnext
        | cons v vs =>
          have hv : v.kind = .identifier := hs.nextKind ▸ hnext
          have hleft := hin.bump hopen (fun _ w hw => Option.mem_some_iff.mp hw ▸ by simp [hv]) hb
          obtain ⟨⟨ws, hlt, hws⟩, hmore⟩ := entry_inside hrec hleft hr
          exact State.Past.between ⟨ws, hlt.trans (Nat.lt_succ_self _), hws⟩ hmore
      · obtain ⟨hpast, hmore⟩ := entry_inside hrec hin hr
        exact hpast.between hmore

/-- Type arguments are taken up to the bracket that closes them. -/
theorem typeArgumentList_faces (hrec : ReadsTypes rec n d) {opening closing : Token}
    {found : NodeId × Array NodeId} (hts : Enclosed .angle n ts) (hclosing : closing.kind = .greater)
    (hne : rest ≠ []) (hs : s.Faces (opening :: (ts ++ closing :: rest)) d)
    (h : Runs (typeArgumentList rec) s found s') : s'.Faces rest d := by
  obtain ⟨_, s₁, ho, h⟩ := runs_bind.mp (runs_bind_place.mp h)
  obtain ⟨⟨children, arguments⟩, s₂, hl, h⟩ := runs_bind.mp h
  obtain ⟨_, s₃, hc, h⟩ := runs_bind.mp h
  obtain ⟨_, s₄, hn, h⟩ := runs_bind.mp h
  obtain ⟨-, rfl⟩ := runs_pure.mp h
  have hinner := hs.bump (by simp) ho
  have hlist := runs_repeating_takes (typeArgumentStep_inside hrec hclosing) ⟨hts, hinner.words⟩
    hinner.toAt hl
  rw [← hclosing] at hc
  have hwords : Worded (closing :: rest) := fun t ht => hinner.words t (List.mem_append_right _ ht)
  exact (State.Faces.eat ⟨hlist, hwords⟩ hne hc).node hn

theorem functionTypeStep_inside (hrec : ReadsTypes rec n d) (hu : u.kind = .closeParen) :
    Takes (functionTypeStep rec) (Between .paren n u rest) (u :: rest) d := by
  rintro ts s children r s' ⟨hts, hwords⟩ hs hr
  have hin : s.Inside .paren n ts u rest d := ⟨⟨hs, hwords⟩, hts, .inl hu⟩
  have hr := runs_bind_kind.mp hr
  cases ts with
  | nil =>
    rw [hs.current, hu] at hr
    obtain ⟨rfl, rfl⟩ := runs_pure.mp hr
    exact .inl ⟨rfl, ⟨_, rfl⟩, hs⟩
  | cons t ts =>
    right
    obtain ⟨-, hend, hcloser⟩ := hts.head_ne
    rw [hs.current] at hr
    split at hr
    · rename_i hk
      exact absurd hk hcloser
    · rename_i hk
      exact absurd hk hend
    · rename_i hk
      obtain ⟨hpast, hmore⟩ := separator_past hin (by simp [hk]) (by rw [hk]; rfl) hr
      exact hpast.between hmore
    · have hr := runs_bind_peek.mp hr
      extract_lets afterName at hr
      obtain ⟨hnamed, hr⟩ | ⟨-, hr⟩ := runs_ite.mp hr
      · -- The name of the parameter and its colon are taken, and something of a type comes after them.
        obtain ⟨_, s₁, hn, hr⟩ := runs_bind.mp hr
        obtain ⟨_, s₂, hc, hr⟩ := runs_bind.mp hr
        simp only [Bool.and_eq_true, decide_eq_true_iff] at hnamed
        obtain ⟨hname, hcolon⟩ := hnamed
        obtain ⟨colon, v, vs, rfl, hk⟩ : ∃ colon v vs, ts = colon :: v :: vs ∧ colon.kind = .colon := by
          cases ts with
          | nil =>
            rw [hs.nextKind, hu] at hcolon
            cases hcolon
          | cons colon vs =>
            have hk : colon.kind = .colon := hs.nextKind ▸ hcolon
            obtain ⟨v, vs, rfl⟩ := List.exists_cons_of_ne_nil (hts.ne_nil_of_colon rfl hname hk)
            exact ⟨colon, v, vs, rfl, hk⟩
        have hnamed := (hin.bumpName hname (fun w hw => Option.mem_some_iff.mp hw ▸ by simp [hk]) hn).2
        have hleft := hnamed.bump (by simp [hk]) (fun h => absurd h (by rw [hk]; decide)) hc
        obtain ⟨⟨ws, hlt, hws⟩, hmore⟩ := entry_inside hrec hleft hr
        refine State.Past.between ⟨ws, hlt.trans ?_, hws⟩ hmore
        exact (Nat.lt_succ_self _).trans (Nat.lt_succ_self _)
      · obtain ⟨hpast, hmore⟩ := entry_inside hrec hin hr
        exact hpast.between hmore

/-- Question marks on the line of a type are taken. -/
theorem finishType_inside {start : Nat} {cs arguments : Array NodeId} {name : Option NodeId}
    (hs : s.Inside b n ts u rest d) (h : Runs (finishType start cs name arguments) s o s') :
    (∃ id, o = some id) ∧ ∃ vs, vs.length ≤ ts.length ∧ s'.Inside b n vs u rest d := by
  obtain ⟨⟨children, isNullable⟩, s₁, hmarks, h⟩ := runs_bind.mp h
  obtain ⟨id, s₂, hn, h⟩ := runs_bind.mp h
  obtain ⟨rfl, rfl⟩ := runs_pure.mp h
  refine ⟨⟨id, rfl⟩, ?_⟩
  -- Each mark is one token between the brackets.
  obtain ⟨vs, hle, hin⟩ : ∃ vs, vs.length ≤ ts.length ∧ s₁.Inside b n vs u rest d := by
    refine runs_repeating_value
      (I := fun t (_ : Array NodeId × Bool) => ∃ vs, vs.length ≤ ts.length ∧ t.Inside b n vs u rest d)
      ?_ ⟨ts, le_rfl, hs⟩ hmarks
    rintro t ⟨children, isNullable⟩ r t' ⟨vs, hle, hin⟩ hr
    obtain ⟨hmark, hr⟩ | ⟨-, hr⟩ := runs_ite.mp (runs_bind_startsLine.mp (runs_bind_isAt.mp hr))
    · simp only [Bool.and_eq_true, decide_eq_true_iff] at hmark
      obtain ⟨_, t₁, hb, hr⟩ := runs_bind.mp hr
      obtain ⟨rfl, rfl⟩ := runs_pure.mp hr
      obtain ⟨mark, ws, rfl, hcurrent⟩ := hin.exists_cons fun he => he.ne.2.2.2.2.1 hmark.1
      rw [hcurrent] at hmark
      refine ⟨ws, (Nat.le_succ _).trans hle, hin.bump (by simp [hmark]) (fun hk => ?_) hb⟩
      rw [hmark.1] at hk
      cases hk
    · obtain ⟨rfl, rfl⟩ := runs_pure.mp hr
      exact ⟨vs, hle, hin⟩
  exact ⟨vs, hle, hin.faces.node hn, hin.enclosed, hin.ends⟩

/-- Parentheses are taken. Whether there is a result is decided by what comes after them. -/
theorem parentheses_faces (hrec : ReadsTypes rec n d) {opening closing : Token} {cs cs' : Array NodeId}
    (hts : Enclosed .paren n ts) (hclosing : closing.kind = .closeParen) (hne : rest ≠ [])
    (hs : s.Faces (opening :: (ts ++ closing :: rest)) d)
    (h : Runs (functionTypeRest rec cs) s cs' s') :
    ∃ s₁ cs₁, s₁.Faces rest d ∧ Runs (if (s₁.current.kind = .arrow : Bool) = true then do
        let arrow ← bump
        return add (cs₁.push arrow) (← rec (.typeReference none))
      else return cs₁) s₁ cs' s' := by
  obtain ⟨_, s₁, ho, h⟩ := runs_bind.mp h
  obtain ⟨children, s₂, hl, h⟩ := runs_bind.mp h
  obtain ⟨_, s₃, hc, h⟩ := runs_bind.mp h
  have hinner := hs.bump (by simp) ho
  have hlist := runs_repeating_takes (functionTypeStep_inside hrec hclosing) ⟨hts, hinner.words⟩
    hinner.toAt hl
  rw [← hclosing] at hc
  have hwords : Worded (closing :: rest) := fun t ht => hinner.words t (List.mem_append_right _ ht)
  exact ⟨s₃, _, State.Faces.eat ⟨hlist, hwords⟩ hne hc, runs_bind_isAt.mp h⟩

/-- A function type, or what is in parentheses, is read up to its question marks. -/
theorem functionTypeRest_inside (hrec : ReadsTypes rec n d) {cs cs' : Array NodeId}
    (hs : s.Inside b (n + 1) (t :: ts) u rest d) (ht : t.kind = .openParen)
    (h : Runs (functionTypeRest rec cs) s cs' s') : s'.Past b (n + 1) (t :: ts) u rest d := by
  obtain ⟨hfaces, henclosed, hends⟩ := hs
  cases henclosed with
  | token hpass _ _ => exact absurd ht (Bracket.ne_of_passes hpass).2.2.1
  | arguments hname _ _ _ _ _ => exact absurd ht (TokenKind.ne_of_isName hname).2.1.1
  | annotated hsign _ _ _ =>
    rw [hsign] at ht
    cases ht
  | @group _ _ opening closing inner ts hopening hinner hclosing harrow hrest =>
    rw [List.cons_append, List.append_assoc, List.cons_append] at hfaces
    obtain ⟨s₁, cs₁, hleft, h⟩ := parentheses_faces hrec hinner hclosing (by simp) hfaces h
    have hin : s₁.Inside b (n + 1) ts u rest d := ⟨hleft, hrest, hends⟩
    obtain ⟨hat, -⟩ | ⟨-, h⟩ := runs_ite.mp h
    · -- No arrow comes after the parentheses.
      obtain ⟨v, vs, rfl, hv⟩ := hin.exists_cons fun he => he.ne.2.2.2.2.2.1 (of_decide_eq_true hat)
      exact absurd (hv ▸ of_decide_eq_true hat) (harrow v rfl)
    · obtain ⟨-, rfl⟩ := runs_pure.mp h
      exact ⟨ts, by simp only [List.length_cons, List.length_append]; omega, hin⟩
  | @function _ n opening closing arrow inner result ts hopening hinner hclosing harrow hresult hcomma
      hrest =>
    rw [List.cons_append, List.append_assoc, List.cons_append, List.cons_append, List.append_assoc]
      at hfaces
    obtain ⟨s₁, cs₁, hleft, h⟩ := parentheses_faces hrec hinner hclosing (by simp) hfaces h
    obtain ⟨-, h⟩ | ⟨hnot, -⟩ := runs_ite.mp h
    · obtain ⟨_, s₂, hb, h⟩ := runs_bind.mp h
      obtain ⟨found, s₃, hr, h⟩ := runs_bind.mp h
      obtain ⟨-, rfl⟩ := runs_pure.mp h
      -- The result ends at the comma after it, or with what is between the brackets.
      obtain ⟨v, more, hv, hsplit⟩ : ∃ v more, b.Ends v.kind ∧ ts ++ u :: rest = v :: more := by
        cases ts with
        | nil => exact ⟨u, rest, hends, rfl⟩
        | cons comma ts => exact ⟨comma, ts ++ u :: rest, .inr (hcomma comma rfl), rfl⟩
      have hfaces := hleft.bump (by simp) hb
      rw [hsplit] at hfaces
      obtain ⟨vs, hle, hin⟩ : ∃ vs, vs.length ≤ result.length ∧ s₃.Inside b (n + 1) vs v more d := by
        obtain ⟨-, vs, hlt, hin⟩ | ⟨-, vs, hle, -, hin, -⟩ :=
          hrec (Nat.succ_pos n) ⟨hfaces, hresult, hv⟩ hr
        · exact ⟨vs, hlt.le, hin⟩
        · exact ⟨vs, hle, hin⟩
      refine ⟨vs ++ ts, ?_, ?_, (hin.enclosed.mono (Nat.le_succ _)).append hrest hcomma, hends⟩
      · simp only [List.length_cons, List.length_append]
        omega
      · rw [List.append_assoc, hsplit]
        exact hin.faces
    · exact absurd (decide_eq_true (hleft.current ▸ harrow)) hnot

/-- A chain of names is read up to what comes after its last name. -/
theorem nameChain_inside {limit : Option Nat} {found : Option NodeId × Array NodeId}
    (hlimit : limit = none) (hs : s.Inside b (n + 1) (t :: ts) u rest d) (ht : t.kind.isName = true)
    (h : Runs (nameChain limit false) s found s') :
    ∃ vs, vs.length ≤ ts.length ∧ AfterName b n vs ∧ s'.Faces (vs ++ u :: rest) d := by
  subst hlimit
  obtain ⟨first, s₁, hfirst, h⟩ := runs_bind.mp (runs_bind_place.mp h)
  obtain ⟨⟨first, rfl⟩, hleft⟩ := hs.faces.bumpName (by simp) ht hfirst
  obtain ⟨⟨left, names, star⟩, s₂, hr, h⟩ := runs_bind.mp h
  obtain ⟨-, rfl⟩ := runs_pure.mp h
  -- What is left is always what may come after a name.
  refine runs_repeating_value (I := fun t (_ : NodeId × Nat × Array NodeId) =>
    ∃ vs, vs.length ≤ ts.length ∧ AfterName b n vs ∧ t.Faces (vs ++ u :: rest) d) ?_
    ⟨ts, le_rfl, hs.enclosed.afterName ht, hleft⟩ hr
  rintro t ⟨left, names, star⟩ r t' ⟨vs, hle, hafter, hfaces⟩ hr
  obtain ⟨hdot, hr⟩ | ⟨-, hr⟩ := runs_ite.mp (runs_bind_isAt.mp hr)
  · have hdot : t.current.kind = .dot := of_decide_eq_true (Bool.and_eq_true_iff.mp hdot).1
    obtain ⟨hnext, hr⟩ | ⟨-, hr⟩ := runs_ite.mp (runs_bind_peek.mp hr)
    · obtain ⟨_, t₁, hb, hr⟩ := runs_bind.mp hr
      obtain ⟨_, t₂, hn, hr⟩ := runs_bind.mp hr
      obtain ⟨_, t₃, ha, hr⟩ := runs_bind.mp hr
      obtain ⟨rfl, rfl⟩ := runs_pure.mp hr
      cases hafter with
      | arguments hopening _ _ _ _ =>
        rw [hfaces.current, hopening] at hdot
        cases hdot
      | other hvs =>
        have hin : t.Inside b (n + 1) vs u rest d := ⟨hfaces, hvs, hs.ends⟩
        obtain ⟨dot, ws, rfl, hcurrent⟩ := hin.exists_cons fun he => he.ne.2.2.2.1 hdot
        have hk : dot.kind = .dot := hcurrent ▸ hdot
        have hpoint := hin.bump (by simp [hk]) (fun hname => by rw [hk] at hname; cases hname) hb
        obtain ⟨name, ws, rfl, hname⟩ := hpoint.exists_cons fun he => by
          rw [← bump_kind hb] at hnext
          exact absurd hnext (by rw [he.ne.2.2.2.2.2.2]; decide)
        have hname : name.kind.isName = true := by rw [← hname, bump_kind hb]; exact hnext
        refine ⟨ws, ?_, hpoint.enclosed.afterName hname, ?_⟩
        · simp only [List.length_cons] at hle
          omega
        · exact (hpoint.faces.bumpName (by simp) hname hn).2.node ha
    · obtain ⟨-, rfl⟩ := runs_pure.mp hr
      exact ⟨vs, hle, hafter, hfaces⟩
  · obtain ⟨-, rfl⟩ := runs_pure.mp hr
    exact ⟨vs, hle, hafter, hfaces⟩

/-- A named type is read with its arguments and its question marks, or as the receiver of a function
type. -/
theorem namedType_inside (hrec : ReadsTypes rec n d) {start : Nat} {cs : Array NodeId}
    (hs : s.Inside b (n + 1) (t :: ts) u rest d) (ht : t.kind.isName = true)
    (h : Runs (namedType rec none start cs) s o s') :
    (∃ id, o = some id) ∧ s'.Past b (n + 1) (t :: ts) u rest d := by
  obtain ⟨⟨chain, star⟩, s₁, hchain, h⟩ := runs_bind.mp h
  have h := runs_bind_startsLine.mp (runs_bind_isAt.mp h)
  extract_lets afterArguments at h
  obtain ⟨vs, hle, hafter, hfaces⟩ := nameChain_inside rfl hs ht hchain
  obtain ⟨s₂, cs₂, arguments, ws, hws, hin, h⟩ : ∃ s₂ cs₂ arguments ws, ws.length ≤ ts.length ∧
      s₂.Inside b (n + 1) ws u rest d ∧ Runs (afterArguments (cs₂, arguments)) s₂ o s' := by
    cases hafter with
    | @arguments opening closing inner ws hopening hline hinner hclosing hws =>
      rw [List.cons_append, List.append_assoc, List.cons_append] at hfaces
      obtain ⟨-, h⟩ | ⟨hnot, -⟩ := runs_ite.mp h
      · obtain ⟨⟨list, found⟩, s₂, hl, h⟩ := runs_bind.mp h
        have hleft := typeArgumentList_faces hrec hinner hclosing (by simp) hfaces hl
        refine ⟨s₂, _, found, ws, ?_, ⟨hleft, hws, hs.ends⟩, h⟩
        simp only [List.length_cons, List.length_append] at hle
        omega
      · simp [hfaces.current, hopening, hline] at hnot
    | other hvs =>
      have hin : s₁.Inside b (n + 1) vs u rest d := ⟨hfaces, hvs, hs.ends⟩
      obtain ⟨hless, -⟩ | ⟨-, h⟩ := runs_ite.mp h
      · -- No bracket is next that is not for type arguments.
        simp only [Bool.and_eq_true, decide_eq_true_iff] at hless
        obtain ⟨v, ws, rfl, hv⟩ := hin.exists_cons fun he => he.ne.1 hless.1
        exact absurd (hv ▸ hless.1) hvs.head_ne.1
      · exact ⟨s₁, _, _, vs, hle, hin, h⟩
  obtain ⟨hdot, h⟩ | ⟨-, h⟩ := runs_ite.mp (runs_bind_peek.mp (runs_bind_isAt.mp h))
  · simp only [Bool.and_eq_true, decide_eq_true_iff] at hdot
    obtain ⟨_, s₃, hb, h⟩ := runs_bind.mp h
    obtain ⟨children, s₄, hf, h⟩ := runs_bind.mp h
    obtain ⟨dot, xs, rfl, hcurrent⟩ := hin.exists_cons fun he => he.ne.2.2.2.1 hdot.1
    have hk : dot.kind = .dot := hcurrent ▸ hdot.1
    have hpoint := hin.bump (by simp [hk]) (fun hname => by rw [hk] at hname; cases hname) hb
    have hparen : s₃.current.kind = .openParen := (bump_kind hb).trans hdot.2
    obtain ⟨v, ys, rfl, hv⟩ := hpoint.exists_cons fun he => he.ne.2.1 hparen
    obtain ⟨zs, hlt, hfunction⟩ := functionTypeRest_inside hrec hpoint (hv ▸ hparen) hf
    obtain ⟨hsome, as, has, hleft⟩ := finishType_inside hfunction h
    refine ⟨hsome, as, ?_, hleft⟩
    simp only [List.length_cons] at hws hlt ⊢
    omega
  · obtain ⟨hsome, xs, hxs, hleft⟩ := finishType_inside hin h
    exact ⟨hsome, xs, Nat.lt_succ_of_le (hxs.trans hws), hleft⟩

theorem typeAfterAnnotations_inside (hrec : ReadsTypes rec n d) {start : Nat} {cs : Array NodeId}
    (hs : s.Inside b (n + 1) ts u rest d) (hsign : s.current.kind ≠ .atSign)
    (h : Runs (typeAfterAnnotations rec none start cs) s o s') : ReadType b (n + 1) ts u rest d o s' := by
  have hfunction {s : State} {t : Token} {ts : List Token} {cs : Array NodeId}
      (hs : s.Inside b (n + 1) (t :: ts) u rest d) (ht : t.kind = .openParen)
      (h : Runs (do finishType start (← functionTypeRest rec cs) none #[]) s o s') :
      (∃ id, o = some id) ∧ s'.Past b (n + 1) (t :: ts) u rest d := by
    obtain ⟨children, s₁, hf, h⟩ := runs_bind.mp h
    obtain ⟨vs, hlt, hin⟩ := functionTypeRest_inside hrec hs ht hf
    obtain ⟨hsome, ws, hle, hleft⟩ := finishType_inside hin h
    exact ⟨hsome, ws, hle.trans_lt hlt, hleft⟩
  have h := runs_bind_peek.mp (runs_bind_isAtText.mp h)
  extract_lets afterSuspend at h
  obtain ⟨hword, h⟩ | ⟨-, h⟩ := runs_ite.mp h
  · -- The word before a function type is a name.
    simp only [Bool.and_eq_true, decide_eq_true_iff] at hword
    obtain ⟨_, s₁, hb, h⟩ := runs_bind.mp h
    have hname : s.current.kind.isName = true := by
      obtain ⟨rfl, -⟩ | ⟨t, us, rfl, -⟩ := hs.cases_current <;> exact hs.faces.isName (.inl hword.1)
    obtain ⟨word, us, rfl, ht⟩ := hs.exists_cons fun he => by
      rw [he.ne.2.2.2.2.2.2] at hname
      cases hname
    obtain ⟨paren, vs, rfl, hparen⟩ : ∃ paren vs, us = paren :: vs ∧ paren.kind = .openParen := by
      cases us with
      | nil => exact absurd (hs.faces.nextKind ▸ hword.2) hs.ends.ne.2.1
      | cons paren vs => exact ⟨paren, vs, rfl, hs.faces.nextKind ▸ hword.2⟩
    have hnext : ∀ v ∈ (paren :: vs).head?, v.kind ≠ .less := fun v hv =>
      Option.mem_some_iff.mp hv ▸ by simp [hparen]
    rw [ht] at hname
    have hleft := hs.bump (TokenKind.ne_of_isName hname).2.1 (fun _ => hnext) hb
    have h : Runs (afterSuspend _) s₁ o s' := h
    obtain ⟨-, h⟩ | ⟨hnot, -⟩ := runs_ite.mp (runs_bind_isAt.mp h)
    · obtain ⟨hsome, ws, hlt, hin⟩ := hfunction hleft hparen h
      exact .inl ⟨hsome, ws, hlt.trans (Nat.lt_succ_self _), hin⟩
    · exact absurd (decide_eq_true (hleft.faces.current ▸ hparen)) hnot
  · have h : Runs (afterSuspend cs) s o s' := h
    obtain ⟨hparen, h⟩ | ⟨hnot, h⟩ := runs_ite.mp (runs_bind_isAt.mp h)
    · have hparen := of_decide_eq_true hparen
      obtain ⟨v, vs, rfl, hv⟩ := hs.exists_cons fun he => he.ne.2.1 hparen
      exact .inl (hfunction hs (hv ▸ hparen) h)
    · obtain ⟨hname, h⟩ | ⟨hnoname, h⟩ := runs_ite.mp (runs_bind_isAtName.mp h)
      · obtain ⟨v, vs, rfl, hv⟩ := hs.exists_cons fun he => by
          rw [he.ne.2.2.2.2.2.2] at hname
          cases hname
        exact .inl (namedType_inside hrec hs (hv ▸ hname) h)
      · obtain ⟨rfl, rfl⟩ := runs_pure.mp h
        exact .inr ⟨rfl, ts, le_rfl, id, hs, fun hk => hnot (decide_eq_true hk), hsign,
          Bool.eq_false_iff.mpr hnoname⟩

/-- What a modifier and the token after it are not. -/
theorem ne_of_isModifierAhead (h : isModifierAhead (t :: u :: rest) = true) :
    (t.kind ≠ .openParen ∧ t.kind ≠ .atSign) ∧ u.kind ≠ .less ∧ ¬ b.Ends u.kind := by
  refine ⟨⟨?_, ?_⟩, ?_, ?_⟩
  iterate 2
    · intro hk
      simp [isModifierAhead, isIdentifierModifier, TokenKind.isModifier, hk] at h
  · intro hk
    simp [isModifierAhead, isIdentifierModifier, followsModifier, TokenKind.isModifier, hk] at h
  · rintro (hk | hk)
    · cases b <;> simp [isModifierAhead, isIdentifierModifier, followsModifier, TokenKind.isModifier, hk,
        Bracket.closer] at h
    · simp [isModifierAhead, isIdentifierModifier, followsModifier, TokenKind.isModifier, hk] at h

/-- An annotation or a modifier is taken, and something is left between the brackets. -/
theorem modifierStep_inside {x : Array NodeId × List Modifier} {r : Step (Array NodeId × List Modifier)}
    (hs : s.Inside b n (t :: ts) u rest d) (hr : Runs (modifierStep rec x) s r s') :
    r.Leaves (fun _ => ∃ v vs, vs.length < ts.length ∧ s'.Inside b n (v :: vs) u rest d)
      fun _ => s' = s ∧ s.current.kind ≠ .atSign := by
  obtain ⟨list, found⟩ := x
  -- An annotation takes its sign and name; a modifier takes one token, which opens and closes nothing.
  obtain ⟨hsign, hr⟩ | ⟨hsign, hr⟩ := runs_ite.mp (runs_bind_isAt.mp hr)
  · obtain ⟨use, s₁, ha, hr⟩ := runs_bind.mp hr
    obtain ⟨rfl, rfl⟩ := runs_pure.mp hr
    rw [hs.faces.current] at hsign
    obtain ⟨named, next, vs, rfl, hnamed, hnext, hrest⟩ := hs.enclosed.afterSign (of_decide_eq_true hsign)
    have hfaces := hs.faces
    rw [List.cons_append, List.append_assoc, List.cons_append] at hfaces
    have hleft := annotationUse_takes hnamed hnext hfaces.toAt ha
    have hwords : Worded (next :: (vs ++ u :: rest)) := fun t ht =>
      hfaces.words t (List.mem_cons_of_mem _ (List.mem_append_right _ ht))
    refine ⟨next, vs, ?_, ⟨hleft, hwords⟩, hrest, hs.ends⟩
    simp only [List.length_append, List.length_cons]
    omega
  · obtain ⟨hmodifier, hr⟩ | ⟨-, hr⟩ := runs_ite.mp (runs_bind_isAtModifier.mp hr)
    · obtain ⟨word, s₁, hb, hr⟩ := runs_bind.mp (runs_bind_get.mp hr)
      obtain ⟨rfl, rfl⟩ := runs_pure.mp hr
      rw [hs.faces.tokens] at hmodifier
      cases ts with
      | nil => exact absurd hs.ends (ne_of_isModifierAhead hmodifier).2.2
      | cons v vs =>
        obtain ⟨ht, hless, -⟩ := ne_of_isModifierAhead (b := b) hmodifier
        exact ⟨v, vs, Nat.lt_succ_self _, hs.bump ht (fun _ w hw => Option.mem_some_iff.mp hw ▸ hless) hb⟩
    · obtain ⟨rfl, rfl⟩ := runs_pure.mp hr
      exact ⟨rfl, fun hk => hsign (decide_eq_true hk)⟩

/-- Annotations are taken, with the modifiers after them, and something is left between the brackets. -/
theorem modifiers_inside {cs : Array NodeId} {found : Array NodeId × List Modifier}
    (hs : s.Inside b n (t :: ts) u rest d) (h : Runs (modifiers rec cs) s found s') :
    ∃ v vs, vs.length ≤ ts.length ∧ s'.Inside b n (v :: vs) u rest d ∧ s'.current.kind ≠ .atSign := by
  obtain ⟨x, s₁, hl, htokens, hdepth⟩ := modifiers_repeating h
  -- A step leads to fewer tokens until none is a modifier.
  obtain ⟨v, vs, hle, hin, hsign⟩ : ∃ v vs, vs.length ≤ ts.length ∧ s₁.Inside b n (v :: vs) u rest d ∧
      s₁.current.kind ≠ .atSign := by
    refine runs_repeating_done
      (I := fun t (_ : Array NodeId × List Modifier) => ∃ v vs, vs.length ≤ ts.length ∧
        t.Inside b n (v :: vs) u rest d)
      (Q := fun t _ => ∃ v vs, vs.length ≤ ts.length ∧ t.Inside b n (v :: vs) u rest d ∧
        t.current.kind ≠ .atSign) ?_ ⟨t, ts, le_rfl, hs⟩ hl
    rintro s₂ x r s₃ ⟨v, vs, hle, hin⟩ hr
    have hstep := modifierStep_inside hin hr
    cases r with
    | more y =>
      obtain ⟨w, ws, hlt, hleft⟩ := hstep
      refine ⟨⟨w, ws, hlt.le.trans hle, hleft⟩, ?_⟩
      rw [hin.ahead_length, hleft.ahead_length]
      exact Nat.add_lt_add_right hlt _
    | done y =>
      obtain ⟨rfl, hsign⟩ := hstep
      exact ⟨v, vs, hle, hin, hsign⟩
  have hleft : s'.Faces (v :: vs ++ u :: rest) d :=
    ⟨⟨htokens.trans hin.faces.tokens, hdepth.trans hin.faces.depth⟩, hin.faces.words⟩
  refine ⟨v, vs, hle, ⟨hleft, hin.enclosed, hin.ends⟩, ?_⟩
  rwa [(List.cons.inj htokens).1]

/-- A type is read with its annotations. -/
theorem typeReference_inside (hrec : ReadsTypes rec n (d + 1)) (hd : d < maxDepth)
    (hs : s.Inside b (n + 1) ts u rest d) (h : Runs (typeReference rec none) s o s') :
    ReadType b (n + 1) ts u rest d o s' := by
  obtain ⟨s₁, s₂, hs₁, h, hback⟩ := hs.faces.toAt.of_nested hd (runs_bind_place.mp h)
  have hin : s₁.Inside b (n + 1) ts u rest (d + 1) := ⟨⟨hs₁, hs.faces.words⟩, hs.enclosed, hs.ends⟩
  have hout {vs : List Token} (hvs : s₂.Inside b (n + 1) vs u rest (d + 1)) :
      s'.Inside b (n + 1) vs u rest d ∧ s'.current = s₂.current := by
    have hleft := hback _ hvs.faces.toAt
    exact ⟨⟨⟨hleft, hvs.faces.words⟩, hvs.enclosed, hvs.ends⟩,
      (List.cons.inj (hleft.tokens.trans hvs.faces.tokens.symm)).1⟩
  obtain ⟨s₃, cs, vs, hle, hne, hin, hsign, h⟩ : ∃ s₃ cs vs, vs.length ≤ ts.length ∧ (ts ≠ [] → vs ≠ []) ∧
      s₃.Inside b (n + 1) vs u rest (d + 1) ∧ s₃.current.kind ≠ .atSign ∧
      Runs (typeAfterAnnotations rec none s.current.place cs) s₃ o s₂ := by
    have h := runs_bind_isAt.mp h
    extract_lets afterAnnotations at h
    obtain ⟨hat, h⟩ | ⟨hnot, h⟩ := runs_ite.mp h
    · -- Annotations leave something to be read, so that the closing bracket is not taken for a type.
      obtain ⟨found, s₃, hm, h⟩ := runs_bind.mp h
      obtain ⟨v, vs, rfl, -⟩ := hin.exists_cons fun he => he.ne.2.2.1 (of_decide_eq_true hat)
      obtain ⟨w, ws, hle, hleft, hsign⟩ := modifiers_inside hin hm
      exact ⟨s₃, _, w :: ws, Nat.succ_le_succ hle, fun _ => List.cons_ne_nil w ws, hleft, hsign, h⟩
    · exact ⟨s₁, _, ts, le_rfl, id, hin, fun hk => hnot (decide_eq_true hk), h⟩
  obtain ⟨hsome, ws, hlt, hleft⟩ | ⟨hnone, ws, hws, hrest, hleft, hno⟩ :=
    typeAfterAnnotations_inside hrec hin hsign h
  · exact .inl ⟨hsome, ws, hlt.trans_le hle, (hout hleft).1⟩
  · obtain ⟨hleft, hcurrent⟩ := hout hleft
    exact .inr ⟨hnone, ws, hws.trans hle, fun h => hrest (hne h), hleft, hcurrent ▸ hno⟩

/-- Types are read between brackets, as long as neither the grammar nor the parse is too deep for
them. -/
theorem productions_readsTypes {m : Nat} (hn : n ≤ m) (hd : d + n ≤ maxDepth) :
    ReadsTypes (productions m) n d := by
  -- A type recurs through types one level deeper only, which have one level less to go.
  induction n generalizing m d with
  | zero => exact fun _ _ _ _ _ _ _ hpos => absurd hpos (Nat.lt_irrefl 0)
  | succ n ih =>
    intro b ts u rest s o s' _ hs h
    obtain ⟨m, rfl⟩ : ∃ k, m = k + 1 := ⟨m - 1, by omega⟩
    exact typeReference_inside (ih (Nat.le_of_succ_le_succ hn) (by omega)) (by omega) hs h

/-- Where the parse of type arguments ends, from their opening bracket on. -/
def typeArgumentsEnd (rec : Productions) (s : State) : State :=
  (Id.run ((typeArgumentList rec).run s)).2

/-- Type arguments whose brackets pair up end at the bracket that the look-ahead has found, and what it has
seen after this bracket comes next. -/
theorem typeArguments_end {source : String} {m : Nat} {opening closing : Token}
    (hsource : s.tokens <:+ Token.ofSource source)
    (hs : s.tokens = opening :: (ts ++ closing :: rest)) (hts : Enclosed .angle n ts)
    (hclosing : closing.kind = .greater) (hn : n ≤ m) (hd : s.depth + n ≤ maxDepth)
    (hahead : typeArgumentsClose 1 s.ahead = true) :
    closing? isInTypeArguments 1 s.ahead = some rest ∧
      (typeArgumentsEnd (productions m) s).tokens = rest ∧
      followsTypeArguments (typeArgumentsEnd (productions m) s).tokens = true := by
  have hat : s.At (opening :: (ts ++ closing :: rest)) s.depth := ⟨hs, rfl⟩
  rw [hat.ahead] at hahead ⊢
  obtain ⟨found, hfound, hfollows⟩ := typeArgumentsClose_iff.mp hahead
  obtain rfl := hts.closing?_eq hclosing hfound
  have hne : found ≠ [] := by
    rintro rfl
    cases hfollows
  have hfaces : s.Faces (opening :: (ts ++ closing :: found)) s.depth :=
    ⟨hat, hs ▸ worded_of_suffix hsource⟩
  have hend := typeArgumentList_faces (productions_readsTypes hn hd) hts hclosing hne hfaces
    (runs_self (typeArgumentList (productions m)) s)
  exact ⟨hfound, hend.tokens, hend.tokens ▸ hfollows⟩

end

/-- Type arguments with a function type, before a call. -/
def functionArgument : State := .ofSource "a.kt" "<K, (A) -> B?>(c)"

theorem typeArguments_end_functionArgument :
    (typeArgumentsEnd (productions 2) functionArgument).tokens = functionArgument.tokens.drop 10 := by
  let k : Token := ⟨.identifier, {}, "", "K", 1⟩
  let comma : Token := ⟨.comma, {}, "", ",", 2⟩
  let opening : Token := ⟨.openParen, {}, " ", "(", 3⟩
  let a : Token := ⟨.identifier, {}, "", "A", 5⟩
  let closing : Token := ⟨.closeParen, {}, "", ")", 6⟩
  let arrow : Token := ⟨.arrow, {}, " ", "->", 7⟩
  let b : Token := ⟨.identifier, {}, " ", "B", 10⟩
  let mark : Token := ⟨.question, {}, "", "?", 12⟩
  -- The tokens between the brackets are derived by hand: a name, a comma and a function type that may
  -- be null.
  have hname : Enclosed .paren 1 [a] := .token rfl (fun _ _ u hu => nomatch hu) .nil
  have hresult : Enclosed .angle 1 [b, mark] :=
    .token rfl (fun hb => nomatch hb) (.token rfl (fun hb => nomatch hb) .nil)
  have hts : Enclosed .angle 2 [k, comma, opening, a, closing, arrow, b, mark] :=
    .token rfl (fun hb => nomatch hb) (.token rfl (fun hb => nomatch hb)
      (.function rfl hname rfl rfl hresult (fun t ht => nomatch ht) .nil))
  have hs : functionArgument.tokens = ⟨.less, {}, "", "<", 0⟩ ::
      ([k, comma, opening, a, closing, arrow, b, mark] ++ ⟨.greater, {}, "", ">", 13⟩ ::
        [⟨.openParen, {}, "", "(", 14⟩, ⟨.identifier, {}, "", "c", 15⟩,
          ⟨.closeParen, {}, "", ")", 16⟩, ⟨.endOfFile, {}, "", "", 17⟩]) := by
    decide +kernel
  have hsource : functionArgument.tokens <:+ Token.ofSource "<K, (A) -> B?>(c)" := ⟨[], by decide +kernel⟩
  obtain ⟨-, hend, -⟩ :=
    typeArguments_end hsource hs hts rfl le_rfl (by decide +kernel) (by decide +kernel)
  rw [hend, hs]
  rfl

/-- From an opening bracket on, the parse of type arguments ends where the look-ahead does. -/
def EndsAtFoundBracket (s : State) : Prop :=
  s.current.kind = .less → typeArgumentsClose 1 s.ahead = true →
    closing? isInTypeArguments 1 s.ahead =
      some (typeArgumentsEnd (productions (nestingBound s.tokens.length)) s).tokens

instance (s : State) : Decidable (EndsAtFoundBracket s) := inferInstanceAs (Decidable (_ → _ → _ = _))

/-- Type arguments at the deepest level, where types are kept as they are. -/
def deepArguments : State := { State.ofSource "a.kt" "<A>(b)" with depth := maxDepth }

/-- A comparison with another one, in parentheses. -/
def comparison : State := .ofSource "a.kt" "<(b > (c))"

theorem not_endsAtFoundBracket : ¬ EndsAtFoundBracket deepArguments ∧ ¬ EndsAtFoundBracket comparison := by
  decide +kernel

end KotlinTree.Grammar
