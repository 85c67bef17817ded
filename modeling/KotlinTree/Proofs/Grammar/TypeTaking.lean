import KotlinTree.Proofs.Grammar.TypeTokens

/-!
What the parse of a type takes. Main statement: it takes the tokens of the type and nothing more.
-/

namespace KotlinTree.Grammar

section
variable {rec : Productions} {type : List Token → Prop} {s s' : State} {t u : Token}
  {ts rest tail : List Token} {d : Nat} {o : Option NodeId}

theorem nameChainStep_takes {start : Nat} (hstop : u.kind ≠ .dot ∨ ∃ v more, rest = v :: more ∧
    v.kind.isName = false) :
    Takes (nameChainStep none false start) Dotted (u :: rest) d := by
  rintro ts s ⟨left, names, star⟩ r s' hts hs hr
  have hr := runs_bind_isAt.mp hr
  cases hts with
  | nil =>
    refine .inl ⟨rfl, ?_⟩
    obtain ⟨hdot, hr⟩ | ⟨-, hr⟩ := runs_ite.mp hr
    · -- No name comes after the point.
      obtain ⟨v, more, rfl, hv⟩ : ∃ v more, rest = v :: more ∧ v.kind.isName = false := by
        refine hstop.resolve_left fun hne => ?_
        simp [hs.current, hne] at hdot
      have hr := runs_bind_peek.mp hr
      rw [hs.nextKind, hv] at hr
      obtain ⟨rfl, rfl⟩ := runs_pure.mp hr
      exact ⟨⟨_, rfl⟩, hs⟩
    · obtain ⟨rfl, rfl⟩ := runs_pure.mp hr
      exact ⟨⟨_, rfl⟩, hs⟩
  | @name dot name ts hdot hname hts =>
    refine .inr ⟨ts, hts, by simp only [List.length_cons]; omega, ?_⟩
    obtain ⟨-, hr⟩ | ⟨hnot, -⟩ := runs_ite.mp hr
    · have hr := runs_bind_peek.mp hr
      obtain ⟨-, hr⟩ | ⟨hnot, -⟩ := runs_ite.mp hr
      · obtain ⟨_, s₁, hb, hr⟩ := runs_bind.mp hr
        obtain ⟨_, s₂, hn, hr⟩ := runs_bind.mp hr
        obtain ⟨_, s₃, ha, hr⟩ := runs_bind.mp hr
        obtain ⟨rfl, rfl⟩ := runs_pure.mp hr
        have hnamed := (hs.bump (by simp) hb).bumpName (by simp) hname hn
        exact ⟨⟨_, rfl⟩, hnamed.2.node ha⟩
      · rw [hs.nextKind] at hnot
        exact absurd hname hnot
    · simp [hs.current, hdot] at hnot

theorem nameChain_takes {name : Token} {dotted : List Token} {star : Array NodeId}
    (hname : name.kind.isName = true) (hdotted : Dotted dotted)
    (hstop : u.kind ≠ .dot ∨ ∃ v more, rest = v :: more ∧ v.kind.isName = false)
    (hs : s.At (name :: (dotted ++ u :: rest)) d) (h : Runs (nameChain none false) s (o, star) s') :
    s'.At (u :: rest) d := by
  obtain ⟨first, s₁, hfirst, h⟩ := runs_bind.mp (runs_bind_place.mp h)
  obtain ⟨⟨first, rfl⟩, hleft⟩ := hs.bumpName (by simp) hname hfirst
  obtain ⟨⟨left, names, star'⟩, s₂, hr, h⟩ := runs_bind.mp h
  obtain ⟨-, rfl⟩ := runs_pure.mp h
  exact runs_repeating_takes (nameChainStep_takes hstop) hdotted hleft hr

/-- An annotation is taken with its name. -/
theorem annotationUse_takes {named : List Token} {id : NodeId} (hnamed : AnnotationName u named)
    (hu : EndsAnnotationUse u) (hs : s.At (t :: (named ++ u :: rest)) d)
    (h : Runs (annotationUse rec) s id s') : s'.At (u :: rest) d := by
  obtain ⟨sign, s₁, hb, h⟩ := runs_bind.mp (runs_bind_place.mp h)
  obtain ⟨⟨name, star⟩, s₂, hn, h⟩ := runs_bind.mp h
  have hfirst := hs.bump (by simp) hb
  -- The name ends at the token after it, whether or not there is one.
  have hleft : s₂.At (u :: rest) d := by
    cases hnamed with
    | none hu =>
      obtain ⟨first, s₃, hn, h⟩ := runs_bind.mp (runs_bind_place.mp hn)
      obtain ⟨hname, -⟩ | ⟨-, hn⟩ := runs_ite.mp (runs_bind_isAtName.mp hn)
      · rw [hfirst.current, hu] at hname
        cases hname
      · obtain ⟨rfl, rfl⟩ := runs_pure.mp hn
        obtain ⟨-, rfl⟩ := runs_pure.mp h
        exact hfirst
    | dotted hname hdotted hu => exact nameChain_takes hname hdotted (.inl hu) hfirst hn
  -- Neither a target nor arguments follow, as the next token begins none.
  have h := runs_bind_isAttached.mp (runs_bind_isAt.mp h)
  extract_lets afterArguments afterTarget at h
  obtain ⟨hat, -⟩ | ⟨-, h⟩ := runs_ite.mp h
  · simp only [hleft.current, Bool.and_eq_true, decide_eq_true_iff] at hat
    exact absurd hat.1 (hu hat.2).1
  have h : Runs (afterTarget (add #[sign] name)) s₂ id s' := h
  have h := runs_bind_isAttached.mp (runs_bind_isAt.mp h)
  obtain ⟨hat, -⟩ | ⟨-, h⟩ := runs_ite.mp h
  · simp only [hleft.current, Bool.and_eq_true, decide_eq_true_iff] at hat
    exact absurd hat.1 (hu hat.2).2
  · exact hleft.node h

/-- Modifiers and annotations are taken one after the other, and then only their list is made. -/
theorem modifiers_repeating {cs : Array NodeId} {found : Array NodeId × List Modifier}
    (h : Runs (modifiers rec cs) s found s') :
    ∃ x s₁, Runs (repeating (modifierStep rec) (#[], [])) s x s₁ ∧ s'.tokens = s₁.tokens ∧
      s'.depth = s₁.depth := by
  obtain ⟨⟨list, words⟩, s₁, hl, h⟩ := runs_bind.mp (runs_bind_place.mp h)
  refine ⟨_, s₁, hl, ?_⟩
  obtain ⟨-, h⟩ | ⟨-, h⟩ := runs_ite.mp h
  · obtain ⟨-, rfl⟩ := runs_pure.mp h
    exact ⟨rfl, rfl⟩
  · obtain ⟨id, s₂, hn, h⟩ := runs_bind.mp h
    obtain ⟨-, rfl⟩ := runs_pure.mp h
    obtain ⟨-, rfl⟩ := runs_node.mp hn
    exact ⟨rfl, rfl⟩

/-- A production takes the tokens of types, which something follows that can follow a type. -/
def TakesTypes (rec : Productions) (type : List Token → Prop) (d : Nat) : Prop :=
  ∀ ⦃ts t rest s o s'⦄, type ts → endsType t.kind = true → s.At (ts ++ t :: rest) d →
    Runs (rec (.typeReference none)) s o s' → (∃ id, o = some id) ∧ s'.At (t :: rest) d

/-- The variance is taken if there is one, and the type is left. -/
theorem variance_takes {α : Type} (after : Array NodeId → Parser α) {cs : Array NodeId} {a : α}
    (htype : StartTypes type) (hts : ProjectionTokens type ts) (hu : endsType u.kind = true)
    (hs : s.At (ts ++ u :: rest) d)
    (h : Runs (if ((s.current.kind = .inKeyword || s.current.text = "out") &&
        s.nextKind = .identifier) = true then do after (cs.push (← bump)) else after cs) s a s') :
    ∃ cs s₁ us, type us ∧ s₁.At (us ++ u :: rest) d ∧ Runs (after cs) s₁ a s' := by
  cases hts with
  | type hts =>
    obtain ⟨hword, -⟩ | ⟨-, h⟩ := runs_ite.mp h
    · simp only [Bool.and_eq_true, Bool.or_eq_true, decide_eq_true_iff] at hword
      -- What begins a type is no variance with a name behind it.
      obtain ⟨hkind, htext⟩ | ⟨-, hafter, -⟩ := hs.startsType (htype hts hu)
      · rw [hkind, htext] at hword
        exact absurd hword.1 (by decide)
      · exact absurd hword.2 hafter
    · exact ⟨cs, s, ts, hts, hs, h⟩
  | variance hword hname hts =>
    obtain ⟨-, h⟩ | ⟨hnot, -⟩ := runs_ite.mp h
    · obtain ⟨_, s₁, hb, h⟩ := runs_bind.mp h
      exact ⟨_, s₁, _, hts, hs.bump (by simp) hb, h⟩
    · have hword := hword.imp_right And.left
      have hnext : s.nextKind = .identifier := hname ▸ hs.nextKind
      simp [hs.current, hword, hnext] at hnot

theorem ProjectionTokens.starts (htype : StartTypes type) (hts : ProjectionTokens type ts)
    (hu : endsType u.kind = true) (hs : s.At (ts ++ u :: rest) d) : ts ≠ [] ∧
      (s.current.kind = .openParen ∨ s.current.kind = .inKeyword ∨ s.current.kind.isName = true) := by
  cases hts with
  | type hts =>
    have hstart := (hs.startsType (htype hts hu)).imp And.left And.left
    exact ⟨htype.ne_nil hts, hstart.imp_right .inr⟩
  | variance hword _ _ =>
    exact ⟨List.cons_ne_nil _ _, .inr (hs.current ▸ hword.imp_right And.right)⟩

theorem typeArgumentStep_takes (hrec : TakesTypes rec type d) (htype : StartTypes type)
    (hu : u.kind = .greater) :
    TakesEntries (typeArgumentStep rec) (TypeArgumentTokens type) u rest d where
  ends := by
    rintro s ⟨children, arguments⟩ r s' hs hr
    have hr := runs_bind_kind.mp hr
    rw [hs.current, hu] at hr
    obtain ⟨rfl, rfl⟩ := runs_pure.mp hr
    exact ⟨⟨_, rfl⟩, rfl⟩
  commas := by
    rintro t ts s ⟨children, arguments⟩ r s' ht hne hs hr
    have hr := runs_bind_kind.mp hr
    rw [hs.current, ht] at hr
    exact hs.more hne hr
  entries := by
    rintro e t ts s ⟨children, arguments⟩ r s' he ht hs hr
    have hr := runs_bind_kind.mp hr
    cases he with
    | star hstar =>
      rw [hs.current, hstar] at hr
      exact ⟨List.cons_ne_nil _ _, hs.more (by simp) hr⟩
    -- The entry begins with a token that begins a type, so none of the other cases is taken.
    | projection he =>
      have hends : endsType t.kind = true := endsType_of_entry ht (by rw [hu]; rfl)
      obtain ⟨hne, hstart⟩ := he.starts htype hends hs
      split at hr
      iterate 4
        · rename_i hkind
          rw [hkind] at hstart
          exact absurd hstart (by decide)
      · have hr := runs_bind_peek.mp (runs_bind_isAtText.mp hr)
        extract_lets afterVariance at hr
        obtain ⟨_, s₁, us, hus, hs₁, hr⟩ := variance_takes afterVariance htype he hends hs hr
        obtain ⟨_, s₂, harg, hr⟩ := runs_bind.mp hr
        obtain ⟨⟨id, rfl⟩, hleft⟩ := hrec hus hends hs₁ harg
        obtain ⟨rfl, rfl⟩ := runs_pure.mp hr
        exact ⟨hne, ⟨_, rfl⟩, hleft⟩

theorem typeArgumentList_takes (hrec : TakesTypes rec type d) (htype : StartTypes type)
    {opening closing : Token} {arguments : NodeId × Array NodeId}
    (hts : Separated (TypeArgumentTokens type) ts) (hclosing : closing.kind = .greater)
    (hne : rest ≠ []) (hs : s.At (opening :: (ts ++ closing :: rest)) d)
    (h : Runs (typeArgumentList rec) s arguments s') : s'.At rest d := by
  obtain ⟨_, s₁, ho, h⟩ := runs_bind.mp (runs_bind_place.mp h)
  obtain ⟨⟨children, found⟩, s₂, hl, h⟩ := runs_bind.mp h
  obtain ⟨_, s₃, hc, h⟩ := runs_bind.mp h
  obtain ⟨_, s₄, hn, h⟩ := runs_bind.mp h
  obtain ⟨-, rfl⟩ := runs_pure.mp h
  have hinner := hs.bump (by simp) ho
  have hlist := runs_repeating_takes (typeArgumentStep_takes hrec htype hclosing).takes hts hinner hl
  rw [← hclosing] at hc
  obtain ⟨_, -, -, hleft⟩ := hlist.eat hne hc
  exact hleft.node hn

/-- A name with its type arguments is taken, if neither a further name nor arguments come after it. -/
theorem namedType_takes (hrec : TakesTypes rec type d) (htype : StartTypes type) {start : Nat}
    {cs : Array NodeId} {front : List Token} (hfront : NamedTokens type front)
    (hu : u.kind ≠ .less) (hstop : u.kind ≠ .dot ∨ ∃ v more, rest = v :: more ∧ v.kind = .openParen)
    (hs : s.At (front ++ u :: rest) d) (h : Runs (namedType rec none start cs) s o s') :
    ∃ s₁ cs₁ name arguments, s₁.At (u :: rest) d ∧
      Runs (if (s₁.current.kind = .dot && s₁.nextKind = .openParen) = true then do
          let dot ← bump
          finishType start (← functionTypeRest rec (cs₁.push dot)) none arguments
        else finishType start cs₁ name arguments) s₁ o s' := by
  cases hfront with
  | @mk name dotted arguments hname hdotted harguments =>
    rw [List.cons_append, List.append_assoc] at hs
    obtain ⟨⟨chain, star⟩, s₁, hchain, h⟩ := runs_bind.mp h
    have h := runs_bind_startsLine.mp (runs_bind_isAt.mp h)
    extract_lets afterArguments at h
    -- With arguments or without, what comes after the name is left.
    obtain ⟨s₂, cs₂, found, hs₂, h⟩ : ∃ s₂ cs₂ found, s₂.At (u :: rest) d ∧
        Runs (afterArguments (cs₂, found)) s₂ o s' := by
      cases harguments with
      | none =>
        have hstop : u.kind ≠ .dot ∨ ∃ v more, rest = v :: more ∧ v.kind.isName = false :=
          hstop.imp_right fun ⟨v, more, hrest, hv⟩ => ⟨v, more, hrest, hv ▸ rfl⟩
        have hleft := nameChain_takes hname hdotted hstop hs hchain
        obtain ⟨hless, -⟩ | ⟨-, h⟩ := runs_ite.mp h
        · simp [hleft.current, hu] at hless
        · exact ⟨s₁, _, _, hleft, h⟩
      | @list opening closing inner hopening hline hinner hclosing =>
        rw [List.cons_append, List.append_assoc] at hs
        have hstop : opening.kind ≠ .dot := by
          rw [hopening]
          decide
        have hleft := nameChain_takes hname hdotted (.inl hstop) hs hchain
        obtain ⟨-, h⟩ | ⟨hnot, -⟩ := runs_ite.mp h
        · obtain ⟨⟨list, found⟩, s₂, hl, h⟩ := runs_bind.mp h
          have hafter := typeArgumentList_takes hrec htype hinner hclosing (by simp) hleft hl
          exact ⟨s₂, _, found, hafter, h⟩
        · simp [hleft.current, hopening, hline] at hnot
    exact ⟨s₂, cs₂, chain, found, hs₂, runs_bind_peek.mp (runs_bind_isAt.mp h)⟩

theorem nullabilityStep_takes (hu : u.kind ≠ .question) :
    Takes nullabilityStep Marks (u :: rest) d := by
  rintro ts s ⟨children, isNullable⟩ r s' hts hs hr
  have hr := runs_bind_startsLine.mp (runs_bind_isAt.mp hr)
  cases ts with
  | nil =>
    obtain ⟨hmark, -⟩ | ⟨-, hr⟩ := runs_ite.mp hr
    · simp [hs.current, hu] at hmark
    · obtain ⟨rfl, rfl⟩ := runs_pure.mp hr
      exact .inl ⟨rfl, ⟨_, rfl⟩, hs⟩
  | cons mark ts =>
    obtain ⟨hkind, hline⟩ := hts mark List.mem_cons_self
    obtain ⟨-, hr⟩ | ⟨hnot, -⟩ := runs_ite.mp hr
    · obtain ⟨_, s₁, hb, hr⟩ := runs_bind.mp hr
      obtain ⟨rfl, rfl⟩ := runs_pure.mp hr
      have hrest : Marks ts := fun t ht => hts t (List.mem_cons_of_mem _ ht)
      exact .inr ⟨ts, hrest, Nat.lt_succ_self _, ⟨_, rfl⟩, hs.bump (by simp) hb⟩
    · simp [hs.current, hkind, hline] at hnot

/-- Question marks end a type. -/
theorem finishType_takes {start : Nat} {cs arguments : Array NodeId} {name : Option NodeId}
    (hts : Marks ts) (hu : u.kind ≠ .question) (hs : s.At (ts ++ u :: rest) d)
    (h : Runs (finishType start cs name arguments) s o s') :
    (∃ id, o = some id) ∧ s'.At (u :: rest) d := by
  obtain ⟨⟨children, isNullable⟩, s₁, hmarks, h⟩ := runs_bind.mp h
  obtain ⟨id, s₂, hn, h⟩ := runs_bind.mp h
  obtain ⟨rfl, rfl⟩ := runs_pure.mp h
  exact ⟨⟨id, rfl⟩, (runs_repeating_takes (nullabilityStep_takes hu) hts hs hmarks).node hn⟩

/-- The name of a parameter is taken if there is one, and the type is left. -/
theorem parameterName_takes {α : Type} (after : Array NodeId → Parser α) {cs : Array NodeId} {a : α}
    (htype : StartTypes type) (hts : FunctionParameterTokens type ts) (hu : endsType u.kind = true)
    (hs : s.At (ts ++ u :: rest) d)
    (h : Runs (if (s.current.kind.isName && s.nextKind = .colon) = true then do
        let name ← bumpName
        let colon ← bump
        after (add cs name |>.push colon) else after cs) s a s') :
    ∃ cs s₁ us, type us ∧ s₁.At (us ++ u :: rest) d ∧ Runs (after cs) s₁ a s' := by
  cases hts with
  | type hts =>
    obtain ⟨hnamed, -⟩ | ⟨-, h⟩ := runs_ite.mp h
    · simp only [Bool.and_eq_true, decide_eq_true_iff] at hnamed
      -- What begins a type is no name with a colon behind it.
      obtain ⟨hkind, -⟩ | ⟨-, -, hafter⟩ := hs.startsType (htype hts hu)
      · rw [hkind] at hnamed
        exact absurd hnamed.1 (by decide)
      · exact absurd hnamed.2 hafter
    · exact ⟨cs, s, ts, hts, hs, h⟩
  | named hname hcolon hts =>
    obtain ⟨-, h⟩ | ⟨hnot, -⟩ := runs_ite.mp h
    · obtain ⟨_, s₁, hn, h⟩ := runs_bind.mp h
      obtain ⟨_, s₂, hc, h⟩ := runs_bind.mp h
      have hnamed := (hs.bumpName (by simp) hname hn).2
      exact ⟨_, s₂, _, hts, hnamed.bump (by simp) hc, h⟩
    · have hnext : s.nextKind = .colon := hcolon ▸ hs.nextKind
      simp [hs.current, hname, hnext] at hnot

theorem FunctionParameterTokens.starts (htype : StartTypes type)
    (hts : FunctionParameterTokens type ts) (hu : endsType u.kind = true)
    (hs : s.At (ts ++ u :: rest) d) :
    ts ≠ [] ∧ (s.current.kind = .openParen ∨ s.current.kind.isName = true) := by
  cases hts with
  | type hts => exact ⟨htype.ne_nil hts, (hs.startsType (htype hts hu)).imp And.left And.left⟩
  | named hname _ _ => exact ⟨List.cons_ne_nil _ _, .inr (hs.current ▸ hname)⟩

theorem functionTypeStep_takes (hrec : TakesTypes rec type d) (htype : StartTypes type)
    (hu : u.kind = .closeParen) :
    TakesEntries (functionTypeStep rec) (FunctionParameterTokens type) u rest d where
  ends := by
    rintro s children r s' hs hr
    have hr := runs_bind_kind.mp hr
    rw [hs.current, hu] at hr
    obtain ⟨rfl, rfl⟩ := runs_pure.mp hr
    exact ⟨⟨_, rfl⟩, rfl⟩
  commas := by
    rintro t ts s children r s' ht hne hs hr
    have hr := runs_bind_kind.mp hr
    rw [hs.current, ht] at hr
    exact hs.more hne hr
  entries := by
    rintro e t ts s children r s' he ht hs hr
    -- What an entry begins with begins a type or names a parameter.
    have hends : endsType t.kind = true := endsType_of_entry ht (by rw [hu]; rfl)
    obtain ⟨hne, hstart⟩ := he.starts htype hends hs
    have hr := runs_bind_kind.mp hr
    split at hr
    iterate 3
      · rename_i hkind
        rw [hkind] at hstart
        exact absurd hstart (by decide)
    · have hr := runs_bind_peek.mp hr
      extract_lets afterName at hr
      obtain ⟨_, s₁, us, hus, hs₁, hr⟩ := parameterName_takes afterName htype he hends hs hr
      obtain ⟨_, s₂, harg, hr⟩ := runs_bind.mp hr
      obtain ⟨⟨id, rfl⟩, hleft⟩ := hrec hus hends hs₁ harg
      obtain ⟨rfl, rfl⟩ := runs_pure.mp hr
      exact ⟨hne, ⟨_, rfl⟩, hleft⟩

/-- Parentheses are taken. Whether there is a result is decided by what comes after them. -/
theorem group_takes (hrec : TakesTypes rec type d) (htype : StartTypes type) {cs cs' : Array NodeId}
    (hts : GroupTokens type ts) (hs : s.At (ts ++ u :: rest) d)
    (h : Runs (functionTypeRest rec cs) s cs' s') :
    ∃ s₁ cs₁, s₁.At (u :: rest) d ∧ Runs (if (u.kind = .arrow : Bool) = true then do
        let arrow ← bump
        return add (cs₁.push arrow) (← rec (.typeReference none))
      else return cs₁) s₁ cs' s' := by
  cases hts with
  | mk _ _ hinner hclosing =>
    rw [List.cons_append, List.append_assoc] at hs
    obtain ⟨_, s₁, ho, h⟩ := runs_bind.mp h
    obtain ⟨children, s₂, hl, h⟩ := runs_bind.mp h
    obtain ⟨_, s₃, hc, h⟩ := runs_bind.mp h
    have hopened := hs.bump (by simp) ho
    have hlist := runs_repeating_takes (functionTypeStep_takes hrec htype hclosing).takes hinner
      hopened hl
    rw [← hclosing] at hc
    obtain ⟨_, -, -, hclosed⟩ := hlist.eat (by simp) hc
    exact ⟨s₃, _, hclosed, hclosed.current ▸ runs_bind_isAt.mp h⟩

/-- A function type is taken up to its question marks. -/
theorem functionTypeRest_takes (hrec : TakesTypes rec type d) (htype : StartTypes type)
    {cs cs' : Array NodeId} (hts : FunctionTokens type ts) (hu : endsType u.kind = true)
    (hs : s.At (ts ++ u :: rest) d) (h : Runs (functionTypeRest rec cs) s cs' s') :
    ∃ marks, Marks marks ∧ s'.At (marks ++ u :: rest) d := by
  -- With an arrow, the result follows; without, only marks.
  cases hts with
  | function hfront harrow hresult =>
    rw [List.append_assoc, List.cons_append] at hs
    obtain ⟨s₁, cs₁, hgroup, h⟩ := group_takes hrec htype hfront hs h
    obtain ⟨-, h⟩ | ⟨hnot, -⟩ := runs_ite.mp h
    · obtain ⟨_, s₂, ha, h⟩ := runs_bind.mp h
      obtain ⟨_, s₃, ht, h⟩ := runs_bind.mp h
      obtain ⟨rfl, rfl⟩ := runs_pure.mp h
      exact ⟨[], List.forall_mem_nil _, (hrec hresult hu (hgroup.bump (by simp) ha) ht).2⟩
    · exact absurd (decide_eq_true harrow) hnot
  | nullable hfront hmarks =>
    rw [List.append_assoc, List.cons_append] at hs
    obtain ⟨s₁, cs₁, hgroup, h⟩ := group_takes hrec htype hfront hs h
    obtain ⟨harrow, -⟩ | ⟨-, h⟩ := runs_ite.mp h
    · have hmark := (hmarks _ List.mem_cons_self).1
      rw [hmark] at harrow
      cases harrow
    · obtain ⟨rfl, rfl⟩ := runs_pure.mp h
      exact ⟨_, hmarks, hgroup⟩

theorem functionType_takes (hrec : TakesTypes rec type d) (htype : StartTypes type) {start : Nat}
    {cs : Array NodeId} (hts : FunctionTokens type ts) (hu : endsType u.kind = true)
    (hs : s.At (ts ++ u :: rest) d)
    (h : Runs (do finishType start (← functionTypeRest rec cs) none #[]) s o s') :
    (∃ id, o = some id) ∧ s'.At (u :: rest) d := by
  obtain ⟨children, s₁, hf, h⟩ := runs_bind.mp h
  obtain ⟨marks, hmarks, hrest⟩ := functionTypeRest_takes hrec htype hts hu hs hf
  exact finishType_takes hmarks (ne_of_endsType hu).2.2 hrest h

/-- A named type is taken with its question marks, or as the receiver of a function type. -/
theorem namedType_form_takes (hrec : TakesTypes rec type d) (htype : StartTypes type) {start : Nat}
    {cs : Array NodeId} {front : List Token} (hfront : NamedTokens type front)
    (htail : NamedTail type tail) (hu : endsType u.kind = true)
    (hs : s.At (front ++ (tail ++ u :: rest)) d) (h : Runs (namedType rec none start cs) s o s') :
    (∃ id, o = some id) ∧ s'.At (u :: rest) d := by
  obtain ⟨hless, hdot, hquestion⟩ := ne_of_endsType hu
  cases htail with
  | marks hmarks =>
    -- After the arguments stand marks or the end of the type, so there is no receiver.
    obtain ⟨v, more, hsplit, hv⟩ := hmarks.starts u rest
    have hv : v.kind ≠ .less ∧ v.kind ≠ .dot := by
      obtain rfl | hmark := hv
      · exact ⟨hless, hdot⟩
      · simp [hmark]
    rw [hsplit] at hs
    obtain ⟨s₁, cs₁, name, arguments, hs₁, h⟩ :=
      namedType_takes hrec htype hfront hv.1 (.inl hv.2) hs h
    obtain ⟨hat, -⟩ | ⟨-, h⟩ := runs_ite.mp h
    · simp [hs₁.current, hv.2] at hat
    · exact finishType_takes hmarks hquestion (hsplit ▸ hs₁) h
  | @receiver dot ts hkind hts =>
    obtain ⟨v, after, more, hsplit, hv, -⟩ := hts.starts (u :: rest)
    have hless : dot.kind ≠ .less := by simp [hkind]
    obtain ⟨s₁, cs₁, name, arguments, hs₁, h⟩ :=
      namedType_takes hrec htype hfront hless (.inr ⟨v, after :: more, hsplit, hv⟩) hs h
    -- After the dot stands a parenthesis, so the name is the receiver of a function type.
    obtain ⟨-, h⟩ | ⟨hnot, -⟩ := runs_ite.mp h
    · obtain ⟨_, s₂, hb, h⟩ := runs_bind.mp h
      obtain ⟨children, s₃, hf, h⟩ := runs_bind.mp h
      obtain ⟨marks, hmarks, hrest⟩ :=
        functionTypeRest_takes hrec htype hts hu (hs₁.bump (by simp) hb) hf
      exact finishType_takes hmarks hquestion hrest h
    · have hnext : s₁.nextKind = .openParen := by
        rw [hsplit] at hs₁
        exact hv ▸ hs₁.nextKind
      simp [hs₁.current, hkind, hnext] at hnot

theorem namedAfterAnnotations_takes (hrec : TakesTypes rec type d) (htype : StartTypes type)
    {start : Nat} {cs : Array NodeId} {front : List Token} (hfront : NamedTokens type front)
    (htail : NamedTail type tail) (hu : endsType u.kind = true)
    (hs : s.At (front ++ (tail ++ u :: rest)) d)
    (h : Runs (typeAfterAnnotations rec none start cs) s o s') :
    (∃ id, o = some id) ∧ s'.At (u :: rest) d := by
  obtain ⟨v, more, hsplit, hv⟩ := htail.starts hu rest
  obtain ⟨first, next, after, hfirst, hname, hnext⟩ := hfront.starts hv more
  have hcurrent : s.At (first :: next :: after) d := hfirst ▸ hsplit ▸ hs
  have h := runs_bind_peek.mp (runs_bind_isAtText.mp h)
  extract_lets afterSuspend at h
  obtain ⟨hword, -⟩ | ⟨-, h⟩ := runs_ite.mp h
  · simp [hcurrent.nextKind, (ne_of_afterTypeName hnext).2.1] at hword
  · have h : Runs (afterSuspend cs) s o s' := h
    obtain ⟨hparen, -⟩ | ⟨-, h⟩ := runs_ite.mp (runs_bind_isAt.mp h)
    · rw [← hcurrent.current, of_decide_eq_true hparen] at hname
      cases hname
    · obtain ⟨-, h⟩ | ⟨hnot, -⟩ := runs_ite.mp (runs_bind_isAtName.mp h)
      · exact namedType_form_takes hrec htype hfront htail hu hs h
      · exact absurd (hcurrent.current ▸ hname) hnot

theorem functionAfterAnnotations_takes (hrec : TakesTypes rec type d) (htype : StartTypes type)
    {start : Nat} {cs : Array NodeId} {front : List Token} (hts : FunctionTokens type ts)
    (hfront : front = [] ∨ ∃ word : Token, word.text = "suspend" ∧ front = [word])
    (hu : endsType u.kind = true) (hs : s.At (front ++ (ts ++ u :: rest)) d)
    (h : Runs (typeAfterAnnotations rec none start cs) s o s') :
    (∃ id, o = some id) ∧ s'.At (u :: rest) d := by
  obtain ⟨first, next, more, hsplit, hopening, htext⟩ := hts.starts (u :: rest)
  have h := runs_bind_peek.mp (runs_bind_isAtText.mp h)
  extract_lets afterSuspend at h
  -- Up to here the word may have been taken, and the parenthesis is left.
  obtain ⟨cs, s₁, hs₁, h⟩ : ∃ cs s₁, s₁.At (ts ++ u :: rest) d ∧ Runs (afterSuspend cs) s₁ o s' := by
    obtain rfl | ⟨word, hword, rfl⟩ := hfront
    · obtain ⟨hat, -⟩ | ⟨-, h⟩ := runs_ite.mp h
      · have hcurrent : s.At (first :: next :: more) d := hsplit ▸ hs
        simp [hcurrent.current, htext] at hat
      · exact ⟨cs, s, hs, h⟩
    · have hcurrent : s.At (word :: first :: next :: more) d := hsplit ▸ hs
      obtain ⟨-, h⟩ | ⟨hnot, -⟩ := runs_ite.mp h
      · obtain ⟨_, s₁, hb, h⟩ := runs_bind.mp h
        exact ⟨_, s₁, hs.bump (by simp) hb, h⟩
      · simp [hcurrent.current, hword, hcurrent.nextKind, hopening] at hnot
  have hcurrent : s₁.At (first :: next :: more) d := hsplit ▸ hs₁
  obtain ⟨-, h⟩ | ⟨hnot, -⟩ := runs_ite.mp (runs_bind_isAt.mp h)
  · exact functionType_takes hrec htype hts hu hs₁ h
  · exact absurd (decide_eq_true (hcurrent.current ▸ hopening)) hnot

theorem typeAfterAnnotations_takes (hrec : TakesTypes rec type d) (htype : StartTypes type)
    {start : Nat} {cs : Array NodeId} (hts : TypeForm type ts) (hu : endsType u.kind = true)
    (hs : s.At (ts ++ u :: rest) d) (h : Runs (typeAfterAnnotations rec none start cs) s o s') :
    (∃ id, o = some id) ∧ s'.At (u :: rest) d := by
  cases hts with
  | named hfront htail =>
    rw [List.append_assoc] at hs
    exact namedAfterAnnotations_takes hrec htype hfront htail hu hs h
  | function hts => exact functionAfterAnnotations_takes hrec htype hts (.inl rfl) hu hs h
  | suspending hword _ hts =>
    exact functionAfterAnnotations_takes hrec htype hts (.inr ⟨_, hword, rfl⟩) hu hs h

end

/-- Types are taken as they are written, as long as neither the grammar nor the parse is too deep for
them. -/
theorem productions_takesTypes {n m d : Nat} (hn : n ≤ m) (hd : d + n ≤ maxDepth) :
    TakesTypes (productions m) (TypeTokens n) d := by
  intro ts t rest s o s' hts ht hs h
  -- The types inside are nested less deep by one, which makes up for the level that the parse enters.
  induction n generalizing m d ts t rest s o s' with
  | zero => exact hts.elim
  | succ n ih =>
    obtain ⟨m, rfl⟩ : ∃ k, m = k + 1 := ⟨m - 1, by omega⟩
    have hrec : TakesTypes (productions m) (TypeTokens n) (d + 1) := by
      intro ts t rest s o s' hts ht hs h
      exact ih (Nat.le_of_succ_le_succ hn) (by omega) hts ht hs h
    have h : Runs (typeReference (productions m) none) s o s' := h
    refine hs.nested (by omega) (fun s₁ s₂ hs₁ h => ?_) (runs_bind_place.mp h)
    have h := runs_bind_isAt.mp h
    extract_lets afterAnnotations at h
    obtain ⟨hat, -⟩ | ⟨-, h⟩ := runs_ite.mp h
    · -- A type with annotations begins with neither a parenthesis nor a name.
      have hstart := hs₁.startsType (TypeForm.startsType hts ht)
      rw [of_decide_eq_true hat] at hstart
      exact absurd (hstart.imp And.left And.left) (by decide)
    · exact typeAfterAnnotations_takes hrec (startTypes_typeTokens n) hts ht hs₁ h

end KotlinTree.Grammar
