import KotlinTree.Proofs.Grammar.TypeArguments
import KotlinTree.Proofs.Grammar.TypeTaking

/-!
Where the parse of a receiver ends. Main statement: it ends at the name that the look-ahead has counted
last, and a declaration is named by it.
-/

namespace KotlinTree.Grammar

/-- The names in front of a declared one and this name, as the look-ahead for a receiver counts them:
each with what is after it. -/
def countedNames : Nat → List Token → Option (List (List Token))
  | 0, _ | _, [] => some []
  | n + 1, token :: ahead =>
    if token.kind.isName then
      match afterNameMarks ahead with
      | none => none
      | some (next :: after) =>
        if next.kind = .dot || next.kind = .questionDot then
          (countedNames n after).map ((token :: ahead) :: ·)
        else some [token :: ahead]
      | some [] => some [token :: ahead]
    else some []

/-- The name that the look-ahead for a receiver counts last, with what is after it. -/
def lastCounted? (tokens : List Token) : Option (List Token) :=
  (countedNames tokens.length tokens).bind List.getLast?

/-- The type arguments of a receiver, on the line of its last name, if it has any. -/
inductive ReceiverArguments (n : Nat) : List Token → Prop
  | none : ReceiverArguments n []
  | list {opening closing : Token} {inner : List Token} (hopening : opening.kind = .less)
    (hline : opening.startsLine = false) (hinner : Enclosed .angle n inner)
    (hclosing : closing.kind = .greater) : ReceiverArguments n (opening :: (inner ++ [closing]))

section
variable {n k : Nat} {t u name point last : Token} {ts rest dotted arguments marks : List Token}
  {names : List (List Token)}

/-- The look-ahead counts these names. -/
theorem chainLength_eq : chainLength n ts = (countedNames n ts).map List.length := by
  fun_induction countedNames n ts <;> simp_all [chainLength, Function.comp_def]

/-- Type arguments are passed like other brackets, up to where a body begins. -/
theorem afterTypeArguments_eq {depth : Nat} : afterTypeArguments depth ts =
    closing? (fun k => !([.endOfFile, .openBrace, .equals].contains k)) depth ts := by
  fun_induction afterTypeArguments depth ts <;> grind [closing?]

theorem length_of_receiverLength (h : receiverLength ts = k + 1) :
    ∃ names, countedNames ts.length ts = some names ∧ names.length = k + 2 := by
  rw [receiverLength, chainLength_eq] at h
  cases hnames : countedNames ts.length ts with
  | none => simp [hnames] at h
  | some names =>
    rw [hnames] at h
    exact ⟨names, rfl, by simp only [Option.map_some, Option.getD_some] at h; omega⟩

/-- The first of the names is in front, and the others are counted after its marks and a point. -/
theorem countedNames_cons (h : countedNames n (t :: ts) = some names) (hlength : names.length = k + 1) :
    t.kind.isName = true ∧ ∃ more, names = (t :: ts) :: more ∧ (k ≠ 0 → ∃ next after m,
      afterNameMarks ts = some (next :: after) ∧ (next.kind = .dot ∨ next.kind = .questionDot) ∧
      countedNames m after = some more) := by
  have hne : names ≠ [] := List.ne_nil_of_length_eq_add_one hlength
  cases n with
  | zero => exact absurd (Option.some.inj h).symm hne
  | succ n =>
    rw [countedNames] at h
    split_ifs at h with hname
    · refine ⟨hname, ?_⟩
      split at h
      -- After the name stand marks and an operator, or the count ends here.
      · cases h
      · rename_i next after hmarks
        split_ifs at h with hpoint
        · obtain ⟨more, hmore, rfl⟩ := Option.map_eq_some_iff.mp h
          exact ⟨more, rfl, fun _ => ⟨next, after, n, hmarks, by simpa using hpoint, hmore⟩⟩
        · obtain rfl := Option.some.inj h
          exact ⟨[], rfl, fun hk => absurd (Nat.succ.inj hlength).symm hk⟩
      · obtain rfl := Option.some.inj h
        exact ⟨[], rfl, fun hk => absurd (Nat.succ.inj hlength).symm hk⟩
    · exact absurd (Option.some.inj h).symm hne

/-- A name is counted after its point. -/
theorem afterNameMarks_dot (ht : t.kind = .dot) : afterNameMarks (t :: ts) = some (t :: ts) := by
  simp [afterNameMarks, pastTypeArguments, pastQuestion, ht]

/-- Nothing but type arguments and one question mark is in front of a point that is counted. -/
theorem afterNameMarks_eq (harguments : ReceiverArguments n arguments) (hmarks : Marks marks)
    (hpoint : point.kind = .dot ∨ point.kind = .questionDot) (ht : t.kind = .dot ∨ t.kind = .questionDot)
    (h : afterNameMarks (arguments ++ (marks ++ point :: rest)) = some (t :: ts)) :
    t = point ∧ ts = rest := by
  obtain ⟨after, hafter, hquestion⟩ := Option.map_eq_some_iff.mp h
  have hpast : after = marks ++ point :: rest := by
    cases harguments with
    | none =>
      obtain ⟨first, more, hsplit, hfirst⟩ := hmarks.starts point rest
      have hless : first.kind ≠ .less := by
        obtain rfl | hk := hfirst
        · obtain hk | hk := hpoint <;> simp [hk]
        · simp [hk]
      rw [List.nil_append, hsplit, pastTypeArguments, if_neg hless] at hafter
      rw [hsplit, Option.some.inj hafter]
    | list hopening _ hinner hclosing =>
      rw [List.cons_append, List.append_assoc, pastTypeArguments, if_pos hopening,
        afterTypeArguments_eq] at hafter
      exact hinner.closing?_eq hclosing hafter
  rw [hpast] at hquestion
  match marks, hmarks with
  | [], _ =>
    have hk : point.kind ≠ .question := by obtain hk | hk := hpoint <;> simp [hk]
    rw [List.nil_append, pastQuestion, if_neg hk] at hquestion
    exact ⟨(List.cons.inj hquestion).1.symm, (List.cons.inj hquestion).2.symm⟩
  | [mark], hmarks =>
    rw [List.singleton_append, pastQuestion, if_pos (hmarks mark List.mem_cons_self).1] at hquestion
    exact ⟨(List.cons.inj hquestion).1.symm, (List.cons.inj hquestion).2.symm⟩
  | mark :: second :: marks, hmarks =>
    -- After a second question mark, nothing is counted.
    rw [List.cons_append, pastQuestion, if_pos (hmarks mark List.mem_cons_self).1] at hquestion
    have hk := (hmarks second (List.mem_cons_of_mem _ List.mem_cons_self)).1
    rw [(List.cons.inj hquestion).1] at hk
    simp [hk] at ht

/-- The look-ahead counts the names of a receiver and the one after it. -/
theorem countedNames_receiver (hdotted : Dotted dotted) (hcount : dotted.length = 2 * k)
    (harguments : ReceiverArguments n arguments) (hmarks : Marks marks)
    (hpoint : point.kind = .dot ∨ point.kind = .questionDot) {m : Nat}
    (h : countedNames m (name :: (dotted ++ (arguments ++ (marks ++ point :: last :: rest)))) = some names)
    (hlength : names.length = k + 2) :
    names.getLast? = some (last :: rest) ∧ name.kind.isName = true ∧ last.kind.isName = true := by
  -- Each name but the one before the last has a point right after it, and is counted by itself.
  induction hdotted generalizing k m name names with
  | nil =>
    obtain rfl : k = 0 := by simp only [List.length_nil] at hcount; omega
    obtain ⟨hname, more, rfl, hafter⟩ := countedNames_cons h hlength
    obtain ⟨next, after, m', hnext, hsign, hmore⟩ := hafter (Nat.succ_ne_zero 0)
    obtain ⟨rfl, rfl⟩ := afterNameMarks_eq harguments hmarks hpoint hsign hnext
    have hlength : more.length = 0 + 1 := Nat.succ.inj hlength
    obtain ⟨hlast, others, rfl, -⟩ := countedNames_cons hmore hlength
    obtain rfl := List.eq_nil_of_length_eq_zero (Nat.succ.inj hlength)
    exact ⟨rfl, hname, hlast⟩
  | @name dot second ts hdot hsecond _ ih =>
    obtain ⟨k, rfl⟩ : ∃ l, k = l + 1 := ⟨k - 1, by simp only [List.length_cons] at hcount; omega⟩
    obtain ⟨hname, more, rfl, hafter⟩ := countedNames_cons h hlength
    obtain ⟨next, after, m', hnext, -, hmore⟩ := hafter (Nat.succ_ne_zero (k + 1))
    rw [List.cons_append, afterNameMarks_dot hdot] at hnext
    obtain ⟨rfl, rfl⟩ := List.cons.inj (Option.some.inj hnext)
    have hlength : more.length = k + 2 := Nat.succ.inj hlength
    have hcount : ts.length = 2 * k := by simp only [List.length_cons] at hcount; omega
    obtain ⟨hgetLast, -, hlast⟩ := ih hcount hmore hlength
    obtain ⟨first, others, rfl⟩ := List.exists_cons_of_length_eq_add_one hlength
    exact ⟨hgetLast, hname, hlast⟩

variable {s s' : State} {d : Nat} {o : Option NodeId}

/-- So many names are taken, whatever comes after them. -/
theorem limitedChain_takes {start limit count fuel : Nat} {left : NodeId} {star : Array NodeId}
    {r : NodeId × Nat × Array NodeId} (hdotted : Dotted dotted)
    (hcount : 2 * limit = 2 * count + dotted.length) (hfuel : dotted.length < fuel) (hne : rest ≠ [])
    (hs : s.At (dotted ++ rest) d)
    (h : Runs (repeatUpTo (nameChainStep (some limit) false start) fuel (left, count, star)) s r s') :
    s'.At rest d := by
  induction hdotted generalizing fuel s left count star with
  | nil =>
    obtain ⟨fuel, rfl⟩ := Nat.exists_eq_add_one.mpr (Nat.zero_lt_of_lt hfuel)
    obtain ⟨x, s₁, hr, h⟩ := runs_bind.mp h
    -- As many names have been taken as the limit allows, so the next dot is left.
    have hlimit : ¬ count < limit := by simp only [List.length_nil] at hcount; omega
    obtain ⟨hmore, -⟩ | ⟨-, hr⟩ := runs_ite.mp (runs_bind_isAt.mp hr)
    · simp [hlimit] at hmore
    · obtain ⟨rfl, rfl⟩ := runs_pure.mp hr
      obtain ⟨-, rfl⟩ := runs_pure.mp h
      exact hs
  | @name dot second ts hdot hsecond _ ih =>
    rw [List.length_cons, List.length_cons] at hcount hfuel
    obtain ⟨fuel, rfl⟩ := Nat.exists_eq_add_one.mpr (Nat.zero_lt_of_lt hfuel)
    obtain ⟨x, s₁, hr, h⟩ := runs_bind.mp h
    -- A dot and a name are two tokens, so one more name is within the limit.
    have hlimit : count < limit := by omega
    obtain ⟨-, hr⟩ | ⟨hnot, -⟩ := runs_ite.mp (runs_bind_isAt.mp hr)
    · obtain ⟨-, hr⟩ | ⟨hnot, -⟩ := runs_ite.mp (runs_bind_peek.mp hr)
      · obtain ⟨_, s₂, hb, hr⟩ := runs_bind.mp hr
        obtain ⟨_, s₃, hn, hr⟩ := runs_bind.mp hr
        obtain ⟨_, s₄, ha, hr⟩ := runs_bind.mp hr
        obtain ⟨rfl, rfl⟩ := runs_pure.mp hr
        have hleft := ((hs.bump (by simp) hb).bumpName (by simp [hne]) hsecond hn).2.node ha
        exact ih (by omega) (by omega) hleft h
      · rw [hs.nextKind] at hnot
        exact absurd hsecond hnot
    · simp [hs.current, hdot, hlimit] at hnot

theorem limitedNameChain_takes {found : Option NodeId × Array NodeId} (hname : name.kind.isName = true)
    (hdotted : Dotted dotted) (hcount : dotted.length = 2 * k) (hne : rest ≠ [])
    (hs : s.At (name :: (dotted ++ rest)) d) (h : Runs (nameChain (some (k + 1)) false) s found s') :
    s'.At rest d := by
  obtain ⟨first, s₁, hfirst, h⟩ := runs_bind.mp (runs_bind_place.mp h)
  obtain ⟨⟨first, rfl⟩, hleft⟩ := hs.bumpName (by simp [hne]) hname hfirst
  obtain ⟨⟨left, count, star⟩, s₂, hr, h⟩ := runs_bind.mp h
  obtain ⟨-, rfl⟩ := runs_pure.mp h
  have hlength := congrArg List.length hleft.tokens
  rw [State.tokens, List.length_cons, List.length_append] at hlength
  exact limitedChain_takes hdotted (by omega) (by omega) hne hleft (runs_bind_get.mp hr)

/-- Type arguments of a receiver are taken if there are any. -/
theorem receiverArguments_faces {α : Type} {rec : Productions} (hrec : ReadsTypes rec n d)
    (after : Array NodeId × Array NodeId → Parser α) {cs : Array NodeId} {a : α}
    (harguments : ReceiverArguments n arguments) (hu : u.kind ≠ .less)
    (hs : s.Faces (arguments ++ u :: rest) d)
    (h : Runs (if (decide (s.current.kind = .less) && !s.current.startsLine) = true then do
        let (list, found) ← typeArgumentList rec
        after (cs.push list, found) else after (cs, #[])) s a s') :
    ∃ found s₁, s₁.Faces (u :: rest) d ∧ Runs (after found) s₁ a s' := by
  cases harguments with
  | none =>
    obtain ⟨hless, -⟩ | ⟨-, h⟩ := runs_ite.mp h
    · simp [hs.current, hu] at hless
    · exact ⟨_, s, hs, h⟩
  | list hopening hline hinner hclosing =>
    rw [List.cons_append, List.append_assoc, List.singleton_append] at hs
    obtain ⟨-, h⟩ | ⟨hnot, -⟩ := runs_ite.mp h
    · obtain ⟨⟨list, found⟩, s₁, hl, h⟩ := runs_bind.mp h
      exact ⟨_, s₁, typeArgumentList_faces hrec hinner hclosing (by simp) hs hl, h⟩
    · simp [hs.current, hopening, hline] at hnot

/-- What is after the first name of a receiver is no parenthesis. -/
theorem receiver_nextKind (hdotted : Dotted dotted) (harguments : ReceiverArguments n arguments)
    (hmarks : Marks marks) (hpoint : point.kind = .dot ∨ point.kind = .questionDot)
    (hs : s.At (name :: (dotted ++ (arguments ++ (marks ++ point :: rest)))) d) :
    s.nextKind ≠ .openParen := by
  obtain ⟨v, more, hsplit, hv⟩ : ∃ v more, dotted ++ (arguments ++ (marks ++ point :: rest)) = v :: more ∧
      v.kind ≠ .openParen := by
    cases hdotted with
    | name hdot _ _ => exact ⟨_, _, rfl, by simp [hdot]⟩
    | nil =>
      cases harguments with
      | list hopening _ _ _ => exact ⟨_, _, rfl, by simp [hopening]⟩
      | none =>
        obtain ⟨v, more, hsplit, rfl | hk⟩ := hmarks.starts point rest
        · exact ⟨v, more, hsplit, by obtain hk | hk := hpoint <;> simp [hk]⟩
        · exact ⟨v, more, hsplit, by simp [hk]⟩
  rw [hsplit] at hs
  exact hs.nextKind ▸ hv

/-- The names of a receiver are taken with what belongs to the last of them. -/
theorem namedReceiver_takes {rec : Productions} (hrec : ReadsTypes rec n d) {start : Nat} {cs : Array NodeId}
    (hname : name.kind.isName = true) (hdotted : Dotted dotted) (hcount : dotted.length = 2 * k)
    (harguments : ReceiverArguments n arguments) (hmarks : Marks marks)
    (hpoint : point.kind = .dot ∨ point.kind = .questionDot) (hlast : last.kind.isName = true)
    (hs : s.Faces (name :: (dotted ++ (arguments ++ (marks ++ point :: last :: rest)))) d)
    (h : Runs (namedType rec (some (k + 1)) start cs) s o s') :
    (∃ id, o = some id) ∧ s'.At (point :: last :: rest) d := by
  have hpoint' : point.kind ≠ .question ∧ point.kind ≠ .less := by
    obtain hk | hk := hpoint <;> simp [hk]
  obtain ⟨⟨chain, star⟩, s₁, hchain, h⟩ := runs_bind.mp h
  have h := runs_bind_startsLine.mp (runs_bind_isAt.mp h)
  extract_lets afterArguments at h
  -- The chain ends by its limit: a point that comes next would be taken by a chain without one.
  have hnamed := limitedNameChain_takes hname hdotted hcount (by simp) hs.toAt hchain
  have hwords : Worded (arguments ++ (marks ++ point :: last :: rest)) := fun t ht =>
    hs.words t (List.mem_cons_of_mem _ (List.mem_append_right _ ht))
  obtain ⟨v, more, hsplit, hv⟩ := hmarks.starts point (last :: rest)
  have hless : v.kind ≠ .less := by
    obtain rfl | hk := hv
    · exact hpoint'.2
    · simp [hk]
  rw [hsplit] at hnamed hwords
  obtain ⟨found, s₂, hargs, h⟩ :=
    receiverArguments_faces hrec afterArguments harguments hless ⟨hnamed, hwords⟩ h
  have hleft : s₂.At (marks ++ point :: last :: rest) d := hsplit ▸ hargs.toAt
  obtain ⟨hreceiver, -⟩ | ⟨-, h⟩ := runs_ite.mp (runs_bind_peek.mp (runs_bind_isAt.mp h))
  · -- No function type starts after the point, but the name that is declared.
    simp only [Bool.and_eq_true, decide_eq_true_iff] at hreceiver
    cases marks with
    | nil =>
      rw [hleft.nextKind] at hreceiver
      exact absurd hreceiver.2 (TokenKind.ne_of_isName hlast).2.1.1
    | cons mark marks =>
      rw [hleft.current, (hmarks mark List.mem_cons_self).1] at hreceiver
      cases hreceiver.1
  · exact finishType_takes hmarks hpoint'.1 hleft h

/-- A receiver is taken up to the point after it. -/
theorem receiverType_takes {rec : Productions} (hrec : ReadsTypes rec n (d + 1)) (hd : d < maxDepth)
    (hname : name.kind.isName = true) (hdotted : Dotted dotted) (hcount : dotted.length = 2 * k)
    (harguments : ReceiverArguments n arguments) (hmarks : Marks marks)
    (hpoint : point.kind = .dot ∨ point.kind = .questionDot) (hlast : last.kind.isName = true)
    (hs : s.Faces (name :: (dotted ++ (arguments ++ (marks ++ point :: last :: rest)))) d)
    (h : Runs (typeReference rec (some (k + 1))) s o s') :
    (∃ id, o = some id) ∧ s'.At (point :: last :: rest) d := by
  obtain ⟨s₁, s₂, hs₁, h, hback⟩ := hs.toAt.of_nested hd (runs_bind_place.mp h)
  -- The first name is no annotation, no word of a function type and no parenthesis.
  have h := runs_bind_isAt.mp h
  extract_lets afterAnnotations at h
  obtain ⟨hat, -⟩ | ⟨-, h⟩ := runs_ite.mp h
  · rw [hs₁.current] at hat
    exact absurd (of_decide_eq_true hat) (TokenKind.ne_of_isName hname).2.1.2
  have h : Runs (typeAfterAnnotations rec (some (k + 1)) _ #[]) s₁ o s₂ := h
  have h := runs_bind_peek.mp (runs_bind_isAtText.mp h)
  extract_lets afterSuspend at h
  obtain ⟨hword, -⟩ | ⟨-, h⟩ := runs_ite.mp h
  · have hnext := receiver_nextKind hdotted harguments hmarks hpoint hs₁
    simp [hnext] at hword
  have h : Runs (afterSuspend #[]) s₁ o s₂ := h
  obtain ⟨hparen, -⟩ | ⟨-, h⟩ := runs_ite.mp (runs_bind_isAt.mp h)
  · rw [hs₁.current] at hparen
    exact absurd (of_decide_eq_true hparen) (TokenKind.ne_of_isName hname).2.1.1
  obtain ⟨-, h⟩ | ⟨hnot, -⟩ := runs_ite.mp (runs_bind_isAtName.mp h)
  · obtain ⟨hsome, hend⟩ := namedReceiver_takes hrec hname hdotted hcount harguments hmarks hpoint hlast
      ⟨hs₁, hs.words⟩ h
    exact ⟨hsome, hback _ hend⟩
  · exact absurd (hs₁.current ▸ hname) hnot

/-- The point after a receiver is taken with it. -/
theorem receiverIfAny_takes {rec : Productions} {cs : Array NodeId} {found : Array NodeId × Option NodeId}
    (hlength : receiverLength s.tokens = k + 1) (hpoint : point.kind = .dot ∨ point.kind = .questionDot)
    (hreceiver : ∀ o s₁, Runs (rec (.typeReference (some (k + 1)))) s o s₁ →
      (∃ id, o = some id) ∧ s₁.At (point :: last :: rest) d)
    (h : Runs (receiverIfAny rec cs) s found s') : s'.At (last :: rest) d := by
  obtain ⟨hnone, -⟩ | ⟨-, h⟩ := runs_ite.mp (runs_bind_get.mp h)
  · rw [hlength] at hnone
    cases hnone
  rw [hlength] at h
  obtain ⟨receiver, s₁, hr, h⟩ := runs_bind.mp h
  obtain ⟨⟨id, rfl⟩, hleft⟩ := hreceiver receiver s₁ hr
  -- A safe operator is noted at the type, which takes no token; any other is eaten.
  obtain ⟨-, h⟩ | ⟨hnot, h⟩ := runs_ite.mp (runs_bind_isAt.mp h)
  · obtain ⟨sign, s₂, hb, h⟩ := runs_bind.mp h
    obtain ⟨⟨⟩, s₃, hc, h⟩ := runs_bind.mp h
    obtain ⟨-, rfl⟩ := runs_pure.mp h
    have htaken := hleft.bump (by simp) hb
    obtain rfl := runs_change.mp hc
    exact ⟨htaken.tokens, htaken.depth⟩
  · obtain ⟨sign, s₂, he, h⟩ := runs_bind.mp h
    obtain ⟨-, rfl⟩ := runs_pure.mp h
    have hdot : point.kind = .dot := hpoint.resolve_right fun hk => hnot (by simp [hleft.current, hk])
    rw [← hdot] at he
    obtain ⟨-, -, -, hend⟩ := hleft.eat (by simp) he
    exact hend

/-- Where the parse of a receiver ends, from the first name on. -/
def receiverEnd (rec : Productions) (s : State) : State := (Id.run ((receiverIfAny rec #[]).run s)).2

/-- A name is taken with its text. -/
theorem bumpName_leafText (h : s.current.kind.isName = true) (hb : Runs bumpName s o s') :
    s'.forest.leafText o = s.current.text := by
  obtain ⟨-, hb⟩ | ⟨hnot, -⟩ := runs_ite.mp (runs_bind_isAtName.mp hb)
  · obtain ⟨id, s₁, htaken, hname⟩ := runs_bind.mp hb
    obtain ⟨rfl, rfl⟩ := runs_pure.mp hname
    obtain ⟨rfl, rfl⟩ := runs_bumpAs.mp htaken
    have hget := Forest.getElem?_addLeaf s.forest .identifier ⟨s.current.place, s.current.stop⟩
      s.current.leading s.current.text s.current.value s.forest.size
    rw [if_pos rfl] at hget
    rw [State.advance_forest, Forest.leafText, State.leafed, Forest.leaf?_of_getElem? hget]
    rfl
  · exact absurd h hnot

/-- A receiver is read up to the name that the look-ahead counts last, and this name is the declared
one. -/
theorem receiver_end {source : String} {m : Nat} (hsource : s.tokens <:+ Token.ofSource source)
    (hs : s.tokens = name :: (dotted ++ (arguments ++ (marks ++ point :: last :: rest))))
    (hdotted : Dotted dotted) (hcount : dotted.length = 2 * k)
    (harguments : ReceiverArguments n arguments) (hmarks : Marks marks)
    (hpoint : point.kind = .dot ∨ point.kind = .questionDot)
    (hlength : receiverLength s.tokens = k + 1) (hn : n ≤ m) (hd : s.depth + n < maxDepth) :
    lastCounted? s.tokens = some (last :: rest) ∧
      (receiverEnd (productions (m + 1)) s).tokens = last :: rest ∧
      ∀ o s', Runs bumpName (receiverEnd (productions (m + 1)) s) o s' →
        s'.forest.leafText o = last.text := by
  -- The count of names says where the receiver ends; the type takes that many.
  obtain ⟨names, hnames, hcounted⟩ := length_of_receiverLength hlength
  have hlastCounted : lastCounted? s.tokens = names.getLast? := by
    rw [lastCounted?, hnames]
    rfl
  rw [hs] at hnames
  obtain ⟨hgetLast, hname, hlast⟩ :=
    countedNames_receiver hdotted hcount harguments hmarks hpoint hnames hcounted
  have hfaces : s.Faces (name :: (dotted ++ (arguments ++ (marks ++ point :: last :: rest)))) s.depth :=
    ⟨⟨hs, rfl⟩, hs ▸ worded_of_suffix hsource⟩
  have hrec : ReadsTypes (productions m) n (s.depth + 1) := productions_readsTypes hn (by omega)
  have hend : (receiverEnd (productions (m + 1)) s).At (last :: rest) s.depth := by
    refine receiverIfAny_takes hlength hpoint (fun o s₁ hr => ?_) (runs_self (receiverIfAny _ #[]) s)
    exact receiverType_takes hrec (by omega) hname hdotted hcount harguments hmarks hpoint hlast hfaces hr
  refine ⟨hlastCounted.trans hgetLast, hend.tokens, fun o s' hb => ?_⟩
  rw [bumpName_leafText (hend.current ▸ hlast) hb, hend.current]

end

/-- A nullable receiver in a package, with an annotation in it and its point on the next line. -/
def nullableReceiver : State := .ofSource "a.kt" "a.B<@C D>?\n.d()"

theorem receiver_end_nullable :
    (receiverEnd (productions 2) nullableReceiver).tokens = nullableReceiver.tokens.drop 10 := by
  let b : Token := ⟨.identifier, {}, "", "B", 2⟩
  let c : Token := ⟨.identifier, {}, "", "C", 5⟩
  let d : Token := ⟨.identifier, {}, " ", "D", 6⟩
  let sign : Token := ⟨.atSign, {}, "", "@", 4⟩
  -- The receiver is derived by hand: a dotted name, an annotation between angle brackets, and a
  -- question mark.
  have hdotted : Dotted [⟨.dot, {}, "", ".", 1⟩, b] := .name rfl rfl .nil
  have hnamed : AnnotationName d [c] := .dotted rfl .nil (by decide)
  have hinner : Enclosed .angle 1 (sign :: ([c] ++ [d])) :=
    .annotated rfl hnamed (fun _ => by decide) (.token rfl (fun hb => nomatch hb) .nil)
  have harguments : ReceiverArguments 1
      (⟨.less, {}, "", "<", 3⟩ :: (sign :: ([c] ++ [d]) ++ [⟨.greater, {}, "", ">", 8⟩])) :=
    .list rfl (by decide +kernel) hinner rfl
  have hmarks : Marks [⟨.question, {}, "", "?", 9⟩] := by
    rintro t ht
    obtain rfl := List.mem_singleton.mp ht
    exact ⟨rfl, by decide +kernel⟩
  have hs : nullableReceiver.tokens = ⟨.identifier, {}, "", "a", 0⟩ ::
      ([⟨.dot, {}, "", ".", 1⟩, b] ++
        ((⟨.less, {}, "", "<", 3⟩ :: (sign :: ([c] ++ [d]) ++ [⟨.greater, {}, "", ">", 8⟩])) ++
        ([⟨.question, {}, "", "?", 9⟩] ++ ⟨.dot, {}, "\n", ".", 10⟩ ::
          ⟨.identifier, {}, "", "d", 12⟩ :: [⟨.openParen, {}, "", "(", 13⟩,
            ⟨.closeParen, {}, "", ")", 14⟩, ⟨.endOfFile, {}, "", "", 15⟩]))) := by
    decide +kernel
  have hsource : nullableReceiver.tokens <:+ Token.ofSource "a.B<@C D>?\n.d()" := ⟨[], by decide +kernel⟩
  -- The look-ahead counts the names that belong to the receiver.
  have hlength : receiverLength nullableReceiver.tokens = 1 + 1 := by decide +kernel
  obtain ⟨-, hend, -⟩ := receiver_end hsource hs hdotted rfl harguments hmarks (.inl rfl) hlength le_rfl
    (by decide +kernel)
  rw [hend, hs]
  rfl

/-- From the first name on, the parse of a receiver ends at the name that the look-ahead counts last. -/
def EndsAtCountedName (s : State) : Prop :=
  0 < receiverLength s.tokens → lastCounted? s.tokens =
    some (receiverEnd (productions (nestingBound s.tokens.length)) s).tokens

instance (s : State) : Decidable (EndsAtCountedName s) := inferInstanceAs (Decidable (_ → _ = _))

/-- A receiver at the deepest level, where types are kept as they are. -/
def deepReceiver : State := { State.ofSource "a.kt" "A.b() = 1" with depth := maxDepth }

/-- A receiver with type arguments before its last name. -/
def innerReceiver : State := .ofSource "a.kt" "A<B>.C.d() = 1"

theorem not_endsAtCountedName : ¬ EndsAtCountedName deepReceiver ∧ ¬ EndsAtCountedName innerReceiver := by
  decide +kernel

end KotlinTree.Grammar
