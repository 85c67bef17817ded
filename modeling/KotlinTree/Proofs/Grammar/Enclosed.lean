import KotlinTree.Proofs.Grammar.TypeTokens

/-!
Tokens between brackets, in the way that the parse of types goes through them, whether they are types or
not: which brackets pair up, and how deep types are nested. Main statement: the look-ahead for type
arguments ends at the bracket that closes them.
-/

namespace KotlinTree.Grammar

/-- A pair of brackets around types. -/
inductive Bracket where
  | angle
  | paren
  deriving DecidableEq, Repr

namespace Bracket

/-- What closes a bracket. -/
def closer : Bracket → TokenKind
  | .angle => .greater
  | .paren => .closeParen

/-- A token that opens nothing, and closes nothing between these brackets. Between angle brackets, a
parenthesis that closes is kept like any other token. -/
def passes (b : Bracket) (k : TokenKind) : Bool :=
  !([.less, .greater, .openParen, .endOfFile, .atSign].contains k) && k ≠ b.closer

/-- No part of a type between these brackets goes on here. -/
def Ends (b : Bracket) (k : TokenKind) : Prop := k = b.closer ∨ k = .comma

end Bracket

/-- Tokens between brackets in which types are nested at most `n` deep. A bracket for type arguments is
right after a name and on its line, and each bracket is closed before the one around it. -/
inductive Enclosed : Bracket → Nat → List Token → Prop
  | nil {b : Bracket} {n : Nat} : Enclosed b n []
  -- In parentheses, a name and a colon are read as the name of a parameter, which needs a type.
  | token {b : Bracket} {n : Nat} {t : Token} {ts : List Token} (ht : b.passes t.kind = true)
    (hnamed : b = .paren → t.kind.isName = true → ∀ u, ts = [u] → u.kind ≠ .colon)
    (rest : Enclosed b (n + 1) ts) : Enclosed b (n + 1) (t :: ts)
  | arguments {b : Bracket} {n : Nat} {name opening closing : Token} {inner ts : List Token}
    (hname : name.kind.isName = true) (hopening : opening.kind = .less)
    (hline : opening.startsLine = false) (hinner : Enclosed .angle n inner)
    (hclosing : closing.kind = .greater) (rest : Enclosed b (n + 1) ts) :
    Enclosed b (n + 1) (name :: opening :: (inner ++ closing :: ts))
  | group {b : Bracket} {n : Nat} {opening closing : Token} {inner ts : List Token}
    (hopening : opening.kind = .openParen) (hinner : Enclosed .paren n inner)
    (hclosing : closing.kind = .closeParen) (harrow : ∀ t ∈ ts.head?, t.kind ≠ .arrow)
    (rest : Enclosed b (n + 1) ts) : Enclosed b (n + 1) (opening :: (inner ++ closing :: ts))
  -- The result of a function type is one level deeper, up to the next comma.
  | function {b : Bracket} {n : Nat} {opening closing arrow : Token} {inner result ts : List Token}
    (hopening : opening.kind = .openParen) (hinner : Enclosed .paren (n + 1) inner)
    (hclosing : closing.kind = .closeParen) (harrow : arrow.kind = .arrow)
    (hresult : Enclosed b (n + 1) result) (hcomma : ∀ t ∈ ts.head?, t.kind = .comma)
    (rest : Enclosed b (n + 2) ts) :
    Enclosed b (n + 2) (opening :: (inner ++ closing :: arrow :: (result ++ ts)))
  -- An annotation stands before something, and has no arguments.
  | annotated {b : Bracket} {n : Nat} {sign next : Token} {named ts : List Token}
    (hsign : sign.kind = .atSign) (hnamed : AnnotationName next named) (hnext : EndsAnnotationUse next)
    (rest : Enclosed b (n + 1) (next :: ts)) : Enclosed b (n + 1) (sign :: (named ++ next :: ts))

/-- What may be after a name between brackets: its type arguments, or what else is between them. -/
inductive AfterName (b : Bracket) (n : Nat) : List Token → Prop
  | arguments {opening closing : Token} {inner ts : List Token} (hopening : opening.kind = .less)
    (hline : opening.startsLine = false) (hinner : Enclosed .angle n inner)
    (hclosing : closing.kind = .greater) (rest : Enclosed b (n + 1) ts) :
    AfterName b n (opening :: (inner ++ closing :: ts))
  | other {ts : List Token} (h : Enclosed b (n + 1) ts) : AfterName b n ts

section
variable {b : Bracket} {n m : Nat} {t u : Token} {ts us rest : List Token} {k : TokenKind}

theorem Bracket.ne_of_passes (h : b.passes k = true) :
    k ≠ .less ∧ k ≠ .greater ∧ k ≠ .openParen ∧ k ≠ .endOfFile ∧ k ≠ .atSign ∧ k ≠ b.closer := by
  unfold passes at h
  simp_all

theorem Bracket.Ends.ne (h : b.Ends k) :
    k ≠ .less ∧ k ≠ .openParen ∧ k ≠ .atSign ∧ k ≠ .dot ∧ k ≠ .question ∧ k ≠ .arrow ∧
      k.isName = false := by
  rcases h with rfl | rfl
  · cases b <;> decide
  · decide

theorem TokenKind.ne_of_isName (h : k.isName = true) :
    k ≠ .less ∧ (k ≠ .openParen ∧ k ≠ .atSign) ∧ k ≠ .dot ∧ k ≠ .colon ∧ k ≠ .greater := by
  refine ⟨?_, ⟨?_, ?_⟩, ?_, ?_, ?_⟩ <;> (rintro rfl; cases h)

namespace Enclosed

theorem mono (h : Enclosed b n ts) (hn : n ≤ m) : Enclosed b m ts := by
  induction h generalizing m with
  | nil => exact .nil
  | token ht hnamed _ ih =>
    obtain ⟨m, rfl⟩ := Nat.exists_eq_add_of_lt hn
    exact .token ht hnamed (ih (by omega))
  | arguments hname hopening hline _ hclosing _ ihinner ih =>
    obtain ⟨m, rfl⟩ := Nat.exists_eq_add_of_lt hn
    exact .arguments hname hopening hline (ihinner (by omega)) hclosing (ih (by omega))
  | group hopening _ hclosing harrow _ ihinner ih =>
    obtain ⟨m, rfl⟩ := Nat.exists_eq_add_of_lt hn
    exact .group hopening (ihinner (by omega)) hclosing harrow (ih (by omega))
  | function hopening _ hclosing harrow _ hcomma _ ihinner ihresult ih =>
    obtain ⟨m, rfl⟩ : ∃ k, m = k + 2 := ⟨m - 2, by omega⟩
    exact .function hopening (ihinner (by omega)) hclosing harrow (ihresult (by omega)) hcomma
      (ih (by omega))
  | annotated hsign hnamed hnext _ ih =>
    obtain ⟨m, rfl⟩ := Nat.exists_eq_add_of_lt hn
    exact .annotated hsign hnamed hnext (ih (by omega))

/-- No level, no tokens. -/
theorem pos (h : Enclosed b n (t :: ts)) : 0 < n := by
  cases h <;> exact Nat.succ_pos _

/-- What is read up to a comma goes on after it. -/
theorem append (h : Enclosed b n us) (hts : Enclosed b n ts)
    (hcomma : ∀ t ∈ ts.head?, t.kind = .comma) : Enclosed b n (us ++ ts) := by
  have hhead {us : List Token} (p : TokenKind → Prop) (hp : p .comma)
      (hus : ∀ t ∈ us.head?, p t.kind) : ∀ t ∈ (us ++ ts).head?, p t.kind := by
    cases us with
    | nil => exact fun t ht => hcomma t ht ▸ hp
    | cons u us => exact hus
  induction h with
  | nil => exact hts
  | token ht hnamed _ ih =>
    refine .token ht (fun hb hname u hu => ?_) (ih hts)
    -- The one token that is left is the last of the first part, or the comma.
    rcases List.append_eq_singleton_iff.mp hu with ⟨-, rfl⟩ | ⟨rfl, -⟩
    · rw [hcomma u rfl]
      decide
    · exact hnamed hb hname u rfl
  | arguments hname hopening hline hinner hclosing _ _ ih =>
    rw [List.cons_append, List.cons_append, List.append_assoc, List.cons_append]
    exact .arguments hname hopening hline hinner hclosing (ih hts)
  | group hopening hinner hclosing harrow _ _ ih =>
    rw [List.cons_append, List.append_assoc, List.cons_append]
    exact .group hopening hinner hclosing (hhead (· ≠ .arrow) (by decide) harrow) (ih hts)
  | function hopening hinner hclosing harrow hresult hcomma _ _ _ ih =>
    rw [List.cons_append, List.append_assoc, List.cons_append, List.cons_append, List.append_assoc]
    exact .function hopening hinner hclosing harrow hresult (hhead (· = .comma) rfl hcomma)
      (ih hts)
  | annotated hsign hnamed hnext _ ih =>
    rw [List.cons_append, List.append_assoc, List.cons_append]
    exact .annotated hsign hnamed hnext (ih hts)

/-- No bracket for type arguments is without a name, and what closes is not between the brackets. -/
theorem head_ne (h : Enclosed b n (t :: ts)) :
    t.kind ≠ .less ∧ t.kind ≠ .endOfFile ∧ t.kind ≠ b.closer := by
  cases h with
  | token ht _ _ =>
    obtain ⟨hless, -, -, hend, -, hcloser⟩ := Bracket.ne_of_passes ht
    exact ⟨hless, hend, hcloser⟩
  | arguments hname _ _ _ _ _ =>
    refine ⟨?_, ?_, ?_⟩ <;> (intro hk; rw [hk] at hname; cases b <;> cases hname)
  | group hopening _ _ _ _ =>
    rw [hopening]
    cases b <;> decide
  | function hopening _ _ _ _ _ _ =>
    rw [hopening]
    cases b <;> decide
  | annotated hsign _ _ _ =>
    rw [hsign]
    cases b <;> decide

/-- A name is followed by its type arguments or by what else is between the brackets. -/
theorem afterName (h : Enclosed b (n + 1) (t :: ts)) (ht : t.kind.isName = true) :
    AfterName b n ts := by
  obtain ⟨-, ⟨hopen, hat⟩, -⟩ := TokenKind.ne_of_isName ht
  cases h with
  | token _ _ hrest => exact .other hrest
  | arguments _ hopening hline hinner hclosing hrest =>
    exact .arguments hopening hline hinner hclosing hrest
  | group hopening _ _ _ _ => exact absurd hopening hopen
  | function hopening _ _ _ _ _ _ => exact absurd hopening hopen
  | annotated hsign _ _ _ => exact absurd hsign hat

/-- A sign of annotations has its name after it, and something else. -/
theorem afterSign (h : Enclosed b n (t :: ts)) (ht : t.kind = .atSign) :
    ∃ named next us, ts = named ++ next :: us ∧ AnnotationName next named ∧ EndsAnnotationUse next ∧
      Enclosed b n (next :: us) := by
  cases h with
  | token hpass _ _ => exact absurd ht (Bracket.ne_of_passes hpass).2.2.2.2.1
  | arguments hname _ _ _ _ _ => exact absurd ht (TokenKind.ne_of_isName hname).2.1.2
  | group hopening _ _ _ _ =>
    rw [hopening] at ht
    cases ht
  | function hopening _ _ _ _ _ _ =>
    rw [hopening] at ht
    cases ht
  | annotated _ hnamed hnext hrest => exact ⟨_, _, _, rfl, hnamed, hnext, hrest⟩

/-- What is no parenthesis and no sign of annotations stands alone, unless it is a name with type
arguments. -/
theorem tail (h : Enclosed b n (t :: ts)) (ht : t.kind ≠ .openParen ∧ t.kind ≠ .atSign)
    (hnext : t.kind.isName = true → ∀ u ∈ ts.head?, u.kind ≠ .less) : Enclosed b n ts := by
  cases h with
  | token _ _ hrest => exact hrest
  | arguments hname hopening _ _ _ _ => exact absurd hopening (hnext hname _ rfl)
  | group hopening _ _ _ _ => exact absurd hopening ht.1
  | function hopening _ _ _ _ _ _ => exact absurd hopening ht.1
  | annotated hsign _ _ _ => exact absurd hsign ht.2

/-- Something comes after the name and the colon of a parameter. -/
theorem ne_nil_of_colon (h : Enclosed b n (t :: u :: ts)) (hb : b = .paren)
    (ht : t.kind.isName = true) (hu : u.kind = .colon) : ts ≠ [] := by
  rintro rfl
  generalize hus : [u] = us at h
  cases h with
  | token _ hnamed _ => exact hnamed hb ht u hus.symm hu
  | arguments _ hopening _ _ _ _ =>
    rw [(List.cons.inj hus).1, hopening] at hu
    cases hu
  | group hopening _ _ _ _ => exact (TokenKind.ne_of_isName ht).2.1.1 hopening
  | function hopening _ _ _ _ _ _ => exact (TokenKind.ne_of_isName ht).2.1.1 hopening
  | annotated hsign _ _ _ => exact (TokenKind.ne_of_isName ht).2.1.2 hsign

end Enclosed

/-- The tokens after the bracket at which a look-ahead that keeps some tokens comes out of all angle
brackets that are open. -/
def closing? (keeps : TokenKind → Bool) : Nat → List Token → Option (List Token)
  | _, [] => none
  | depth, token :: ahead =>
    if token.kind = .less then closing? keeps (depth + 1) ahead
    else if token.kind = .greater then
      if depth ≤ 1 then some ahead else closing? keeps (depth - 1) ahead
    else if keeps token.kind then closing? keeps depth ahead
    else none

/-- The look-ahead looks for a bracket, and at what follows it. -/
theorem typeArgumentsClose_iff {depth : Nat} :
    typeArgumentsClose depth ts = true ↔
      ∃ rest, closing? isInTypeArguments depth ts = some rest ∧ followsTypeArguments rest = true := by
  fun_induction closing? isInTypeArguments depth ts <;> grind [typeArgumentsClose]

section
variable {keeps : TokenKind → Bool} {depth : Nat}

/-- A token that is no angle bracket is passed at the same depth, or the look-ahead gives up. -/
theorem closing?_pass (hless : t.kind ≠ .less) (hgreater : t.kind ≠ .greater)
    (hfound : closing? keeps depth (t :: ts) = some rest) : closing? keeps depth ts = some rest := by
  rw [closing?, if_neg hless, if_neg hgreater] at hfound
  split_ifs at hfound
  exact hfound

theorem closing?_name (ht : t.kind.isName = true)
    (hfound : closing? keeps depth (t :: ts) = some rest) : closing? keeps depth ts = some rest := by
  obtain ⟨hless, -, -, -, hgreater⟩ := TokenKind.ne_of_isName ht
  exact closing?_pass hless hgreater hfound

theorem Dotted.closing? (h : Dotted ts) (hfound : Grammar.closing? keeps depth (ts ++ us) = some rest) :
    Grammar.closing? keeps depth us = some rest := by
  induction h with
  | nil => exact hfound
  | name hdot hname _ ih =>
    rw [List.cons_append, List.cons_append] at hfound
    exact ih (closing?_name hname (closing?_pass (by simp [hdot]) (by simp [hdot]) hfound))

theorem AnnotationName.closing? (h : AnnotationName u ts)
    (hfound : Grammar.closing? keeps depth (ts ++ us) = some rest) :
    Grammar.closing? keeps depth us = some rest := by
  cases h with
  | none _ => exact hfound
  | dotted hname hdotted _ =>
    rw [List.cons_append] at hfound
    exact hdotted.closing? (closing?_name hname hfound)

/-- Tokens between brackets leave the look-ahead as deep as it was before them. -/
theorem Enclosed.closing? (h : Enclosed b n ts) (hdepth : 1 ≤ depth)
    (hfound : Grammar.closing? keeps depth (ts ++ us) = some rest) :
    Grammar.closing? keeps depth us = some rest := by
  -- Inside of type arguments, the look-ahead is one deeper, and it does not come out there.
  induction h generalizing depth us with
  | nil => exact hfound
  | token ht _ _ ih =>
    obtain ⟨hless, hgreater, -⟩ := Bracket.ne_of_passes ht
    exact ih hdepth (closing?_pass hless hgreater hfound)
  | arguments hname hopening _ _ hclosing _ ihinner ih =>
    rw [List.cons_append, List.cons_append, List.append_assoc, List.cons_append] at hfound
    have hopened := closing?_name hname hfound
    rw [Grammar.closing?, if_pos hopening] at hopened
    have hclosed := ihinner (Nat.le_add_left 1 depth) hopened
    rw [Grammar.closing?, if_neg (by simp [hclosing]), if_pos hclosing,
      if_neg (by omega), Nat.add_sub_cancel] at hclosed
    exact ih hdepth hclosed
  | group hopening _ hclosing _ _ ihinner ih =>
    rw [List.cons_append, List.append_assoc, List.cons_append] at hfound
    have hopened := closing?_pass (by simp [hopening]) (by simp [hopening]) hfound
    exact ih hdepth (closing?_pass (by simp [hclosing]) (by simp [hclosing]) (ihinner hdepth hopened))
  | function hopening _ hclosing harrow _ _ _ ihinner ihresult ih =>
    rw [List.cons_append, List.append_assoc, List.cons_append, List.cons_append, List.append_assoc]
      at hfound
    have hopened := closing?_pass (by simp [hopening]) (by simp [hopening]) hfound
    have hclosed := closing?_pass (by simp [hclosing]) (by simp [hclosing]) (ihinner hdepth hopened)
    have hresult := closing?_pass (by simp [harrow]) (by simp [harrow]) hclosed
    exact ih hdepth (ihresult hdepth hresult)
  | annotated hsign hnamed _ _ ih =>
    rw [List.cons_append, List.append_assoc] at hfound
    exact ih hdepth (hnamed.closing? (closing?_pass (by simp [hsign]) (by simp [hsign]) hfound))

end

/-- The look-ahead ends at the bracket that closes the type arguments, if it finds one. -/
theorem Enclosed.closing?_eq {keeps : TokenKind → Bool} {found : List Token}
    (h : Enclosed .angle n ts) (ht : t.kind = .greater)
    (hfound : Grammar.closing? keeps 1 (ts ++ t :: rest) = some found) : found = rest := by
  have hclosed := h.closing? le_rfl hfound
  rw [Grammar.closing?, if_neg (by simp [ht]), if_pos ht, if_pos le_rfl] at hclosed
  exact (Option.some.inj hclosed).symm

end

end KotlinTree.Grammar
