import KotlinTree.Grammar.Unit
import KotlinTree.Proofs.Grammar.Taking

/-!
Which tokens a written type is made of: names with points between them, type arguments, question marks,
and function types. A type is told from what is not one by its first two tokens.
-/

namespace KotlinTree.Grammar

/-- The names after the first one of a dotted name, each with its point. -/
inductive Dotted : List Token → Prop
  | nil : Dotted []
  | name {dot name : Token} {ts : List Token} (hdot : dot.kind = .dot)
    (hname : name.kind.isName = true) (rest : Dotted ts) : Dotted (dot :: name :: ts)

/-- What an annotation in front of a token is named by: names with points between them, or nothing. -/
inductive AnnotationName (u : Token) : List Token → Prop
  | none (hu : u.kind.isName = false) : AnnotationName u []
  | dotted {name : Token} {ts : List Token} (hname : name.kind.isName = true) (hdotted : Dotted ts)
    (hu : u.kind ≠ .dot) : AnnotationName u (name :: ts)

/-- After the name of an annotation, neither its target nor its arguments go on here. -/
def EndsAnnotationUse (u : Token) : Prop :=
  u.leading.isEmpty = true → u.kind ≠ .colon ∧ u.kind ≠ .openParen

/-- A type, perhaps with its variance before it. -/
inductive ProjectionTokens (type : List Token → Prop) : List Token → Prop
  | type {ts : List Token} (h : type ts) : ProjectionTokens type ts
  | variance {word name : Token} {ts : List Token}
    (hword : word.kind = .inKeyword ∨ word.text = "out" ∧ word.kind.isName = true)
    (hname : name.kind = .identifier) (h : type (name :: ts)) :
    ProjectionTokens type (word :: name :: ts)

/-- An argument of a type: a type with its variance, or a star. -/
inductive TypeArgumentTokens (type : List Token → Prop) : List Token → Prop
  | projection {ts : List Token} (h : ProjectionTokens type ts) : TypeArgumentTokens type ts
  | star {asterisk : Token} (h : asterisk.kind = .asterisk) : TypeArgumentTokens type [asterisk]

/-- Type arguments in brackets, on the line of what they belong to, or nothing. -/
inductive TypeArgumentsTokens (type : List Token → Prop) : List Token → Prop
  | none : TypeArgumentsTokens type []
  | list {opening closing : Token} {ts : List Token} (hopening : opening.kind = .less)
    (hline : opening.startsLine = false) (hts : Separated (TypeArgumentTokens type) ts)
    (hclosing : closing.kind = .greater) :
    TypeArgumentsTokens type (opening :: (ts ++ [closing]))

/-- A dotted name with its type arguments. -/
inductive NamedTokens (type : List Token → Prop) : List Token → Prop
  | mk {name : Token} {dotted arguments : List Token} (hname : name.kind.isName = true)
    (hdotted : Dotted dotted) (harguments : TypeArgumentsTokens type arguments) :
    NamedTokens type (name :: (dotted ++ arguments))

/-- Question marks on the line of a type. -/
def Marks (ts : List Token) : Prop := ∀ t ∈ ts, t.kind = .question ∧ t.startsLine = false

/-- A parameter of a function type: a type, perhaps with a name before it. -/
inductive FunctionParameterTokens (type : List Token → Prop) : List Token → Prop
  | type {ts : List Token} (h : type ts) : FunctionParameterTokens type ts
  | named {name colon : Token} {ts : List Token} (hname : name.kind.isName = true)
    (hcolon : colon.kind = .colon) (h : type ts) : FunctionParameterTokens type (name :: colon :: ts)

/-- Types in parentheses, with commas between them. -/
inductive GroupTokens (type : List Token → Prop) : List Token → Prop
  | mk {opening closing : Token} {ts : List Token} (hopening : opening.kind = .openParen)
    (htext : opening.text = "(") (hts : Separated (FunctionParameterTokens type) ts)
    (hclosing : closing.kind = .closeParen) : GroupTokens type (opening :: (ts ++ [closing]))

/-- A type that begins with a parenthesis: a function type, or a group that is nullable. -/
inductive FunctionTokens (type : List Token → Prop) : List Token → Prop
  | function {front result : List Token} {arrow : Token} (hfront : GroupTokens type front)
    (harrow : arrow.kind = .arrow) (hresult : type result) :
    FunctionTokens type (front ++ arrow :: result)
  | nullable {front marks : List Token} {mark : Token} (hfront : GroupTokens type front)
    (hmarks : Marks (mark :: marks)) : FunctionTokens type (front ++ mark :: marks)

/-- What is after the name of a type: question marks, or the function type that it is the receiver of. -/
inductive NamedTail (type : List Token → Prop) : List Token → Prop
  | marks {ts : List Token} (h : Marks ts) : NamedTail type ts
  | receiver {dot : Token} {ts : List Token} (hdot : dot.kind = .dot) (hts : FunctionTokens type ts) :
    NamedTail type (dot :: ts)

/-- A type over types: one with a name, or a function type, which may be suspending. -/
inductive TypeForm (type : List Token → Prop) : List Token → Prop
  | named {front tail : List Token} (h : NamedTokens type front) (htail : NamedTail type tail) :
    TypeForm type (front ++ tail)
  | function {ts : List Token} (h : FunctionTokens type ts) : TypeForm type ts
  | suspending {word : Token} {ts : List Token} (hword : word.text = "suspend")
    (hkind : word.kind.isName = true) (h : FunctionTokens type ts) : TypeForm type (word :: ts)

/-- The tokens of a type that is nested at most `n` deep. -/
def TypeTokens : Nat → List Token → Prop
  | 0 => fun _ => False
  | n + 1 => TypeForm (TypeTokens n)

/-- What a type is followed by: a comma, a bracket that closes, or an arrow. -/
def endsType (k : TokenKind) : Bool := [TokenKind.comma, .greater, .closeParen, .arrow].contains k

/-- What the first name of a type is followed by. -/
def afterTypeName (k : TokenKind) : Bool :=
  [TokenKind.dot, .less, .question, .comma, .greater, .closeParen, .arrow].contains k

section
variable {type : List Token → Prop} {s : State} {t u : Token} {ts rest : List Token} {d : Nat}

theorem afterTypeName_of_endsType (h : endsType u.kind = true) : afterTypeName u.kind = true := by
  unfold endsType at h
  unfold afterTypeName
  rw [List.contains_iff_mem] at h ⊢
  exact List.mem_of_mem_drop (i := 3) h

theorem endsType_of_entry {closer : Token} (h : t.kind = .comma ∨ t = closer)
    (hcloser : endsType closer.kind = true) : endsType t.kind = true := by
  obtain hcomma | rfl := h
  · rw [hcomma]
    rfl
  · exact hcloser

theorem ne_of_afterTypeName {k : TokenKind} (h : afterTypeName k = true) :
    k ≠ .identifier ∧ k ≠ .openParen ∧ k ≠ .colon := by
  refine ⟨?_, ?_, ?_⟩ <;> (rintro rfl; cases h)

/-- What follows a type is no part of it. -/
theorem ne_of_endsType {k : TokenKind} (h : endsType k = true) :
    k ≠ .less ∧ k ≠ .dot ∧ k ≠ .question := by
  refine ⟨?_, ?_, ?_⟩ <;> (rintro rfl; cases h)

/-- A type begins with a parenthesis, or with a name after which neither a name nor a colon comes. -/
def StartsType (ts : List Token) : Prop :=
  ∃ first next more, ts = first :: next :: more ∧ (first.kind = .openParen ∧ first.text = "(" ∨
    first.kind.isName = true ∧ next.kind ≠ .identifier ∧ next.kind ≠ .colon)

theorem State.At.startsType (h : s.At ts d) (hts : StartsType ts) :
    s.current.kind = .openParen ∧ s.current.text = "(" ∨
      s.current.kind.isName = true ∧ s.nextKind ≠ .identifier ∧ s.nextKind ≠ .colon := by
  obtain ⟨first, next, more, rfl, hfirst⟩ := hts
  rw [h.current, h.nextKind]
  exact hfirst

theorem NamedTokens.starts (h : NamedTokens type ts) (hu : afterTypeName u.kind = true)
    (rest : List Token) :
    ∃ first next more, ts ++ u :: rest = first :: next :: more ∧ first.kind.isName = true ∧
      afterTypeName next.kind = true := by
  obtain ⟨hname, hdotted, harguments⟩ := h
  cases hdotted with
  | name hdot _ _ => exact ⟨_, _, _, rfl, hname, by rw [hdot]; rfl⟩
  | nil =>
    cases harguments with
    | none => exact ⟨_, _, _, rfl, hname, hu⟩
    | list hopening _ _ _ => exact ⟨_, _, _, rfl, hname, by rw [hopening]; rfl⟩

theorem Marks.starts (h : Marks ts) (u : Token) (rest : List Token) :
    ∃ first more, ts ++ u :: rest = first :: more ∧ (first = u ∨ first.kind = .question) := by
  cases ts with
  | nil => exact ⟨u, rest, rfl, .inl rfl⟩
  | cons mark marks => exact ⟨mark, _, rfl, .inr (h mark List.mem_cons_self).1⟩

theorem NamedTail.starts (h : NamedTail type ts) (hu : endsType u.kind = true) (rest : List Token) :
    ∃ first more, ts ++ u :: rest = first :: more ∧ afterTypeName first.kind = true := by
  cases h with
  | receiver hdot _ => exact ⟨_, _, rfl, by rw [hdot]; rfl⟩
  | marks hmarks =>
    obtain ⟨first, more, hsplit, rfl | hmark⟩ := hmarks.starts u rest
    · exact ⟨first, more, hsplit, afterTypeName_of_endsType hu⟩
    · exact ⟨first, more, hsplit, by rw [hmark]; rfl⟩

theorem GroupTokens.starts (h : GroupTokens type ts) (more : List Token) :
    ∃ first next after, ts ++ more = first :: next :: after ∧ first.kind = .openParen ∧
      first.text = "(" := by
  cases h with
  | @mk opening closing inner hopening htext _ _ =>
    have hinner : inner ++ [closing] ≠ [] := by simp
    obtain ⟨next, after, hsplit⟩ := List.exists_cons_of_ne_nil hinner
    exact ⟨opening, next, after ++ more, by rw [hsplit]; rfl, hopening, htext⟩

theorem FunctionTokens.starts (h : FunctionTokens type ts) (more : List Token) :
    ∃ first next after, ts ++ more = first :: next :: after ∧ first.kind = .openParen ∧
      first.text = "(" := by
  cases h with
  | function hfront _ _ =>
    rw [List.append_assoc]
    exact hfront.starts _
  | nullable hfront _ =>
    rw [List.append_assoc]
    exact hfront.starts _

theorem TypeForm.startsType (h : TypeForm type ts) (hu : endsType u.kind = true) :
    StartsType (ts ++ u :: rest) := by
  cases h with
  | named h htail =>
    obtain ⟨v, more, hsplit, hv⟩ := htail.starts hu rest
    obtain ⟨first, next, after, hfirst, hname, hnext⟩ := h.starts hv more
    obtain ⟨hidentifier, -, hcolon⟩ := ne_of_afterTypeName hnext
    rw [List.append_assoc, hsplit]
    exact ⟨first, next, after, hfirst, .inr ⟨hname, hidentifier, hcolon⟩⟩
  | function h =>
    obtain ⟨first, next, more, hsplit, hfirst⟩ := h.starts (u :: rest)
    exact ⟨first, next, more, hsplit, .inl hfirst⟩
  | suspending _ hkind h =>
    obtain ⟨next, after, more, hsplit, hnext, -⟩ := h.starts (u :: rest)
    exact ⟨_, next, after :: more, congrArg _ hsplit, .inr ⟨hkind, by simp [hnext], by simp [hnext]⟩⟩

/-- Types begin as types do. -/
def StartTypes (type : List Token → Prop) : Prop :=
  ∀ ⦃ts t rest⦄, type ts → endsType t.kind = true → StartsType (ts ++ t :: rest)

theorem StartTypes.ne_nil (htype : StartTypes type) (h : type ts) : ts ≠ [] := by
  rintro rfl
  have hstart : StartsType ([] ++ [{ kind := .comma }]) := htype h rfl
  obtain ⟨first, next, more, hsplit, -⟩ := hstart
  cases hsplit

theorem startTypes_typeTokens (n : Nat) : StartTypes (TypeTokens n) := by
  intro ts t rest hts ht
  cases n with
  | zero => exact hts.elim
  | succ n => exact TypeForm.startsType hts ht

end

end KotlinTree.Grammar
