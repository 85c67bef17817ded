import KotlinTree.Text.Letter
import KotlinTree.Trivia

/-!
Where literals end. Each function takes the text from a literal's first character on and says what
the literal is like and what follows it.
-/

namespace KotlinTree

/-- What the scan of a token noted besides its kind. -/
structure TokenFlags where
  backticked : Bool := false
  longSuffix : Bool := false
  unsignedSuffix : Bool := false
  floating : Bool := false
  floatSuffix : Bool := false
  hexadecimal : Bool := false
  binary : Bool := false
  rawString : Bool := false
  template : Bool := false
  unterminated : Bool := false
  deriving DecidableEq, Repr, Inhabited

namespace Literal

/-- What a character inside a string literal belongs to. -/
inductive Enclosure where
  | quoted
  | raw
  /-- Past the closing quotes of a raw string, where more quotes still belong to it. -/
  | rawClosed
  /-- Inside a template's braces, at a depth of one or more. -/
  | template (depth : Nat)
  deriving DecidableEq, Repr

/-- The enclosures, innermost first, without one that ends right before a character. -/
def leave (c : Char) : List Enclosure → List Enclosure
  | .quoted :: outer => if Trivia.isLineEnd c then outer else .quoted :: outer
  | .rawClosed :: outer => if c = '"' then .rawClosed :: outer else outer
  | stack => stack

/-- A string that a line end cuts off stays unterminated. -/
def cutOff (c : Char) (stack : List Enclosure) (flags : TokenFlags) : TokenFlags :=
  match stack with
  | .quoted :: _ => if Trivia.isLineEnd c then { flags with unterminated := true } else flags
  | _ => flags

/-- Runs to the end of the outermost of the enclosures that a place is in. -/
def closeString (flags : TokenFlags) : List Enclosure → List Char → TokenFlags × List Char
  | stack, [] =>
    (if stack = [.rawClosed] ∨ stack = [] then flags else { flags with unterminated := true }, [])
  | stack, c :: cs =>
    -- A line end is looked at before anything else, as it may close the string that it stands in.
    let flags := cutOff c stack flags
    match leave c stack with
    | [] => (flags, c :: cs)
    | .quoted :: outer =>
      if c = '"' then closeString flags outer cs
      -- Whatever is escaped is passed over, also a quote or a line end.
      else if c = '\\' then
        match cs with
        | _ :: rest => closeString flags (.quoted :: outer) rest
        | [] => ({ flags with unterminated := true }, [])
      else if c = '$' then
        match cs with
        | '\x7b' :: rest =>
          closeString { flags with template := true } (.template 1 :: .quoted :: outer) rest
        -- The character after the sign has not been read, so it may still close the string.
        | d :: rest =>
          closeString (if d.isAlpha ∨ d = '_' then { flags with template := true } else flags)
            (.quoted :: outer) (d :: rest)
        | [] => ({ flags with unterminated := true }, [])
      else closeString flags (.quoted :: outer) cs
    | .raw :: outer =>
      if c = '"' then
        match cs with
        | '"' :: '"' :: rest => closeString flags (.rawClosed :: outer) rest
        -- Fewer than three quotes are characters of the string.
        | rest => closeString flags (.raw :: outer) rest
      else if c = '$' then
        match cs with
        | '\x7b' :: rest =>
          closeString { flags with template := true } (.template 1 :: .raw :: outer) rest
        | d :: rest =>
          closeString (if d.isAlpha ∨ d = '_' then { flags with template := true } else flags)
            (.raw :: outer) (d :: rest)
        | [] => ({ flags with unterminated := true }, [])
      else closeString flags (.raw :: outer) cs
    | .rawClosed :: outer => closeString flags (.rawClosed :: outer) cs
    | .template depth :: outer =>
      if c = '\x7b' then closeString flags (.template (depth + 1) :: outer) cs
      else if c = '\x7d' then
        closeString flags (if depth ≤ 1 then outer else .template (depth - 1) :: outer) cs
      else if c = '"' then
        match cs with
        | '"' :: '"' :: rest => closeString flags (.raw :: .template depth :: outer) rest
        | rest => closeString flags (.quoted :: .template depth :: outer) rest
      else closeString flags (.template depth :: outer) cs

/-- A string literal, from its opening quote. Three quotes open a raw string. -/
def string : List Char → TokenFlags × List Char
  | '"' :: '"' :: '"' :: rest => closeString { rawString := true } [.raw] rest
  | _ :: rest => closeString {} [.quoted] rest
  | [] => ({}, [])

/-- Runs past the closing quote of a character literal, or to the end of its line. -/
def closeCharacter : List Char → TokenFlags × List Char
  | [] => ({ unterminated := true }, [])
  | '\\' :: _ :: rest => closeCharacter rest
  | '\\' :: [] => ({ unterminated := true }, [])
  | c :: cs =>
    if c = '\x27' then ({}, cs)
    else if Trivia.isLineEnd c then ({ unterminated := true }, c :: cs)
    else closeCharacter cs

/-- A character literal, from its opening quote. -/
def character (cs : List Char) : TokenFlags × List Char := closeCharacter cs.tail

/-- Runs past the closing backtick of a name, or to the end of its line. -/
def closeBackticks : List Char → TokenFlags × List Char
  | [] => ({ backticked := true, unterminated := true }, [])
  | c :: cs =>
    if c = '`' then ({ backticked := true }, cs)
    else if Trivia.isLineEnd c then ({ backticked := true, unterminated := true }, c :: cs)
    else closeBackticks cs

/-- A name in backticks, from the opening one. -/
def backticked (cs : List Char) : TokenFlags × List Char := closeBackticks cs.tail

def isDigitOrGap (c : Char) : Bool := c.isDigit || c = '_'

def isHexDigitOrGap (c : Char) : Bool :=
  isDigitOrGap c || ('a' ≤ c && c ≤ 'f') || ('A' ≤ c && c ≤ 'F')

def isBinaryDigitOrGap (c : Char) : Bool := c = '0' || c = '1' || c = '_'

/-- A point is part of a number only before a digit. -/
def fraction : List Char → Option (List Char)
  | '.' :: d :: rest => if d.isDigit then some ((d :: rest).dropWhile isDigitOrGap) else none
  | _ => none

/-- An exponent is part of a number only with a digit. -/
def exponent : List Char → Option (List Char)
  | e :: rest =>
    if e = 'e' ∨ e = 'E' then
      -- Without a digit after it, the sign is no part of the number.
      let unsigned := match rest with
        | s :: digits => if s = '+' ∨ s = '-' then digits else s :: digits
        | [] => []
      match unsigned with
      | d :: digits => if d.isDigit then some ((d :: digits).dropWhile isDigitOrGap) else none
      | [] => none
    else none
  | [] => none

/-- A decimal number up to its suffix. -/
def decimal (cs : List Char) : TokenFlags × List Char :=
  let whole := cs.dropWhile isDigitOrGap
  let fractional := fraction whole
  let mantissa := fractional.getD whole
  let scaled := exponent mantissa
  ({ floating := fractional.isSome || scaled.isSome }, scaled.getD mantissa)

/-- A number up to its suffix. -/
def unsuffixed : List Char → TokenFlags × List Char
  | '0' :: x :: rest =>
    if x = 'x' ∨ x = 'X' then ({ hexadecimal := true }, rest.dropWhile isHexDigitOrGap)
    else if x = 'b' ∨ x = 'B' then ({ binary := true }, rest.dropWhile isBinaryDigitOrGap)
    else decimal ('0' :: x :: rest)
  | cs => decimal cs

/-- The mark of an unsigned number. -/
def unsignedSuffix (flags : TokenFlags) : List Char → TokenFlags × List Char
  | c :: cs => if c = 'u' ∨ c = 'U' then ({ flags with unsignedSuffix := true }, cs) else (flags, c :: cs)
  | [] => (flags, [])

/-- The mark of a long number. -/
def longSuffix (flags : TokenFlags) : List Char → TokenFlags × List Char
  | c :: cs => if c = 'L' then ({ flags with longSuffix := true }, cs) else (flags, c :: cs)
  | [] => (flags, [])

/-- The suffix of a number: that of a float, or those of an integer. -/
def suffix (flags : TokenFlags) (cs : List Char) : TokenFlags × List Char :=
  let integral := fun _ : Unit => let u := unsignedSuffix flags cs; longSuffix u.1 u.2
  match cs with
  | c :: rest =>
    -- In a hexadecimal number, the letter is a digit.
    if (c = 'f' ∨ c = 'F') ∧ flags.hexadecimal = false then
      ({ flags with floating := true, floatSuffix := true }, rest)
    else integral ()
  | [] => integral ()

/-- A number with its suffix. -/
def number (cs : List Char) : TokenFlags × List Char :=
  let n := unsuffixed cs
  suffix n.1 n.2

end Literal

end KotlinTree
