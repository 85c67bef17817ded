/-!
JSON documents, read strictly. Fields keep their order and their repetitions. The only numbers are
natural ones without a sign, a fraction or an exponent, as no document here holds others.
-/

namespace KotlinTree

/-- A value of a document. -/
inductive Document where
  | null
  | bool (value : Bool)
  | number (value : Nat)
  | string (value : String)
  | array (items : List Document)
  | object (fields : List (String × Document))
  deriving Inhabited

namespace Document

def isSpace (c : Char) : Bool := c = ' ' || c = '\t' || c = '\n' || c = '\r'

def skipSpace (cs : List Char) : List Char := cs.dropWhile isSpace

/-- The value of a hexadecimal digit. -/
def hexValue? (c : Char) : Option Nat :=
  if '0' ≤ c ∧ c ≤ '9' then some (c.toNat - '0'.toNat)
  else if 'a' ≤ c ∧ c ≤ 'f' then some (c.toNat - 'a'.toNat + 10)
  else if 'A' ≤ c ∧ c ≤ 'F' then some (c.toNat - 'A'.toNat + 10)
  else none

/-- Four hexadecimal digits, and what follows them. -/
def hexUnit? : List Char → Option (Nat × List Char)
  | a :: b :: c :: d :: rest => do
    let a ← hexValue? a
    let b ← hexValue? b
    let c ← hexValue? c
    let d ← hexValue? d
    return (((a * 16 + b) * 16 + c) * 16 + d, rest)
  | _ => none

/-- The character of a number escape, after its letter. A high half goes with a low one. -/
def escapedUnit? (cs : List Char) : Option (Char × List Char) := do
  let (unit, rest) ← hexUnit? cs
  -- One unit of a pair stands for no character alone.
  if 0xD800 ≤ unit ∧ unit < 0xDC00 then
    match rest with
    | '\\' :: 'u' :: rest =>
      let (low, rest) ← hexUnit? rest
      if 0xDC00 ≤ low ∧ low < 0xE000 then
        return (Char.ofNat (0x10000 + (unit - 0xD800) * 0x400 + (low - 0xDC00)), rest)
      else none
    | _ => none
  else if 0xDC00 ≤ unit ∧ unit < 0xE000 then none
  else return (Char.ofNat unit, rest)

/-- The character of an escape, after the backslash. -/
def escaped? : List Char → Option (Char × List Char)
  | '"' :: rest => some ('"', rest)
  | '\\' :: rest => some ('\\', rest)
  | '/' :: rest => some ('/', rest)
  | 'b' :: rest => some ('\x08', rest)
  | 'f' :: rest => some ('\x0c', rest)
  | 'n' :: rest => some ('\n', rest)
  | 'r' :: rest => some ('\r', rest)
  | 't' :: rest => some ('\t', rest)
  | 'u' :: rest => escapedUnit? rest
  | _ => none

/-- The characters of a string after its opening quote, and what follows the closing one. -/
def stringBody? : Nat → List Char → Option (List Char × List Char)
  | 0, _ | _, [] => none
  | n + 1, c :: rest =>
    if c = '"' then some ([], rest)
    else if c = '\\' then do
      let (d, rest) ← escaped? rest
      let (value, rest) ← stringBody? n rest
      return (d :: value, rest)
    -- Control characters have to be escaped.
    else if c.toNat < 0x20 then none
    else do
      let (value, rest) ← stringBody? n rest
      return (c :: value, rest)

/-- A string from its opening quote on. -/
def text? : List Char → Option (String × List Char)
  | '"' :: rest => (stringBody? (rest.length + 1) rest).map fun (value, rest) => (.ofList value, rest)
  | _ => none

/-- A natural number without leading zeros, and no fraction or exponent after it. -/
def natural? (cs : List Char) : Option (Nat × List Char) :=
  let digits := cs.takeWhile Char.isDigit
  let rest := cs.dropWhile Char.isDigit
  -- Only zero itself begins with a zero.
  if digits = [] ∨ (digits.head? = some '0' ∧ digits.length ≠ 1) then none
  else if rest.head? = some '.' ∨ rest.head? = some 'e' ∨ rest.head? = some 'E' then none
  else some (digits.foldl (fun n d => n * 10 + (d.toNat - '0'.toNat)) 0, rest)

/-- A word of the format. -/
def word? (word : String) (value : Document) (cs : List Char) : Option (Document × List Char) :=
  (word.toList.isPrefixOf? cs).map fun rest => (value, rest)

/-- What follows a character, after blanks. -/
def expect? (c : Char) (cs : List Char) : Option (List Char) :=
  match skipSpace cs with
  | d :: rest => if d = c then some rest else none
  | [] => none

mutual

/-- A value and what follows it, for a text shorter than the bound. -/
def value? : Nat → List Char → Option (Document × List Char)
  | 0, _ => none
  | n + 1, cs =>
    match skipSpace cs with
    | '\x7b' :: rest =>
      match expect? '\x7d' rest with
      | some rest => some (.object [], rest)
      | none => (fields? n rest).map fun (fields, rest) => (.object fields, rest)
    | '[' :: rest =>
      match expect? ']' rest with
      | some rest => some (.array [], rest)
      | none => (items? n rest).map fun (items, rest) => (.array items, rest)
    | '"' :: rest => (text? ('"' :: rest)).map fun (value, rest) => (.string value, rest)
    | cs => (word? "null" .null cs).or <| (word? "true" (.bool true) cs).or <|
        (word? "false" (.bool false) cs).or <|
        (natural? cs).map fun (value, rest) => (.number value, rest)

/-- The values of an array up to its closing bracket. -/
def items? : Nat → List Char → Option (List Document × List Char)
  | 0, _ => none
  | n + 1, cs => do
    let (value, rest) ← value? n cs
    match skipSpace rest with
    | ',' :: rest =>
      let (values, rest) ← items? n rest
      return (value :: values, rest)
    | ']' :: rest => return ([value], rest)
    | _ => none

/-- The fields of an object up to its closing brace. -/
def fields? : Nat → List Char → Option (List (String × Document) × List Char)
  | 0, _ => none
  | n + 1, cs => do
    let (name, rest) ← text? (skipSpace cs)
    let (value, rest) ← value? n (← expect? ':' rest)
    match skipSpace rest with
    | ',' :: rest =>
      let (fields, rest) ← fields? n rest
      return ((name, value) :: fields, rest)
    | '\x7d' :: rest => return ([(name, value)], rest)
    | _ => none

end

/-- The document that a text is, with nothing but blanks around it. Each level of nesting takes a
character, so the text bounds it. -/
def parse? (text : String) : Option Document :=
  match value? (2 * text.toList.length + 2) text.toList with
  | some (value, rest) => if skipSpace rest = [] then some value else none
  | none => none

def bool? : Document → Option Bool
  | .bool value => some value
  | _ => none

/-- A number that fits into a machine word. -/
def word64? : Document → Option Nat
  | .number value => if value < UInt64.size then some value else none
  | _ => none

def string? : Document → Option String
  | .string value => some value
  | _ => none

/-- A list of values of one kind. -/
def list? {α : Type} (item? : Document → Option α) : Document → Option (List α)
  | .array items => items.mapM item?
  | _ => none

/-- A value, or `null` for none. -/
def nullable? {α : Type} (item? : Document → Option α) : Document → Option (Option α)
  | .null => some none
  | value => (item? value).map some

/-- One of some words, alone or as the name of a field that is `null`. -/
def choice? {α : Type} (choices : List (String × α)) : Document → Option α
  | .string word => choices.lookup word
  | .object [(word, .null)] => choices.lookup word
  | _ => none

/-- No name comes twice. -/
def distinct : List String → Bool
  | [] => true
  | name :: names => !names.contains name && distinct names

/-- The fields of a record: by name, each at most once and no others, or by position. -/
def record? (names : List String) : Document → Option (List (String × Document))
  | .object fields =>
    if fields.all (fun field => names.contains field.1) && distinct (fields.map Prod.fst) then
      some fields
    else none
  | .array items => if items.length ≤ names.length then some (names.zip items) else none
  | _ => none

/-- A field that has to be there. -/
def required? {α : Type} (fields : List (String × Document)) (name : String)
    (item? : Document → Option α) : Option α :=
  (fields.lookup name).bind item?

/-- A field with a value for when it is not there. -/
def optional? {α : Type} (fields : List (String × Document)) (name : String)
    (item? : Document → Option α) (default : α) : Option α :=
  match fields.lookup name with
  | some value => item? value
  | none => some default

end Document

end KotlinTree
