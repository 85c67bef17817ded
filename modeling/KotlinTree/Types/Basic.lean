import KotlinTree.Text.Parts

/-!
Types with their nullability, and their written form. Main statements: what is known where values
meet does not depend on their order, and nullability does not change the class.
-/

namespace KotlinTree

/-- Whether a value may be missing. -/
inductive Nullability where
  | nullable
  | notNull
  /-- Nothing is declared about it. -/
  | unknown
  deriving DecidableEq, Repr, Inhabited

namespace Nullability

/-- What is known where two values meet. -/
def join : Nullability → Nullability → Nullability
  | .nullable, _ | _, .nullable => .nullable
  | .notNull, .notNull => .notNull
  | _, _ => .unknown

def name : Nullability → String
  | .nullable => "Nullable"
  | .notNull => "NotNull"
  | .unknown => "Unknown"

theorem join_comm (a b : Nullability) : a.join b = b.join a := by
  cases a <;> cases b <;> rfl

end Nullability

/-- Types of expressions and declarations. -/
inductive Ty where
  /-- What could not be resolved. -/
  | unknown
  /-- The type without values; the type of `null` when it is nullable. -/
  | nothing (isNullable : Bool)
  /-- A class by its binary name. -/
  | named (name : String) (nullability : Nullability)
  deriving DecidableEq, Repr, Inhabited

namespace Ty

def anyName : String := "kotlin.Any"
def nothingName : String := "kotlin.Nothing"
def unitName : String := "kotlin.Unit"
def booleanName : String := "kotlin.Boolean"
def stringName : String := "kotlin.String"
def javaObjectName : String := "java.lang.Object"

/-- The type of `null`. -/
def null : Ty := .nothing true

/-- A class, not nullable. -/
def of (name : String) : Ty := .named name .notNull

def isUnknown : Ty → Bool
  | .unknown => true
  | _ => false

/-- The binary name of a type that has one. -/
def name? : Ty → Option String
  | .named name _ => some name
  | .nothing _ => some nothingName
  | .unknown => none

def nullability : Ty → Nullability
  | .named _ n => n
  | .nothing true => .nullable
  | .nothing false | .unknown => .notNull

def isNullable (t : Ty) : Bool := t.nullability = .nullable

/-- The same type with another nullability. -/
def withNullability (t : Ty) (n : Nullability) : Ty :=
  match t with
  | .named name _ => .named name n
  | .nothing _ => .nothing (n = .nullable)
  | .unknown => .unknown

def nullable (t : Ty) : Ty := t.withNullability .nullable

def notNull (t : Ty) : Ty := t.withNullability .notNull

/-- The written form. A platform type has no mark of its own. -/
def render : Ty → String
  | .unknown => "<unknown>"
  | .nothing isNullable => if isNullable then nothingName ++ "?" else nothingName
  | .named name n => if n = .nullable then name ++ "?" else name

/-- A name and what the mark after it says. -/
def splitMark (text : String) : String × Nullability :=
  match Text.dropLast? '?' text with
  | some name => (name, .nullable)
  | none => match Text.dropLast? '!' text with
    | some name => (name, .unknown)
    | none => (text, .notNull)

/-- Reads a written type: a question mark for a nullable one, an exclamation mark for one of which
nothing is known. -/
def parse (text : String) : Ty :=
  let text := Text.trim text
  if text = "" ∨ text = "<unknown>" then .unknown
  else
    let (name, n) := splitMark text
    if name = nothingName then .nothing (n = .nullable) else .named name n

@[simp] theorem name?_withNullability (t : Ty) (n : Nullability) :
    (t.withNullability n).name? = t.name? := by
  cases t <;> rfl

end Ty

/-- The last part of a binary name. -/
def simpleName (name : String) : String := Text.afterLast (fun c => c = '.' || c = '$') name

/-- The package of a binary name: what is before the last point of the outermost class. -/
def packageOf (name : String) : String :=
  (Text.beforeLast? (· = '.') (Text.beforeFirst (· = '$') name)).getD ""

end KotlinTree
