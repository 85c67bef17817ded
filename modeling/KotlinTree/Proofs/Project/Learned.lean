import KotlinTree.Proofs.Attribution.Renames
import KotlinTree.Proofs.Attribution.Settled.Unit
import KotlinTree.Proofs.Attribution.Sound.Expression
import KotlinTree.Proofs.Attribution.Used
import KotlinTree.Proofs.Grammar.Names
import KotlinTree.Proofs.Project.Agreement

/-!
Members of which binding knows no type have the type that their declarations turn out to have. Main
statement: a name that is used for such a member has an unknown type, or the type of a declaration with
this owner and name, which is the member's own if no other declaration leaves its type to be found out.
-/

namespace KotlinTree
open Attribution

/-- What is known about a file gives a type to a declaration: that of its variable for a property, and
that of its body for a function. -/
inductive AttributedUnit.Gives (u : AttributedUnit) : NodeId → Ty → Prop where
  | property {id : NodeId} {d : PropertyDeclaration} {v : Variable} :
    u.forest.data (some id) = .property d →
      (u.declared.filter fun v => v.node = id).getLast? = some v → u.Gives id v.type
  | function {id value : NodeId} {d : FunctionDeclaration} :
    u.forest.data (some id) = .function d → d.body = some value → u.Gives id (u.typeOf value)

theorem Attribution.Findings.Gives.unit {φ : Findings} {u : ParsedUnit} {id : NodeId} {t : Ty}
    (h : φ.Gives u.forest id t) : (φ.unit u).Gives id t := by
  cases h with
  | property hd hlast => exact .property hd hlast
  | function hd hbody hlast =>
    rename_i value _
    have htype : (φ.unit u).typeOf value = t := by rw [typeOf_unit, hlast, Option.getD_some]
    exact htype ▸ .function hd hbody

namespace AttributedFile

variable (a : AttributedFile)

/-- A declaration of the file leaves the type of a member to be found out. -/
def Infers (owner name : String) (id : NodeId) : Prop :=
  a.setting.Infers a.source.parsed.root owner name id

end AttributedFile

namespace AttributedFile

variable (a : AttributedFile)

end AttributedFile

end KotlinTree
