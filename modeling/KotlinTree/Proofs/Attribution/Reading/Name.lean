import KotlinTree.Proofs.Attribution.Declaration
import KotlinTree.Proofs.Attribution.Name
import KotlinTree.Proofs.Attribution.Reading
import KotlinTree.Proofs.Attribution.Standing

/-!
Written types, names, accesses and imports teach nothing, and what they use shows what has been learned.
Calls teach nothing where no declaration leaves a type to be found out.
-/

namespace KotlinTree.Attribution

/-- A declaration of a class or of a file stands there. -/
def Setting.Stands (s : Setting) (root : NodeId) (owner : Owner) (id : NodeId) : Prop :=
  ∀ name, owner = .named name → s.StandsIn root name id

/-- A task is about a place where the declaration stands. -/
def Task.Stands (s : Setting) (root : NodeId) : Task → Prop
  | .expression _ | .qualifier _ | .statement _ => True
  | .declaration owner id => s.Stands root owner id

/-- The parts of a node teach nothing, where no declaration leaves a type to be found out. -/
def Tasks.Reading (s : Setting) (root : NodeId) (rec : Tasks) : Prop :=
  ∀ task : Task, s.Bare root task.node → task.Stands s root → Attribution.Reading s (rec task)

namespace Tasks.Reading

variable {s : Setting} {root : NodeId} {rec : Tasks}

/-- An expression that is bare is read. -/
theorem expression (h : rec.Reading s root) {id : NodeId} (hid : s.Bare root id) :
    Attribution.Reading s (rec.typeOf (some id)) :=
  h (.expression id) hid trivial

/-- The same where there may be none. -/
theorem typeOf (h : rec.Reading s root) {id : Option NodeId} (hid : ∀ x ∈ id, s.Bare root x) :
    Attribution.Reading s (rec.typeOf id) := by
  cases id with
  | none => exact .pure _
  | some id => exact h.expression (hid id rfl)

/-- A statement that is bare is read, if there is one. -/
theorem statement (h : rec.Reading s root) {id : Option NodeId} (hid : ∀ x ∈ id, s.Bare root x) :
    Attribution.Reading s (rec.statement id) := by
  cases id with
  | none => exact .pure _
  | some id => exact h (.statement id) (hid id rfl) trivial

/-- A qualifier that is bare is read. -/
theorem qualifierOf (h : rec.Reading s root) {id : NodeId} (hid : s.Bare root id) :
    Attribution.Reading s (rec.qualifierOf id) :=
  h (.qualifier id) hid trivial

/-- A declaration is read where it may stand. -/
theorem declaration (h : rec.Reading s root) {owner : Owner} {id : NodeId} (hid : s.Bare root id)
    (ho : s.Stands root owner id) : Attribution.Reading s (rec.declaration owner id) :=
  h (.declaration owner id) hid ho

/-- Expressions that are bare are read one after the other. -/
theorem types (h : rec.Reading s root) {ids : List NodeId} (hids : ∀ x ∈ ids, s.Bare root x) :
    Attribution.Reading s (rec.types ids) :=
  .forM fun x hx => (h.expression (hids x hx)).discard

end Tasks.Reading

namespace Setting

variable {s : Setting}

section
variable {root : NodeId} {rec : Tasks}

end

variable {s : Setting} {root id : NodeId} {rec : Tasks}

section
variable {binary : BinaryExpression}

end

end Setting

end KotlinTree.Attribution
