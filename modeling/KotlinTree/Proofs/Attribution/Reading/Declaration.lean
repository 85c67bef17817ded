import KotlinTree.Proofs.Attribution.Declaration
import KotlinTree.Proofs.Attribution.Reading.Name

/-!
Declarations and source that is kept as it is teach nothing, where no declaration leaves a type to be
found out.
-/

namespace KotlinTree.Attribution.Setting

variable {s : Setting} {root id : NodeId} {rec : Tasks}

theorem Bare.child (h : s.Bare root id) (hf : s.forest.Linked) {x : NodeId}
    (hx : x ∈ (s.forest.children (some id)).toList) : s.Bare root x :=
  h.inside (hf.inside_of_mem_children (Array.mem_toList_iff.mp hx))

end KotlinTree.Attribution.Setting
