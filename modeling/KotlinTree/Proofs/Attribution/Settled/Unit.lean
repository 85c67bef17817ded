import KotlinTree.Proofs.Attribution.Reading.Expression
import KotlinTree.Proofs.Attribution.Settled
import KotlinTree.Proofs.Attribution.Expression

/-!
A function or a property that leaves its type to be found out teaches the type that its body or its
initializer turns out to have. A file is settled when it has been gone through to its end: what has been
learned of its members is told by their declarations, and what has been used before is as well.
-/

namespace KotlinTree.Attribution

/-- From one state to another, one member at most has been learned of, with a type that its declaration
gives. -/
structure Setting.Learns (s : Setting) (owner name : String) (id : NodeId) (st st' : State) : Prop where
  inferred : st'.inferred = st.inferred ∨ ∃ t, (t = .unknown ∨ st'.toFindings.Gives s.forest id t) ∧
    st'.inferred = st.inferred.insert (owner, name) t
  uses : ∀ entry ∈ st'.uses, entry ∈ st.uses ∨ s.Reflects st.inferred entry.2

/-- A program that learns of one member at most. -/
def Learning (s : Setting) (owner name : String) (id : NodeId) {α : Type} (p : Attributing α) : Prop :=
  ∀ st : State, s.Learns owner name id st (Id.run (p.run st)).2

/-- What a program yields stands in some relation to what has been found out at its end. -/
def Ends {α : Type} (p : Attributing α) (Q : α → Findings → Prop) : Prop :=
  ∀ st : State, Q (Id.run (p.run st)).1 (Id.run (p.run st)).2.toFindings

namespace Ends

variable {α β : Type} {Q : α → Findings → Prop}

theorem after {p : Attributing β} {f : β → Attributing α} (hf : ∀ b, Ends (f b) Q) :
    Ends (p >>= f) Q :=
  fun st => hf (Id.run (p.run st)).1 (Id.run (p.run st)).2

theorem inScope {p : Attributing α} (scope : LocalScope) (hp : Ends p Q) : Ends (inScope p scope) Q :=
  fun st => hp { st with scopes := scope :: st.scopes }

theorem inFrame {p : Attributing α} (frame : Option Frame) (hp : Ends p Q) :
    Ends (inFrame frame p) Q := by
  cases frame with
  | none => exact hp
  | some frame => exact fun st => hp { st with frames := frame :: st.frames }

end Ends

section
variable {s : Setting} {root id : NodeId} {rec : Tasks} {owner name : String} {st mid st' : State}

theorem Setting.Reads.learns (h : s.Reads st mid) (h' : s.Learns owner name id mid st') :
    s.Learns owner name id st st' where
  inferred := h.inferred ▸ h'.inferred
  uses entry hentry := by
    rcases h'.uses entry hentry with hmid | hnew
    · exact h.uses entry hmid
    · exact .inr (h.inferred ▸ hnew)

namespace Learning

variable {α β : Type}

theorem after {p : Attributing β} {f : β → Attributing α} (hp : Reading s p)
    (hf : ∀ b, Learning s owner name id (f b)) : Learning s owner name id (p >>= f) :=
  fun st => (hp st).learns (hf _ _)

theorem withTypeParameters {p : Attributing α} (names : List String)
    (hp : Learning s owner name id p) : Learning s owner name id (withTypeParameters names p) := by
  intro st
  obtain ⟨hinferred, huses⟩ := hp { st with typeParameters := st.typeParameters ++ names }
  exact ⟨hinferred, huses⟩

/-- What a declaration teaches is told by what has been found out about it. -/
theorem settles {p : Attributing α} (h : Learning s owner name id p) (hf : s.forest.Linked)
    (hid : s.Infers root owner name id) (hp : Composed s (s.forest.Inside id) p) :
    Settles s root [id] p where
  outside _ hx := hp.about_eq fun hin => hx ⟨id, List.mem_singleton_self id, hin⟩
  settled _ st hst huntouched := by
    have hspares := Setting.spares_of_outside (hid.standsIn.outermost hf)
      (fun _ hx => hp.about_eq hx st) (huntouched id (List.mem_singleton_self id))
    obtain ⟨hinferred, huses⟩ := h st
    constructor
    · -- By whether the table is as before, and if not, by the key.
      intro owner' name' t' ht'
      rcases hinferred with hsame | ⟨t, ht, hinsert⟩
      · rw [hsame] at ht'
        exact (hst.inferred owner' name' t' ht').mono hf hspares
      · rw [hinsert, Std.HashMap.getElem?_insert] at ht'
        split at ht'
        · -- This is the member that has just been learned of.
          rename_i hkey
          cases beq_iff_eq.mp hkey
          cases ht'
          rcases ht with rfl | hgives
          · exact .inl rfl
          · exact .inr ⟨id, hid, hgives⟩
        · exact (hst.inferred owner' name' t' ht').mono hf hspares
    · intro entry hentry
      rcases huses entry hentry with hbefore | hnew
      · exact (hst.uses entry hbefore).mono hf hspares
      · exact (hnew.faithful hst).mono hf hspares

end Learning

namespace Setting

theorem Learns.refl (st : State) : s.Learns owner name id st st := ⟨.inl rfl, fun _ h => .inl h⟩

end Setting

end

/-- What stands in a file or in a bound class leaves it settled. -/
def Tasks.Settles (rec : Tasks) (s : Setting) (root : NodeId) : Prop :=
  ∀ {owner : String} {id : NodeId}, s.StandsIn root owner id →
    Attribution.Settles s root [id] (rec.declaration (.named owner) id)

namespace Setting

variable {s : Setting} {root id : NodeId} {owner : String} {n : Nat}

end Setting

end KotlinTree.Attribution
