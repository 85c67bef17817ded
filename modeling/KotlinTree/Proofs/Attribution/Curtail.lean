import KotlinTree.Attribution.Task
import KotlinTree.Proofs.Attribution.Composed

/-!
Attribution under a caller that may say that it is to stop, set against attribution under one that
never does. Up to the answer that says so both do the same.
-/

namespace KotlinTree.Attribution

/-- The setting of a caller that never says that it is to stop. -/
def Setting.endless (s : Setting) : Setting := { s with stops := fun _ => false }

section
variable (s : Setting)

@[simp] theorem Setting.endless_forest : s.endless.forest = s.forest := rfl

@[simp] theorem Setting.endless_env : s.endless.env = s.env := rfl

@[simp] theorem Setting.endless_unit : s.endless.unit = s.unit := rfl

end

/-- A program that never asks whether to stop. -/
def Steady {α : Type} (p : Attributing α) : Prop :=
  ∀ st : State, (Id.run (p.run st)).2.polls = st.polls ∧ (Id.run (p.run st)).2.isStopped = st.isStopped

/-- Some answer says that it is to stop, from one time of asking up to another. -/
def ToldBetween (stops : Nat → Bool) (first last : Nat) : Prop :=
  ∃ n, first ≤ n ∧ n < last ∧ stops n = true

/-- A program is another cut short: it is stopped exactly when it has been told to, and unless it is
stopped it does what the other does. -/
structure Curtails (stops : Nat → Bool) {α : Type} (p q : Attributing α) : Prop where
  polls_le : ∀ st : State, st.polls ≤ (Id.run (p.run st)).2.polls
  isStopped_iff : ∀ st : State, (Id.run (p.run st)).2.isStopped = true ↔
    st.isStopped = true ∨ ToldBetween stops st.polls (Id.run (p.run st)).2.polls
  eq_of_not_stopped : ∀ st : State, (Id.run (p.run st)).2.isStopped = false →
    Id.run (p.run st) = Id.run (q.run st)

section
variable {stops : Nat → Bool} {a b c : Nat}

/-- No question is asked between a number and itself. -/
theorem not_toldBetween_self : ¬ ToldBetween stops a a := fun ⟨_, hle, hlt, _⟩ =>
  absurd (Nat.lt_of_le_of_lt hle hlt) (Nat.lt_irrefl a)

/-- An answer falls before some question or after it. -/
theorem toldBetween_split (hab : a ≤ b) (hbc : b ≤ c) :
    ToldBetween stops a c ↔ ToldBetween stops a b ∨ ToldBetween stops b c := by
  constructor
  · rintro ⟨n, hle, hlt, hn⟩
    rcases Nat.lt_or_ge n b with hb | hb
    · exact .inl ⟨n, hle, hb, hn⟩
    · exact .inr ⟨n, hb, hlt, hn⟩
  · rintro (⟨n, hle, hlt, hn⟩ | ⟨n, hle, hlt, hn⟩)
    · exact ⟨n, hle, Nat.lt_of_lt_of_le hlt hbc, hn⟩
    · exact ⟨n, Nat.le_trans hab hle, hlt, hn⟩

end

namespace Steady

section
variable {s : Setting} {α β : Type}

/-- To yield a value asks no question. -/
protected theorem pure (a : α) : Steady (pure a : Attributing α) := fun _ => ⟨rfl, rfl⟩

protected theorem get : Steady (get : Attributing State) := fun _ => ⟨rfl, rfl⟩

/-- Programs that ask nothing ask nothing one after another. -/
protected theorem bind {p : Attributing α} {f : α → Attributing β} (hp : Steady p)
    (hf : ∀ a, Steady (f a)) : Steady (p >>= f) := by
  intro st
  obtain ⟨hpolls, hstopped⟩ := hp st
  obtain ⟨hpolls', hstopped'⟩ := hf (Id.run (p.run st)).1 (Id.run (p.run st)).2
  exact ⟨hpolls'.trans hpolls, hstopped'.trans hstopped⟩

theorem seq {p : Attributing α} {q : Attributing β} (hp : Steady p) (hq : Steady q) :
    Steady (do let _ ← p; q) :=
  hp.bind fun _ => hq

/-- What a program yields need not be of use. -/
theorem discard {p : Attributing α} (hp : Steady p) : Steady (do let _ ← p) := hp.bind fun _ => .pure _

/-- Nor do they over a list. -/
theorem forM {f : α → Attributing Unit} {as : List α} (hf : ∀ a, Steady (f a)) :
    Steady (as.forM f) := by
  induction as with
  | nil => exact .pure _
  | cons a as ih => exact (hf a).seq ih

protected theorem recordType (id : NodeId) (t : Ty) : Steady (recordType id t) := fun _ => ⟨rfl, rfl⟩

protected theorem recordUse (place : Place) (name : NameUse) : Steady (recordUse place name) :=
  fun _ => ⟨rfl, rfl⟩

protected theorem recordVariable (v : Variable) : Steady (recordVariable v) := fun _ => ⟨rfl, rfl⟩

protected theorem report (id : Option NodeId) (failure : Failure) : Steady (s.report id failure) :=
  fun _ => ⟨rfl, rfl⟩

protected theorem learn (owner name : String) (t : Ty) : Steady (learn owner name t) :=
  fun _ => ⟨rfl, rfl⟩

protected theorem declare (f : LocalScope → LocalScope) : Steady (declare f) := by
  intro st
  rw [declare_state]
  split <;> exact ⟨rfl, rfl⟩

protected theorem declareLocal (name : String) (t : Ty) : Steady (declareLocal name t) := by
  unfold Attribution.declareLocal
  split
  · exact .pure _
  · exact .declare _

protected theorem declareLocalFunction (name : String) (t : Ty) :
    Steady (declareLocalFunction name t) := .declare _

protected theorem pushScope (scope : LocalScope) : Steady (pushScope scope) := fun _ => ⟨rfl, rfl⟩

protected theorem popScope : Steady popScope := fun _ => ⟨rfl, rfl⟩

end

end Steady

namespace Curtails

section
variable {s : Setting} {stops : Nat → Bool} {α β : Type}

/-- A program that asks no question is the same for any answers. -/
theorem of_steady {p : Attributing α} (hp : Steady p) : Curtails stops p p where
  polls_le st := Nat.le_of_eq (hp st).1.symm
  isStopped_iff st := by
    rw [(hp st).1, (hp st).2]
    exact (or_iff_left not_toldBetween_self).symm
  eq_of_not_stopped _ _ := rfl

/-- A value is yielded whatever the answers are. -/
protected theorem pure (a : α) : Curtails stops (pure a) (pure a) := .of_steady (.pure a)

/-- Of two programs one after another, the second is cut short at the latest where the first was. -/
protected theorem bind {p q : Attributing α} {f g : α → Attributing β} (hp : Curtails stops p q)
    (hf : ∀ a, Curtails stops (f a) (g a)) : Curtails stops (p >>= f) (q >>= g) where
  polls_le st := Nat.le_trans (hp.polls_le st) ((hf _).polls_le _)
  isStopped_iff st := by
    have hfirst := hp.isStopped_iff st
    have hrest := (hf (Id.run (p.run st)).1).isStopped_iff (Id.run (p.run st)).2
    rw [hfirst, or_assoc, ← toldBetween_split (hp.polls_le st) ((hf _).polls_le _)] at hrest
    exact hrest
  eq_of_not_stopped st hend := by
    -- What is stopped stays stopped, so that the first part has not been stopped either.
    have hmid : (Id.run (p.run st)).2.isStopped = false := by
      rw [← Bool.not_eq_true]
      intro hstopped
      have hrest := ((hf (Id.run (p.run st)).1).isStopped_iff (Id.run (p.run st)).2).mpr (.inl hstopped)
      exact Bool.false_ne_true (hend.symm.trans hrest)
    have hsame := hp.eq_of_not_stopped st hmid
    have hrest := (hf (Id.run (p.run st)).1).eq_of_not_stopped (Id.run (p.run st)).2 hend
    change Id.run ((f (Id.run (p.run st)).1).run (Id.run (p.run st)).2) =
      Id.run ((g (Id.run (q.run st)).1).run (Id.run (q.run st)).2)
    rw [hrest, hsame]

/-- What is read is the same as long as no answer has been yes. -/
theorem get_bind {f g : State → Attributing β} (hf : ∀ st, Curtails stops (f st) (g st)) :
    Curtails stops (get >>= f) (get >>= g) :=
  (of_steady .get).bind hf

theorem seq {p q : Attributing α} {p' q' : Attributing β} (hp : Curtails stops p q)
    (hq : Curtails stops p' q') : Curtails stops (do let _ ← p; p') (do let _ ← q; q') :=
  hp.bind fun _ => hq

theorem discard {p q : Attributing α} (hp : Curtails stops p q) :
    Curtails stops (do let _ ← p) (do let _ ← q) :=
  hp.bind fun _ => .pure _

theorem map {p q : Attributing α} (f : α → β) (hp : Curtails stops p q) :
    Curtails stops (f <$> p) (f <$> q) := by
  rw [map_eq_pure_bind, map_eq_pure_bind]
  exact hp.bind fun a => .pure (f a)

/-- Both choose the same way, however this is decided. -/
protected theorem ite {c : Prop} {d d' : Decidable c} {p q p' q' : Attributing α} (hp : c → Curtails stops p p')
    (hq : ¬ c → Curtails stops q q') :
    Curtails stops (@ite _ c d p q) (@ite _ c d' p' q') := by
  obtain rfl : d = d' := Subsingleton.elim d d'
  split
  · exact hp ‹c›
  · exact hq ‹¬ c›

/-- Over a list, each program is cut short where it asks. -/
theorem forM {f g : α → Attributing Unit} {as : List α} (hf : ∀ a, Curtails stops (f a) (g a)) :
    Curtails stops (as.forM f) (as.forM g) := by
  induction as with
  | nil => exact .pure _
  | cons a as ih => exact (hf a).seq ih

/-- So it is with what they yield. -/
theorem mapM {f g : α → Attributing β} {as : List α} (hf : ∀ a, Curtails stops (f a) (g a)) :
    Curtails stops (as.mapM f) (as.mapM g) := by
  induction as with
  | nil =>
    rw [List.mapM_nil, List.mapM_nil]
    exact .pure _
  | cons a as ih =>
    rw [List.mapM_cons, List.mapM_cons]
    exact (hf a).bind fun _ => ih.bind fun _ => .pure _

/-- Where nothing has been stopped, asking has been answered in the negative, as it always is. -/
protected theorem stopped : Curtails s.stops s.stopped s.endless.stopped where
  polls_le st := by
    rw [stopped_state]
    split
    · exact Nat.le_refl _
    · exact Nat.le_succ _
  isStopped_iff st := by
    rw [stopped_state]
    split
    · rename_i hs
      exact iff_of_true hs (.inl hs)
    · rename_i hs
      -- One more question has been asked; it stops the run, or none before it has.
      constructor
      · exact fun hn => .inr ⟨st.polls, Nat.le_refl _, Nat.lt_succ_self _, hn⟩
      · rintro (hs' | ⟨n, hle, hlt, hn⟩)
        · exact absurd hs' hs
        · exact Nat.le_antisymm hle (Nat.lt_succ_iff.mp hlt) ▸ hn
  eq_of_not_stopped st hend := by
    rw [stopped_state] at hend
    cases hs : st.isStopped with
    | true =>
      rw [if_pos hs, hs] at hend
      cases hend
    | false =>
      rw [hs, if_neg Bool.false_ne_true] at hend
      have hn : s.stops st.polls = false := hend
      simp [Setting.stopped, modifyGet, MonadStateOf.modifyGet, StateT.modifyGet, StateT.run, hs, hn,
        Setting.endless]

/-- Before each step of a list a question is asked, and a yes ends the list. -/
theorem through {step step' : α → NodeId → Attributing α} {ids : List NodeId}
    (hstep : ∀ a id, Curtails s.stops (step a id) (step' a id)) (a : α) :
    Curtails s.stops (s.through step a ids) (s.endless.through step' a ids) := by
  induction ids generalizing a with
  | nil => exact .pure a
  | cons id ids ih =>
    rw [Setting.through, Setting.through]
    refine Curtails.stopped.bind fun isStopped => ?_
    split
    · exact .pure a
    · exact (hstep a id).bind ih

/-- A scope is closed whether or not what is in it has been cut short. -/
protected theorem inScope {p q : Attributing α} (scope : LocalScope) (hp : Curtails stops p q) :
    Curtails stops (inScope p scope) (inScope q scope) :=
  (of_steady (.pushScope scope)).seq (hp.bind fun _ => (of_steady .popScope).seq (.pure _))

/-- So is a receiver. -/
protected theorem inFrame {p q : Attributing α} (frame : Option Frame) (hp : Curtails stops p q) :
    Curtails stops (inFrame frame p) (inFrame frame q) := by
  cases frame with
  | none => exact hp
  | some frame =>
    have hpush : Steady (pushFrame frame) := fun _ => ⟨rfl, rfl⟩
    have hpop : Steady popFrame := fun _ => ⟨rfl, rfl⟩
    exact (of_steady hpush).seq (hp.bind fun _ => (of_steady hpop).seq (.pure _))

/-- A change of the state that leaves alone what is known about stopping. -/
theorem modify_seq {f : State → State} {p q : Attributing α}
    (hf : ∀ st, (f st).polls = st.polls ∧ (f st).isStopped = st.isStopped) (hp : Curtails stops p q) :
    Curtails stops (do modify f; p) (do modify f; q) := by
  have hsteady : Steady (modify f : Attributing Unit) := hf
  exact (of_steady hsteady).seq hp

/-- So is a class. -/
protected theorem inClass {p q : Attributing α} (name : Option String) (hp : Curtails stops p q) :
    Curtails stops (inClass name p) (inClass name q) := by
  refine modify_seq (fun _ => ⟨rfl, rfl⟩) (hp.bind fun a => ?_)
  split
  · exact modify_seq (fun _ => ⟨rfl, rfl⟩) (.pure a)
  · exact .pure a

/-- So are type parameters. -/
protected theorem withTypeParameters {p q : Attributing α} (names : List String)
    (hp : Curtails stops p q) :
    Curtails stops (withTypeParameters names p) (withTypeParameters names q) := by
  refine get_bind fun st => modify_seq (fun _ => ⟨rfl, rfl⟩) (hp.bind fun a => ?_)
  exact modify_seq (fun _ => ⟨rfl, rfl⟩) (.pure a)

/-- The depth is what it was, however far the program inside it has come. -/
protected theorem deeper {p q : Attributing α} (otherwise : α) (hp : Curtails stops p q) :
    Curtails stops (deeper otherwise p) (deeper otherwise q) := by
  refine get_bind fun st => ?_
  split
  · exact .pure otherwise
  · refine modify_seq (fun _ => ⟨rfl, rfl⟩) (hp.bind fun a => ?_)
    exact modify_seq (fun _ => ⟨rfl, rfl⟩) (.pure a)

end

end Curtails

end KotlinTree.Attribution
