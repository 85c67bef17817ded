import KotlinTree.Attribution.Task
import KotlinTree.Proofs.Attribution.Composed

/-!
Programs of attribution that leave what surrounds the current place as they find it, and in which no part of
a node comes to be attributed deeper than the maximum. The second is said by another program with the same
parts, that agrees with the first one as long as its parts agree up to the maximum: what its parts do beyond
that is of no account.
-/

namespace KotlinTree.Attribution

/-- What surrounds the current place is the same in two states, except for what the innermost scope
declares. -/
structure Balances (st st' : State) : Prop where
  scopes : st'.scopes.length = st.scopes.length
  outerScopes : st'.scopes.tail = st.scopes.tail
  frames : st'.frames = st.frames
  enclosing : st'.enclosing = st.enclosing
  typeParameters : st'.typeParameters = st.typeParameters
  depth : st'.depth = st.depth

/-- A program leaves its surroundings as they are, and another one does the same where it is not too deep. -/
def Balanced {α : Type} (p q : Attributing α) : Prop :=
  ∀ st : State, Balances st (Id.run (p.run st)).2 ∧
    (st.depth ≤ maxDepth → Id.run (q.run st) = Id.run (p.run st))

section
variable {st mid st' : State}

/-- What has been found out is no part of the surroundings. -/
theorem Balances.of_same (hscopes : st'.scopes = st.scopes) (hframes : st'.frames = st.frames)
    (henclosing : st'.enclosing = st.enclosing) (hparameters : st'.typeParameters = st.typeParameters)
    (hdepth : st'.depth = st.depth) : Balances st st' :=
  ⟨congrArg _ hscopes, congrArg _ hscopes, hframes, henclosing, hparameters, hdepth⟩

/-- What is balanced stays so. -/
theorem Balances.trans (h : Balances st mid) (h' : Balances mid st') : Balances st st' where
  scopes := h'.scopes.trans h.scopes
  outerScopes := h'.outerScopes.trans h.outerScopes
  frames := h'.frames.trans h.frames
  enclosing := h'.enclosing.trans h.enclosing
  typeParameters := h'.typeParameters.trans h.typeParameters
  depth := h'.depth.trans h.depth

end

namespace Balanced

section
variable {s : Setting} {α β : Type}

/-- A program without parts. -/
theorem of_balances {p : Attributing α} (h : ∀ st, Balances st (Id.run (p.run st)).2) : Balanced p p :=
  fun st => ⟨h st, fun _ => rfl⟩

/-- A step that finds something out, and leaves the rest alone. -/
theorem of_same {p : Attributing α} (h : ∀ st, (Id.run (p.run st)).2.scopes = st.scopes ∧
    (Id.run (p.run st)).2.frames = st.frames ∧ (Id.run (p.run st)).2.enclosing = st.enclosing ∧
    (Id.run (p.run st)).2.typeParameters = st.typeParameters ∧
    (Id.run (p.run st)).2.depth = st.depth) : Balanced p p := by
  refine of_balances fun st => ?_
  obtain ⟨hscopes, hframes, henclosing, hparameters, hdepth⟩ := h st
  exact .of_same hscopes hframes henclosing hparameters hdepth

protected theorem pure (a : α) : Balanced (pure a) (pure a) := of_same fun _ => ⟨rfl, rfl, rfl, rfl, rfl⟩

/-- Programs that are balanced one after the other are balanced together. -/
protected theorem bind {p q : Attributing α} {f g : α → Attributing β} (hp : Balanced p q)
    (hf : ∀ a, Balanced (f a) (g a)) : Balanced (p >>= f) (q >>= g) := by
  intro st
  obtain ⟨hfirst, hsame⟩ := hp st
  obtain ⟨hrest, hsame'⟩ := hf (Id.run (p.run st)).1 (Id.run (p.run st)).2
  refine ⟨hfirst.trans hrest, fun hdepth => ?_⟩
  -- The first part ends as deep as it starts.
  have hmid := hsame' (hfirst.depth ▸ hdepth)
  change Id.run ((g (Id.run (q.run st)).1).run (Id.run (q.run st)).2) = _
  rw [hsame hdepth]
  exact hmid

/-- What follows a look at the state may depend on it. -/
theorem get_bind {f g : State → Attributing β} (hf : ∀ st, Balanced (f st) (g st)) :
    Balanced (get >>= f) (get >>= g) :=
  fun st => hf st st

theorem seq {p q : Attributing α} {p' q' : Attributing β} (hp : Balanced p q) (hq : Balanced p' q') :
    Balanced (do let _ ← p; p') (do let _ ← q; q') :=
  hp.bind fun _ => hq

/-- What a program yields need not be of use. -/
theorem discard {p q : Attributing α} (hp : Balanced p q) :
    Balanced (do let _ ← p) (do let _ ← q) :=
  hp.bind fun _ => .pure _

/-- What is yielded does not matter to the balance. -/
theorem map {p q : Attributing α} (f : α → β) (hp : Balanced p q) : Balanced (f <$> p) (f <$> q) := by
  rw [map_eq_pure_bind, map_eq_pure_bind]
  exact hp.bind fun a => .pure (f a)

protected theorem ite {c : Prop} [Decidable c] {p q p' q' : Attributing α} (hp : Balanced p q)
    (hp' : Balanced p' q') : Balanced (if c then p else p') (if c then q else q') := by
  split
  · exact hp
  · exact hp'

theorem forM {f g : α → Attributing Unit} {as : List α} (hf : ∀ a, Balanced (f a) (g a)) :
    Balanced (as.forM f) (as.forM g) := by
  induction as with
  | nil => exact .pure _
  | cons a as ih => exact (hf a).seq ih

theorem mapM {f g : α → Attributing β} {as : List α} (hf : ∀ a, Balanced (f a) (g a)) :
    Balanced (as.mapM f) (as.mapM g) := by
  induction as with
  | nil =>
    rw [List.mapM_nil, List.mapM_nil]
    exact .pure _
  | cons a as ih =>
    rw [List.mapM_cons, List.mapM_cons]
    exact (hf a).bind fun _ => ih.bind fun _ => .pure _

protected theorem report (id : Option NodeId) (failure : Failure) :
    Balanced (s.report id failure) (s.report id failure) :=
  of_same fun _ => ⟨rfl, rfl, rfl, rfl, rfl⟩

protected theorem recordType (id : NodeId) (t : Ty) : Balanced (recordType id t) (recordType id t) :=
  of_same fun _ => ⟨rfl, rfl, rfl, rfl, rfl⟩

protected theorem recordUse (place : Place) (name : NameUse) :
    Balanced (recordUse place name) (recordUse place name) :=
  of_same fun _ => ⟨rfl, rfl, rfl, rfl, rfl⟩

protected theorem recordVariable (v : Variable) : Balanced (recordVariable v) (recordVariable v) :=
  of_same fun _ => ⟨rfl, rfl, rfl, rfl, rfl⟩

protected theorem learn (owner name : String) (t : Ty) :
    Balanced (learn owner name t) (learn owner name t) :=
  of_same fun _ => ⟨rfl, rfl, rfl, rfl, rfl⟩

protected theorem stopped : Balanced s.stopped s.stopped := by
  refine of_same fun st => ?_
  rw [stopped_state]
  split <;> exact ⟨rfl, rfl, rfl, rfl, rfl⟩

/-- A declaration is one of the innermost scope. -/
protected theorem declare (f : LocalScope → LocalScope) : Balanced (declare f) (declare f) := by
  refine of_balances fun st => ?_
  rw [declare_state]
  split
  · rename_i scope scopes hscopes
    exact ⟨by rw [hscopes]; rfl, by rw [hscopes]; rfl, rfl, rfl, rfl, rfl⟩
  · exact .of_same rfl rfl rfl rfl rfl

/-- A local is declared in the scope that is open. -/
protected theorem declareLocal (name : String) (t : Ty) :
    Balanced (declareLocal name t) (declareLocal name t) := by
  unfold Attribution.declareLocal
  split
  · exact .pure _
  · exact .declare _

protected theorem declareLocalFunction (name : String) (t : Ty) :
    Balanced (declareLocalFunction name t) (declareLocalFunction name t) := .declare _

/-- Whatever the caller says, a walk is stopped between two steps. -/
theorem through {step step' : α → NodeId → Attributing α} {ids : List NodeId}
    (hstep : ∀ a id, Balanced (step a id) (step' a id)) (a : α) :
    Balanced (s.through step a ids) (s.through step' a ids) := by
  induction ids generalizing a with
  | nil => exact .pure a
  | cons id ids ih =>
    rw [Setting.through, Setting.through]
    refine Balanced.stopped.bind fun isStopped => ?_
    split
    · exact .pure a
    · exact (hstep a id).bind ih

/-- Surroundings are entered before a program and left after it, from one state. -/
theorem entering {p q : Attributing α} {p' q' : Attributing β} {st : State} (hp : Balanced p q)
    (inner : State) (leave : α × State → β × State)
    (hrun : Id.run (p'.run st) = leave (Id.run (p.run inner)))
    (hrun' : Id.run (q'.run st) = leave (Id.run (q.run inner)))
    (hdepth : st.depth ≤ maxDepth → inner.depth ≤ maxDepth)
    (hleave : ∀ r, Balances inner r.2 → Balances st (leave r).2) :
    Balances st (Id.run (p'.run st)).2 ∧
      (st.depth ≤ maxDepth → Id.run (q'.run st) = Id.run (p'.run st)) := by
  obtain ⟨hinner, hsame⟩ := hp inner
  rw [hrun, hrun']
  exact ⟨hleave _ hinner, fun h => congrArg leave (hsame (hdepth h))⟩

/-- A scope of its own is left with all that it has got. -/
theorem leave_scope {st st' : State} {scope : LocalScope}
    (h : Balances { st with scopes := scope :: st.scopes } st') :
    Balances st { st' with scopes := st'.scopes.tail } where
  scopes := congrArg List.length h.outerScopes
  outerScopes := congrArg List.tail h.outerScopes
  frames := h.frames
  enclosing := h.enclosing
  typeParameters := h.typeParameters
  depth := h.depth

/-- A scope that is put around is taken off again. -/
protected theorem inScope {p q : Attributing α} (scope : LocalScope) (hp : Balanced p q) :
    Balanced (inScope p scope) (inScope q scope) := fun st =>
  hp.entering { st with scopes := scope :: st.scopes }
    (fun r => (r.1, { r.2 with scopes := r.2.scopes.tail })) rfl rfl id fun _ => leave_scope

/-- A scope is left, and what it has got is used in what follows. -/
theorem collect {p q : Attributing α} {f g : α → LocalScope → Attributing β} (hp : Balanced p q)
    (hf : ∀ a scope, Balanced (f a scope) (g a scope)) :
    Balanced (pushScope >>= fun _ => p >>= fun a => popScope >>= f a)
      (pushScope >>= fun _ => q >>= fun a => popScope >>= g a) := by
  have hscope : Balanced (do pushScope; let a ← p; let scope ← popScope; return (a, scope))
      (do pushScope; let a ← q; let scope ← popScope; return (a, scope)) := fun st =>
    hp.entering { st with scopes := {} :: st.scopes }
      (fun r => ((r.1, r.2.scopes.headD {}), { r.2 with scopes := r.2.scopes.tail })) rfl rfl id
      fun _ => leave_scope
  have h := hscope.bind (f := fun r => f r.1 r.2) (g := fun r => g r.1 r.2) fun r => hf r.1 r.2
  simpa only [bind_assoc, pure_bind] using h

/-- A frame that is put around is taken off again. -/
protected theorem inFrame {p q : Attributing α} (frame : Option Frame) (hp : Balanced p q) :
    Balanced (inFrame frame p) (inFrame frame q) := by
  cases frame with
  | none => exact hp
  | some frame =>
    intro st
    refine hp.entering { st with frames := frame :: st.frames }
      (fun r => (r.1, { r.2 with frames := r.2.frames.tail })) rfl rfl id fun r h => ?_
    exact { h with frames := congrArg List.tail h.frames }

/-- A class that is entered is left. -/
protected theorem inClass {p q : Attributing α} (name : Option String) (hp : Balanced p q) :
    Balanced (inClass name p) (inClass name q) := by
  intro st
  cases name with
  | none =>
    refine hp.entering { st with enclosing := st.enclosing ++ [] } id rfl rfl id fun r h => ?_
    exact { h with enclosing := h.enclosing.trans (List.append_nil _) }
  | some name =>
    refine hp.entering { st with enclosing := st.enclosing ++ [name] }
      (fun r => (r.1, { r.2 with enclosing := r.2.enclosing.dropLast })) rfl rfl id fun r h => ?_
    exact { h with enclosing := (congrArg List.dropLast h.enclosing).trans List.dropLast_concat }

/-- Type parameters that come into scope leave it. -/
protected theorem withTypeParameters {p q : Attributing α} (names : List String) (hp : Balanced p q) :
    Balanced (withTypeParameters names p) (withTypeParameters names q) := by
  intro st
  refine hp.entering { st with typeParameters := st.typeParameters ++ names }
    (fun r => (r.1, { r.2 with typeParameters := r.2.typeParameters.take st.typeParameters.length }))
    rfl rfl id fun r h => ?_
  exact { h with
    typeParameters := (congrArg (List.take _) h.typeParameters).trans List.take_left }

/-- One level deeper is entered only from above the maximum. -/
protected theorem deeper {p q : Attributing α} (otherwise : α) (hp : Balanced p q) :
    Balanced (deeper otherwise p) (deeper otherwise q) := by
  intro st
  by_cases hdeep : st.depth ≥ maxDepth
  · have hrun (r : Attributing α) : Id.run ((deeper otherwise r).run st) = (otherwise, st) := by
      simp [deeper, hdeep]
    rw [hrun, hrun]
    exact ⟨.of_same rfl rfl rfl rfl rfl, fun _ => rfl⟩
  · let leave (r : α × State) : α × State := (r.1, { r.2 with depth := r.2.depth - 1 })
    have hrun (r : Attributing α) : Id.run ((deeper otherwise r).run st) =
        leave (Id.run (r.run { st with depth := st.depth + 1 })) := by
      simp [deeper, hdeep, leave]
    refine hp.entering { st with depth := st.depth + 1 } leave (hrun p) (hrun q)
      (fun _ => Nat.lt_of_not_ge hdeep) fun r h => ?_
    exact { h with depth := congrArg (· - 1) h.depth }

end

end Balanced

end KotlinTree.Attribution
