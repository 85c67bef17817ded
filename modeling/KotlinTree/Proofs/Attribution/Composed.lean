import KotlinTree.Attribution.State

/-!
What attribution is made of: single steps, and surroundings that are entered and left in pairs. What
holds of all these holds of the attribution of every file.
-/

namespace KotlinTree

/-- The use of a name is spelled as the source has it: it is that of an access, or a name that stands
alone. -/
inductive Forest.Spells (f : Forest) : Attribution.Place → Attribution.NameUse → Prop
  | access {use : Attribution.NameUse} {access : Access} (hd : f.data (some use.node) = .access access)
    (hname : use.name = f.nameText access.name) : Spells f .access use
  | reference {use : Attribution.NameUse}
    (hkind : f.kind? (some use.node) = some (.token .identifier))
    (hname : use.name = f.nameText (some use.node)) : Spells f .reference use

theorem Forest.Spells.exists_access {f : Forest} {place : Attribution.Place}
    {use : Attribution.NameUse} (h : f.Spells place use) (hplace : place = .access) :
    ∃ access, f.data (some use.node) = .access access := by
  cases h with
  | access hd _ => exact ⟨_, hd⟩
  | reference _ _ => cases hplace

namespace Attribution

/-- What is meant is a field, a method or a constructor, of which it is known where it is declared. -/
def Target.IsMember (t : Target) : Prop :=
  (t.symbol = .field ∨ t.symbol = .method ∨ t.symbol = .constructor) ∧ t.owner.isSome

/-- A use has a type that allows for nothing where its chain can be cut short. Elsewhere the member alone
decides whether a value of a class can be missing. -/
structure NameUse.AllowsFor (use : NameUse) (cut : Prop) : Prop where
  nullable : cut → use.type.isNullable ∨ use.type = .unknown
  declared : ¬ cut → ∀ name n, use.type = .named name n → n = use.target.nullability

end Attribution

/-- The use of a member allows for its chain to be cut short. -/
def Forest.Allows (f : Forest) (use : Attribution.NameUse) : Prop :=
  use.target.IsMember → use.AllowsFor (f.isShortCircuited use.node)

namespace Attribution

/-- A program of attribution is made of steps that find something out, only about nodes of which `P`
holds, and of surroundings that are left as they are entered. Names are used as they are spelled, and
members with a type that suits the chain. -/
inductive Composed (s : Setting) (P : NodeId → Prop) : {α : Type} → Attributing α → Prop where
  | pure {α : Type} (a : α) : Composed s P (pure a)
  | bind {α β : Type} {p : Attributing α} {f : α → Attributing β} :
    Composed s P p → (∀ a, Composed s P (f a)) → Composed s P (p >>= f)
  | get : Composed s P get
  | recordType {id : NodeId} (h : P id) (t : Ty) : Composed s P (recordType id t)
  | recordUse {place : Place} {name : NameUse} (h : P name.node) (huse : s.forest.Spells place name)
    (hallows : s.forest.Allows name) : Composed s P (recordUse place name)
  | recordVariable {v : Variable} (h : P v.node) : Composed s P (recordVariable v)
  | report (id : Option NodeId) (failure : Failure) : Composed s P (s.report id failure)
  | stopped : Composed s P s.stopped
  | declare (f : LocalScope → LocalScope) : Composed s P (declare f)
  | learn (owner name : String) (t : Ty) : Composed s P (learn owner name t)
  | deeper {α : Type} {p : Attributing α} (otherwise : α) :
    Composed s P p → Composed s P (deeper otherwise p)
  | inScope {α : Type} {p : Attributing α} (scope : LocalScope) :
    Composed s P p → Composed s P (inScope p scope)
  | inFrame {α : Type} {p : Attributing α} (frame : Option Frame) :
    Composed s P p → Composed s P (inFrame frame p)
  | inClass {α : Type} {p : Attributing α} (name : Option String) :
    Composed s P p → Composed s P (inClass name p)
  | withTypeParameters {α : Type} {p : Attributing α} (names : List String) :
    Composed s P p → Composed s P (withTypeParameters names p)
  /-- A scope that is left with what has been declared in it. -/
  | collected {α : Type} {p : Attributing α} : Composed s P p → Composed s P do
    pushScope
    let a ← p
    let scope ← popScope
    return (a, scope)

/-- The state after something deeper. -/
theorem deeper_state {α : Type} (otherwise : α) (p : Attributing α) (st : State) :
    (Id.run ((deeper otherwise p).run st)).2 =
      if st.depth ≥ maxDepth then st
      else
        let inner := (Id.run (p.run { st with depth := st.depth + 1 })).2
        { inner with depth := inner.depth - 1 } := by
  by_cases hd : st.depth ≥ maxDepth
  · simp [deeper, hd]
  · simp [deeper, hd]

/-- The state after it has been asked whether to stop. -/
theorem stopped_state (s : Setting) (st : State) : (Id.run (s.stopped.run st)).2 =
    if st.isStopped then st
    else { st with polls := st.polls + 1, isStopped := s.stops st.polls } := by
  cases hs : st.isStopped <;>
    simp [Setting.stopped, modifyGet, MonadStateOf.modifyGet, StateT.modifyGet, StateT.run, hs]

/-- The state after a declaration in the innermost scope. -/
theorem declare_state (f : LocalScope → LocalScope) (st : State) :
    (Id.run ((declare f).run st)).2 =
      match st.scopes with
      | scope :: scopes => { st with scopes := f scope :: scopes }
      | [] => st :=
  rfl

/-- Uses of names and variables are at nodes of which `P` holds, and only accesses are used as
accesses. -/
structure Findings.AreAt (findings : Findings) (f : Forest) (P : NodeId → Prop) : Prop where
  uses : ∀ entry : Place × NameUse, entry ∈ findings.uses → P entry.2.node ∧
    (entry.1 = .access → ∃ access, f.data (some entry.2.node) = .access access)
  declared : ∀ v : Variable, v ∈ findings.declared → P v.node

namespace Composed

section
variable {s : Setting} {P Q : NodeId → Prop} {α β : Type}

theorem map {p : Attributing α} (f : α → β) (hp : Composed s P p) : Composed s P (f <$> p) := by
  rw [map_eq_pure_bind]
  exact hp.bind fun a => .pure (f a)

theorem seq {p : Attributing α} {q : Attributing β} (hp : Composed s P p) (hq : Composed s P q) :
    Composed s P (do let _ ← p; q) :=
  hp.bind fun _ => hq

/-- What a program yields need not be of use. -/
theorem discard {p : Attributing α} (hp : Composed s P p) : Composed s P (do let _ ← p) :=
  hp.bind fun _ => .pure _

theorem forM {f : α → Attributing Unit} {as : List α} (hf : ∀ a ∈ as, Composed s P (f a)) :
    Composed s P (as.forM f) := by
  induction as with
  | nil => exact .pure _
  | cons a as ih =>
    exact (hf a List.mem_cons_self).seq (ih fun a ha => hf a (List.mem_cons_of_mem _ ha))

theorem mapM {f : α → Attributing β} {as : List α} (hf : ∀ a ∈ as, Composed s P (f a)) :
    Composed s P (as.mapM f) := by
  induction as with
  | nil =>
    rw [List.mapM_nil]
    exact .pure _
  | cons a as ih =>
    rw [List.mapM_cons]
    have hrest := ih fun a ha => hf a (List.mem_cons_of_mem _ ha)
    exact (hf a List.mem_cons_self).bind fun _ => hrest.bind fun _ => .pure _

theorem through {step : α → NodeId → Attributing α} {ids : List NodeId}
    (hstep : ∀ a, ∀ id ∈ ids, Composed s P (step a id)) (a : α) :
    Composed s P (s.through step a ids) := by
  induction ids generalizing a with
  | nil => exact .pure a
  | cons id ids ih =>
    rw [Setting.through]
    refine .bind .stopped fun isStopped => ?_
    cases isStopped
    · have hrest := ih fun a id hid => hstep a id (List.mem_cons_of_mem _ hid)
      exact (hstep a id List.mem_cons_self).bind hrest
    · exact .pure a

/-- A scope and what follows after it. -/
theorem collect {p : Attributing α} {f : α → LocalScope → Attributing β} (hp : Composed s P p)
    (hf : ∀ a scope, Composed s P (f a scope)) :
    Composed s P (pushScope >>= fun _ => p >>= fun a => popScope >>= f a) := by
  have h := hp.collected.bind (f := fun r => f r.1 r.2) fun r => hf r.1 r.2
  simpa only [bind_assoc, pure_bind] using h

theorem bind_collect {γ : Type} {q : Attributing γ} {p : γ → Attributing α}
    {f : α → LocalScope → Attributing β} (hq : Composed s P q) (hp : ∀ c, Composed s P (p c))
    (hf : ∀ a scope, Composed s P (f a scope)) :
    Composed s P (pushScope >>= fun _ => q >>= fun c => p c >>= fun a => popScope >>= f a) := by
  simpa only [bind_assoc] using (hq.bind hp).collect hf

/-- What is found out about some nodes is found out about nodes among more. -/
theorem mono {p : Attributing α} (hp : Composed s P p) (h : ∀ id, P id → Q id) : Composed s Q p := by
  induction hp with
  | pure a => exact .pure a
  | bind _ _ ihp ihf => exact .bind ihp ihf
  | get => exact .get
  | recordType hid t => exact .recordType (h _ hid) t
  | recordUse hid huse hallows => exact .recordUse (h _ hid) huse hallows
  | recordVariable hid => exact .recordVariable (h _ hid)
  | report id failure => exact .report id failure
  | stopped => exact .stopped
  | declare f => exact .declare f
  | learn owner name t => exact .learn owner name t
  | deeper otherwise _ ih => exact .deeper otherwise ih
  | inScope scope _ ih => exact .inScope scope ih
  | inFrame frame _ ih => exact .inFrame frame ih
  | inClass name _ ih => exact .inClass name ih
  | withTypeParameters names _ ih => exact .withTypeParameters names ih
  | collected _ ih => exact .collected ih

/-- What the single steps keep, every program keeps. -/
theorem keeps {p : Attributing α} (hp : Composed s P p) {I : Findings → Bool → Prop}
    (htype : ∀ φ b id t, P id → I φ b → I { φ with types := φ.types.push (id, t) } b)
    (huse : ∀ φ b place name, P name.node → s.forest.Spells place name → s.forest.Allows name →
      I φ b → I { φ with uses := φ.uses.push (place, name) } b)
    (hvariable : ∀ φ b v, P v.node → I φ b → I { φ with declared := φ.declared.push v } b)
    (hreport : ∀ φ b d, I φ b → I { φ with diagnostics := φ.diagnostics.push d } b)
    (hstops : ∀ φ n, I φ false → I φ (s.stops n)) :
    ∀ st : State, I st.toFindings st.isStopped →
      I (Id.run (p.run st)).2.toFindings (Id.run (p.run st)).2.isStopped := by
  -- Only five of the steps touch what is found or whether it is stopped; the others, and what
  -- surrounds a program, pass it on.
  induction hp with
  | pure _ => exact fun _ h => h
  | bind _ _ ihp ihf => exact fun st h => ihf _ _ (ihp st h)
  | get => exact fun _ h => h
  | recordType hid t => exact fun st h => htype _ _ _ t hid h
  | recordUse hid hspells hallows => exact fun st h => huse _ _ _ _ hid hspells hallows h
  | recordVariable hid => exact fun st h => hvariable _ _ _ hid h
  | report _ _ => exact fun st h => hreport _ _ _ h
  | stopped =>
    intro st h
    rw [stopped_state]
    split
    · exact h
    · rename_i hs
      exact hstops _ _ (Bool.eq_false_iff.mpr hs ▸ h)
  | declare f =>
    intro st h
    rw [declare_state]
    split <;> exact h
  | learn _ _ _ => exact fun _ h => h
  | deeper otherwise _ ih =>
    intro st h
    rw [deeper_state]
    split
    · exact h
    · exact ih _ h
  | inScope scope _ ih => exact fun st h => ih _ h
  | inFrame frame _ ih =>
    intro st h
    cases frame with
    | none => exact ih st h
    | some frame => exact ih _ h
  | @inClass _ p name _ ih =>
    intro st h
    cases name with
    | none => exact ih _ h
    | some name => exact ih _ h
  | withTypeParameters names _ ih => exact fun st h => ih _ h
  | collected _ ih => exact fun st h => ih _ h

/-- Nothing is stopped as long as the caller does not say so. -/
theorem isStopped {p : Attributing α} (hp : Composed s P p) (hs : ∀ n, s.stops n = false)
    (st : State) (h : st.isStopped = false) : (Id.run (p.run st)).2.isStopped = false :=
  hp.keeps (I := fun _ b => b = false) (fun _ _ _ _ _ h => h) (fun _ _ _ _ _ _ _ h => h)
    (fun _ _ _ _ h => h) (fun _ _ _ h => h) (fun _ n _ => hs n) st h

/-- What a program finds is at nodes of which `P` holds. -/
theorem areAt {p : Attributing α} (hp : Composed s P p) (st : State)
    (h : st.toFindings.AreAt s.forest P) :
    (Id.run (p.run st)).2.toFindings.AreAt s.forest P := by
  refine hp.keeps (I := fun φ _ => φ.AreAt s.forest P) (fun _ _ _ _ _ h => ⟨h.uses, h.declared⟩)
    ?_ ?_ (fun _ _ _ h => ⟨h.uses, h.declared⟩) (fun _ _ h => h) st h
  · refine fun _ _ _ _ hid huse _ h => ⟨fun entry hentry => ?_, h.declared⟩
    rcases Array.mem_push.mp hentry with hold | rfl
    · exact h.uses entry hold
    · exact ⟨hid, huse.exists_access⟩
  · refine fun _ _ _ hid h => ⟨h.uses, fun v hv => ?_⟩
    rcases Array.mem_push.mp hv with hold | rfl
    · exact h.declared v hold
    · exact hid

/-- What a program uses is spelled as the source has it, and allows for the chain that it is in. -/
theorem uses {p : Attributing α} (hp : Composed s P p) (st : State)
    (h : ∀ entry ∈ st.uses, s.forest.Spells entry.1 entry.2 ∧ s.forest.Allows entry.2) :
    ∀ entry ∈ (Id.run (p.run st)).2.uses,
      s.forest.Spells entry.1 entry.2 ∧ s.forest.Allows entry.2 := by
  refine hp.keeps
    (I := fun φ _ => ∀ entry ∈ φ.uses, s.forest.Spells entry.1 entry.2 ∧ s.forest.Allows entry.2)
    (fun _ _ _ _ _ h => h) ?_ (fun _ _ _ _ h => h) (fun _ _ _ h => h) (fun _ _ h => h) st h
  intro _ _ _ _ _ huse hallows h entry hentry
  rcases Array.mem_push.mp hentry with hold | rfl
  · exact h entry hold
  · exact ⟨huse, hallows⟩

end

end Composed

end Attribution

end KotlinTree
