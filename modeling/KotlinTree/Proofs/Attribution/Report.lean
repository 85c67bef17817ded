import KotlinTree.Proofs.Attribution.Note

/-!
Programs of attribution that are sure to report a diagnostic. A program keeps what has been reported and
leaves what surrounds it as it is, so it reports what any of its parts reports, each in the surroundings
that the program gives to it.
-/

namespace KotlinTree.Attribution

/-- Where a program stands, with the labels of the classes whose objects are at hand, the innermost first. -/
structure Around extends Surroundings where
  labels : List (Option String) := []

namespace Around

def deeper (c : Around) : Around := { c with depth := c.depth + 1 }

def inClass (c : Around) (name : Option String) : Around :=
  { c with enclosing := c.enclosing ++ name.toList }

def withTypeParameters (c : Around) (names : List String) : Around :=
  { c with typeParameters := c.typeParameters ++ names }

def onClass (c : Around) (label : Option String) : Around := { c with labels := label :: c.labels }

/-- There is a class for `super` to stand in: any, or one of a label. -/
def HasClass (c : Around) (label : Option String) : Prop :=
  ∃ l ∈ c.labels, label = none ∨ l = label

end Around

def State.around (st : State) : Around :=
  { toSurroundings := st.surroundings, labels := (st.frames.filter Frame.isClass).map Frame.label }

/-- From one state to another, what surrounds the current place stays as it is, what has been reported is
kept, and nothing that is stopped goes on. -/
structure Proceeds (st st' : State) : Prop where
  frames : st'.frames = st.frames
  surroundings : st'.surroundings = st.surroundings
  reports : ∀ d ∈ st.diagnostics, d ∈ st'.diagnostics
  goesOn : st'.isStopped = false → st.isStopped = false

/-- Started in some surroundings, a program reports a diagnostic unless it is stopped. -/
def Finds (d : Diagnostic) {α : Type} (p : Attributing α) (c : Around) : Prop :=
  ∀ st : State, st.around = c → (Id.run (p.run st)).2.isStopped = false →
    d ∈ (Id.run (p.run st)).2.diagnostics

/-- A program proceeds, and reports a diagnostic in all surroundings of which `R` holds. -/
structure Reports (d : Diagnostic) (R : Around → Prop) {α : Type} (p : Attributing α) : Prop where
  proceeds : ∀ st, Proceeds st (Id.run (p.run st)).2
  finds : ∀ c, R c → Finds d p c

/-- A program proceeds, whatever it reports. -/
abbrev Quiet (d : Diagnostic) {α : Type} (p : Attributing α) : Prop := Reports d (fun _ => False) p

section
variable {st mid st' : State}

/-- Nothing happens. -/
theorem Proceeds.refl (st : State) : Proceeds st st := ⟨rfl, rfl, fun _ h => h, id⟩

/-- Whatever happens first and then proceeds together. -/
theorem Proceeds.trans (h : Proceeds st mid) (h' : Proceeds mid st') : Proceeds st st' where
  frames := h'.frames.trans h.frames
  surroundings := h'.surroundings.trans h.surroundings
  reports d hd := h'.reports d (h.reports d hd)
  goesOn hs := h.goesOn (h'.goesOn hs)

/-- The labels of the classes around and the surroundings are the same. -/
theorem Proceeds.around (h : Proceeds st st') : st'.around = st.around := by
  rw [State.around, h.frames, h.surroundings]
  rfl

end

namespace Reports

section
variable {s : Setting} {d : Diagnostic} {α β : Type} {R R' : Around → Prop}

/-- A program that proceeds is quiet, as nothing is asked to be found. -/
theorem of_proceeds {p : Attributing α} (h : ∀ st, Proceeds st (Id.run (p.run st)).2) : Quiet d p :=
  ⟨h, fun _ h => h.elim⟩

/-- Less may be asked of a program. -/
theorem mono {p : Attributing α} (hp : Reports d R p) (h : ∀ c, R' c → R c) : Reports d R' p :=
  ⟨hp.proceeds, fun c hc => hp.finds c (h c hc)⟩

/-- A program that reports proceeds, whatever else is asked. -/
theorem quiet {p : Attributing α} (hp : Reports d R p) : Quiet d p := hp.mono fun _ h => h.elim

/-- A program that proceeds reports what it finds. -/
theorem self {p : Attributing α} (hp : Reports d R p) : Reports d (Finds d p) p :=
  ⟨hp.proceeds, fun _ h => h⟩

/-- A plain value reports nothing. -/
protected theorem pure (a : α) : Quiet d (pure a : Attributing α) := of_proceeds .refl

/-- What either of two programs reports is reported by both, one after the other. -/
protected theorem bind {p : Attributing α} {f : α → Attributing β} (hp : Reports d R p)
    (hf : ∀ a, Reports d R' (f a)) : Reports d (fun c => R c ∨ R' c) (p >>= f) := by
  have hrest (st : State) := (hf (Id.run (p.run st)).1).proceeds (Id.run (p.run st)).2
  refine ⟨fun st => (hp.proceeds st).trans (hrest st), fun c hc st hst hs => ?_⟩
  rcases hc with hc | hc
  · exact (hrest st).reports d (hp.finds c hc st hst ((hrest st).goesOn hs))
  · exact (hf _).finds c hc _ ((hp.proceeds st).around.trans hst) hs

/-- What is reported by the first of two programs. -/
theorem bind_first {p : Attributing α} {f : α → Attributing β} (hp : Reports d R p)
    (hf : ∀ a, Quiet d (f a)) : Reports d R (p >>= f) :=
  (hp.bind hf).mono fun _ => Or.inl

/-- What is reported by the second of two programs. -/
theorem bind_second {p : Attributing α} {f : α → Attributing β} (hp : Quiet d p)
    (hf : ∀ a, Reports d R (f a)) : Reports d R (p >>= f) :=
  (hp.bind hf).mono fun _ => Or.inr

/-- What is yielded does not matter. -/
theorem map {p : Attributing α} (f : α → β) (hp : Reports d R p) : Reports d R (f <$> p) := by
  rw [map_eq_pure_bind]
  exact hp.bind_first fun a => .pure (f a)

/-- A program that reads the state sees the surroundings that it is started in. -/
theorem get_bind_around {f : State → Attributing β}
    (hf : ∀ st, Reports d (fun c => c = st.around ∧ R c) (f st)) : Reports d R (get >>= f) where
  proceeds st := (hf st).proceeds st
  finds c hc st hst := (hf st).finds c ⟨hst.symm, hc⟩ st hst

/-- What follows a look at the state reports, whatever the state is. -/
theorem get_bind {f : State → Attributing β} (hf : ∀ st, Reports d R (f st)) :
    Reports d R (get >>= f) :=
  get_bind_around fun st => (hf st).mono fun _ => And.right

/-- A choice reports what both of its sides do. -/
protected theorem ite {b : Prop} [Decidable b] {p q : Attributing α} (hp : b → Reports d R p)
    (hq : ¬b → Reports d R q) : Reports d R (if b then p else q) := by
  split
  · rename_i hb
    exact hp hb
  · rename_i hb
    exact hq hb

/-- A program done for each element reports what it reports for any of them. -/
theorem forM {R : α → Around → Prop} {f : α → Attributing Unit} {as : List α}
    (hf : ∀ a ∈ as, Reports d (R a) (f a)) : Reports d (fun c => ∃ a ∈ as, R a c) (as.forM f) := by
  induction as with
  | nil => exact (Reports.pure _).mono fun _ ⟨_, h, _⟩ => absurd h List.not_mem_nil
  | cons a as ih =>
    have hrest := ih fun b hb => hf b (List.mem_cons_of_mem _ hb)
    exact ((hf a List.mem_cons_self).bind fun _ => hrest).mono fun _ h => by simpa using h

/-- A program run for each element reports what it reports for any of them. -/
theorem mapM {R : α → Around → Prop} {f : α → Attributing β} {as : List α}
    (hf : ∀ a ∈ as, Reports d (R a) (f a)) : Reports d (fun c => ∃ a ∈ as, R a c) (as.mapM f) := by
  induction as with
  | nil =>
    rw [List.mapM_nil]
    exact (Reports.pure _).mono fun _ ⟨_, h, _⟩ => absurd h List.not_mem_nil
  | cons a as ih =>
    rw [List.mapM_cons]
    have hrest := ih fun b hb => hf b (List.mem_cons_of_mem _ hb)
    have hfirst := (hf a List.mem_cons_self).bind fun b => hrest.bind_first fun bs => .pure (b :: bs)
    exact hfirst.mono fun _ h => by simpa using h

/-- Asking whether to stop reports nothing. -/
protected theorem stopped : Quiet d s.stopped := by
  refine of_proceeds fun st => ?_
  rw [stopped_state]
  split
  · exact .refl st
  · rename_i hs
    exact ⟨rfl, rfl, fun _ h => h, fun _ => by simpa using hs⟩

/-- A program that is stopped by the question whether to stop need not report anything. -/
theorem unlessStopped {p : Attributing α} (a : α) (hp : Reports d R p) :
    Reports d R (do if ← s.stopped then return a else p) := by
  refine ⟨fun st => ?_, fun c hc st hst => ?_⟩ <;> rw [unlessStopped_run]
  · split
    · exact .refl st
    · rename_i hs
      have hs : st.isStopped = false := by simpa using hs
      split
      · exact ⟨rfl, rfl, fun _ h => h, fun _ => hs⟩
      · have h := hp.proceeds { st with polls := st.polls + 1, isStopped := false }
        exact ⟨h.frames, h.surroundings, h.reports, fun _ => hs⟩
  · split
    · rename_i hs
      exact fun h => absurd (hs.symm.trans h) (by decide)
    · split
      · exact fun h => absurd h (by simp)
      · exact hp.finds c hc _ hst

/-- A walk reports what any of its steps does, as it is not stopped before any of them. -/
theorem through {R : NodeId → Around → Prop} {step : α → NodeId → Attributing α} {ids : List NodeId}
    (hstep : ∀ a, ∀ id ∈ ids, Reports d (R id) (step a id)) (a : α) :
    Reports d (fun c => ∃ id ∈ ids, R id c) (s.through step a ids) := by
  induction ids generalizing a with
  | nil => exact (Reports.pure a).mono fun _ ⟨_, h, _⟩ => absurd h List.not_mem_nil
  | cons id ids ih =>
    have hrest := ih fun a y hy => hstep a y (List.mem_cons_of_mem _ hy)
    rw [Setting.through]
    refine .unlessStopped a (((hstep a id List.mem_cons_self).bind hrest).mono fun _ h => ?_)
    simpa using h

/-- A step that finds out nothing but types, uses and variables. -/
theorem of_same {p : Attributing α} (h : ∀ st, (Id.run (p.run st)).2.frames = st.frames ∧
    (Id.run (p.run st)).2.surroundings = st.surroundings ∧
    (Id.run (p.run st)).2.diagnostics = st.diagnostics ∧
    (Id.run (p.run st)).2.isStopped = st.isStopped) : Quiet d p := by
  refine of_proceeds fun st => ?_
  obtain ⟨hframes, hsurroundings, hdiagnostics, hstopped⟩ := h st
  exact ⟨hframes, hsurroundings, fun _ hd => hdiagnostics ▸ hd, fun hs => hstopped ▸ hs⟩

/-- Recording a type reports nothing. -/
protected theorem recordType (id : NodeId) (t : Ty) : Quiet d (recordType id t) :=
  of_same fun _ => ⟨rfl, rfl, rfl, rfl⟩

/-- Recording a use reports nothing. -/
protected theorem recordUse (place : Place) (name : NameUse) : Quiet d (recordUse place name) :=
  of_same fun _ => ⟨rfl, rfl, rfl, rfl⟩

/-- Recording a variable reports nothing. -/
protected theorem recordVariable (v : Variable) : Quiet d (recordVariable v) :=
  of_same fun _ => ⟨rfl, rfl, rfl, rfl⟩

/-- Learning the type of a member reports nothing. -/
protected theorem learn (owner name : String) (t : Ty) : Quiet d (learn owner name t) :=
  of_same fun _ => ⟨rfl, rfl, rfl, rfl⟩

/-- A new scope is no part of what surrounds a place. -/
protected theorem pushScope (scope : LocalScope) : Quiet d (pushScope scope) :=
  of_same fun _ => ⟨rfl, rfl, rfl, rfl⟩

/-- Nor is one that is left. -/
protected theorem popScope : Quiet d popScope := of_same fun _ => ⟨rfl, rfl, rfl, rfl⟩

/-- Nor is what is declared in one. -/
protected theorem declare (f : LocalScope → LocalScope) : Quiet d (declare f) := by
  refine of_same fun st => ?_
  rw [declare_state]
  split <;> exact ⟨rfl, rfl, rfl, rfl⟩

/-- A local is declared in a scope. -/
theorem declareLocal (name : String) (t : Ty) : Quiet d (declareLocal name t) :=
  .ite (fun _ => .pure _) fun _ => .declare _

/-- A failure is reported with the file's name and the place of its node. -/
theorem report (id : Option NodeId) (failure : Failure) :
    Reports d (fun _ => d = failure.diagnostic s.unit.fileName (s.forest.span id)) (s.report id failure) where
  proceeds _ := ⟨rfl, rfl, fun _ h => Array.mem_push_of_mem _ h, fun h => h⟩
  finds _ hd _ _ _ := hd ▸ Array.mem_push_self

/-- A program runs inside other surroundings, which are left as they are entered. -/
theorem of_inner {p : Attributing α} {q : Attributing β} {inside : Around → Around}
    (enter : State → State) (leave : State → State → State)
    (hrun : ∀ st, (Id.run (q.run st)).2 = leave st (Id.run (p.run (enter st))).2)
    (henter : ∀ st, (enter st).around = inside st.around)
    (hentered : ∀ st, (enter st).diagnostics = st.diagnostics ∧ (enter st).isStopped = st.isStopped)
    (hleave : ∀ st st', st'.frames = (enter st).frames → st'.surroundings = (enter st).surroundings →
      (leave st st').frames = st.frames ∧ (leave st st').surroundings = st.surroundings)
    (hleft : ∀ st st', (leave st st').diagnostics = st'.diagnostics ∧
      (leave st st').isStopped = st'.isStopped) (hp : Reports d R p) :
    Reports d (fun c => R (inside c)) q where
  -- Whatever is entered is left again, and nothing that is reported is lost on the way.
  proceeds st := by
    have h := hp.proceeds (enter st)
    obtain ⟨hframes, hsurroundings⟩ := hleave st _ h.frames h.surroundings
    rw [hrun]
    refine ⟨hframes, hsurroundings, fun d hd => ?_, fun hs => ?_⟩
    · rw [(hleft st _).1]
      exact h.reports d ((hentered st).1 ▸ hd)
    · rw [(hleft st _).2] at hs
      exact (hentered st).2 ▸ h.goesOn hs
  finds c hc st hst hs := by
    rw [hrun] at hs ⊢
    rw [(hleft st _).1]
    rw [(hleft st _).2] at hs
    exact hp.finds _ hc _ (hst ▸ henter st) hs

/-- A program in a scope reports what it reports without. -/
theorem inScope {p : Attributing α} (scope : LocalScope) (hp : Reports d R p) :
    Reports d R (inScope p scope) :=
  ((Reports.pushScope scope).bind_second fun _ => hp.bind_first fun _ =>
    Reports.popScope.bind_first fun _ => .pure _)

/-- An implicit receiver that is no class. -/
theorem inFrame {p : Attributing α} {frame : Option Frame} (hframe : ∀ f ∈ frame, f.isClass = false)
    (hp : Reports d R p) : Reports d R (inFrame frame p) := by
  cases frame with
  | none => exact hp
  | some frame =>
    refine of_inner (fun st => { st with frames := frame :: st.frames })
      (fun _ st => { st with frames := st.frames.tail }) (fun _ => rfl) (fun st => ?_)
      (fun _ => ⟨rfl, rfl⟩) (fun _ _ hframes hsurroundings => ?_) (fun _ _ => ⟨rfl, rfl⟩) hp
    · simp [State.around, State.surroundings, hframe frame rfl]
    · exact ⟨congrArg List.tail hframes, hsurroundings⟩

/-- A program in a class's frame is run where the class's label is known. -/
theorem inClassFrame {p : Attributing α} {frame : Frame} (hframe : frame.isClass = true)
    (hp : Reports d R p) : Reports d (fun c => R (c.onClass frame.label)) (Attribution.inFrame (some frame) p) := by
  refine of_inner (fun st => { st with frames := frame :: st.frames })
    (fun _ st => { st with frames := st.frames.tail }) (fun _ => rfl) (fun st => ?_)
    (fun _ => ⟨rfl, rfl⟩) (fun _ _ hframes hsurroundings => ?_) (fun _ _ => ⟨rfl, rfl⟩) hp
  · simp [State.around, State.surroundings, Around.onClass, hframe]
  · exact ⟨congrArg List.tail hframes, hsurroundings⟩

/-- A program in a class is run where the class is known by its name. -/
theorem inClass {p : Attributing α} {name : Option String} (hp : Reports d R p) :
    Reports d (fun c => R (c.inClass name)) (inClass name p) := by
  refine of_inner (fun st => { st with enclosing := st.enclosing ++ name.toList })
    (fun _ st => if name.isSome then { st with enclosing := st.enclosing.dropLast } else st)
    (fun _ => ?_) (fun _ => rfl) (fun _ => ⟨rfl, rfl⟩) (fun st st' hframes hsurroundings => ?_)
    (fun _ _ => ?_) hp
  · cases name <;> rfl
  · have h := State.surroundings_eq_iff.mp hsurroundings
    cases name <;> simp_all [State.surroundings]
  · cases name <;> exact ⟨rfl, rfl⟩

/-- A program with type parameters is run where they are known. -/
theorem withTypeParameters {p : Attributing α} {names : List String} (hp : Reports d R p) :
    Reports d (fun c => R (c.withTypeParameters names)) (withTypeParameters names p) := by
  refine of_inner (fun st => { st with typeParameters := st.typeParameters ++ names })
    (fun st st' => { st' with typeParameters := st'.typeParameters.take st.typeParameters.length })
    (fun _ => rfl) (fun _ => rfl) (fun _ => ⟨rfl, rfl⟩) (fun st st' hframes hsurroundings => ?_)
    (fun _ _ => ⟨rfl, rfl⟩) hp
  have h := State.surroundings_eq_iff.mp hsurroundings
  simp_all [State.surroundings]

/-- What is nested too deep is passed over. -/
theorem deeper {p : Attributing α} (otherwise : α) (hp : Reports d R p) :
    Reports d (fun c => c.depth < maxDepth ∧ R c.deeper) (deeper otherwise p) := by
  refine ⟨fun st => ?_, fun c ⟨hdepth, hc⟩ st hst => ?_⟩ <;> rw [deeper_state]
  · split
    · exact .refl st
    · have h := hp.proceeds { st with depth := st.depth + 1 }
      obtain ⟨henclosing, hparameters, hdepth⟩ := State.surroundings_eq_iff.mp h.surroundings
      refine ⟨h.frames, ?_, h.reports, h.goesOn⟩
      exact State.surroundings_eq_iff.mpr ⟨henclosing, hparameters, congrArg (· - 1) hdepth⟩
  · subst hst
    have hdepth : ¬st.depth ≥ maxDepth := Nat.not_le_of_lt hdepth
    rw [if_neg hdepth]
    exact hp.finds _ hc { st with depth := st.depth + 1 } rfl

end

end Reports

end KotlinTree.Attribution
