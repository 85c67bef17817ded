import KotlinTree.Proofs.Attribution.Composed

/-!
What a program of attribution finds out about one node. A program that is composed of steps about
other nodes adds nothing to it; the notes of a sequence are those of its parts in order.

What a program yields may hang on what names mean where it is started, of which nothing is known here.
So it is told from the end: of all names that are used in the end it is known what they have been found
to mean.
-/

namespace KotlinTree.Attribution

/-- Where a program stands: what written types depend on, and how deep it is in an expression. -/
structure Surroundings extends TypeContext where
  depth : Nat := 0

namespace Surroundings

def deeper (c : Surroundings) : Surroundings := { c with depth := c.depth + 1 }

def inClass (c : Surroundings) (name : Option String) : Surroundings :=
  { c with enclosing := c.enclosing ++ name.toList }

def withTypeParameters (c : Surroundings) (names : List String) : Surroundings :=
  { c with typeParameters := c.typeParameters ++ names }

end Surroundings

/-- What has been found out about one node, in the order of its finding. -/
structure About where
  types : List Ty := []
  declared : List Variable := []

namespace About

instance : Append About := ⟨fun a b => ⟨a.types ++ b.types, a.declared ++ b.declared⟩⟩

/-- Types and variables are joined apart from each other. -/
theorem append_def (a b : About) : a ++ b = ⟨a.types ++ b.types, a.declared ++ b.declared⟩ := rfl

/-- Nothing is added by nothing on the right. -/
@[simp] theorem append_nothing (a : About) : a ++ ({} : About) = a := by
  simp [append_def]

/-- Nothing is added by nothing on the left. -/
@[simp] theorem nothing_append (a : About) : ({} : About) ++ a = a := by
  simp [append_def]

/-- It makes no difference how three parts of what is known about a node are joined. -/
theorem append_assoc (a b c : About) : a ++ b ++ c = a ++ (b ++ c) := by
  simp [append_def]

end About

def Findings.about (findings : Findings) (x : NodeId) : About where
  types := (findings.types.toList.filter fun entry => entry.1 = x).map Prod.snd
  declared := findings.declared.toList.filter fun v => v.node = x

def State.surroundings (st : State) : Surroundings :=
  { enclosing := st.enclosing, typeParameters := st.typeParameters, depth := st.depth }

/-- Surroundings are the classes, the type parameters and the depth. -/
theorem State.surroundings_eq_iff {st : State} {c : Surroundings} : st.surroundings = c ↔
    st.enclosing = c.enclosing ∧ st.typeParameters = c.typeParameters ∧ st.depth = c.depth := by
  obtain ⟨⟨enclosing, typeParameters⟩, depth⟩ := c
  simp only [surroundings, Surroundings.mk.injEq, TypeContext.mk.injEq, and_assoc]

/-- A program that starts with the question whether to stop. -/
theorem unlessStopped_run {α : Type} (s : Setting) (a : α) (p : Attributing α) (st : State) :
    Id.run ((do if ← s.stopped then return a else p : Attributing α).run st) =
      if st.isStopped then (a, st)
      else if s.stops st.polls then (a, { st with polls := st.polls + 1, isStopped := true })
      else Id.run (p.run { st with polls := st.polls + 1, isStopped := false }) := by
  cases h : st.isStopped <;> cases hpoll : s.stops st.polls <;>
    simp [Setting.stopped, modifyGet, MonadStateOf.modifyGet, StateT.modifyGet, StateT.run, bind,
      StateT.bind, h, hpoll] <;> rfl

/-- Nothing has been stopped, and the names that have been used are among those that are used in the
end. -/
def State.LeadsTo (st : State) (used : List (Place × NameUse)) : Prop :=
  st.isStopped = false ∧ st.uses.toList ⊆ used

/-- What has been used stays so. -/
theorem Composed.leadsTo_of_run {s : Setting} {P : NodeId → Prop} {used : List (Place × NameUse)}
    {α : Type} {p : Attributing α} (hp : Composed s P p) {st : State} (h : (Id.run (p.run st)).2.LeadsTo used) :
    st.LeadsTo used := by
  refine Classical.byContradiction fun hnot => ?_
  have huses {φ : Findings} {entry : Place × NameUse} (h : (φ.uses.push entry).toList ⊆ used) :
      φ.uses.toList ⊆ used := by
    rw [Array.toList_push] at h
    exact (List.append_subset.mp h).1
  exact hp.keeps (I := fun φ b => ¬ (b = false ∧ φ.uses.toList ⊆ used)) (fun _ _ _ _ _ h => h)
    (fun _ _ _ _ _ _ _ h hpush => h ⟨hpush.1, huses hpush.2⟩) (fun _ _ _ _ h => h) (fun _ _ _ h => h)
    (fun _ _ h hstops => h ⟨rfl, hstops.2⟩) st hnot h

/-- Started in some surroundings, a program leaves them as they are; and if it leads to what is used in
the end, so does its start, and it finds out exactly this about a node. -/
def Notes {α : Type} (used : List (Place × NameUse)) (c : Surroundings) (x : NodeId) (l : About)
    (p : Attributing α) : Prop :=
  ∀ st : State, st.surroundings = c →
    (Id.run (p.run st)).2.surroundings = c ∧
      ((Id.run (p.run st)).2.LeadsTo used →
        st.LeadsTo used ∧ (Id.run (p.run st)).2.about x = st.about x ++ l)

/-- Started in some surroundings, a program yields a value if it leads to what is used in the end. -/
def Returns {α : Type} (used : List (Place × NameUse)) (c : Surroundings) (p : Attributing α) (a : α) :
    Prop :=
  ∀ st : State, st.surroundings = c → (Id.run (p.run st)).2.LeadsTo used → (Id.run (p.run st)).1 = a

namespace Notes

section
variable {s : Setting} {used : List (Place × NameUse)} {α β γ : Type} {c : Surroundings} {x : NodeId}
  {l l' l'' : About}

/-- A step that changes neither the surroundings nor what is known about the node. -/
theorem of_unchanged {p : Attributing α}
    (hc : ∀ st, (Id.run (p.run st)).2.surroundings = st.surroundings)
    (hs : ∀ st, (Id.run (p.run st)).2.LeadsTo used → st.LeadsTo used)
    (hx : ∀ st, (Id.run (p.run st)).2.about x = st.about x) : Notes used c x {} p := by
  intro st hst
  refine ⟨(hc st).trans hst, fun h => ⟨hs st h, ?_⟩⟩
  rw [hx, About.append_nothing]

/-- A plain value finds out nothing. -/
protected theorem pure (a : α) : Notes used c x {} (pure a : Attributing α) :=
  of_unchanged (fun _ => rfl) (fun _ h => h) fun _ => rfl

/-- Looking at the state finds out nothing. -/
protected theorem get : Notes used c x {} (get : Attributing State) :=
  of_unchanged (fun _ => rfl) (fun _ h => h) fun _ => rfl

/-- What is reported is about no node: neither a type nor a variable. -/
protected theorem report (id : Option NodeId) (failure : Failure) :
    Notes used c x {} (s.report id failure) :=
  of_unchanged (fun _ => rfl) (fun _ h => h) fun _ => rfl

/-- A use is recorded beside the types; what it leads to had the uses before it. -/
protected theorem recordUse (place : Place) (name : NameUse) :
    Notes used c x {} (recordUse place name) := by
  refine of_unchanged (fun _ => rfl) (fun st h => ⟨h.1, ?_⟩) fun _ => rfl
  have huses : (st.uses.push (place, name)).toList ⊆ used := h.2
  rw [Array.toList_push] at huses
  exact (List.append_subset.mp huses).1

/-- What is learned of a member is not recorded at a node. -/
protected theorem learn (owner name : String) (t : Ty) : Notes used c x {} (learn owner name t) :=
  of_unchanged (fun _ => rfl) (fun _ h => h) fun _ => rfl

/-- Locals are declared in the scopes, not at a node. -/
protected theorem declare (f : LocalScope → LocalScope) : Notes used c x {} (declare f) := by
  refine of_unchanged (fun st => ?_) (fun st => ?_) fun st => ?_
  all_goals rw [declare_state]
  · split <;> rfl
  · split <;> exact id
  · split <;> rfl

/-- The type recorded for the node itself is what is found out about it. -/
theorem recordType_self (t : Ty) : Notes used c x { types := [t] } (recordType x t) := by
  intro st hst
  refine ⟨hst, fun h => ⟨h, ?_⟩⟩
  simp [recordType, Findings.about, About.append_def]

/-- The type of any other node says nothing about this one. -/
theorem recordType_other {id : NodeId} (h : id ≠ x) (t : Ty) :
    Notes used c x {} (recordType id t) := by
  refine of_unchanged (fun _ => rfl) (fun _ h => h) fun st => ?_
  simp [recordType, Findings.about, h]

/-- A variable recorded for the node itself is what is found out about it. -/
theorem recordVariable_self (v : Variable) :
    Notes used c v.node { declared := [v] } (recordVariable v) := by
  intro st hst
  refine ⟨hst, fun h => ⟨h, ?_⟩⟩
  simp [recordVariable, Findings.about, About.append_def]

/-- A variable at any other node says nothing about this one. -/
theorem recordVariable_other {v : Variable} (h : v.node ≠ x) :
    Notes used c x {} (recordVariable v) := by
  refine of_unchanged (fun _ => rfl) (fun _ h => h) fun st => ?_
  simp [recordVariable, Findings.about, h]

/-- What two programs find out one after the other is found out in this order. -/
protected theorem bind {p : Attributing α} {f : α → Attributing β} (hp : Notes used c x l p)
    (hf : ∀ a, Notes used c x l' (f a)) : Notes used c x (l ++ l') (p >>= f) := by
  intro st hst
  obtain ⟨hmid, hfirst⟩ := hp st hst
  obtain ⟨hend, hrest⟩ := hf (Id.run (p.run st)).1 _ hmid
  refine ⟨hend, fun h => ?_⟩
  obtain ⟨hs, hl'⟩ := hrest h
  obtain ⟨hs, hl⟩ := hfirst hs
  refine ⟨hs, hl'.trans ?_⟩
  rw [hl, About.append_assoc]

/-- What is found out after may depend on what is yielded. -/
theorem bind_returns {p : Attributing α} {f : α → Attributing β} {a : α} {found : α → About}
    (hp : Notes used c x l p) (ha : Returns used c p a) (hf : ∀ b, Notes used c x (found b) (f b)) :
    Notes used c x (l ++ found a) (p >>= f) := by
  intro st hst
  obtain ⟨hmid, hfirst⟩ := hp st hst
  obtain ⟨hend, hrest⟩ := hf (Id.run (p.run st)).1 _ hmid
  refine ⟨hend, fun h => ?_⟩
  obtain ⟨hlead, hl'⟩ := hrest h
  obtain ⟨hs, hl⟩ := hfirst hlead
  refine ⟨hs, hl'.trans ?_⟩
  rw [hl, ha st hst hlead, About.append_assoc]

/-- What is found out may be written down in another form. -/
theorem congr {p : Attributing α} (hp : Notes used c x l p) (h : l = l') : Notes used c x l' p := h ▸ hp

/-- Notes of the first of two programs only. -/
theorem bind_first {p : Attributing α} {f : α → Attributing β} (hp : Notes used c x l p)
    (hf : ∀ a, Notes used c x {} (f a)) : Notes used c x l (p >>= f) := by
  simpa using hp.bind hf

/-- Notes of the second of two programs only. -/
theorem bind_second {p : Attributing α} {f : α → Attributing β} (hp : Notes used c x {} p)
    (hf : ∀ a, Notes used c x l (f a)) : Notes used c x l (p >>= f) := by
  simpa using hp.bind hf

/-- A program that reads the state sees the surroundings that it is started in. -/
theorem get_bind {f : State → Attributing β}
    (hf : ∀ st, st.surroundings = c → Notes used c x l (f st)) : Notes used c x l (get >>= f) :=
  fun st hst => hf st hst st hst

/-- A program that is stopped finds out nothing that counts. -/
theorem unlessStopped {p : Attributing α} (a : α) (hp : Notes used c x l p) :
    Notes used c x l (do if ← s.stopped then return a else p) := by
  intro st hst
  rw [unlessStopped_run]
  -- Stopped before, stopped by this very question, or not stopped.
  split
  · rename_i hs
    exact ⟨hst, fun h => absurd (hs.symm.trans h.1) (by decide)⟩
  · rename_i hs
    split
    · exact ⟨hst, fun h => absurd h.1 (by simp)⟩
    · obtain ⟨hend, hnotes⟩ := hp { st with polls := st.polls + 1, isStopped := false } hst
      exact ⟨hend, fun h => ⟨⟨by simpa using hs, (hnotes h).1.2⟩, (hnotes h).2⟩⟩

/-- Asking whether to stop finds out nothing; if it ends unstopped, it began so. -/
protected theorem stopped : Notes used c x {} s.stopped := by
  intro st hst
  rw [stopped_state]
  split
  · exact ⟨hst, fun h => ⟨h, (About.append_nothing _).symm⟩⟩
  · rename_i hs
    exact ⟨hst, fun h => ⟨⟨by simpa using hs, h.2⟩, (About.append_nothing _).symm⟩⟩

/-- Only one of the elements of a list has something to say. -/
theorem forM_one {f : α → Attributing Unit} {as : List α} {a : α} (ha : a ∈ as) (has : as.Nodup)
    (hother : ∀ b ∈ as, b ≠ a → Notes used c x {} (f b)) (hf : Notes used c x l (f a)) :
    Notes used c x l (as.forM f) := by
  have hnone (bs : List α) (hbs : ∀ b ∈ bs, Notes used c x {} (f b)) :
      Notes used c x {} (bs.forM f) := by
    induction bs with
    | nil => exact .pure _
    | cons b bs ih =>
      have hrest := ih fun b hb => hbs b (List.mem_cons_of_mem _ hb)
      exact (hbs b List.mem_cons_self).bind_first fun _ => hrest
  induction as with
  | nil => exact absurd ha List.not_mem_nil
  | cons b bs ih =>
    obtain ⟨hb, hbs⟩ := List.nodup_cons.mp has
    have hrest : ∀ d ∈ bs, d ≠ a → Notes used c x {} (f d) := fun d hd =>
      hother d (List.mem_cons_of_mem _ hd)
    rcases List.mem_cons.mp ha with rfl | ha
    · exact hf.bind_first fun _ => hnone bs fun d hd => hrest d hd fun h => hb (h ▸ hd)
    · have hfirst := hother b List.mem_cons_self fun h => hb (h ▸ ha)
      exact hfirst.bind_second fun _ => ih ha hbs hrest

/-- Of all steps of a walk, the one at a single node finds something out, so the walk finds out just
that. -/
theorem through_one {step : α → NodeId → Attributing α} {ids : List NodeId} {id : NodeId}
    (hid : id ∈ ids) (hids : ids.Nodup)
    (hother : ∀ y ∈ ids, y ≠ id → ∀ a, Notes used c x {} (step a y))
    (hstep : ∀ a, Notes used c x l (step a id)) (a : α) : Notes used c x l (s.through step a ids) := by
  -- Steps at other nodes find nothing, however many they are.
  have hnone (ys : List NodeId) (hys : ∀ y ∈ ys, ∀ a, Notes used c x {} (step a y)) (a : α) :
      Notes used c x {} (s.through step a ys) := by
    induction ys generalizing a with
    | nil => exact .pure a
    | cons y ys ih =>
      have hrest := ih fun y hy => hys y (List.mem_cons_of_mem _ hy)
      rw [Setting.through]
      exact .unlessStopped a ((hys y List.mem_cons_self a).bind_first hrest)
  induction ids generalizing a with
  | nil => exact absurd hid List.not_mem_nil
  | cons y ys ih =>
    obtain ⟨hy, hys⟩ := List.nodup_cons.mp hids
    have hrest : ∀ z ∈ ys, z ≠ id → ∀ a, Notes used c x {} (step a z) := fun z hz =>
      hother z (List.mem_cons_of_mem _ hz)
    rw [Setting.through]
    refine .unlessStopped a ?_
    -- The node comes first, and only others follow; or it comes later.
    rcases List.mem_cons.mp hid with rfl | hid
    · exact (hstep a).bind_first (hnone ys fun z hz => hrest z hz fun h => hy (h ▸ hz))
    · have hfirst := hother y List.mem_cons_self (fun h => hy (h ▸ hid)) a
      exact hfirst.bind_second (ih hid hys hrest)

/-- A program runs inside other surroundings, which are left as they are entered. -/
theorem of_inner {p : Attributing α} {q : Attributing β} {c' : Surroundings}
    (enter : State → State) (leave : State → State → State)
    (hrun : ∀ st, st.surroundings = c →
      (Id.run (q.run st)).2 = leave st (Id.run (p.run (enter st))).2)
    (henter : ∀ st, st.surroundings = c → (enter st).surroundings = c')
    (hentered : ∀ st, (enter st).isStopped = st.isStopped ∧ (enter st).toFindings = st.toFindings)
    (hleave : ∀ st st', st.surroundings = c → st'.surroundings = c' →
      (leave st st').surroundings = c)
    (hleft : ∀ st st', (leave st st').isStopped = st'.isStopped ∧
      (leave st st').toFindings = st'.toFindings) (hp : Notes used c' x l p) : Notes used c x l q := by
  intro st hst
  obtain ⟨hend, hnotes⟩ := hp _ (henter st hst)
  rw [hrun st hst]
  refine ⟨hleave st _ hst hend, ?_⟩
  rw [State.LeadsTo, State.LeadsTo, (hleft st _).1, (hleft st _).2, ← (hentered st).1, ← (hentered st).2]
  exact hnotes

/-- A scope put around a program is no part of its surroundings. -/
theorem inScope {p : Attributing α} (scope : LocalScope) (hp : Notes used c x l p) :
    Notes used c x l (inScope p scope) :=
  of_inner (fun st => { st with scopes := scope :: st.scopes })
    (fun _ st => { st with scopes := st.scopes.tail }) (fun _ _ => rfl) (fun _ h => h)
    (fun _ => ⟨rfl, rfl⟩) (fun _ _ _ h => h) (fun _ _ => ⟨rfl, rfl⟩) hp

/-- A frame put around a program is no part of its surroundings. -/
theorem inFrame {p : Attributing α} (frame : Option Frame) (hp : Notes used c x l p) :
    Notes used c x l (inFrame frame p) := by
  cases frame with
  | none => exact hp
  | some frame =>
    exact of_inner (fun st => { st with frames := frame :: st.frames })
      (fun _ st => { st with frames := st.frames.tail }) (fun _ _ => rfl) (fun _ h => h)
      (fun _ => ⟨rfl, rfl⟩) (fun _ _ _ h => h) (fun _ _ => ⟨rfl, rfl⟩) hp

/-- Collecting the locals of a program finds out what the program does. -/
theorem collected {p : Attributing α} (hp : Notes used c x l p) : Notes used c x l (do
    pushScope
    let a ← p
    let scope ← popScope
    return (a, scope)) :=
  of_inner (fun st => { st with scopes := {} :: st.scopes })
    (fun _ st => { st with scopes := st.scopes.tail }) (fun _ _ => rfl) (fun _ h => h)
    (fun _ => ⟨rfl, rfl⟩) (fun _ _ _ h => h) (fun _ _ => ⟨rfl, rfl⟩) hp

/-- A scope with what is found out in it, and what follows after it. -/
theorem collect {p : Attributing α} {f : α → LocalScope → Attributing β} (hp : Notes used c x l p)
    (hf : ∀ a scope, Notes used c x l' (f a scope)) :
    Notes used c x (l ++ l') (pushScope >>= fun _ => p >>= fun a => popScope >>= f a) := by
  have h := hp.collected.bind (f := fun r => f r.1 r.2) fun r => hf r.1 r.2
  simpa only [bind_assoc, pure_bind] using h

/-- What is found out while locals are collected stands between what comes before and after. -/
theorem bind_collect {q : Attributing γ} {p : γ → Attributing α}
    {f : α → LocalScope → Attributing β} (hq : Notes used c x l q) (hp : ∀ b, Notes used c x l' (p b))
    (hf : ∀ a scope, Notes used c x l'' (f a scope)) : Notes used c x (l ++ l' ++ l'')
      (pushScope >>= fun _ => q >>= fun b => p b >>= fun a => popScope >>= f a) := by
  simpa only [bind_assoc] using (hq.bind hp).collect hf

/-- Within a class, the class is part of the surroundings and is left again. -/
theorem inClass {p : Attributing α} {name : Option String} (hp : Notes used (c.inClass name) x l p) :
    Notes used c x l (inClass name p) := by
  refine of_inner (fun st => { st with enclosing := st.enclosing ++ name.toList })
    (fun _ st => if name.isSome then { st with enclosing := st.enclosing.dropLast } else st)
    (fun _ _ => ?_) ?_ (fun _ => ⟨rfl, rfl⟩) ?_ (fun _ _ => ?_) hp
  · cases name <;> rfl
  · rintro st rfl
    rfl
  · intro st st' _ hst'
    rw [State.surroundings_eq_iff] at hst' ⊢
    cases name <;> simpa [Surroundings.inClass, hst'.1] using hst'
  · cases name <;> exact ⟨rfl, rfl⟩

/-- With type parameters in scope, they are part of the surroundings and are left again. -/
theorem withTypeParameters {p : Attributing α} {names : List String}
    (hp : Notes used (c.withTypeParameters names) x l p) :
    Notes used c x l (withTypeParameters names p) := by
  refine of_inner (fun st => { st with typeParameters := st.typeParameters ++ names })
    (fun st st' => { st' with typeParameters := st'.typeParameters.take st.typeParameters.length })
    (fun _ _ => rfl) ?_ (fun _ => ⟨rfl, rfl⟩) ?_ (fun _ _ => ⟨rfl, rfl⟩) hp
  · rintro st rfl
    rfl
  · intro st st' hst hst'
    rw [State.surroundings_eq_iff] at hst hst' ⊢
    simpa [Surroundings.withTypeParameters, hst.2.1, hst'.2.1] using ⟨hst'.1, hst'.2.2⟩

/-- One level deeper is still shallow enough, so the program is run and the depth is restored. -/
theorem deeper {p : Attributing α} (otherwise : α) (hc : c.depth < maxDepth)
    (hp : Notes used c.deeper x l p) : Notes used c x l (deeper otherwise p) := by
  refine of_inner (fun st => { st with depth := st.depth + 1 })
    (fun _ st => { st with depth := st.depth - 1 }) ?_ ?_ (fun _ => ⟨rfl, rfl⟩) ?_
    (fun _ _ => ⟨rfl, rfl⟩) hp
  · intro st hst
    have hdepth : ¬ st.depth ≥ maxDepth := by
      rw [(State.surroundings_eq_iff.mp hst).2.2]
      exact Nat.not_le_of_lt hc
    rw [deeper_state, if_neg hdepth]
  · rintro st rfl
    rfl
  · intro st st' _ hst'
    rw [State.surroundings_eq_iff] at hst' ⊢
    simpa [Surroundings.deeper, hst'.2.2] using hst'

/-- What is nested too deep is passed over. -/
theorem too_deep {p : Attributing α} (otherwise : α) (hc : maxDepth ≤ c.depth) :
    Notes used c x {} (Attribution.deeper otherwise p) := by
  intro st hst
  have hdepth : st.depth ≥ maxDepth := by
    subst hst
    exact hc
  rw [deeper_state, if_pos hdepth]
  exact ⟨hst, fun h => ⟨h, (About.append_nothing _).symm⟩⟩

end

end Notes

namespace Returns

variable {s : Setting} {P : NodeId → Prop} {used : List (Place × NameUse)} {α β : Type}
  {c : Surroundings} {a : α} {b : β}

/-- A plain value is yielded whatever leads on from it. -/
protected theorem pure (a : α) : Returns used c (pure a : Attributing α) a := fun _ _ _ => rfl

/-- What comes after yields the same in all surroundings. -/
protected theorem bind {p : Attributing α} {f : α → Attributing β} (hp : Returns used c p a)
    (hcomposed : ∀ a, Composed s P (f a)) (hf : ∀ c, Returns used c (f a) b) :
    Returns used c (p >>= f) b := by
  intro st hst h
  have hmid : (Id.run (p.run st)).2.LeadsTo used := (hcomposed (Id.run (p.run st)).1).leadsTo_of_run h
  have hnext : Id.run ((p >>= f).run st) = Id.run ((f a).run (Id.run (p.run st)).2) := by
    rw [← hp st hst hmid]
    rfl
  rw [hnext] at h ⊢
  exact hf _ _ rfl h

/-- What comes after yields the same whatever it is given of what can come before. -/
theorem after_run {R : α → Prop} {p : Attributing α} {f : α → Attributing β}
    (hp : ∀ st, R (Id.run (p.run st)).1) (hf : ∀ a, R a → ∀ c, Returns used c (f a) b) :
    Returns used c (p >>= f) b :=
  fun st _ h => hf (Id.run (p.run st)).1 (hp st) _ (Id.run (p.run st)).2 rfl h

/-- What comes after a program may not depend on what it yields. -/
theorem after {p : Attributing α} {f : α → Attributing β} (hf : ∀ a c, Returns used c (f a) b) :
    Returns used c (p >>= f) b :=
  after_run (R := fun _ => True) (fun _ => trivial) fun a _ => hf a

/-- What is yielded is mapped. -/
protected theorem map {p : Attributing α} (f : α → β) (hp : Returns used c p a) :
    Returns used c (f <$> p) (f a) := fun st hst h => congrArg f (hp st hst h)

/-- A frame around a program does not change what it yields, if this is so in all frames. -/
theorem inFrame {p : Attributing α} (frame : Option Frame) (hp : Returns used c p a) :
    Returns used c (Attribution.inFrame frame p) a := by
  cases frame with
  | none => exact hp
  | some frame => exact fun st hst h => hp { st with frames := frame :: st.frames } hst h

/-- One level deeper, the program is run, and yields what it yields there. -/
theorem deeper {p : Attributing α} (otherwise : α) (hc : c.depth < maxDepth)
    (hp : Returns used c.deeper p a) : Returns used c (Attribution.deeper otherwise p) a := by
  intro st hst h
  subst hst
  have hdepth : ¬ st.depth ≥ maxDepth := Nat.not_le_of_lt hc
  rw [deeper_state, if_neg hdepth] at h
  rw [← hp { st with depth := st.depth + 1 } rfl h]
  simp [Attribution.deeper, hdepth]

end Returns

/-- A composed program finds out nothing about other nodes than those that it is about. -/
theorem Composed.notes {s : Setting} {P : NodeId → Prop} {used : List (Place × NameUse)} {α : Type}
    {p : Attributing α} (hp : Composed s P p) {x : NodeId} (hx : ¬ P x) (c : Surroundings) :
    Notes used c x {} p := by
  -- Only the two steps that record something are about a node, which is another one.
  induction hp generalizing c with
  | pure a => exact .pure a
  | bind _ _ ihp ihf => exact (ihp c).bind_first fun a => ihf a c
  | get => exact .get
  | recordType hid t => exact .recordType_other (fun h => hx (by rwa [h] at hid)) t
  | recordUse _ _ _ => exact .recordUse _ _
  | recordVariable hv => exact .recordVariable_other fun h => hx (by rwa [h] at hv)
  | report id failure => exact .report id failure
  | stopped => exact .stopped
  | declare f => exact .declare f
  | learn owner name t => exact .learn owner name t
  | deeper otherwise _ ih =>
    rcases Nat.lt_or_ge c.depth maxDepth with hc | hc
    · exact .deeper otherwise hc (ih c.deeper)
    · exact .too_deep otherwise hc
  | inScope scope _ ih => exact .inScope scope (ih c)
  | inFrame frame _ ih => exact .inFrame frame (ih c)
  | inClass name _ ih => exact .inClass (ih _)
  | withTypeParameters names _ ih => exact .withTypeParameters (ih _)
  | collected _ ih => exact .collected (ih c)

end KotlinTree.Attribution
