import KotlinTree.Attribution.Task
import KotlinTree.Proofs.Attribution.Composed
import KotlinTree.Proofs.Attribution.Offer

/-!
Programs of attribution that leave what is known sound: all types are of classes among some names, and
whatever is used as a field or a method is a member that its name can mean.
-/

namespace KotlinTree.Attribution

/-- The use of a name has types among some names of classes. A field or method with an owner is a member
that the name can mean. -/
structure Setting.FitsUse (s : Setting) (names : String → Prop) (u : NameUse) : Prop where
  type : u.type.Within names
  declared : u.target.declared.Within names
  owner : u.target.symbol = .field ∨ u.target.symbol = .method → ∀ o, u.target.owner = some o →
    ∃ m, s.Finds u.name m ∧ m.owner = o ∧ m.isSynthetic = u.target.isSynthetic

/-- The names of a block have types among some names of classes. -/
structure LocalScope.Within (scope : LocalScope) (names : String → Prop) : Prop where
  values : ∀ (name : String) (t : Ty), (name, t) ∈ scope.values → t.Within names
  functions : ∀ (name : String) (t : Ty), (name, t) ∈ scope.functions → t.Within names

/-- An implicit receiver has types among some names of classes. -/
structure Frame.Within (frame : Frame) (names : String → Prop) : Prop where
  type : frame.type.Within names
  superclass : frame.superclass.Within names

/-- All that has been found out so far has types among some names of classes, and members that names
can mean. -/
structure State.Sound (s : Setting) (names : String → Prop) (st : State) : Prop where
  types : ∀ entry : NodeId × Ty, entry ∈ st.types → entry.2.Within names
  uses : ∀ entry : Place × NameUse, entry ∈ st.uses → s.FitsUse names entry.2
  declared : ∀ v : Variable, v ∈ st.declared → v.type.Within names
  scopes : ∀ scope : LocalScope, scope ∈ st.scopes → scope.Within names
  frames : ∀ frame : Frame, frame ∈ st.frames → frame.Within names
  inferred : ∀ (key : String × String) (t : Ty), st.inferred[key]? = some t → t.Within names

/-- Where all that is known is sound a program leaves it sound, and yields what is said. -/
def Keeps (s : Setting) (names : String → Prop) {α : Type} (p : Attributing α) (yields : α → Prop) :
    Prop :=
  ∀ st : State, st.Sound s names →
    (Id.run (p.run st)).2.Sound s names ∧ yields (Id.run (p.run st)).1

section
variable {s : Setting} {names : String → Prop} {st : State}

theorem LocalScope.within_empty : ({} : LocalScope).Within names :=
  ⟨fun _ _ h => absurd h List.not_mem_nil, fun _ _ h => absurd h List.not_mem_nil⟩

/-- Before anything is known, all that is known is sound. -/
theorem State.sound_empty : ({} : State).Sound s names where
  types _ h := absurd h (Array.not_mem_empty _)
  uses _ h := absurd h (Array.not_mem_empty _)
  declared _ h := absurd h (Array.not_mem_empty _)
  scopes _ h := absurd h List.not_mem_nil
  frames _ h := absurd h List.not_mem_nil
  inferred key t h := by
    have hnone : (∅ : Std.HashMap (String × String) Ty)[key]? = none := Std.HashMap.getElem?_empty
    exact absurd (hnone.symm.trans h) (Option.some_ne_none t).symm

/-- What holds of all values holds when one more is put in of which it holds. -/
theorem forall_getElem?_insert {κ β : Type} [BEq κ] [Hashable κ] [EquivBEq κ] [LawfulHashable κ]
    {values : Std.HashMap κ β} {P : β → Prop}
    (h : ∀ (key : κ) (b : β), values[key]? = some b → P b) (key : κ) {b : β} (hb : P b) :
    ∀ (key' : κ) (b' : β), (values.insert key b)[key']? = some b' → P b' := by
  intro key' b' hget
  rw [Std.HashMap.getElem?_insert] at hget
  split at hget
  · cases hget
    exact hb
  · exact h key' b' hget

/-- Only surroundings that hold no types have changed. -/
theorem State.Sound.of_same {st' : State} (h : st.Sound s names) (htypes : st'.types = st.types)
    (huses : st'.uses = st.uses) (hdeclared : st'.declared = st.declared)
    (hscopes : st'.scopes = st.scopes) (hframes : st'.frames = st.frames)
    (hinferred : st'.inferred = st.inferred) : st'.Sound s names where
  types := htypes ▸ h.types
  uses := huses ▸ h.uses
  declared := hdeclared ▸ h.declared
  scopes := hscopes ▸ h.scopes
  frames := hframes ▸ h.frames
  inferred := hinferred ▸ h.inferred

end

namespace Keeps

section
variable {s : Setting} {names : String → Prop} {α β : Type} {P : α → Prop} {Q : β → Prop}

protected theorem pure {a : α} (h : P a) : Keeps s names (pure a) P :=
  fun _ hst => ⟨hst, h⟩

/-- What is yielded first may be used by what comes next. -/
protected theorem bind {p : Attributing α} {f : α → Attributing β} (hp : Keeps s names p P)
    (hf : ∀ a, P a → Keeps s names (f a) Q) : Keeps s names (p >>= f) Q := by
  intro st hst
  obtain ⟨hmid, ha⟩ := hp st hst
  exact hf _ ha _ hmid

/-- What comes after a look at the state may use that it is sound. -/
theorem get_bind {f : State → Attributing β}
    (hf : ∀ st, st.Sound s names → Keeps s names (f st) Q) : Keeps s names (get >>= f) Q :=
  fun st hst => hf st hst st hst

/-- What a program yields need not be of use. -/
theorem seq {p : Attributing α} {q : Attributing β} (hp : Keeps s names p P)
    (hq : Keeps s names q Q) : Keeps s names (do let _ ← p; q) Q :=
  hp.bind fun _ _ => hq

/-- What is yielded may be dropped. -/
theorem discard {p : Attributing α} (hp : Keeps s names p P) :
    Keeps s names (do let _ ← p) fun _ => True :=
  hp.bind fun _ _ => .pure trivial

theorem map {p : Attributing α} {f : α → β} (hp : Keeps s names p P)
    (hf : ∀ a, P a → Q (f a)) : Keeps s names (f <$> p) Q := by
  rw [map_eq_pure_bind]
  exact hp.bind fun a ha => .pure (hf a ha)

/-- A program for each of several elements is sound if it is so for every one. -/
theorem forM {f : α → Attributing Unit} {as : List α}
    (hf : ∀ a ∈ as, Keeps s names (f a) fun _ => True) :
    Keeps s names (as.forM f) fun _ => True := by
  induction as with
  | nil => exact .pure trivial
  | cons a as ih =>
    exact (hf a List.mem_cons_self).seq (ih fun a ha => hf a (List.mem_cons_of_mem _ ha))

/-- The same where the results are collected, each of which is among the names. -/
theorem mapM {f : α → Attributing β} {as : List α}
    (hf : ∀ a ∈ as, Keeps s names (f a) Q) :
    Keeps s names (as.mapM f) fun bs => ∀ b ∈ bs, Q b := by
  induction as with
  | nil =>
    rw [List.mapM_nil]
    exact .pure fun b hb => absurd hb List.not_mem_nil
  | cons a as ih =>
    rw [List.mapM_cons]
    refine (hf a List.mem_cons_self).bind fun b hb => ?_
    refine (ih fun a ha => hf a (List.mem_cons_of_mem _ ha)).bind fun bs hbs => .pure ?_
    exact List.forall_mem_cons.mpr ⟨hb, hbs⟩

/-- A step that changes nothing that holds types. -/
theorem of_same {p : Attributing α}
    (h : ∀ st, (Id.run (p.run st)).2.types = st.types ∧ (Id.run (p.run st)).2.uses = st.uses ∧
      (Id.run (p.run st)).2.declared = st.declared ∧ (Id.run (p.run st)).2.scopes = st.scopes ∧
      (Id.run (p.run st)).2.frames = st.frames ∧ (Id.run (p.run st)).2.inferred = st.inferred) :
    Keeps s names p fun _ => True := by
  intro st hst
  obtain ⟨htypes, huses, hdeclared, hscopes, hframes, hinferred⟩ := h st
  exact ⟨hst.of_same htypes huses hdeclared hscopes hframes hinferred, trivial⟩

protected theorem report (id : Option NodeId) (failure : Failure) :
    Keeps s names (s.report id failure) fun _ => True :=
  of_same fun _ => ⟨rfl, rfl, rfl, rfl, rfl, rfl⟩

protected theorem stopped : Keeps s names s.stopped fun _ => True := by
  refine of_same fun st => ?_
  rw [stopped_state]
  split <;> exact ⟨rfl, rfl, rfl, rfl, rfl, rfl⟩

protected theorem recordType (id : NodeId) {t : Ty} (ht : t.Within names) :
    Keeps s names (recordType id t) fun _ => True := by
  intro st hst
  refine ⟨{ hst with types := fun entry hentry => ?_ }, trivial⟩
  rcases Array.mem_push.mp hentry with hbefore | rfl
  · exact hst.types entry hbefore
  · exact ht

/-- A use is recorded with a member that fits its name. -/
protected theorem recordUse (place : Place) {u : NameUse} (hu : s.FitsUse names u) :
    Keeps s names (recordUse place u) fun _ => True := by
  intro st hst
  refine ⟨{ hst with uses := fun entry hentry => ?_ }, trivial⟩
  rcases Array.mem_push.mp hentry with hbefore | rfl
  · exact hst.uses entry hbefore
  · exact hu

protected theorem recordVariable {v : Variable} (hv : v.type.Within names) :
    Keeps s names (recordVariable v) fun _ => True := by
  intro st hst
  refine ⟨{ hst with declared := fun w hw => ?_ }, trivial⟩
  rcases Array.mem_push.mp hw with hbefore | rfl
  · exact hst.declared w hbefore
  · exact hv

protected theorem learn (owner name : String) {t : Ty} (ht : t.Within names) :
    Keeps s names (learn owner name t) fun _ => True := by
  intro st hst
  exact ⟨{ hst with inferred := forall_getElem?_insert hst.inferred (owner, name) ht }, trivial⟩

/-- What is declared leaves every scope within the names. -/
protected theorem declare {f : LocalScope → LocalScope}
    (hf : ∀ scope : LocalScope, scope.Within names → (f scope).Within names) :
    Keeps s names (declare f) fun _ => True := by
  intro st hst
  refine ⟨?_, trivial⟩
  rw [declare_state]
  split
  · rename_i scope scopes hscopes
    have hall := hst.scopes
    rw [hscopes] at hall
    refine { hst with scopes := fun other hother => ?_ }
    rcases List.mem_cons.mp hother with rfl | hother
    · exact hf scope (hall scope List.mem_cons_self)
    · exact hall other (List.mem_cons_of_mem _ hother)
  · exact hst

protected theorem declareLocal (name : String) {t : Ty} (ht : t.Within names) :
    Keeps s names (declareLocal name t) fun _ => True := by
  unfold declareLocal
  split
  · exact .pure trivial
  · refine .declare fun scope hscope => ⟨fun name' t' hmem => ?_, hscope.functions⟩
    rcases List.mem_cons.mp hmem with heq | hbefore
    · cases heq
      exact ht
    · exact hscope.values name' t' hbefore

protected theorem declareLocalFunction (name : String) {t : Ty} (ht : t.Within names) :
    Keeps s names (declareLocalFunction name t) fun _ => True := by
  refine .declare fun scope hscope => ⟨hscope.values, fun name' t' hmem => ?_⟩
  rcases List.mem_cons.mp hmem with heq | hbefore
  · cases heq
    exact ht
  · exact hscope.functions name' t' hbefore

protected theorem pushScope {scope : LocalScope} (h : scope.Within names) :
    Keeps s names (pushScope scope) fun _ => True := by
  intro st hst
  exact ⟨{ hst with scopes := List.forall_mem_cons.mpr ⟨h, hst.scopes⟩ }, trivial⟩

/-- What leaves with a scope is within the names, as all scopes are. -/
protected theorem popScope : Keeps s names popScope fun scope => scope.Within names := by
  intro st hst
  have hall := hst.scopes
  refine ⟨{ hst with scopes := fun scope hscope => hall scope (List.mem_of_mem_tail hscope) }, ?_⟩
  change (st.scopes.headD {}).Within names
  cases hs : st.scopes with
  | nil => exact LocalScope.within_empty
  | cons scope scopes => exact hall scope (hs ▸ List.mem_cons_self)

/-- Nested too deep, the program yields what stands for it. -/
protected theorem deeper {p : Attributing α} {otherwise : α} (h : P otherwise)
    (hp : Keeps s names p P) : Keeps s names (deeper otherwise p) P := by
  refine .get_bind fun st _ => ?_
  split
  · exact .pure h
  · refine (of_same fun _ => ⟨rfl, rfl, rfl, rfl, rfl, rfl⟩).seq ?_
    refine hp.bind fun a ha => ?_
    exact (of_same fun _ => ⟨rfl, rfl, rfl, rfl, rfl, rfl⟩).seq (.pure ha)

protected theorem inScope {p : Attributing α} {scope : LocalScope} (h : scope.Within names)
    (hp : Keeps s names p P) : Keeps s names (inScope p scope) P :=
  (Keeps.pushScope h).seq (hp.bind fun _ ha => Keeps.popScope.seq (.pure ha))

protected theorem inFrame {p : Attributing α} {frame : Option Frame}
    (h : ∀ f, frame = some f → f.Within names) (hp : Keeps s names p P) :
    Keeps s names (inFrame frame p) P := by
  cases frame with
  | none => exact hp
  | some frame =>
    have hpush : Keeps s names (pushFrame frame) fun _ => True := by
      intro st hst
      exact ⟨{ hst with frames := List.forall_mem_cons.mpr ⟨h frame rfl, hst.frames⟩ }, trivial⟩
    have hpop : Keeps s names popFrame fun _ => True := by
      intro st hst
      have hall := hst.frames
      exact ⟨{ hst with frames := fun f hf => hall f (List.mem_of_mem_tail hf) }, trivial⟩
    exact hpush.seq (hp.bind fun _ ha => hpop.seq (.pure ha))

protected theorem inClass {p : Attributing α} (name : Option String) (hp : Keeps s names p P) :
    Keeps s names (inClass name p) P := by
  refine (of_same fun _ => ⟨rfl, rfl, rfl, rfl, rfl, rfl⟩).seq (hp.bind fun a ha => ?_)
  split
  · exact (of_same fun _ => ⟨rfl, rfl, rfl, rfl, rfl, rfl⟩).seq (.pure ha)
  · exact .pure ha

protected theorem withTypeParameters {p : Attributing α} (list : List String)
    (hp : Keeps s names p P) : Keeps s names (withTypeParameters list p) P := by
  refine .get_bind fun st _ => ?_
  refine (of_same fun _ => ⟨rfl, rfl, rfl, rfl, rfl, rfl⟩).seq (hp.bind fun a ha => ?_)
  exact (of_same fun _ => ⟨rfl, rfl, rfl, rfl, rfl, rfl⟩).seq (.pure ha)

/-- A walk keeps what each of its steps does, and so do the values between them. -/
theorem through {step : α → NodeId → Attributing α} {ids : List NodeId}
    (hstep : ∀ a, P a → ∀ id ∈ ids, Keeps s names (step a id) P) {a : α} (ha : P a) :
    Keeps s names (s.through step a ids) P := by
  induction ids generalizing a with
  | nil => exact .pure ha
  | cons id ids ih =>
    rw [Setting.through]
    refine Keeps.stopped.bind fun isStopped _ => ?_
    split
    · exact .pure ha
    · refine (hstep a ha id List.mem_cons_self).bind fun b hb => ?_
      exact ih (fun a ha id hid => hstep a ha id (List.mem_cons_of_mem _ hid)) hb

end

end Keeps

end KotlinTree.Attribution
