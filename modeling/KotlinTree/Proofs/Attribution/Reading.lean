import KotlinTree.Attribution.Task
import KotlinTree.Proofs.Attribution.Composed
import KotlinTree.Proofs.Syntax.Links

/-!
Programs of attribution that learn nothing of members. What they use as a field or a method has the type
of its declaration, or where that is unknown the type that has been learned of it before.
-/

namespace KotlinTree.Attribution

/-- The type of a member as far as it is known: its own, or what has been learned of it. -/
def knownType (learned : Std.HashMap (String × String) Ty) (m : Member) : Ty :=
  if m.type.isUnknown then (learned[(m.owner, m.name)]?).getD m.type else m.type

/-- What a name at a node is wanted for: to be called with the arguments of its call, or with the second of
two operands; to be named in a reference or an import; or else to be read. -/
inductive Setting.Wants (s : Setting) : NodeId → Purpose → Prop where
  | callee {id : NodeId} {call : Call} : s.forest.data (some id) = .call call →
    s.Wants call.callee (.call (call.arguments.size + call.trailingLambda.toList.length))
  | operands {id : NodeId} {binary : BinaryExpression} : s.forest.data (some id) = .binary binary →
    s.Wants binary.operatorToken (.call 1)
  | reference {id name : NodeId} {reference : CallableReference} :
    s.forest.data (some id) = .callableReference reference → reference.name = some name →
      s.Wants name .any
  | path {id path x : NodeId} {directive : ImportDirective} :
    s.forest.data (some id) = .importDirective directive → directive.path = some path →
      s.forest.Inside path x → s.Wants x .any
  | value (id : NodeId) : s.Wants id .value

/-- A name at a node is found to mean a member: alone, after a qualifier, or on a superclass. -/
inductive Setting.Means (s : Setting) (node : NodeId) (name : String) (m : Member) : Prop where
  | alone {st : State} {p : Purpose} : s.Wants node p → s.nameMeaning st name p = .member m →
    s.Means node name m
  | after {q : Qualifier} {p : Purpose} : s.Wants node p → s.memberMeaning q name p = .member m →
    s.Means node name m
  | above {t : Ty} {p : Purpose} : s.Wants node p → s.superMemberMeaning t name p = .member m →
    s.Means node name m

/-- A name is used for a member that it is found to mean, with some type of the member as it is at that
place. -/
structure Setting.IsUseOf (s : Setting) (use : NameUse) (m : Member) : Prop where
  means : s.Means use.node use.name m
  owner : use.target.owner = some m.owner
  symbol : use.target.symbol = .ofMember m.kind
  isSynthetic : use.target.isSynthetic = m.isSynthetic
  type : use.type = s.typeAt use.node use.access
    (use.target.declared.withNullability use.target.nullability)

/-- What is used as a field or a method with an owner has its type as far as it is known. -/
def Setting.Reflects (s : Setting) (learned : Std.HashMap (String × String) Ty) (use : NameUse) :
    Prop :=
  use.target.symbol = .field ∨ use.target.symbol = .method →
    ∀ owner, use.target.owner = some owner →
      ∃ m, s.IsUseOf use m ∧ use.target.declared = knownType learned m

/-- Nothing has been learned from one state to another, and what has been used shows what had been learned
before. -/
structure Setting.Reads (s : Setting) (st st' : State) : Prop where
  inferred : st'.inferred = st.inferred
  uses : ∀ entry ∈ st'.uses, entry ∈ st.uses ∨ s.Reflects st.inferred entry.2

/-- A program that learns nothing, wherever it starts. -/
def Reading (s : Setting) {α : Type} (p : Attributing α) : Prop :=
  ∀ st : State, s.Reads st (Id.run (p.run st)).2

section
variable {s : Setting} {st mid st' : State}

theorem Setting.Reads.of_same (hinferred : st'.inferred = st.inferred) (huses : st'.uses = st.uses) :
    s.Reads st st' :=
  ⟨hinferred, fun _ h => .inl (huses ▸ h)⟩

theorem Setting.Reads.trans (h : s.Reads st mid) (h' : s.Reads mid st') : s.Reads st st' where
  inferred := h'.inferred.trans h.inferred
  uses entry hentry := by
    rcases h'.uses entry hentry with hmid | hnew
    · exact h.uses entry hmid
    · exact .inr (h.inferred ▸ hnew)

end

namespace Reading

section
variable {s : Setting} {α β : Type}

/-- A step that neither learns nor uses anything. -/
theorem of_same {p : Attributing α} (h : ∀ st, (Id.run (p.run st)).2.inferred = st.inferred ∧
    (Id.run (p.run st)).2.uses = st.uses) : Reading s p :=
  fun st => .of_same (h st).1 (h st).2

protected theorem pure (a : α) : Reading s (pure a) := of_same fun _ => ⟨rfl, rfl⟩

protected theorem bind {p : Attributing α} {f : α → Attributing β} (hp : Reading s p)
    (hf : ∀ a, Reading s (f a)) : Reading s (p >>= f) :=
  fun st => (hp st).trans (hf _ _)

theorem get_bind {f : State → Attributing β} (hf : ∀ st, Reading s (f st)) :
    Reading s (get >>= f) :=
  fun st => hf st st

/-- What a program yields need not be of use. -/
theorem seq {p : Attributing α} {q : Attributing β} (hp : Reading s p) (hq : Reading s q) :
    Reading s (do let _ ← p; q) :=
  hp.bind fun _ => hq

theorem discard {p : Attributing α} (hp : Reading s p) : Reading s (do let _ ← p) :=
  hp.bind fun _ => .pure _

theorem map {p : Attributing α} (f : α → β) (hp : Reading s p) : Reading s (f <$> p) := by
  rw [map_eq_pure_bind]
  exact hp.bind fun a => .pure (f a)

theorem forM {f : α → Attributing Unit} {as : List α} (hf : ∀ a ∈ as, Reading s (f a)) :
    Reading s (as.forM f) := by
  induction as with
  | nil => exact .pure _
  | cons a as ih =>
    exact (hf a List.mem_cons_self).seq (ih fun a ha => hf a (List.mem_cons_of_mem _ ha))

theorem mapM {f : α → Attributing β} {as : List α} (hf : ∀ a ∈ as, Reading s (f a)) :
    Reading s (as.mapM f) := by
  induction as with
  | nil =>
    rw [List.mapM_nil]
    exact .pure _
  | cons a as ih =>
    rw [List.mapM_cons]
    have hrest := ih fun a ha => hf a (List.mem_cons_of_mem _ ha)
    exact (hf a List.mem_cons_self).bind fun _ => hrest.bind fun _ => .pure _

protected theorem report (id : Option NodeId) (failure : Failure) : Reading s (s.report id failure) :=
  of_same fun _ => ⟨rfl, rfl⟩

protected theorem stopped : Reading s s.stopped := by
  refine of_same fun st => ?_
  rw [stopped_state]
  split <;> exact ⟨rfl, rfl⟩

protected theorem recordType (id : NodeId) (t : Ty) : Reading s (recordType id t) :=
  of_same fun _ => ⟨rfl, rfl⟩

protected theorem recordVariable (v : Variable) : Reading s (recordVariable v) :=
  of_same fun _ => ⟨rfl, rfl⟩

protected theorem declare (f : LocalScope → LocalScope) : Reading s (declare f) := by
  refine of_same fun st => ?_
  rw [declare_state]
  split <;> exact ⟨rfl, rfl⟩

protected theorem declareLocal (name : String) (t : Ty) : Reading s (declareLocal name t) := by
  unfold Attribution.declareLocal
  split
  · exact .pure _
  · exact .declare _

protected theorem pushScope (scope : LocalScope) : Reading s (pushScope scope) :=
  of_same fun _ => ⟨rfl, rfl⟩

protected theorem popScope : Reading s popScope := of_same fun _ => ⟨rfl, rfl⟩

theorem through {step : α → NodeId → Attributing α} {ids : List NodeId}
    (hstep : ∀ a, ∀ id ∈ ids, Reading s (step a id)) (a : α) :
    Reading s (s.through step a ids) := by
  induction ids generalizing a with
  | nil => exact .pure a
  | cons id ids ih =>
    rw [Setting.through]
    refine Reading.stopped.bind fun isStopped => ?_
    split
    · exact .pure a
    · have hrest := ih fun a id hid => hstep a id (List.mem_cons_of_mem _ hid)
      exact (hstep a id List.mem_cons_self).bind hrest

protected theorem inScope {p : Attributing α} (scope : LocalScope) (hp : Reading s p) :
    Reading s (inScope p scope) :=
  (Reading.pushScope scope).seq (hp.bind fun _ => Reading.popScope.seq (.pure _))

protected theorem inFrame {p : Attributing α} (frame : Option Frame) (hp : Reading s p) :
    Reading s (inFrame frame p) := by
  cases frame with
  | none => exact hp
  | some frame =>
    have hpush : Reading s (pushFrame frame) := of_same fun _ => ⟨rfl, rfl⟩
    have hpop : Reading s popFrame := of_same fun _ => ⟨rfl, rfl⟩
    exact hpush.seq (hp.bind fun _ => hpop.seq (.pure _))

/-- A change of the state that is neither learning nor using. -/
theorem modify_seq {f : State → State} {p : Attributing α}
    (hf : ∀ st, (f st).inferred = st.inferred ∧ (f st).uses = st.uses) (hp : Reading s p) :
    Reading s (do modify f; p) := by
  have hmodify : Reading s (modify f : Attributing Unit) := of_same hf
  exact hmodify.seq hp

protected theorem inClass {p : Attributing α} (name : Option String) (hp : Reading s p) :
    Reading s (inClass name p) := by
  refine modify_seq (fun _ => ⟨rfl, rfl⟩) (hp.bind fun a => ?_)
  split
  · exact modify_seq (fun _ => ⟨rfl, rfl⟩) (.pure a)
  · exact .pure a

protected theorem withTypeParameters {p : Attributing α} (names : List String) (hp : Reading s p) :
    Reading s (withTypeParameters names p) := by
  refine get_bind fun st => modify_seq (fun _ => ⟨rfl, rfl⟩) (hp.bind fun a => ?_)
  exact modify_seq (fun _ => ⟨rfl, rfl⟩) (.pure a)

protected theorem deeper {p : Attributing α} (otherwise : α) (hp : Reading s p) :
    Reading s (deeper otherwise p) := by
  refine get_bind fun st => ?_
  split
  · exact .pure otherwise
  · refine modify_seq (fun _ => ⟨rfl, rfl⟩) (hp.bind fun a => ?_)
    exact modify_seq (fun _ => ⟨rfl, rfl⟩) (.pure a)

end

end Reading

end KotlinTree.Attribution
