import KotlinTree.Proofs.Attribution.Expression
import KotlinTree.Proofs.Binding.Property

/-!
What a program comes to use. Nothing is taken back that has been used, so that a use that a part of a
program comes to is one that the whole of it comes to.
-/

namespace KotlinTree.Attribution

/-- From a state on, a program comes to use a name in such a way. -/
def ComesToUse (Q : Place → NameUse → Prop) {α : Type} (st : State) (p : Attributing α) : Prop :=
  ∃ place use, (place, use) ∈ (Id.run (p.run st)).2.uses ∧ Q place use

/-- A name is used at a node with a type. -/
def UsedAs (id : NodeId) (t : Ty) (_ : Place) (use : NameUse) : Prop := use.node = id ∧ use.type = t

section
variable {s : Setting} {Q : Place → NameUse → Prop} {id : NodeId} {st : State} {α β : Type}

namespace ComesToUse

/-- What is used stays so. -/
theorem bind_first {p : Attributing α} {f : α → Attributing β} (hp : ComesToUse Q st p)
    (hf : ∀ a, Composed s (fun _ => True) (f a)) : ComesToUse Q st (p >>= f) := by
  obtain ⟨place, use, hmem, huse⟩ := hp
  refine ⟨place, use, ?_, huse⟩
  exact (hf _).keeps (I := fun φ _ => (place, use) ∈ φ.uses) (fun _ _ _ _ _ h => h)
    (fun _ _ _ _ _ _ _ h => Array.mem_push_of_mem _ h) (fun _ _ _ _ h => h) (fun _ _ _ h => h)
    (fun _ _ h => h) _ hmem

theorem bind_run {p : Attributing α} {f : α → Attributing β} {a : α} {st' : State}
    (hp : Id.run (p.run st) = (a, st')) (hf : ComesToUse Q st' (f a)) : ComesToUse Q st (p >>= f) := by
  change ComesToUse Q (Id.run (p.run st)).2 (f (Id.run (p.run st)).1)
  rw [hp]
  exact hf

theorem withTypeParameters {names : List String} {p : Attributing α}
    (hp : ComesToUse Q { st with typeParameters := st.typeParameters ++ names } p) :
    ComesToUse Q st (withTypeParameters names p) := hp

theorem deeper {otherwise : α} {p : Attributing α} (hd : st.depth < maxDepth)
    (hp : ComesToUse Q { st with depth := st.depth + 1 } p) :
    ComesToUse Q st (deeper otherwise p) := by
  unfold ComesToUse
  rw [deeper_state, if_neg (Nat.not_le_of_lt hd)]
  exact hp

end ComesToUse

namespace Setting

/-- The type of an expression is recorded after all else. -/
theorem recorded_comesToUse (s : Setting) {p : Attributing Ty} (hd : st.depth < maxDepth)
    (h : ComesToUse Q { st with depth := st.depth + 1 } p) : ComesToUse Q st do
      match ← deeper none (some <$> p) with
      | some t =>
        recordType id t
        return t
      | none => return .unknown := by
  refine ComesToUse.bind_first (s := s) (.deeper hd ?_) fun t? => ?_
  · rw [map_eq_pure_bind]
    exact h.bind_first (s := s) fun _ => .pure _
  · cases t? with
    | none => exact .pure _
    | some t => exact (Composed.recordType trivial t).seq (.pure t)

/-- So is an access. -/
theorem expression_access_comesToUse {rec : Tasks}
    (hkind : s.forest.kind? (some id) = some (.node .propertyAccessExpression))
    (hd : st.depth < maxDepth)
    (h : ComesToUse Q { st with depth := st.depth + 1 } (s.accessUse rec id .value)) :
    ComesToUse Q st (s.expression rec id) := by
  unfold expression
  rw [hkind]
  exact recorded_comesToUse s hd (h.bind_first (s := s) fun _ => .pure _)

/-- What is called comes first of a call. -/
theorem expression_call_comesToUse (hf : s.forest.Linked) {n : Nat} {call : Call}
    (hkind : s.forest.kind? (some id) = some (.node .callExpression))
    (hd : s.forest.data (some id) = .call call) (hdepth : st.depth < maxDepth)
    (h : ComesToUse Q { st with depth := st.depth + 1 } (s.calleeType (s.tasks n) call.callee
      (call.arguments.size + call.trailingLambda.toList.length))) :
    ComesToUse Q st (s.expression (s.tasks n) id) := by
  have hrec := tasks_composed hf n
  have hlambda : ∀ x ∈ call.trailingLambda, s.forest.Inside id x := fun x hx =>
    hf.inside_of_mem_parts hd (by simp_all [NodeData.parts])
  unfold expression
  rw [hkind]
  refine recorded_comesToUse s hdepth ?_
  dsimp only
  unfold nodeType
  rw [hd]
  refine h.bind_first (s := s) fun t => Composed.seq (.forM fun x _ => ?_) (.seq ?_ (.pure t))
  · exact (argument_composed hrec hf x).mono fun _ _ => trivial
  · exact (hrec.typeOf hlambda).mono fun _ _ => trivial

/-- An access is used at its node, whatever it means. -/
theorem accessUse_comesToUse_self {rec : Tasks} {access : Access} {p : Purpose}
    (hd : s.forest.data (some id) = .access access) :
    ComesToUse (fun place use => place = .access ∧ use.node = id) st (s.accessUse rec id p) := by
  unfold accessUse
  rw [hd]
  obtain ⟨meaning, st', hrun⟩ : ∃ meaning st',
      Id.run ((s.accessMeaning rec id access p).run st) = (meaning, st') := ⟨_, _, rfl⟩
  refine ComesToUse.bind_run hrun ?_
  cases meaning with
  | unresolved failure => exact ⟨_, _, Array.mem_push_self, rfl, rfl⟩
  | _ => exact ⟨_, _, Array.mem_push_self, rfl, rfl⟩

/-- What an access is on is attributed before it, and so are the accesses further left. -/
theorem accessUse_comesToUse_left {n : Nat} {access : Access} {p : Purpose}
    (hd : s.forest.data (some id) = .access access)
    (hleft : s.forest.kind? (some access.expression) = some (.node .propertyAccessExpression))
    (hdepth : st.depth < maxDepth)
    (h : ComesToUse Q { st with depth := st.depth + 1 }
      (s.accessUse (s.tasks n) access.expression .value)) :
    ComesToUse Q st (s.accessUse (s.tasks (n + 1)) id p) := by
  have hqualifier : ComesToUse Q st ((s.tasks (n + 1)).qualifierOf access.expression) := by
    change ComesToUse Q st (s.qualifier (s.tasks n) access.expression)
    unfold qualifier
    rw [hleft]
    exact ComesToUse.deeper hdepth h
  unfold accessUse
  rw [hd]
  refine ComesToUse.bind_first (s := s) ?_ fun meaning =>
    recordAccess_composed trivial hd Forest.isShortCircuited_of_accessKind meaning
  have hkind : s.forest.accessKind id = if access.isNullSafe then .nullSafe else .plain := by
    simp only [Forest.accessKind, hd, hleft]
  unfold accessMeaning
  rw [hkind]
  cases access.isNullSafe <;> exact hqualifier.bind_first (s := s) fun _ => .pure _

/-- The value of a property is attributed before anything that depends on it. -/
theorem property_comesToUse (hf : s.forest.Linked) {n : Nat} {owner : Owner} {first name value : NodeId}
    {d : PropertyDeclaration} (hd : s.forest.IsProperty first d name) (hreceiver : d.receiverType = none)
    (htype : d.typeRef = none) (hvalue : d.initializer = some value)
    (h : ∀ names, ComesToUse Q { st with typeParameters := st.typeParameters ++ names }
      (s.expression (s.tasks n) value)) :
    ComesToUse Q st (s.declaration (s.tasks (n + 1)) owner first) := by
  have hcomposed := tasks_composed hf (n + 1)
  have hmono {P : NodeId → Prop} {α : Type} {p : Attributing α} (hp : Composed s P p) :
      Composed s (fun _ => True) p := hp.mono fun _ _ => trivial
  unfold declaration
  rw [hd.kind]
  dsimp only
  unfold property
  rw [hd.data]
  dsimp only
  rw [hreceiver, htype, hvalue]
  refine ComesToUse.withTypeParameters ?_
  rw [typeUse?, pure_bind, pure_bind]
  -- All that follows finds out more, and takes nothing back.
  have hinitial (names : List String) :
      ComesToUse Q { st with typeParameters := st.typeParameters ++ names }
        ((s.tasks (n + 1)).typeOf (some value)) := h names
  refine ComesToUse.bind_first (s := s) ((hinitial _).bind_first (s := s) fun initial => ?_)
    fun type => ?_
  · refine (hmono (hcomposed.typeOf (nodeAfter?_inside hf))).seq ?_
    refine Composed.seq (.forM fun x _ => ?_) (.pure _)
    exact hmono (accessor_composed hcomposed hf _ x)
  · split
    · exact declareProperty_composed _ _ _ _ trivial
    · exact hmono (destructuring_composed hf first)

/-- The first declaration of a file is attributed from the start. -/
theorem file_comesToUse (hf : s.forest.Linked) {root first : NodeId} {rest : List NodeId}
    {parts : SourceFile} (hfile : s.forest.data (some root) = .sourceFile parts)
    (himports : parts.imports = #[]) (hfirst : parts.declarations.toList = first :: rest)
    (hstops : s.stops 0 = false)
    (h : ComesToUse Q { polls := 1 }
      (s.declaration (s.tasks s.forest.size) (.named s.unit.facade) first)) :
    ComesToUse Q {} (s.file root) := by
  have hcomposed (x : NodeId) : Composed s (fun _ => True)
      (s.declaration (s.tasks s.forest.size) (.named s.unit.facade) x) :=
    (declaration_composed (tasks_composed hf _) hf _ x).mono fun _ _ => trivial
  unfold file
  rw [hfile]
  dsimp only
  rw [himports, hfirst, Setting.through, Setting.through, pure_bind]
  refine ComesToUse.bind_first (s := s) ?_ fun _ => Composed.stopped.discard
  -- The file is asked once whether to stop before its first declaration.
  have hstopped : Id.run (s.stopped.run {}) = (false, { polls := 1 }) := by
    change (s.stops 0, ({ polls := 1, isStopped := s.stops 0 } : State)) = _
    rw [hstops]
  refine ComesToUse.bind_run hstopped ?_
  rw [if_neg Bool.false_ne_true]
  exact h.bind_first (s := s) fun _ => .through (fun _ x _ => hcomposed x) _

end Setting

end

end KotlinTree.Attribution
