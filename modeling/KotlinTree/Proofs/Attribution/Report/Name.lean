import KotlinTree.Attribution.Call
import KotlinTree.Proofs.Attribution.Report

/-!
What is reported where types are written, and by names, receivers, accesses and calls if their parts
report it.
-/

namespace KotlinTree.Attribution

/-- The parts of a node proceed. -/
def Tasks.Proceed (rec : Tasks) : Prop := ∀ (task : Task) (d : Diagnostic), Quiet d (rec task)

/-- A part of a node reports something as an expression. -/
abbrev Tasks.Finds (rec : Tasks) (d : Diagnostic) (id : NodeId) : Around → Prop :=
  Attribution.Finds d (rec (.expression id))

namespace Tasks.Proceed

variable {rec : Tasks} {d : Diagnostic}

theorem typeOf (h : rec.Proceed) (id : Option NodeId) :
    Reports d (fun c => ∃ x ∈ id, rec.Finds d x c) (rec.typeOf id) := by
  cases id with
  | none => exact (Reports.pure _).mono fun _ ⟨_, h, _⟩ => absurd h (Option.not_mem_none _)
  | some id => exact (h (.expression id) d).self.mono fun _ ⟨_, hx, hc⟩ => Option.some.inj hx ▸ hc

theorem statement (h : rec.Proceed) (id : Option NodeId) :
    Reports d (fun c => ∃ x ∈ id, Attribution.Finds d (rec (.statement x)) c) (rec.statement id) := by
  cases id with
  | none => exact (Reports.pure _).mono fun _ ⟨_, h, _⟩ => absurd h (Option.not_mem_none _)
  | some id => exact (h (.statement id) d).self.mono fun _ ⟨_, hx, hc⟩ => Option.some.inj hx ▸ hc

theorem qualifierOf (h : rec.Proceed) (id : NodeId) :
    Reports d (Attribution.Finds d (rec (.qualifier id))) (rec.qualifierOf id) :=
  (h (.qualifier id) d).self

theorem types (h : rec.Proceed) (ids : List NodeId) :
    Reports d (fun c => ∃ x ∈ ids, rec.Finds d x c) (rec.types ids) :=
  .forM fun id _ => ((h.typeOf (some id)).bind_first fun _ => .pure _).mono fun _ hc => ⟨id, rfl, hc⟩

end Tasks.Proceed

namespace Setting

variable {s : Setting} {rec : Tasks} {d : Diagnostic}

theorem record_quiet (place : Place) (node : NodeId) (token : Option NodeId) (access : AccessKind)
    (meaning : Meaning) : Quiet d (s.record place node token access meaning) := by
  unfold record
  extract_lets rest
  -- What follows is the same, whether a failure has been reported before or not.
  have hrest (u : Unit) : Quiet d (rest u) := by
    refine .get_bind fun st => (Reports.recordType _ _).bind_first fun _ => ?_
    exact (Reports.recordUse _ _).bind_first fun _ => .pure _
  split
  · exact (Reports.report _ _).quiet.bind_first hrest
  · exact hrest ()

theorem recordName_quiet (id : NodeId) (meaning : Meaning) : Quiet d (s.recordName id meaning) :=
  record_quiet .reference id (some id) .plain meaning

theorem nameUse_quiet (id : NodeId) : Quiet d (s.nameUse id) :=
  .get_bind fun _ => recordName_quiet id _

theorem recordWrittenType_quiet (id : NodeId) : Quiet d (s.recordWrittenType id) := by
  unfold recordWrittenType
  refine .get_bind fun st => ?_
  have hrecord : Quiet d (do recordType id (s.writtenType st id); return s.writtenType st id) :=
    (Reports.recordType _ _).bind_first fun _ => .pure _
  dsimp only
  split
  · split
    · exact (Reports.report _ _).quiet.bind_first fun _ => hrecord
    · exact hrecord
  · exact hrecord

/-- A written type whose name is neither a class nor a type parameter is reported. -/
theorem finds_recordWrittenType {id : NodeId} {c : Around} {reference : TypeReference}
    {segments : List String} (hd : s.forest.data (some id) = .typeReference reference)
    (hname : reference.name.bind s.forest.chainSegments? = some segments)
    (hparameter : ∀ name ∈ c.typeParameters, segments ≠ [name])
    (hclass : s.unit.scope.resolveClass? segments c.enclosing s.env.hasClass = none) :
    Finds ((Failure.unknownType (dotted segments)).diagnostic s.unit.fileName (s.forest.span (some id)))
      (s.recordWrittenType id) c := by
  rintro st rfl hs
  have hwritten : s.writtenType st id = .unknown := by
    have hnone : ¬(segments.length = 1 ∧ st.typeParameters.any (some · = segments.head?)) := by
      rintro ⟨hlength, hany⟩
      obtain ⟨name, hmem, hhead⟩ := List.any_eq_true.mp hany
      obtain ⟨first, rfl⟩ := List.length_eq_one_iff.mp hlength
      exact hparameter name hmem (by simpa using (of_decide_eq_true hhead).symm)
    have hclass : s.unit.scope.resolveClass? segments st.enclosing s.env.hasClass = none := hclass
    simp only [Bool.and_eq_true, decide_eq_true_eq, hnone, writtenType, FileScope.resolveType, hd, hname,
      hclass, if_false, Option.map_none, Option.getD_none]
  simp [recordWrittenType, hwritten, hd, hname, report, recordType]

/-- With a written type, those inside it are looked at. -/
theorem typeUse_some_reports (id : NodeId) :
    Reports d (fun c => ∃ x ∈ s.forest.typeReferences id, Finds d (s.recordWrittenType x) c)
      (s.typeUse (some id)) := by
  unfold typeUse
  rw [Option.map_some, Option.getD_some]
  cases s.forest.typeReferences id with
  | nil => exact (Reports.pure _).mono fun _ ⟨_, h, _⟩ => absurd h List.not_mem_nil
  | cons first inner =>
    refine ((recordWrittenType_quiet first).self.bind fun _ => (Reports.forM fun x _ =>
      (recordWrittenType_quiet x).self.bind_first fun _ => .pure _).bind_first fun _ => .pure _).mono ?_
    exact fun _ h => by simpa using h

theorem typeUse_reports (id : Option NodeId) :
    Reports d (fun c => ∃ x ∈ id, Finds d (s.typeUse (some x)) c) (s.typeUse id) := by
  cases id with
  | none => exact (Reports.pure _).mono fun _ ⟨_, h, _⟩ => absurd h (Option.not_mem_none _)
  | some id => exact (typeUse_some_reports id).self.mono fun _ ⟨_, hx, hc⟩ => Option.some.inj hx ▸ hc

theorem typeUse?_reports (id : Option NodeId) :
    Reports d (fun c => ∃ x ∈ id, Finds d (s.typeUse (some x)) c) (s.typeUse? id) := by
  cases id with
  | none => exact (Reports.pure _).mono fun _ ⟨_, h, _⟩ => absurd h (Option.not_mem_none _)
  | some id => exact (typeUse_reports (some id)).bind_first fun _ => .pure _

theorem missingReceiver_quiet (id : NodeId) (keyword : String) : Quiet d (s.missingReceiver id keyword) :=
  (Reports.report _ _).quiet.bind_first fun _ => .recordType _ _

theorem thisType?_quiet (id : NodeId) : Quiet d (s.thisType? id) := by
  unfold thisType?
  refine .get_bind fun st => ?_
  split
  · exact (Reports.recordType _ _).bind_first fun _ => .pure _
  · exact (missingReceiver_quiet _ _).bind_first fun _ => .pure _

/-- The superclass that is written after `super` is looked at only where there is a class. -/
theorem superType?_reports (id : NodeId) :
    Reports d (fun c => c.HasClass (s.selfLabel id) ∧
      ∃ x ∈ (s.forest.selfReference? id).bind (·.superType), Finds d (s.typeUse (some x)) c)
      (s.superType? id) := by
  unfold superType?
  refine .get_bind_around fun st => ?_
  split
  · refine ((typeUse?_reports _).bind_first fun _ => (Reports.recordType _ _).bind_first fun _ => .pure _).mono ?_
    exact fun c hc => hc.2.2
  · rename_i hnone
    -- A class around would have been found.
    refine ((missingReceiver_quiet _ _).bind_first fun _ => .pure _).mono ?_
    rintro c ⟨rfl, ⟨label, hlabel, hmatch⟩, -⟩
    obtain ⟨frame, hframe, rfl⟩ := List.mem_map.mp hlabel
    obtain ⟨hmem, hclass⟩ := List.mem_filter.mp hframe
    have habsent : s.selfLabel id ≠ none ∧ frame.label ≠ s.selfLabel id := by
      simpa [hclass] using List.find?_eq_none.mp hnone frame hmem
    exact hmatch.elim habsent.1 habsent.2

theorem accessMeaning_reports (h : rec.Proceed) (id : NodeId) (access : Access) (p : Purpose) :
    Reports d (fun c => match s.forest.accessKind id with
      | .onThis => False
      | .onSuper => Finds d (s.superType? access.expression) c
      | .plain | .nullSafe => Finds d (rec (.qualifier access.expression)) c)
      (s.accessMeaning rec id access p) := by
  unfold accessMeaning
  dsimp only
  cases s.forest.accessKind id with
  | onThis =>
    refine (thisType?_quiet _).bind_first fun t => ?_
    cases t <;> exact .pure _
  | onSuper =>
    refine (superType?_reports _).self.bind_first fun t => ?_
    cases t <;> exact .pure _
  | plain => exact (h.qualifierOf _).bind_first fun _ => .pure _
  | nullSafe => exact (h.qualifierOf _).bind_first fun _ => .pure _

theorem accessUse_reports (h : rec.Proceed) (id : NodeId) (p : Purpose) :
    Reports d (fun c => ∃ access, s.forest.data (some id) = .access access ∧
      Finds d (s.accessMeaning rec id access p) c) (s.accessUse rec id p) := by
  unfold accessUse
  split
  · refine ((accessMeaning_reports h id _ p).self.bind_first fun _ => record_quiet _ _ _ _ _).mono ?_
    rintro c ⟨access, hd, hc⟩
    simp_all
  · rename_i hd
    refine (Reports.pure _).mono ?_
    rintro c ⟨access, h, -⟩
    exact hd access h

theorem argument_reports (h : rec.Proceed) (id : NodeId) :
    Reports d (fun c => s.forest.kind? (some id) = some (.node .valueArgument) ∧
      ∃ a, s.forest.data (some id) = .valueArgument a ∧ ∃ x ∈ a.expression, rec.Finds d x c)
      (s.argument rec id) := by
  unfold argument
  split
  · rename_i hd
    refine ((h.typeOf _).bind_first fun _ => Reports.recordType _ _).mono ?_
    rintro c ⟨-, a, ha, hc⟩
    simp_all
  · rename_i hd
    refine (Reports.pure _).mono ?_
    rintro c ⟨-, a, ha, hc⟩
    simp_all
  · rename_i hk
    refine ((h.typeOf _).bind_first fun _ => .pure _).mono ?_
    rintro c ⟨hk', -⟩
    simp_all

theorem calleeType_reports (h : rec.Proceed) (callee : NodeId) (count : Nat) :
    Reports d (fun c =>
      s.forest.kind? (some callee) = some (.node .propertyAccessExpression) ∧
          Finds d (s.accessUse rec callee (.call count)) c ∨
        (∃ k, s.forest.kind? (some callee) = some (.node k) ∧ k ≠ .propertyAccessExpression) ∧
          rec.Finds d callee c) (s.calleeType rec callee count) := by
  unfold calleeType
  split
  · rename_i hk
    refine (Reports.get_bind fun st => (recordName_quiet _ _).bind_first fun _ => .pure _).mono ?_
    simp [hk]
  · rename_i hk
    refine ((accessUse_reports h _ _).self.bind_first fun _ => .pure _).mono ?_
    simp [hk]
  · rename_i hk
    refine ((h.typeOf _).bind_first fun _ => .pure _).mono ?_
    rintro c (⟨hk', -⟩ | ⟨-, hc⟩)
    · exact absurd hk' hk
    · exact ⟨callee, rfl, hc⟩

theorem call_reports (h : rec.Proceed) (call : Call) :
    Reports d (fun c =>
      Finds d (s.calleeType rec call.callee (call.arguments.size + call.trailingLambda.toList.length)) c ∨
        Finds d (call.arguments.toList.forM (s.argument rec)) c ∨
          ∃ x ∈ call.trailingLambda, rec.Finds d x c) (s.call rec call) := by
  refine (calleeType_reports h _ _).self.bind fun _ => ?_
  refine .bind (Reports.forM fun a _ => argument_reports h a).self fun _ => ?_
  exact (h.typeOf _).bind_first fun _ => .pure _

theorem impliedCallType_quiet (receiver : Ty) (method : String) (count : Nat) :
    Quiet d (s.impliedCallType receiver method count) := by
  unfold impliedCallType
  split
  · exact .get_bind fun _ => .pure _
  · exact .pure _

theorem infixCall_reports (h : rec.Proceed) (b : BinaryExpression) :
    Reports d (fun c => ∃ x ∈ b.left :: b.right.toList, rec.Finds d x c) (s.infixCall rec b) := by
  refine ((h.typeOf _).bind fun _ => (recordName_quiet _ _).bind_second fun _ =>
    (h.typeOf _).bind_first fun _ => .pure _).mono fun c hc => ?_
  simpa using hc

theorem operatorCall_reports (h : rec.Proceed) (b : BinaryExpression) :
    Reports d (fun c => ∃ x ∈ b.left :: b.right.toList, rec.Finds d x c) (s.operatorCall rec b) := by
  refine ((h.typeOf _).bind fun _ => (h.typeOf _).bind_first fun _ => ?_).mono fun c hc => ?_
  · split
    · exact impliedCallType_quiet _ _ _
    · exact .pure _
  · simpa using hc

theorem indexing_reports (h : rec.Proceed) (id : NodeId) :
    Reports d (fun c => ∃ x ∈ s.forest.children (some id),
      s.isIndexPunctuation x = false ∧ rec.Finds d x c) (s.indexing rec id) := by
  unfold indexing
  split
  · rename_i hnone
    refine (Reports.pure _).mono fun c ⟨x, hx, _⟩ => ?_
    simp_all
  · rename_i receiver rest hchildren
    refine ((h.typeOf _).bind fun _ => (h.types _).bind_first fun _ => impliedCallType_quiet _ _ _).mono ?_
    rintro c ⟨x, hx, hindex, hc⟩
    rw [← Array.mem_toList_iff, hchildren] at hx
    -- What is indexed comes first; all others but brackets and commas are indices.
    rcases List.mem_cons.mp hx with rfl | hx
    · exact Or.inl ⟨_, rfl, hc⟩
    · exact Or.inr ⟨x, List.mem_filter.mpr ⟨hx, by simp [hindex]⟩, hc⟩

theorem callableReference_reports (h : rec.Proceed) (r : CallableReference) :
    Reports d (fun c => (∃ name, r.name = some name ∧ s.isIdentifier (some name) = true) ∧
      ∃ x ∈ r.receiver, Finds d (rec (.qualifier x)) c) (s.callableReference rec r) := by
  unfold callableReference
  split
  · rename_i receiver name hreceiver hname
    -- Only a name that is an identifier is looked for.
    refine Reports.ite (fun hk => ?_) fun hk => (Reports.pure _).mono ?_
    · refine ((h.qualifierOf _).bind_first fun q => ?_).mono ?_
      · split
        · exact (recordName_quiet _ _).bind_first fun _ => .pure _
        · exact .pure _
      · rintro c ⟨-, x, hx, hc⟩
        rw [hreceiver] at hx
        cases hx
        exact hc
    · rintro c ⟨⟨name', hname', hk'⟩, -⟩
      rw [hname] at hname'
      cases hname'
      exact hk hk'
  · rename_i hnone
    refine (Reports.pure _).mono ?_
    rintro c ⟨⟨name, hname, -⟩, receiver, hreceiver, -⟩
    exact hnone receiver name hreceiver hname

end Setting

end KotlinTree.Attribution
