import KotlinTree.Proofs.Attribution.Name
import KotlinTree.Proofs.Attribution.Once

/-!
Written types, names, accesses and imports are gone through once: a written type and those inside it
have their names at different places, and the name of an access stands beside what it is on.
-/

namespace KotlinTree

namespace Forest

variable {source : String} {f : Forest} {id x y : NodeId}

/-- A written type by a name. -/
def IsNamedType (f : Forest) (id : NodeId) : Prop :=
  ∃ reference, f.data (some id) = .typeReference reference ∧
    ∃ segments, reference.name.bind f.chainSegments? = some segments

/-- The name of a written type is a child of it that lies over something, and none of the kinds that
types are in. -/
theorem IsNamedType.exists_name (h : f.IsNamedType id) (hp : f.Placed source) (hf : f.Linked) :
    ∃ name ∈ f.children (some id), f.Filled name ∧
      f.kind? (some name) ≠ some (.node .typeReference) ∧
      f.kind? (some name) ≠ some (.node .typeArgumentList) := by
  obtain ⟨reference, hd, segments, hsegments⟩ := h
  obtain ⟨name, hname, hchain⟩ := Option.bind_eq_some_iff.mp hsegments
  refine ⟨name, hf.mem_children_of_mem_direct hd (by simp [NodeData.direct, hname]),
    hp.filled_chain hf hchain, ?_⟩
  unfold chainSegments? at hchain
  split at hchain
  · rename_i hkind
    rw [hkind]
    exact ⟨by decide, by decide⟩
  · split at hchain
    · rename_i access hd
      rw [hf.kind?_of_data hd rfl rfl]
      exact ⟨by decide, by decide⟩
    · cases hchain

theorem IsNamedType.filled (h : f.IsNamedType id) (hp : f.Placed source) (hf : f.Linked) :
    f.Filled id := by
  obtain ⟨name, hname, hfilled, -⟩ := h.exists_name hp hf
  exact hp.filled_of_inside hf hfilled (hf.inside_of_mem_children hname)

theorem Placed.innerTypeReferences_apart (hp : f.Placed source) (hf : f.Linked) (id : NodeId) :
    (f.innerTypeReferences id).Pairwise f.Apart := by
  rw [innerTypeReferences_eq, List.pairwise_flatMap]
  constructor
  · intro child _
    unfold typesAt
    split
    · exact List.pairwise_singleton _ _
    · exact (hp.children_apart hf child).filter _
    · exact List.Pairwise.nil
  · refine (hp.children_apart hf id).imp ?_
    intro a b hab x hx y hy
    exact hab.inside (mem_typesAt hf hx).1 (mem_typesAt hf hy).1

/-- Of a written type and those inside it, all that have a name lie over different stretches. -/
theorem Placed.typeReferences_pairwise (hp : f.Placed source) (hf : f.Linked) (id : NodeId) :
    (f.typeReferences id).Pairwise fun x y =>
      f.IsNamedType x → f.IsNamedType y → f.span (some x) ≠ f.span (some y) := by
  induction id using Nat.strongRecOn with
  | ind id ih =>
    by_cases hid : f.isTypeReference id
    · rw [hf.typeReferences_eq hid, List.pairwise_cons, List.pairwise_flatMap]
      refine ⟨fun y hy hnamed _ => ?_, fun inner hinner => ?_, ?_⟩
      · -- What is inside is beside the name, which the type lies over.
        obtain ⟨inner, hinner, hy⟩ := List.mem_flatMap.mp hy
        obtain ⟨child, hchild, hinner⟩ := List.mem_flatMap.mp (innerTypeReferences_eq f id ▸ hinner)
        rw [Array.mem_toList_iff] at hchild
        obtain ⟨hin, hkind⟩ := mem_typesAt hf hinner
        obtain ⟨name, hname, hfilled, hne, hne'⟩ := hnamed.exists_name hp hf
        have hdiff : child ≠ name := by
          rintro rfl
          exact hkind.elim hne hne'
        have hapart := (hp.apart_of_children hf hchild hname hdiff).spans y name
          (hin.trans (typeReferences_inside hf hy)) (f.inside_self name)
        have hwithin := hp.span_child hf (hf.isChild_of_mem_children hname)
        exact (Span.ne_of_within_apart hwithin hfilled hapart).symm
      · exact ih inner (hf.lt_of_beneath (hf.beneath_of_mem_innerTypeReferences hinner))
      · refine (hp.innerTypeReferences_apart hf id).imp ?_
        intro a b hab x hx y hy hxn hyn he
        have hstart := hab.start_ne (typeReferences_inside hf hx) (typeReferences_inside hf hy)
          (hxn.filled hp hf) (hyn.filled hp hf)
        exact hstart (congrArg Span.start he)
    · rw [typeReferences_of_not hid]
      exact List.Pairwise.nil

/-- A node that means nothing as an expression: a written type, an accessor or a list of arguments. -/
def isInert (f : Forest) (id : NodeId) : Bool :=
  match f.kind? (some id) with
  | some (.node .typeReference) | some (.node .propertyAccessor) | some (.node .valueArgumentList) =>
    true
  | _ => false

theorem isInert_of_isTypeReference (h : f.isTypeReference id) : f.isInert id := by
  unfold isInert
  rw [of_decide_eq_true h]

/-- The node, if it is an expression. -/
def active (f : Forest) (id : Option NodeId) : List NodeId := id.toList.filter fun x => !f.isInert x

/-- The node, if it is a written type. -/
def writtenTypes (f : Forest) (id : Option NodeId) : List NodeId := id.toList.filter f.isTypeReference

end Forest

namespace Attribution

variable {source : String} {s : Setting} {rec : Tasks} {id : NodeId}

/-- The parts of a node are each gone through once. -/
structure Tasks.Once (s : Setting) (rec : Tasks) : Prop where
  task : ∀ task : Task, Attribution.Once s [task.node] (rec task)
  inert : ∀ id : NodeId, s.forest.isInert id → Attribution.Once s [] (rec (.expression id))

namespace Tasks.Once

theorem typeOf (h : rec.Once s) (id : Option NodeId) :
    Attribution.Once s (s.forest.active id) (rec.typeOf id) := by
  cases id with
  | none => exact .pure _
  | some id =>
    by_cases hid : s.forest.isInert id
    · have hactive : s.forest.active (some id) = [] := by simp [Forest.active, hid]
      rw [hactive]
      exact h.inert id hid
    · have hactive : s.forest.active (some id) = [id] := by simp [Forest.active, hid]
      rw [hactive]
      exact h.task (.expression id)

theorem typeOf_all (h : rec.Once s) (id : Option NodeId) :
    Attribution.Once s id.toList (rec.typeOf id) :=
  (h.typeOf id).mono List.filter_sublist.subperm

theorem statement (h : rec.Once s) (id : Option NodeId) :
    Attribution.Once s id.toList (rec.statement id) := by
  cases id with
  | none => exact .pure _
  | some id => exact h.task (.statement id)

theorem qualifierOf (h : rec.Once s) (id : NodeId) : Attribution.Once s [id] (rec.qualifierOf id) :=
  h.task (.qualifier id)

theorem declaration (h : rec.Once s) (owner : Owner) (id : NodeId) :
    Attribution.Once s [id] (rec.declaration owner id) :=
  h.task (.declaration owner id)

theorem types (h : rec.Once s) (ids : List NodeId) : Attribution.Once s ids (rec.types ids) :=
  .each fun x _ => (h.typeOf_all (some x)).discard

end Tasks.Once

theorem Once.declareLocal {tops : List NodeId} (name : String) (t : Ty) :
    Once s tops (declareLocal name t) := by
  unfold Attribution.declareLocal
  split
  · exact .pure _
  · exact .declare _

namespace Setting

/-- A written type is marked at most once, if it has a name. -/
theorem marks_recordWrittenType (id : NodeId) (st : State) : ∃ found : List NodeId,
    found.Sublist [id] ∧ (∀ x ∈ found, s.forest.IsNamedType x) ∧
      (Id.run ((s.recordWrittenType id).run st)).2.marks =
        st.marks ++ { failures := found.map s.forest.place } := by
  have hnothing : ∃ found : List NodeId, found.Sublist [id] ∧ (∀ x ∈ found, s.forest.IsNamedType x) ∧
      st.marks = st.marks ++ { failures := found.map s.forest.place } :=
    ⟨[], List.nil_sublist _, fun x hx => absurd hx List.not_mem_nil, (Marks.append_nothing _).symm⟩
  unfold recordWrittenType
  rw [StateT.run_bind]
  change ∃ found : List NodeId, found.Sublist [id] ∧ (∀ x ∈ found, s.forest.IsNamedType x) ∧
    (Id.run (StateT.run _ st)).2.marks = _
  dsimp only
  split
  · rename_i reference _ hd
    split
    · rename_i segments hsegments
      refine ⟨[id], List.Sublist.refl _, fun x hx => ?_, Once.marks_report id _ st⟩
      rw [List.mem_singleton.mp hx]
      exact ⟨reference, hd, segments, hsegments⟩
    · exact hnothing
  · exact hnothing

/-- Of written types those that are marked are among them in their order. -/
theorem marks_recordWrittenTypes (ids : List NodeId) (st : State) : ∃ found : List NodeId,
    found.Sublist ids ∧ (∀ x ∈ found, s.forest.IsNamedType x) ∧
      (Id.run ((ids.forM fun id => do let _ ← s.recordWrittenType id).run st)).2.marks =
        st.marks ++ { failures := found.map s.forest.place } := by
  induction ids generalizing st with
  | nil =>
    refine ⟨[], List.nil_sublist _, fun x hx => absurd hx List.not_mem_nil, ?_⟩
    exact (Marks.append_nothing _).symm
  | cons id ids ih =>
    obtain ⟨here, hsub, hnamed, hmarks⟩ := marks_recordWrittenType (s := s) id st
    obtain ⟨rest, hsub', hnamed', hmarks'⟩ := ih (Id.run ((s.recordWrittenType id).run st)).2
    refine ⟨here ++ rest, hsub.append hsub', fun x hx => ?_, ?_⟩
    · exact (List.mem_append.mp hx).elim (hnamed x) (hnamed' x)
    · rw [hmarks, Marks.append_assoc] at hmarks'
      rw [List.map_append]
      exact hmarks'

/-- Named types among a written type and those inside it are at different places. -/
theorem onceIn_namedTypes (hf : s.forest.Sound source) {found : List NodeId}
    (hsub : found.Sublist (s.forest.typeReferences id))
    (hnamed : ∀ x ∈ found, s.forest.IsNamedType x) :
    ({ failures := found.map s.forest.place } : Marks).OnceIn s.forest [id] := by
  have hfilled (x : NodeId) (hx : x ∈ found) : s.forest.Filled x := (hnamed x hx).filled hf.placed hf.linked
  exact { Marks.onceIn_nothing s.forest [id] with
    failures_nodup := by
      rw [List.nodup_iff_pairwise_ne, List.pairwise_map]
      refine ((hf.placed.typeReferences_pairwise hf.linked id).sublist hsub).imp_of_mem fun hx hy h => ?_
      exact Forest.place_ne (hfilled _ hx) (hfilled _ hy) (h (hnamed _ hx) (hnamed _ hy))
    failures_inside := by
      intro at_ hat
      obtain ⟨x, hx, hplace⟩ := List.mem_map.mp hat
      have hin := Forest.typeReferences_inside hf.linked (hsub.subset hx)
      exact ⟨x, hplace, hfilled x hx, id, List.mem_singleton_self id, hin⟩ }

theorem typeUse_once (hf : s.forest.Sound source) (id : Option NodeId) :
    Once s (s.forest.writtenTypes id) (s.typeUse id) := by
  cases id with
  | none => exact .pure _
  | some id =>
    by_cases hid : s.forest.isTypeReference id
    · have htops : s.forest.writtenTypes (some id) = [id] := by simp [Forest.writtenTypes, hid]
      rw [htops]
      intro _ st
      -- The type and those inside it are one list, in which the first only yields its type.
      have hrun : (Id.run ((s.typeUse (some id)).run st)).2 = (Id.run
          (((s.forest.typeReferences id).forM fun id => do let _ ← s.recordWrittenType id).run st)).2 := by
        unfold typeUse
        rw [Option.map_some, Option.getD_some, hf.linked.typeReferences_eq hid]
        rfl
      obtain ⟨found, hsub, hnamed, hmarks⟩ :=
        marks_recordWrittenTypes (s := s) (s.forest.typeReferences id) st
      exact ⟨_, by rw [hrun, hmarks], onceIn_namedTypes hf hsub hnamed⟩
    · have hnone : s.typeUse (some id) = pure .unknown := by
        unfold typeUse
        rw [Option.map_some, Option.getD_some, Forest.typeReferences_of_not hid]
      rw [hnone]
      exact .pure _

theorem typeUse?_once (hf : s.forest.Sound source) (id : Option NodeId) :
    Once s (s.forest.writtenTypes id) (s.typeUse? id) := by
  cases id with
  | none => exact .pure _
  | some id => exact (typeUse_once hf (some id)).bind_first fun _ => .pure _

/-- The type of a name is no mark, and its use is one. -/
theorem marks_use (place : Place) (use : NameUse) (t : Ty) (q : Qualifier) (st : State) :
    (Id.run ((do
      recordType use.node t
      recordUse place use
      return q : Attributing Qualifier).run st)).2.marks = st.marks ++ { uses := [use.node] } := by
  simp [recordUse, recordType, Findings.marks, Marks.append_def]

/-- A name is marked where it is used, and where it is missing. -/
theorem marks_record (place : Place) (node : NodeId) {token : Option NodeId} (access : AccessKind)
    {meaning : Meaning} (h : ∀ failure, meaning = .unresolved failure → token.isSome) (st : State) :
    ∃ missing : Option NodeId, (∀ t ∈ missing, t ∈ token) ∧
      (Id.run ((s.record place node token access meaning).run st)).2.marks =
        st.marks ++ { uses := [node], failures := missing.toList.map s.forest.place } := by
  unfold record
  cases meaning with
  | unresolved failure =>
    obtain ⟨t, rfl⟩ := Option.isSome_iff_exists.mp (h failure rfl)
    let reported := (Id.run ((s.report (some t) failure).run st)).2
    refine ⟨some t, fun _ ht => ht, (marks_use _ _ _ _ reported).trans ?_⟩
    rw [Once.marks_report, Marks.append_assoc]
    rfl
  | _ => exact ⟨none, fun _ ht => absurd ht (Option.not_mem_none _), marks_use _ _ _ _ st⟩

/-- A name is recorded once, after what has been gone through beneath its node and beside the name. -/
theorem record_once (hf : s.forest.Sound source) {α : Type} {p : Attributing α} {g : α → Meaning}
    {rs : List NodeId} (hp : Once s rs p) (hapart : rs.Pairwise s.forest.Apart) {node : NodeId}
    (hrs : ∀ r ∈ rs, s.forest.Beneath r node) {token : Option NodeId}
    (htoken : ∀ t ∈ token, s.forest.Filled t ∧ s.forest.Inside node t ∧ ∀ r ∈ rs, s.forest.Apart r t)
    (hmissing : ∀ st failure, g (Id.run (p.run st)).1 = .unresolved failure → token.isSome)
    (hlink : ∀ left name : NodeId, s.forest.link? node = some (left, name) → token = some name)
    (place : Place) (access : AccessKind) :
    Once s [node] (p >>= fun a => s.record place node token access (g a)) := by
  intro _ st
  obtain ⟨m, hst, hm⟩ := hp hapart st
  obtain ⟨missing, hsub, hmarks⟩ :=
    marks_record place node access (hmissing st) (Id.run (p.run st)).2
  refine ⟨m ++ { uses := [node], failures := missing.toList.map s.forest.place }, ?_,
    hm.add hf.linked hrs (fun t ht => htoken t (hsub t ht)) fun left name h => ?_⟩
  · rw [← Marks.append_assoc, ← hst]
    exact hmarks
  · obtain ⟨-, -, hbeside⟩ := htoken name (hlink left name h)
    exact hbeside

theorem recordName_once (hf : s.forest.Sound source)
    (hid : s.forest.kind? (some id) = some (.token .identifier)) (meaning : Meaning) :
    Once s [id] (s.recordName id meaning) := by
  have hnothing : Once s [] (pure meaning) := .pure _
  have hlink := hf.linked.link?_of_token hid
  refine record_once hf hnothing List.Pairwise.nil (fun r hr => absurd hr List.not_mem_nil) ?_
    (fun _ _ _ => rfl) (fun _ _ h => nomatch hlink.symm.trans h) .reference .plain
    (g := fun meaning => meaning)
  intro t ht
  cases ht
  exact ⟨hf.placed.filled_name hid, s.forest.inside_self id, fun r hr => absurd hr List.not_mem_nil⟩

theorem nameUse_once (hf : s.forest.Sound source)
    (hid : s.forest.kind? (some id) = some (.token .identifier)) : Once s [id] (s.nameUse id) :=
  Once.get.bind_second fun _ => recordName_once hf hid _

theorem missingReceiver_once (hid : s.forest.Filled id) (keyword : String) :
    Once s [id] (s.missingReceiver id keyword) :=
  (Once.report hid _).bind_first fun _ => .recordType _ _

theorem thisType?_once (hid : s.forest.Filled id) : Once s [id] (s.thisType? id) := by
  unfold thisType?
  refine Once.get.bind_second fun st => ?_
  split
  · exact (Once.recordType _ _).bind_second fun _ => .pure _
  · exact (missingReceiver_once hid _).bind_first fun _ => .pure _

theorem superType?_once (hf : s.forest.Sound source)
    (hid : s.forest.Filled id) : Once s [id] (s.superType? id) := by
  have hwritten : Once s [id] (s.typeUse? ((s.forest.selfReference? id).bind (·.superType))) := by
    refine ((typeUse?_once hf _).mono List.filter_sublist.subperm).of_option fun x hx => ?_
    obtain ⟨reference, hd, hsuper⟩ := Option.bind_eq_some_iff.mp hx
    unfold Forest.selfReference? at hd
    split at hd
    · rename_i hdata
      cases hd
      exact hf.linked.inside_of_mem_parts hdata (by simp [NodeData.parts, hsuper])
    · cases hd
  unfold superType?
  refine Once.get.bind_second fun st => ?_
  split
  · exact hwritten.bind_first fun _ => (Once.recordType _ _).bind_second fun _ => .pure _
  · exact (missingReceiver_once hid _).bind_first fun _ => .pure _

theorem kind?_of_accessKind {f : Forest} {access : Access}
    (hd : f.data (some id) = .access access) :
    (f.accessKind id = .onThis → f.kind? (some access.expression) = some (.node .thisExpression)) ∧
      (f.accessKind id = .onSuper →
        f.kind? (some access.expression) = some (.node .superExpression)) := by
  unfold Forest.accessKind
  rw [hd]
  dsimp only
  split
  · exact ⟨fun _ => ‹_›, fun h => nomatch h⟩
  · exact ⟨fun h => (nomatch h), fun _ => ‹_›⟩
  · split <;> exact ⟨fun h => (nomatch h), fun h => nomatch h⟩

theorem accessMeaning_once (h : rec.Once s) (hf : s.forest.Sound source)
    {access : Access} (hd : s.forest.data (some id) = .access access) (p : Purpose) :
    Once s [access.expression] (s.accessMeaning rec id access p) := by
  obtain ⟨hthis, hsuper⟩ := kind?_of_accessKind hd
  unfold accessMeaning
  dsimp only
  split
  · rename_i hkind
    refine (thisType?_once (hf.placed.filled_receiver hf.linked (hthis hkind) (.inl rfl))).bind_first fun t => ?_
    cases t <;> exact .pure _
  · rename_i hkind
    refine (superType?_once hf (hf.placed.filled_receiver hf.linked (hsuper hkind) (.inr rfl))).bind_first
      fun t => ?_
    cases t <;> exact .pure _
  · exact (h.qualifierOf _).bind_first fun q => .pure _
  · exact (h.qualifierOf _).bind_first fun q => .pure _

/-- A name that is missing in the source is not looked up. -/
theorem accessMeaning_ne_unresolved (hf : s.forest.Sound source) {access : Access} {p : Purpose}
    (hname : access.name = none) (failure : Failure) :
    ∀ st, (Id.run ((s.accessMeaning rec id access p).run st)).1 ≠ .unresolved failure := by
  -- Only what comes last decides.
  have hbind {α : Type} {q : Attributing α} {g : α → Attributing Meaning}
      (h : ∀ a st, (Id.run ((g a).run st)).1 ≠ .unresolved failure) :
      ∀ st, (Id.run ((q >>= g).run st)).1 ≠ .unresolved failure := fun st => h _ _
  unfold accessMeaning
  rw [hname, hf.named.nameText_none]
  dsimp only
  split
  · refine hbind fun t st => ?_
    cases t <;> exact Meaning.noConfusion
  · refine hbind fun t st => ?_
    cases t with
    | none => exact Meaning.noConfusion
    | some t =>
      have hmeaning : s.superMemberMeaning t "" p = .indeterminate := by simp [superMemberMeaning]
      change s.superMemberMeaning t "" p ≠ _
      rw [hmeaning]
      exact Meaning.noConfusion
  · exact hbind fun q st => Meaning.noConfusion
  · exact hbind fun q st => Meaning.noConfusion

theorem accessUse_once (h : rec.Once s) (hf : s.forest.Sound source)
    (id : NodeId) (p : Purpose) : Once s [id] (s.accessUse rec id p) := by
  unfold accessUse
  split
  · rename_i access hd
    refine record_once hf (accessMeaning_once h hf hd p) (List.pairwise_singleton _ _) ?_ ?_ ?_ ?_
      .access _ (g := fun meaning => meaning)
    · intro r hr
      rw [List.mem_singleton.mp hr]
      exact hf.linked.beneath_of_mem_parts (by simp [hd, NodeData.parts])
    · intro t ht
      obtain ⟨hfilled, hin, hapart⟩ := hf.placed.access_name hf.linked hd ht
      exact ⟨hfilled, hin, fun r hr => List.mem_singleton.mp hr ▸ hapart⟩
    · intro st failure hfailure
      rw [Option.isSome_iff_ne_none]
      exact fun hname => accessMeaning_ne_unresolved hf hname failure st hfailure
    · intro left name hlink
      obtain ⟨access', hd', -, hname⟩ := Forest.exists_access_of_link? hlink
      cases hd.symm.trans hd'
      exact hname
  · exact .pure _

theorem importPath_once (hf : s.forest.Sound source)
    (h : s.forest.IsPath id) : Once s [id] (s.importPath id) := by
  -- The induction is on the path, from its first name on.
  induction h with
  | @name id hkind =>
    rw [importPath, if_pos hkind]
    exact recordName_once hf hkind _
  | @link id left name hlink _ ih =>
    rw [importPath]
    split
    · rename_i hkind
      exact recordName_once hf hkind _
    split
    · rename_i access hd
      split
      · obtain ⟨access', hd', rfl, hname⟩ := Forest.exists_access_of_link? hlink
        cases hd.symm.trans hd'
        -- The name of the link is a leaf beside its left side, so it has not been used by what comes
        -- before.
        refine record_once hf ih (List.pairwise_singleton _ _) ?_ ?_ (fun _ _ _ => hname ▸ rfl) ?_
          .access .plain
        · intro r hr
          rw [List.mem_singleton.mp hr]
          exact hf.linked.beneath_of_mem_parts (by simp [hd, NodeData.parts])
        · intro t ht
          obtain ⟨hfilled, hin, hapart⟩ := hf.placed.access_name hf.linked hd ht
          exact ⟨hfilled, hin, fun r hr => List.mem_singleton.mp hr ▸ hapart⟩
        · intro left' name' hlink'
          cases hlink.symm.trans hlink'
          exact hname
      · exact .pure _
    · exact .pure _

theorem importUse_once (hf : s.forest.Sound source) (id : NodeId) :
    Once s [id] (s.importUse id) := by
  unfold importUse
  split
  · rename_i directive hd
    split
    · rename_i path hpath
      have hin : s.forest.Inside id path :=
        hf.linked.inside_of_mem_parts hd (by simp [hpath, NodeData.parts])
      exact ((importPath_once hf (hf.linked.isPath hd hpath)).widen hin).discard
    · exact .pure _
  · exact .pure _

end Setting

end Attribution

end KotlinTree
