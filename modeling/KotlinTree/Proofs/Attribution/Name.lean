import KotlinTree.Attribution.Meaning
import KotlinTree.Attribution.Call
import KotlinTree.Proofs.Attribution.Composed
import KotlinTree.Proofs.Syntax.Extension

/-!
How written types, names, accesses and imports are composed, and that they find something out only
about nodes in the tree that they are given.
-/

namespace KotlinTree

namespace Forest

variable {f : Forest} {top : NodeId}

/-- The types that a child of a written type adds to it: the child, or the types in it. -/
def typesAt (f : Forest) (child : NodeId) : List NodeId :=
  match f.kind? (some child) with
  | some (.node .typeReference) => [child]
  | some (.node .typeArgumentList) => (f.children (some child)).toList.filter f.isTypeReference
  | _ => []

/-- The type references inside a node are those at each of its children. -/
theorem innerTypeReferences_eq (f : Forest) (id : NodeId) :
    f.innerTypeReferences id = (f.children (some id)).toList.flatMap f.typesAt := rfl

/-- A type at a child is the child itself or one of its type arguments, so it is inside the child. -/
theorem mem_typesAt (hf : f.Linked) {child x : NodeId} (h : x ∈ f.typesAt child) :
    f.Inside child x ∧ (f.kind? (some child) = some (.node .typeReference) ∨
      f.kind? (some child) = some (.node .typeArgumentList)) := by
  unfold typesAt at h
  split at h
  · rw [List.mem_singleton.mp h]
    exact ⟨f.inside_self child, Or.inl ‹_›⟩
  · have hx := Array.mem_toList_iff.mp (List.mem_filter.mp h).1
    exact ⟨hf.inside_of_mem_children hx, Or.inr ‹_›⟩
  · exact absurd h List.not_mem_nil

/-- The type references inside a node are beneath it. -/
theorem Linked.beneath_of_mem_innerTypeReferences (hf : f.Linked) {x id : NodeId}
    (h : x ∈ f.innerTypeReferences id) : f.Beneath x id := by
  rw [innerTypeReferences_eq] at h
  obtain ⟨child, hchild, hx⟩ := List.mem_flatMap.mp h
  have hchild := hf.isChild_of_mem_children (Array.mem_toList_iff.mp hchild)
  exact Relation.TransGen.tail' (mem_typesAt hf hx).1 hchild

/-- Only a type reference has type references. -/
theorem typeReferences_of_not {id : NodeId} (hid : ¬ f.isTypeReference id) :
    f.typeReferences id = [] := by rw [typeReferences, if_neg hid]

/-- A written type comes first, and then each type inside it with those inside that. -/
theorem Linked.typeReferences_eq (hf : f.Linked) {id : NodeId} (hid : f.isTypeReference id) :
    f.typeReferences id = id :: (f.innerTypeReferences id).flatMap f.typeReferences := by
  rw [typeReferences, if_pos hid]
  congr 1
  refine List.flatMap_congr fun inner hinner => dif_pos ?_
  exact hf.lt_of_beneath (hf.beneath_of_mem_innerTypeReferences hinner)

/-- A name, or an access by one. -/
def IsName (f : Forest) (id : NodeId) : Prop :=
  f.kind? (some id) = some (.token .identifier) ∨ ∃ access, f.data (some id) = .access access

/-- The type references of a node are in its tree. -/
theorem typeReferences_inside (hf : f.Linked) {x id : NodeId} (h : x ∈ f.typeReferences id) :
    f.Inside id x := by
  induction id using Nat.strongRecOn with
  | ind id ih =>
    by_cases hid : f.isTypeReference id
    · rw [hf.typeReferences_eq hid] at h
      rcases List.mem_cons.mp h with rfl | h
      · exact f.inside_self _
      · obtain ⟨inner, hinner, hx⟩ := List.mem_flatMap.mp h
        have hbelow := hf.beneath_of_mem_innerTypeReferences hinner
        have hin : f.Inside id inner := hbelow.to_reflTransGen
        exact hin.trans (ih inner (hf.lt_of_beneath hbelow) hx)
    · rw [typeReferences_of_not hid] at h
      exact absurd h List.not_mem_nil

end Forest

/-- An access that is safe by its kind is a safe access. -/
theorem Forest.isShortCircuited_of_accessKind {f : Forest} {id : NodeId}
    (h : f.accessKind id = .nullSafe) : f.isShortCircuited id := by
  refine isShortCircuited_of_isNullSafeAccess ?_
  unfold accessKind at h
  unfold isNullSafeAccess
  grind

/-- A type that has been made nullable is nullable, unless it is unknown. -/
theorem Ty.nullable_isNullable (t : Ty) : t.nullable.isNullable ∨ t.nullable = .unknown := by
  cases t with
  | unknown => exact .inr rfl
  | nothing _ => exact .inl rfl
  | named _ _ => exact .inl rfl

/-- A class's type that is given a nullability has it. -/
theorem Ty.eq_of_withNullability {t : Ty} {n n' : Nullability} {name : String}
    (h : t.withNullability n = .named name n') : n' = n := by
  cases t with
  | named _ _ => exact (Ty.named.inj h).2.symm
  | unknown | nothing _ => cases h

namespace Attribution

/-- The node that is attributed. -/
def Task.node : Task → NodeId
  | .expression id | .qualifier id | .statement id | .declaration _ id => id

/-- All parts of a node are attributed by composed programs, each about nodes in its own tree. -/
def Tasks.Composed (s : Setting) (rec : Tasks) : Prop :=
  ∀ task : Task, Attribution.Composed s (s.forest.Inside task.node) (rec task)

namespace Tasks.Composed

variable {s : Setting} {rec : Tasks} {top : NodeId}

/-- A part of a tree is attributed about nodes in the tree. -/
theorem task (h : rec.Composed s) (task : Task) (ht : s.forest.Inside top task.node) :
    Attribution.Composed s (s.forest.Inside top) (rec task) :=
  (h task).mono fun _ hx => ht.trans hx

/-- An expression of a tree is attributed about nodes in the tree, if there is one. -/
theorem typeOf (h : rec.Composed s) {id : Option NodeId}
    (hid : ∀ x ∈ id, s.forest.Inside top x) :
    Attribution.Composed s (s.forest.Inside top) (rec.typeOf id) := by
  cases id with
  | none => exact .pure _
  | some id => exact h.task (.expression id) (hid id rfl)

/-- A statement of a tree is attributed about nodes in the tree, if there is one. -/
theorem statement (h : rec.Composed s) {id : Option NodeId}
    (hid : ∀ x ∈ id, s.forest.Inside top x) :
    Attribution.Composed s (s.forest.Inside top) (rec.statement id) := by
  cases id with
  | none => exact .pure _
  | some id => exact h.task (.statement id) (hid id rfl)

/-- A qualifier of a tree is attributed about nodes in the tree. -/
theorem qualifierOf (h : rec.Composed s) {id : NodeId} (hid : s.forest.Inside top id) :
    Attribution.Composed s (s.forest.Inside top) (rec.qualifierOf id) :=
  h.task (.qualifier id) hid

/-- A declaration of a tree is attributed about nodes in the tree. -/
theorem declaration (h : rec.Composed s) (owner : Owner) {id : NodeId}
    (hid : s.forest.Inside top id) :
    Attribution.Composed s (s.forest.Inside top) (rec.declaration owner id) :=
  h.task (.declaration owner id) hid

/-- Expressions of a tree are attributed one by one about nodes in the tree. -/
theorem types (h : rec.Composed s) {ids : List NodeId} (hids : ∀ x ∈ ids, s.forest.Inside top x) :
    Attribution.Composed s (s.forest.Inside top) (rec.types ids) :=
  .forM fun x hx => (h.typeOf fun _ hy => Option.some.inj hy ▸ hids x hx).discard

end Tasks.Composed

/-- A local is declared, about no node. -/
theorem declareLocal_composed {s : Setting} {P : NodeId → Prop} (name : String) (t : Ty) :
    Composed s P (declareLocal name t) := by
  unfold declareLocal
  split
  · exact .pure _
  · exact .declare _

namespace Setting

section
variable {s : Setting} {P : NodeId → Prop} {id : NodeId}

/-- The type of a type reference is recorded for the reference alone. -/
theorem recordWrittenType_composed (h : P id) : Composed s P (s.recordWrittenType id) := by
  unfold recordWrittenType
  refine .bind .get fun st => ?_
  have hrecord : Composed s P (do recordType id (s.writtenType st id); return s.writtenType st id) :=
    (Composed.recordType h _).seq (.pure _)
  dsimp only
  split
  · split
    · exact (Composed.report _ _).seq hrecord
    · exact hrecord
  · exact hrecord

/-- A type reference is recorded with those inside it. -/
theorem typeUse_composed (hf : s.forest.Linked) {id : Option NodeId} {top : NodeId}
    (h : ∀ x ∈ id, s.forest.Inside top x) :
    Composed s (s.forest.Inside top) (s.typeUse id) := by
  have hids : ∀ x ∈ (id.map s.forest.typeReferences).getD [], s.forest.Inside top x := by
    intro x hx
    cases id with
    | none => exact absurd hx List.not_mem_nil
    | some id => exact (h id rfl).trans (Forest.typeReferences_inside hf hx)
  unfold typeUse
  split
  · exact .pure _
  · rename_i first inner heq
    rw [heq] at hids
    refine .bind (recordWrittenType_composed (hids _ List.mem_cons_self)) fun t => ?_
    refine (Composed.forM fun x hx => ?_).seq (.pure t)
    exact (recordWrittenType_composed (hids x (List.mem_cons_of_mem _ hx))).discard

/-- The same where there may be none. -/
theorem typeUse?_composed (hf : s.forest.Linked) {id : Option NodeId} {top : NodeId}
    (h : ∀ x ∈ id, s.forest.Inside top x) :
    Composed s (s.forest.Inside top) (s.typeUse? id) := by
  unfold typeUse?
  split
  · exact .pure _
  · exact (typeUse_composed hf h).bind fun t => .pure _

/-- Only what a name means as a member is used as a member. -/
theorem exists_member_of_interpret {st : State} {node : NodeId} {access : AccessKind}
    {meaning : Meaning} (h : (s.interpret st node access meaning).2.1.IsMember) :
    ∃ m, meaning = .member m := by
  obtain ⟨hsymbol, howner⟩ := h
  cases meaning with
  | member m => exact ⟨m, rfl⟩
  | localFunction t => cases howner
  | _ => simp [interpret] at hsymbol

/-- A member that is used at a node allows for the chain up to there to be cut short. -/
theorem interpret_allows (st : State) {node : NodeId} {access : AccessKind}
    (haccess : access = .nullSafe → s.forest.isShortCircuited node) (meaning : Meaning) {use : NameUse}
    (hnode : use.node = node) (htype : use.type = (s.interpret st node access meaning).1.type)
    (htarget : use.target = (s.interpret st node access meaning).2.1) : s.forest.Allows use := by
  intro hmember
  obtain ⟨m, rfl⟩ := exists_member_of_interpret (htarget ▸ hmember)
  -- The kind of the access alone does not make its value nullable.
  have hcut : (access = .nullSafe || s.forest.isShortCircuited node) =
      s.forest.isShortCircuited node := by
    by_cases h : access = .nullSafe
    · simp [h, haccess h]
    · simp [h]
  simp only [interpret, typeAt, hcut, Qualifier.type] at htype
  rw [hnode]
  constructor
  · intro h
    rw [htype, if_pos h]
    exact Ty.nullable_isNullable _
  · intro h name n hnamed
    rw [htype, if_neg h] at hnamed
    rw [htarget]
    exact Ty.eq_of_withNullability hnamed

/-- A name is recorded for one node; it is spelled by its token, and null-safe where the chain is. -/
theorem record_composed {place : Place} {node : NodeId} (h : P node) {token : Option NodeId}
    (hspells : ∀ use : NameUse, use.node = node → use.name = s.forest.nameText token →
      s.forest.Spells place use) {access : AccessKind}
    (haccess : access = .nullSafe → s.forest.isShortCircuited node) (meaning : Meaning) :
    Composed s P (s.record place node token access meaning) := by
  unfold record
  extract_lets rest
  have hrest (u : Unit) : Composed s P (rest u) := by
    refine .bind .get fun st => ?_
    refine (Composed.recordType h _).seq ((Composed.recordUse h (hspells _ rfl rfl) ?_).seq (.pure _))
    exact interpret_allows st haccess meaning rfl rfl rfl
  split
  · exact (Composed.report _ _).bind hrest
  · exact hrest ()

/-- The name of an access is recorded for it. -/
theorem recordAccess_composed {node : NodeId} (h : P node) {access : Access}
    (hd : s.forest.data (some node) = .access access) {kind : AccessKind}
    (hkind : kind = .nullSafe → s.forest.isShortCircuited node) (meaning : Meaning) :
    Composed s P (s.record .access node access.name kind meaning) := by
  refine record_composed h (fun use hnode hname => ?_) hkind meaning
  subst hnode
  exact .access hd hname

/-- A name that is an identifier is spelled by itself. -/
theorem recordName_composed (h : P id) (hkind : s.forest.kind? (some id) = some (.token .identifier))
    (meaning : Meaning) : Composed s P (s.recordName id meaning) := by
  refine record_composed h (fun use hnode hname => ?_) AccessKind.noConfusion meaning
  subst hnode
  exact .reference hkind hname

/-- A simple name is recorded for its own node. -/
theorem nameUse_composed (h : P id) (hkind : s.forest.kind? (some id) = some (.token .identifier)) :
    Composed s P (s.nameUse id) :=
  .bind .get fun _ => recordName_composed h hkind _

/-- Of a missing receiver, only its own type is recorded. -/
theorem missingReceiver_composed (h : P id) (keyword : String) :
    Composed s P (s.missingReceiver id keyword) :=
  (Composed.report _ _).seq (.recordType h .unknown)

/-- The type of a receiver is recorded for it alone, whether or not a frame has it. -/
theorem thisType?_composed (h : P id) : Composed s P (s.thisType? id) := by
  unfold thisType?
  refine .bind .get fun st => ?_
  split
  · exact (Composed.recordType h _).seq (.pure _)
  · exact (missingReceiver_composed h _).seq (.pure _)

/-- The receiver's type is recorded for it, and the type that it names is inside. -/
theorem superType?_composed (hf : s.forest.Linked) {top : NodeId} (h : s.forest.Inside top id) :
    Composed s (s.forest.Inside top) (s.superType? id) := by
  have hwritten : ∀ x ∈ (s.forest.selfReference? id).bind (·.superType), s.forest.Inside top x := by
    intro x hx
    unfold Forest.selfReference? at hx
    split at hx
    · rename_i reference hd
      exact h.trans (hf.inside_of_mem_parts hd (by simp_all [NodeData.parts]))
    · cases hx
  unfold superType?
  refine .bind .get fun st => ?_
  split
  · exact .bind (typeUse?_composed hf hwritten) fun written =>
      (Composed.recordType h _).seq (.pure _)
  · exact (missingReceiver_composed h _).seq (.pure _)

end

section
variable {s : Setting} {rec : Tasks}

/-- An access's receiver is attributed, which is inside the access. -/
theorem accessMeaning_composed (h : rec.Composed s) (hf : s.forest.Linked) (id : NodeId)
    {access : Access} (ha : s.forest.Inside id access.expression) (p : Purpose) :
    Composed s (s.forest.Inside id) (s.accessMeaning rec id access p) := by
  unfold accessMeaning
  dsimp only
  split
  · refine .bind (thisType?_composed ha) fun t => ?_
    cases t <;> exact .pure _
  · refine .bind (superType?_composed hf ha) fun t => ?_
    cases t <;> exact .pure _
  · exact (h.qualifierOf ha).bind fun q => .pure _
  · exact (h.qualifierOf ha).bind fun q => .pure _

/-- An access is recorded for its own node after its receiver. -/
theorem accessUse_composed (h : rec.Composed s) (hf : s.forest.Linked) (id : NodeId)
    (p : Purpose) : Composed s (s.forest.Inside id) (s.accessUse rec id p) := by
  unfold accessUse
  split
  · rename_i access hd
    have ha : s.forest.Inside id access.expression :=
      hf.inside_of_mem_parts hd (by simp [NodeData.parts])
    exact (accessMeaning_composed h hf id ha p).bind fun meaning =>
      recordAccess_composed (s.forest.inside_self id) hd Forest.isShortCircuited_of_accessKind meaning
  · exact .pure _

end

section
variable {s : Setting}

/-- The names of an import's path are inside the import. -/
theorem importPath_composed (hf : s.forest.Linked) (id : NodeId) :
    Composed s (s.forest.Inside id) (s.importPath id) := by
  induction id using Nat.strongRecOn with
  | ind id ih =>
    rw [importPath]
    split
    · rename_i hkind
      exact recordName_composed (s.forest.inside_self id) hkind _
    · split
      · rename_i access hd
        have ha : s.forest.Inside id access.expression :=
          hf.inside_of_mem_parts hd (by simp [NodeData.parts])
        split
        · rename_i hlt
          have hq := (ih _ hlt).mono fun _ hx => ha.trans hx
          exact hq.bind fun q =>
            recordAccess_composed (s.forest.inside_self id) hd AccessKind.noConfusion _
        · exact .pure _
      · exact .pure _

/-- An import records what its path uses; that it means nothing is only reported. -/
theorem importUse_composed (hf : s.forest.Linked) (id : NodeId) :
    Composed s (s.forest.Inside id) (s.importUse id) := by
  unfold importUse
  split
  · rename_i directive hd
    split
    · rename_i path hpath
      have hin : s.forest.Inside id path :=
        hf.inside_of_mem_parts hd (by simp [hpath, NodeData.parts])
      exact ((importPath_composed hf path).mono fun _ hx => hin.trans hx).discard
    · exact .pure _
  · exact .pure _

/-- What is found out about the path of an import is about its names. -/
theorem importPath_names (id : NodeId) : Composed s s.forest.IsName (s.importPath id) := by
  induction id using Nat.strongRecOn with
  | ind id ih =>
    rw [importPath]
    split
    · rename_i htoken
      exact recordName_composed (P := s.forest.IsName) (.inl htoken) htoken _
    · split
      · rename_i access hd
        split
        · rename_i hlt
          refine (ih _ hlt).bind fun q => ?_
          exact recordAccess_composed (P := s.forest.IsName) (.inr ⟨access, hd⟩) hd
            AccessKind.noConfusion _
        · exact .pure _
      · exact .pure _

/-- The nodes that an import records uses for are names. -/
theorem importUse_names (id : NodeId) : Composed s s.forest.IsName (s.importUse id) := by
  unfold importUse
  split
  · split
    · exact (importPath_names _).discard
    · exact .pure _
  · exact .pure _

end

end Setting

end Attribution

end KotlinTree
