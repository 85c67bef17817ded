import KotlinTree.Proofs.Attribution.Expression
import KotlinTree.Proofs.Attribution.Note
import KotlinTree.Proofs.Binding.Surroundings

/-!
What attribution finds out about the written type of a property or a parameter, and about the
variable that a property declares: the type that is written, by the names in scope, and the variable
with its type, each once.
-/

namespace KotlinTree.Attribution

variable {s : Setting} {rec : Tasks} {used : List (Place × NameUse)} {c : Surroundings} {x : NodeId}

theorem Tasks.Composed.typeOf_other (h : rec.Composed s) {id : Option NodeId}
    (hid : ∀ y ∈ id, ¬ s.forest.Inside y x) : Notes used c x {} (rec.typeOf id) := by
  cases id with
  | none => exact .pure _
  | some y => exact (h (.expression y)).notes (hid y rfl) c

namespace Setting

theorem typeUse?_other (hf : s.forest.Linked) {id : Option NodeId}
    (hid : ∀ y ∈ id, ¬ s.forest.Inside y x) : Notes used c x {} (s.typeUse? id) := by
  cases id with
  | none => exact .pure _
  | some y =>
    have hself : ∀ z ∈ some y, s.forest.Inside y z := by
      rintro z ⟨⟩
      exact s.forest.inside_self y
    exact (typeUse?_composed hf hself).notes (hid y rfl) c

theorem accessors_other (h : rec.Composed s) (hf : s.forest.Linked) {ids : List NodeId}
    (hids : ∀ y ∈ ids, ¬ s.forest.Inside y x) (type : Ty) :
    Notes used c x {} (ids.forM (s.accessor rec type)) := by
  have hall : Composed s (fun z => ∃ y ∈ ids, s.forest.Inside y z)
      (ids.forM (s.accessor rec type)) := .forM fun y hy =>
    (accessor_composed h hf type y).mono fun _ hz => ⟨y, hy, hz⟩
  exact hall.notes (fun ⟨y, hy, hx⟩ => hids y hy hx) c

/-- The type that is written at a node, by the names that are in scope. -/
def typeIn (s : Setting) (context : TypeContext) (id : NodeId) : Ty :=
  s.unit.scope.resolveType s.forest (some id) context s.env.hasClass

theorem recordWrittenType_notes (c : Surroundings) (id : NodeId) :
    Notes used c id { types := [s.typeIn c.toTypeContext id] } (s.recordWrittenType id) := by
  unfold recordWrittenType
  refine .get_bind fun st hst => ?_
  subst hst
  have hrecord : Notes used st.surroundings id
      { types := [s.typeIn st.surroundings.toTypeContext id] }
      (do recordType id (s.writtenType st id); return s.writtenType st id) :=
    (Notes.recordType_self _).bind_first fun _ => .pure _
  dsimp only
  split
  · split
    · exact (Notes.report _ _).bind_second fun _ => hrecord
    · exact hrecord
  · exact hrecord

/-- A written type is recorded once, before the types inside it. -/
theorem typeUse_notes (hf : s.forest.Linked) {id : NodeId} (hid : s.forest.isTypeReference id) :
    Notes used c id { types := [s.typeIn c.toTypeContext id] } (s.typeUse (some id)) := by
  have hids : (some id |>.map s.forest.typeReferences).getD [] =
      id :: (s.forest.innerTypeReferences id).flatMap s.forest.typeReferences := by
    rw [Option.map_some, Option.getD_some, hf.typeReferences_eq hid]
  unfold typeUse
  rw [hids]
  refine (recordWrittenType_notes c id).bind_first fun t => ?_
  refine Notes.bind_first ?_ fun _ => .pure _
  -- The types inside come before the type, so that none of them is the type itself.
  have hbelow : Composed s (· < id) (List.forM
      ((s.forest.innerTypeReferences id).flatMap s.forest.typeReferences)
      fun y => do let _ ← s.recordWrittenType y) := .forM fun y hy => by
    obtain ⟨inner, hinner, hy⟩ := List.mem_flatMap.mp hy
    have hlt := hf.lt_of_beneath (hf.beneath_of_mem_innerTypeReferences hinner)
    have hle := hf.le_of_inside (Forest.typeReferences_inside hf hy)
    exact (recordWrittenType_composed (P := (· < id)) (lt_of_le_of_lt hle hlt)).discard
  exact hbelow.notes (lt_irrefl id) c

theorem typeUse?_notes (hf : s.forest.Linked) {id : NodeId} (hid : s.forest.isTypeReference id) :
    Notes used c id { types := [s.typeIn c.toTypeContext id] } (s.typeUse? (some id)) :=
  (typeUse_notes hf hid).bind_first fun _ => .pure _

theorem parameter_notes (h : rec.Composed s) (hf : s.forest.Linked) (property : Option Owner)
    {id : NodeId} {p : Parameter} {ref : NodeId} (hd : s.forest.data (some id) = .parameter p)
    (hp : p.typeRef = some ref) (href : s.forest.isTypeReference ref) :
    Notes used c ref { types := [s.typeIn c.toTypeContext ref] } (s.parameter rec property id) := by
  have hparts : (NodeData.parameter p).direct = [] ++ ref :: p.defaultValue.toList := by
    simp [NodeData.direct, hp]
  have hdefault : ∀ y ∈ p.defaultValue, ¬ s.forest.Inside y ref := fun y hy =>
    hf.not_inside_beside hd hparts (s.forest.inside_self ref) (by simp_all)
  have hchild := hf.mem_children_of_mem_direct hd (a := ref) (by simp [hparts])
  have hne : id ≠ ref := (hf.lt_of_isChild (hf.isChild_of_mem_children hchild)).ne'
  unfold parameter
  rw [hd]
  dsimp only
  rw [hp]
  refine (typeUse_notes hf href).bind_first fun written => ?_
  refine (h.typeOf_other hdefault).bind_first fun _ => ?_
  -- What follows is about the parameter and not about its type.
  refine Composed.notes (s := s) (P := (· = id)) ?_ (fun h => hne h.symm) c
  have hrecord (t : Ty) : Composed s (· = id) (do recordType id t; return t) :=
    (Composed.recordType (P := (· = id)) rfl t).seq (.pure t)
  refine (declareLocal_composed _ _).seq ?_
  split
  · refine (Composed.recordVariable ?_).seq (hrecord _)
    split <;> rfl
  · exact hrecord _

/-- What stands after a sign does not stand after another one. -/
theorem nodeAfter?_ne_of_follows (hf : s.forest.Linked) {id ref : NodeId} {sign : TokenKind}
    (h : s.forest.Follows sign (s.forest.children (some id)) ref) {keyword : TokenKind}
    (hk : keyword ≠ sign) : s.nodeAfter? id keyword ≠ some ref := by
  intro hafter
  obtain ⟨before, mark, after, hchildren, hsign⟩ := h
  unfold nodeAfter? at hafter
  split at hafter
  · rename_i word next rest heq
    cases hafter
    have hword : s.forest.kind? (some word) = some (.token keyword) := by
      have hhead := List.head?_dropWhile_not
        (fun child => decide (s.forest.kind? (some child) ≠ some (.token keyword)))
        (s.forest.children (some id)).toList
      rw [heq] at hhead
      simpa using hhead
    -- The children are in order, so that the node stands in one place only.
    obtain ⟨front, hfront⟩ := List.dropWhile_suffix (l := (s.forest.children (some id)).toList)
      fun child => decide (s.forest.kind? (some child) ≠ some (.token keyword))
    rw [heq] at hfront
    have hsplit : (before ++ [mark]) ++ ref :: after = (front ++ [word]) ++ ref :: rest := by
      simpa using hchildren.symm.trans hfront.symm
    have horder := hf.children_ordered id
    rw [hchildren, List.append_cons, List.pairwise_append, List.pairwise_cons] at horder
    obtain ⟨-, ⟨hafter, -⟩, hbefore⟩ := horder
    have hsame := (List.append_cons_inj_of_notMem
      (fun h => (hbefore ref h ref List.mem_cons_self).ne rfl) fun h => (hafter ref h).ne rfl).mp hsplit
    have hlast := List.singleton_inj.mp (List.append_inj' hsame.1 rfl).2
    rw [← hlast, hsign] at hword
    exact hk (by simpa using hword.symm)
  · cases hafter

section
variable {owner : Owner} {id ref name : NodeId} {d : PropertyDeclaration}

/-- The written type of a property is found out once, by all type parameters around it and those of
the property itself. -/
theorem property_notes_type (h : rec.Composed s) (hf : s.forest.Linked)
    (hd : s.forest.data (some id) = .property d) (hname : d.name = some name)
    (hp : d.typeRef = some ref) (href : s.forest.isTypeReference ref) :
    Notes used c ref
      { types := [s.typeIn (c.withTypeParameters (s.forest.propertyTypeParameters id)).toTypeContext ref] }
      (s.property rec owner id) := by
  -- The receiver comes before the type, and the initial value after it.
  have hparts : (NodeData.property d).direct =
      d.receiverType.toList ++ ref :: d.initializer.toList := by simp [NodeData.direct, hp]
  have hreceiver : ∀ y ∈ d.receiverType, ¬ s.forest.Inside y ref := fun y hy =>
    hf.not_inside_beside hd hparts (s.forest.inside_self ref) (by simp_all)
  have hinitial : ∀ y ∈ d.initializer, ¬ s.forest.Inside y ref := fun y hy =>
    hf.not_inside_beside hd hparts (s.forest.inside_self ref) (by simp_all)
  have hchild := hf.mem_children_of_mem_direct hd (a := ref) (by simp [hparts])
  have hapart {y : NodeId} (hy : y ∈ s.forest.children (some id)) (hne : ref ≠ y) :
      ¬ s.forest.Inside y ref := hf.not_inside_of_ne hchild hy hne
  have hdelegate : ∀ y ∈ s.nodeAfter? id .byKeyword, ¬ s.forest.Inside y ref := by
    intro y hy
    refine hapart (mem_children_of_nodeAfter? hy) ?_
    rintro rfl
    have hsigned : (.colon, ref) ∈ (NodeData.property d).signed := by simp [NodeData.signed, hp]
    exact nodeAfter?_ne_of_follows hf (hf.follows hd hsigned) (by decide) hy
  have haccessors : ∀ y ∈ s.childrenOf (some id) .propertyAccessor, ¬ s.forest.Inside y ref := by
    intro y hy
    obtain ⟨hy, hkind⟩ := List.mem_filter.mp hy
    refine hapart (Array.mem_toList_iff.mp hy) ?_
    rintro rfl
    simp_all [Forest.isTypeReference]
  have hne : id ≠ ref := (hf.lt_of_isChild (hf.isChild_of_mem_children hchild)).ne'
  unfold property
  rw [hd]
  dsimp only
  rw [hp, hname]
  refine .withTypeParameters ?_
  refine (typeUse?_other hf hreceiver).bind_second fun receiver => ?_
  refine (typeUse?_notes hf href).bind_first fun written => ?_
  refine Notes.bind_first (.inFrame _ ?_) fun type => ?_
  · refine (h.typeOf_other hinitial).bind_first fun initial => ?_
    refine (h.typeOf_other hdelegate).bind_first fun _ => ?_
    exact (accessors_other h hf haccessors _).bind_first fun _ => .pure _
  · exact (declareProperty_composed (s := s) (P := (· = id)) owner _ _ type rfl).notes
      (fun h => hne h.symm) _

/-- A property without a written type is noted once, with the type of its initializer. -/
theorem property_notes_variable (h : rec.Composed s) (hf : s.forest.Linked) {owner : String} {t : Ty}
    (hd : s.forest.data (some id) = .property d) (hname : d.name = some name)
    (hp : d.typeRef = none)
    (ht : Returns used (c.withTypeParameters (s.forest.propertyTypeParameters id))
      (rec.typeOf d.initializer) t) :
    Notes used c id { declared := [{ name := s.forest.nameText (some name), type := t,
                                     owner := some owner, kind := .property, node := id }] }
      (s.property rec (.named owner) id) := by
  -- Everything that is attributed within the property lies below it, so it says nothing about its
  -- node.
  have hchild {y : NodeId} (hy : y ∈ s.forest.children (some id)) : ¬ s.forest.Inside y id :=
    hf.not_inside_of_lt (hf.lt_of_isChild (hf.isChild_of_mem_children hy))
  have hmem {y : NodeId} (hy : y ∈ (NodeData.property d).direct) : ¬ s.forest.Inside y id :=
    hchild (hf.mem_children_of_mem_direct hd hy)
  have hreceiver : ∀ y ∈ d.receiverType, ¬ s.forest.Inside y id := fun y hy =>
    hmem (by simp_all [NodeData.direct])
  have hinitial : ∀ y ∈ d.initializer, ¬ s.forest.Inside y id := fun y hy =>
    hmem (by simp_all [NodeData.direct])
  have hdelegate : ∀ y ∈ s.nodeAfter? id .byKeyword, ¬ s.forest.Inside y id := fun y hy =>
    hchild (mem_children_of_nodeAfter? hy)
  have haccessors : ∀ y ∈ s.childrenOf (some id) .propertyAccessor, ¬ s.forest.Inside y id :=
    fun y hy => hchild (Array.mem_toList_iff.mp (List.mem_filter.mp hy).1)
  unfold property
  rw [hd]
  dsimp only
  rw [hp, hname]
  refine .withTypeParameters ?_
  refine (typeUse?_other hf hreceiver).bind_second fun receiver => ?_
  rw [typeUse?, pure_bind]
  -- The value is found first, and the property is declared with it afterwards.
  have hvalue : Notes used (c.withTypeParameters (s.forest.propertyTypeParameters id)) id {} (do
      let initial ← rec.typeOf d.initializer
      let _ ← rec.typeOf (s.nodeAfter? id .byKeyword)
      let type := (none : Option Ty).getD initial
      (s.childrenOf (some id) .propertyAccessor).forM (s.accessor rec type)
      return type) := by
    refine (h.typeOf_other hinitial).bind_first fun initial => ?_
    refine (h.typeOf_other hdelegate).bind_first fun _ => ?_
    exact (accessors_other h hf haccessors _).bind_first fun _ => .pure _
  have hrest (initial : Ty) : Composed s (fun _ => True) (do
      let _ ← rec.typeOf (s.nodeAfter? id .byKeyword)
      let type := (none : Option Ty).getD initial
      (s.childrenOf (some id) .propertyAccessor).forM (s.accessor rec type)
      return type) := by
    refine ((h.typeOf (nodeAfter?_inside hf)).mono fun _ _ => trivial).seq ?_
    refine Composed.seq (.forM fun y _ => ?_) (.pure _)
    exact (accessor_composed h hf _ y).mono fun _ _ => trivial
  -- No type is written, so the one that is declared is what the initializer yields.
  have hreturns : Returns used (c.withTypeParameters (s.forest.propertyTypeParameters id)) (do
      let initial ← rec.typeOf d.initializer
      let _ ← rec.typeOf (s.nodeAfter? id .byKeyword)
      let type := (none : Option Ty).getD initial
      (s.childrenOf (some id) .propertyAccessor).forM (s.accessor rec type)
      return type) t := ht.bind hrest fun _ => .after fun _ _ => .after fun _ _ => .pure t
  have hdeclare (type : Ty) : Notes used (c.withTypeParameters (s.forest.propertyTypeParameters id)) id
      { declared := [{ name := s.forest.nameText (some name), type, owner := some owner,
                       kind := .property, node := id }] }
      (declareProperty (.named owner) false (s.forest.nameText (some name)) type id) :=
    (Notes.learn owner _ _).bind_second fun _ => .recordVariable_self _
  exact ((Notes.inFrame _ hvalue).bind_returns (hreturns.inFrame _) hdeclare).congr
    (About.nothing_append _)

end

end Setting

end KotlinTree.Attribution
