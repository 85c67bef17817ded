import KotlinTree.Proofs.Attribution.Renames
import KotlinTree.Proofs.Attribution.Used
import KotlinTree.Proofs.Grammar.Names

/-!
Chains that can be cut short. A safe access yields nothing where there is nothing that it is on, and with
it the whole chain that goes on from there. Main statement: members that are used along such a chain have
a type that allows for this, and all others are nullable just as they are declared to be.
-/

namespace KotlinTree
open Attribution

namespace Forest

variable {f g : Forest} {id i : NodeId} {leaf : Leaf} {text : String}

/-- A point with a question mark is on the left spine of a node: it is the point of an access, or of one
further left, through what accesses are on and what is called. -/
inductive HasSafePoint (f : Forest) : NodeId → Prop
  | point {id : NodeId} {access : Access} (hd : f.data (some id) = .access access)
    (hpoint : f.kind? (some access.operator) = some (.token .questionDot)) : HasSafePoint f id
  | access {id : NodeId} {access : Access} (hd : f.data (some id) = .access access)
    (h : HasSafePoint f access.expression) : HasSafePoint f id
  | call {id : NodeId} {call : Call} (hd : f.data (some id) = .call call)
    (h : HasSafePoint f call.callee) : HasSafePoint f id

/-- The links of a chain come one after another. -/
theorem Linked.chainTail?_lt (hf : f.Linked) {tail : NodeId} (h : f.chainTail? id = some tail) :
    tail < id := by
  apply hf.lt_of_mem_parts
  unfold chainTail? at h
  split at h
  · rename_i access hd
    rw [hd, ← Option.some.inj h]
    simp [NodeData.parts]
  · rename_i call hd
    rw [hd, ← Option.some.inj h]
    simp [NodeData.parts]
  · cases h

theorem Linked.isShortCircuited_eq (hf : f.Linked) (id : NodeId) : f.isShortCircuited id =
    (f.isNullSafeAccess id || (f.chainTail? id).any f.isShortCircuited) := by
  rw [isShortCircuited]
  cases htail : f.chainTail? id with
  | none => rfl
  | some tail =>
    dsimp only
    rw [dif_pos (hf.chainTail?_lt htail), Option.any_some]

theorem Linked.isNullSafe_iff (hf : f.Linked) {access : Access} (hd : f.data (some id) = .access access) :
    access.isNullSafe ↔ f.kind? (some access.operator) = some (.token .questionDot) := by
  rw [hf.kind?_operator hd]
  cases access.isNullSafe <;> simp

/-- The search along a chain finds the points with a question mark on the spine. -/
theorem Linked.isShortCircuited_iff (hf : f.Linked) (id : NodeId) :
    f.isShortCircuited id ↔ f.HasSafePoint id := by
  constructor
  · intro h
    induction id using Nat.strongRecOn with
    | ind id ih =>
      rw [hf.isShortCircuited_eq, Bool.or_eq_true, Option.any_eq_true] at h
      rcases h with h | ⟨tail, htail, h⟩
      · unfold isNullSafeAccess at h
        split at h
        · exact .point ‹_› ((hf.isNullSafe_iff ‹_›).mp h)
        · cases h
      · have hsafe := ih tail (hf.chainTail?_lt htail) h
        unfold chainTail? at htail
        split at htail
        · exact .access ‹_› (Option.some.inj htail ▸ hsafe)
        · exact .call ‹_› (Option.some.inj htail ▸ hsafe)
        · cases htail
  · intro h
    -- A link that is cut short makes the next one so.
    have hnext {id tail : NodeId} (htail : f.chainTail? id = some tail) :=
      isShortCircuited_of_chainTail? htail (hf.chainTail?_lt htail)
    induction h with
    | point hd hpoint =>
      apply isShortCircuited_of_isNullSafeAccess
      rw [isNullSafeAccess, hd]
      exact (hf.isNullSafe_iff hd).mpr hpoint
    | access hd _ ih => exact hnext (by rw [chainTail?, hd]) ih
    | call hd _ ih => exact hnext (by rw [chainTail?, hd]) ih

/-- What a leaf says is not looked at. -/
theorem Retold.isShortCircuited (hr : f.Retold g i leaf text) (hf : f.Linked) (id : NodeId) :
    g.isShortCircuited id = f.isShortCircuited id := by
  have hg : g.Linked := hr.linked hf
  induction id using Nat.strongRecOn with
  | ind id ih =>
    have hsame : g.isNullSafeAccess id = f.isNullSafeAccess id ∧
        g.chainTail? id = f.chainTail? id := by
      unfold isNullSafeAccess chainTail?
      by_cases hid : id = i
      · rw [hid, hr.data_eq, hr.data_self]
        exact ⟨rfl, rfl⟩
      · rw [hr.data_other hid]
        exact ⟨rfl, rfl⟩
    rw [hg.isShortCircuited_eq, hf.isShortCircuited_eq, hsame.1, hsame.2]
    cases htail : f.chainTail? id with
    | none => rfl
    | some tail => rw [Option.any_some, Option.any_some, ih tail (hf.chainTail?_lt htail)]

end Forest

namespace AttributedUnit

variable {source : String} {u : AttributedUnit}

/-- What is used in a file allows for the chains of its tree, however the file is renamed. -/
theorem OfSource.allows (hu : u.OfSource source) {place : Place} {id : NodeId} {use : NameUse}
    (huse : u.useAt? place id = some use) : use.node = id ∧ u.forest.Allows use := by
  -- Renaming changes names, not types, and leaves the chain as it is.
  induction hu generalizing use with
  | @attributed env fileName bound stops u h =>
    let p := ParsedUnit.ofSource fileName source
    let s : Setting := { forest := p.forest, env, unit := bound, stops }
    have hsound : s.forest.Sound source := ParsedUnit.ofSource_sound fileName source
    have hallows := (Setting.file_composed (s := s) hsound.linked p.root).uses {}
      fun _ hentry => absurd hentry (Array.not_mem_empty _)
    obtain ⟨-, rfl⟩ := eq_of_attributeUnit h
    generalize (Id.run ((s.file p.root).run {})).2 = st at hallows huse
    obtain ⟨hmem, hnode⟩ := mem_uses_of_useAt? huse
    exact ⟨hnode, (hallows _ hmem).2⟩
  | @renamed u u' node text of h ih =>
    have hwell := of.wellFormed
    obtain ⟨hknown, -, -⟩ := hwell.names_renameMember? h
    rw [hknown] at huse
    obtain ⟨before, hbefore, rfl⟩ := Option.map_eq_some_iff.mp huse
    obtain ⟨hnode, hallows⟩ := ih hbefore
    obtain ⟨token, leaf, forest, -, hr, rfl⟩ := exists_of_renameMember? h
    refine ⟨hnode, fun hmember => ?_⟩
    have hcut := hr.isShortCircuited hwell.linked before.node
    have hbefore := hallows hmember
    rw [← hcut] at hbefore
    exact ⟨hbefore.nullable, hbefore.declared⟩

/-- A member that is used where a question mark stands at a point on the left spine has a nullable or an
unknown type. Where none does and the type is that of a class, it has the nullability that is known of the
member. -/
theorem type_of_member_use (hu : u.OfSource source) {place : Place} {id : NodeId} {use : NameUse}
    (huse : u.useAt? place id = some use) (hmember : use.target.IsMember) :
    (u.forest.HasSafePoint id → use.type.isNullable ∨ use.type = .unknown) ∧
    (¬ u.forest.HasSafePoint id → ∀ name nullability, use.type = .named name nullability →
      nullability = use.target.nullability) := by
  obtain ⟨rfl, hallows⟩ := hu.allows huse
  rw [← hu.wellFormed.linked.isShortCircuited_iff]
  exact ⟨(hallows hmember).nullable, (hallows hmember).declared⟩

end AttributedUnit

/-- A member is used at an access, and the type of what it yields is known. -/
def Attribution.IsKnownUse (id : NodeId) (place : Place) (use : NameUse) : Prop :=
  place = .access ∧ use.node = id ∧ use.target.IsMember ∧ use.type ≠ .unknown

namespace Attribution.Setting

variable {s : Setting} {id x : NodeId} {st : State} {rec : Tasks}

/-- A literal has its type wherever it is. -/
theorem expression_literal {kind : TokenKind} {t : Ty} (hkind : s.forest.kind? (some x) = some (.token kind))
    (hliteral : s.forest.literalType? (some x) = some t) (hd : st.depth < maxDepth) :
    Id.run ((s.expression rec x).run st) = (t, { st with types := st.types.push (x, t) }) := by
  have hdepth : ¬ maxDepth ≤ st.depth := Nat.not_le_of_lt hd
  simp [expression, hkind, deeper, hdepth, tokenType, hliteral, recordType]

/-- So it is where a name stands after it. -/
theorem qualifier_literal {kind : TokenKind} {t : Ty}
    (hkind : s.forest.kind? (some x) = some (.token kind)) (hname : kind ≠ .identifier)
    (hliteral : s.forest.literalType? (some x) = some t) (hd : st.depth < maxDepth) :
    Id.run ((s.qualifier rec x).run st) = (.value t, { st with types := st.types.push (x, t) }) := by
  unfold qualifier
  rw [hkind]
  split
  · cases ‹some (Kind.token kind) = _›
  · rename_i h
    cases h
    exact absurd rfl hname
  · change ((Qualifier.value (Id.run ((s.expression rec x).run st)).1),
      (Id.run ((s.expression rec x).run st)).2) = _
    rw [expression_literal hkind hliteral hd]

/-- A field that a class itself declares is found first. -/
theorem instanceMember?_own {name owner : String} {info : ClassInfo} {m : Member}
    (hinfo : s.env.classInfo? owner = some info) (hkind : info.kind ≠ .interface)
    (hmembers : info.membersNamed name = [m]) (hstatic : m.isStatic = false) (hfield : m.kind = .field) :
    s.instanceMember? (.of owner) name .value = some m := by
  have hpassed : isPassedOver s.env .value owner = false := by
    simp [isPassedOver, hinfo, hkind]
  have hnamed : s.env.membersNamed (.of owner) name = [m] := by
    simp [Environment.membersNamed, Environment.classOf?, Ty.of, Ty.name?, hinfo, hmembers]
  have hfirst : (declaredMembers s.env (.of owner) name .value).head? = some m := by
    change (((owner :: s.env.supertypesAbove (.of owner)).filter
      fun owner => !isPassedOver s.env .value owner).flatMap _).head? = _
    rw [List.filter_cons_of_pos (by simp [hpassed]), List.flatMap_cons, hnamed]
    simp [hstatic, hfield, Purpose.fits]
  change ((declaredMembers s.env (.of owner) name .value).head?.or _) = _
  rw [hfirst, Option.some_or]

/-- A safe access on a literal is used for the field that the class of the literal declares. -/
theorem accessUse_comesToUse {n : Nat} {access : Access} {kind : TokenKind} {t : Ty} {m : Member}
    (hd : s.forest.data (some id) = .access access) (haccess : s.forest.accessKind id = .nullSafe)
    (hkind : s.forest.kind? (some access.expression) = some (.token kind))
    (hname : kind ≠ .identifier)
    (hliteral : s.forest.literalType? (some access.expression) = some t)
    (hnonempty : s.forest.nameText access.name ≠ "") (hdepth : st.depth < maxDepth)
    (hknown : t ≠ .unknown) {type : String} (htype : m.type = .of type)
    (hm : s.instanceMember? t (s.forest.nameText access.name) .value = some m) :
    ComesToUse (IsKnownUse id) st (s.accessUse (s.tasks (n + 1)) id .value) := by
  -- The literal's type is known, so the member is looked for on it.
  have hmeaning : s.memberMeaning (.value t) (s.forest.nameText access.name) .value = .member m := by
    cases t <;> simp_all [memberMeaning, valueMemberMeaning, Ty.isUnknown]
  have hrun : Id.run ((s.accessMeaning (s.tasks (n + 1)) id access .value).run st) =
      (.member m, { st with types := st.types.push (access.expression, t) }) := by
    unfold accessMeaning
    rw [haccess]
    change (if s.forest.nameText access.name = "" then Meaning.indeterminate else s.memberMeaning
      (Id.run ((s.qualifier (s.tasks n) access.expression).run st)).1 (s.forest.nameText access.name) .value,
      (Id.run ((s.qualifier (s.tasks n) access.expression).run st)).2) = _
    rw [qualifier_literal hkind hname hliteral hdepth, if_neg hnonempty, hmeaning]
  unfold accessUse
  rw [hd]
  refine ComesToUse.bind_run hrun ⟨_, _, Array.mem_push_self, rfl, rfl, ⟨?_, rfl⟩, ?_⟩
  · change SymbolKind.ofMember m.kind = _ ∨ SymbolKind.ofMember m.kind = _ ∨ _
    cases m.kind <;> simp [SymbolKind.ofMember]
  · simp [haccess, typeAt, htype, Qualifier.type, Ty.of, Ty.isUnknown, Ty.nullable,
      Ty.withNullability]

end Attribution.Setting

namespace AttributedUnit

/-- A field of truth values that is never missing. -/
def certainty : Member :=
  { name := "b", kind := .field, type := .of "kotlin.Int", owner := Ty.booleanName }

/-- Truth values with nothing but this field. -/
def truthValue : ClassInfo :=
  { name := Ty.booleanName, package := "kotlin", kind := .plainClass, origin := .library,
    members := [certainty] }

def truthValues : Environment :=
  { classes := (∅ : Std.HashMap String ClassInfo).insert Ty.booleanName truthValue }

/-- A property with the value of a safe access. -/
def safeAccess : ParsedUnit := ParsedUnit.ofSource "a.kt" "val x = true?.b"

theorem safeAccess_forest : safeAccess.root = 9 ∧ safeAccess.forest.size = 9 + 1 ∧
    safeAccess.forest.data (some 9) = .sourceFile
      { fileName := "a.kt", package := none, imports := #[], declarations := #[7], endOfFile := 8 } ∧
    (safeAccess.forest.kind? (some 7) = some (.node .propertyDeclaration) ∧
      safeAccess.forest.data (some 7) = .property
        { modifiers := [], isVar := false, receiverType := none, name := some 1,
          typeRef := none, initializer := some 6 }) ∧
    (safeAccess.forest.kind? (some 6) = some (.node .propertyAccessExpression) ∧
      safeAccess.forest.data (some 6) = .access
        { expression := 3, operator := 4, name := some 5, isNullSafe := true } ∧
      safeAccess.forest.accessKind 6 = .nullSafe) ∧
    safeAccess.forest.kind? (some 4) = some (.token .questionDot) ∧
    safeAccess.forest.kind? (some 3) = some (.token .trueKeyword) ∧
    safeAccess.forest.literalType? (some 3) = some (.of Ty.booleanName) ∧
    safeAccess.forest.saysName 5 "b" = true := by
  decide +kernel

theorem safeAccess_sound : safeAccess.forest.Sound "val x = true?.b" :=
  ParsedUnit.ofSource_sound "a.kt" "val x = true?.b"

/-- Where truth values have their field, the access is one to the field. -/
theorem safeAccess_comesToUse {s : Setting} (hforest : s.forest = safeAccess.forest)
    (henv : s.env = truthValues) (hstops : s.stops 0 = false) :
    ComesToUse (IsKnownUse 6) {} (s.file safeAccess.root) := by
  obtain ⟨hroot, hsize, hfile, ⟨hkind, hdata⟩, ⟨haccess, hd, hsafe⟩, -, hliteral, htype, hsays⟩ :=
    safeAccess_forest
  have hspelled : safeAccess.forest.Spelled := ParsedUnit.ofSource_spelled "a.kt" "val x = true?.b"
  have hname : safeAccess.forest.nameText (some 5) = "b" := hspelled.nameText hsays
  have hlinked : s.forest.Linked := by
    rw [hforest]
    exact safeAccess_sound.linked
  -- The parse is known for one forest; the setting has the same one.
  rw [← hforest] at hsize hfile hkind hdata haccess hd hsafe
  rw [← hforest] at hliteral htype hname
  have hinfo : s.env.classInfo? Ty.booleanName = some truthValue := by
    rw [henv]
    exact Std.HashMap.getElem?_insert_self
  have hmember : s.instanceMember? (.of Ty.booleanName) (s.forest.nameText (some 5)) .value =
      some certainty := by
    rw [hname]
    exact Setting.instanceMember?_own hinfo (by decide) rfl rfl rfl
  have hnonempty : s.forest.nameText (some 5) ≠ "" := by
    rw [hname]
    decide
  -- Within the expression, the member is found on the literal's type, so its use is known.
  have hexpression (names : List String) :
      ComesToUse (IsKnownUse 6) { polls := 1, typeParameters := names }
        (s.expression (s.tasks 9) 6) := by
    apply Setting.expression_access_comesToUse haccess (show 0 < maxDepth by decide)
    exact Setting.accessUse_comesToUse hd hsafe hliteral (by decide) htype hnonempty
      (show 1 < maxDepth by decide) (by decide) rfl hmember
  have hproperty : s.forest.IsProperty 7 _ 1 := ⟨hkind, hdata, rfl⟩
  have hfirst : ComesToUse (IsKnownUse 6) { polls := 1 }
      (s.declaration (s.tasks (9 + 1)) (.named s.unit.facade) 7) :=
    Setting.property_comesToUse hlinked hproperty rfl rfl rfl hexpression
  rw [← hsize] at hfirst
  rw [hroot]
  exact Setting.file_comesToUse hlinked hfile rfl rfl hstops hfirst

/-- The field of a truth value is never missing, and is nullable after a safe access all the same. -/
theorem type_of_member_use_point : ∃ (u : AttributedUnit) (use : NameUse),
    u.OfSource "val x = true?.b" ∧ u.useAt? .access 6 = some use ∧ use.target.IsMember ∧
      u.forest.HasSafePoint 6 ∧ use.type.isNullable := by
  obtain ⟨-, -, -, -, ⟨-, hd, -⟩, hpoint, -⟩ := safeAccess_forest
  have hlinked := safeAccess_sound.linked
  obtain ⟨u, hu⟩ := attributeUnit_ok truthValues hlinked default (fun _ => false) fun _ => rfl
  have hof : u.OfSource "val x = true?.b" := OfSource.attributed hu
  obtain ⟨s, hs⟩ : ∃ s : Setting, s =
      { forest := safeAccess.forest, env := truthValues, unit := default, stops := fun _ => false } :=
    ⟨_, rfl⟩
  have hforest : s.forest = safeAccess.forest := by rw [hs]
  have henv : s.env = truthValues := by rw [hs]
  have hstops : s.stops 0 = false := by rw [hs]
  -- The use is found in the state of the whole file, and each name is used once, so it is the one at
  -- the node.
  obtain ⟨_, use, hmem, rfl, hnode, hmember, hknown⟩ := safeAccess_comesToUse hforest henv hstops
  have hunit : u = (Id.run ((s.file safeAccess.root).run {})).2.toFindings.unit safeAccess := by
    obtain ⟨-, h⟩ := eq_of_attributeUnit hu
    rw [h, hs]
  have hsafe : u.forest.HasSafePoint 6 := by
    rw [(tree_of_attributeUnit hu).1]
    exact .point hd hpoint
  have hsound : s.forest.Sound "val x = true?.b" := by
    rw [hforest]
    exact safeAccess_sound
  obtain ⟨honce, -⟩ := (Setting.file_once hsound safeAccess.root).of_run.pairwise
  have huse : u.useAt? .access 6 = some use := by
    rw [hunit]
    exact hnode ▸ useAt?_of_mem honce hmem
  obtain ⟨hnullable, -⟩ := type_of_member_use hof huse hmember
  exact ⟨u, use, hof, huse, hmember, hsafe, (hnullable hsafe).resolve_right hknown⟩

end AttributedUnit

end KotlinTree
