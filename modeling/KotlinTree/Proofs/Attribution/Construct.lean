import KotlinTree.Proofs.Attribution.Elvis
import KotlinTree.Proofs.Attribution.Offer
import KotlinTree.Proofs.Binding.Typed

/-!
Calls of constructors. Main statement: where a class is called by its name, alone, imported or after
packages and classes around it, the call yields the class. Only what is declared of the constructor, or
that the class is one of the platform, leaves it open whether the value can be missing.
-/

namespace KotlinTree

/-- What is handed over in a call, a lambda after it included. -/
def Call.count (call : Call) : Nat := call.arguments.size + call.trailingLambda.toList.length

namespace Environment

variable {env : Environment} {name : String} {m : Member}

/-- The constructors that a class declares yield the class. -/
def ConstructsItself (env : Environment) (name : String) : Prop :=
  ∀ m ∈ env.membersNamed (.of name) constructorName, m.kind = .constructor →
    m.type = .of name ∧ m.owner = name

theorem Consistent.constructsItself (h : env.Consistent) (hyields : env.HasOnly Member.YieldsOwner)
    (name : String) : env.ConstructsItself name := by
  intro m hm hkind
  have htype : m.type = .of m.owner := hyields _ m (has_of_mem_membersNamed hm) hkind
  obtain ⟨owner, info, hname, hi, hmem⟩ := exists_of_mem_membersNamed hm
  have howner : m.owner = owner := (h.classes owner info hi).owner m (List.mem_filter.mp hmem).1
  obtain rfl : name = owner := Option.some.inj hname
  exact ⟨howner ▸ htype, howner⟩

/-- It is said of a constructor that it yields nothing that can be missing; or nothing is said of it, and
its class is no class of the platform. -/
def YieldsNotNull (env : Environment) (name : String) (m : Member) : Prop :=
  m.annotated = some .notNull ∨ m.annotated = none ∧ env.ownerOrigin? name ≠ some .platform

theorem nullabilityOf_eq_notNull_iff (htype : m.type = .of name) (howner : m.owner = name) :
    env.nullabilityOf m = .notNull ↔ env.YieldsNotNull name m := by
  unfold nullabilityOf YieldsNotNull
  cases hm : m.annotated with
  | some n => simp
  | none =>
    by_cases h : env.ownerOrigin? name = some .platform <;>
      simp [h, htype, howner, Ty.of, Ty.nullability]

end Environment

namespace Attribution
open Environment

/-- The constructor that a class is called by yields the class, whether it is declared or not. -/
theorem constructorOf_itself {env : Environment} {name : String} (h : env.ConstructsItself name)
    (count : Nat) : (constructorOf env (.of name) count).type = .of name ∧
      (constructorOf env (.of name) count).owner = name := by
  unfold constructorOf
  dsimp only
  cases ho : overload? ((env.membersNamed (.of name) constructorName).filter
      fun m => m.kind = .constructor) count with
  | none => exact ⟨rfl, rfl⟩
  | some m =>
    obtain ⟨hm, hkind⟩ := List.mem_filter.mp (mem_of_overload? ho)
    exact h m hm (of_decide_eq_true hkind)

theorem memberUse_constructorOf {env : Environment} {name : String} (h : env.ConstructsItself name)
    (st : State) (count : Nat) : (memberUse env st (constructorOf env (.of name) count)).1 =
      .named name (env.nullabilityOf (constructorOf env (.of name) count)) := by
  have htype := (constructorOf_itself h count).1
  -- What kind of constructor it is makes no difference any more.
  generalize constructorOf env (.of name) count = m at htype ⊢
  have hknown : m.type.isUnknown = false := by
    rw [htype]
    rfl
  simp only [memberUse, hknown, Bool.false_eq_true, if_false]
  change m.type.withNullability (env.nullabilityOf m) = _
  rw [htype]
  rfl

/-- What a name stands for that can be gone on from with the name of a class. -/
def Meaning.qualifier? : Meaning → Option Qualifier
  | .package name => some (.package name)
  | .classType t => some (.classType t)
  | _ => none

/-- What a class is called that has some name in a package or in another class. -/
def Qualifier.inside? (q : Qualifier) (name : String) : Option String :=
  match q with
  | .package outer => some (inPackage outer name)
  | .classType t => t.name?.map fun outer => outer ++ "$" ++ name
  | .value _ => none

namespace Setting

variable {s : Setting} {rec : Tasks} {id callee : NodeId} {st : State} {q : Qualifier} {name : String}
  {count n : Nat} {meaning : Meaning} {place : Place} {access : AccessKind} {token : Option NodeId}

/-- A chain stands for a package or for a class where it is gone through: its first name does, and so does
each one after it. -/
inductive Qualifies (s : Setting) : State → NodeId → Qualifier → Prop
  | name {st : State} {id : NodeId} {q : Qualifier}
    (hkind : s.forest.kind? (some id) = some (.token .identifier)) (hdepth : st.depth < maxDepth)
    (h : (s.nameMeaning st (s.forest.nameText (some id)) .value).qualifier? = some q) :
    s.Qualifies st id q
  | member {st : State} {id : NodeId} {access : Access} {outer q : Qualifier}
    (hkind : s.forest.kind? (some id) = some (.node .propertyAccessExpression))
    (hdata : s.forest.data (some id) = .access access) (haccess : s.forest.accessKind id = .plain)
    (hdepth : st.depth < maxDepth)
    (houter : s.Qualifies { st with depth := st.depth + 1 } access.expression outer)
    (hname : s.forest.nameText access.name ≠ "")
    (h : (s.memberMeaning outer (s.forest.nameText access.name) .value).qualifier? = some q) :
    s.Qualifies st id q

/-- A bare name is called that nothing has which comes before classes. -/
structure IsOuterCall (s : Setting) (st : State) (name : String) (count : Nat) : Prop where
  nonempty : name ≠ ""
  notLocal : localMeaning? st name (.call count) = none
  notMember : s.receiverMember name (.call count) true false st.frames = .absent
  notTopLevel : topLevelMember? s.env s.unit.scope.package name (.call count) = none

/-- What is called with some arguments is a class: by a name that is imported, by one that stands alone, or
by one after a package or after a class around it. -/
inductive CallsClass (s : Setting) (st : State) (count : Nat) (name : String) : NodeId → Prop
  | imported {callee : NodeId} {path : String}
    (hkind : s.forest.kind? (some callee) = some (.token .identifier))
    (houter : s.IsOuterCall st (s.forest.nameText (some callee)) count)
    (hpath : s.unit.scope.importPath? (s.forest.nameText (some callee)) = some path)
    (hclass : qualifiedToClass? path s.env.hasClass = some name) : s.CallsClass st count name callee
  | bare {callee : NodeId}
    (hkind : s.forest.kind? (some callee) = some (.token .identifier))
    (houter : s.IsOuterCall st (s.forest.nameText (some callee)) count)
    (himported : s.importedMeaning? (s.forest.nameText (some callee)) (.call count) = none)
    (hclass : s.unit.scope.resolveSimple? (s.forest.nameText (some callee)) st.enclosing
      s.env.hasClass = some name) : s.CallsClass st count name callee
  | after {callee : NodeId} {access : Access} {outer : Qualifier}
    (hkind : s.forest.kind? (some callee) = some (.node .propertyAccessExpression))
    (hdata : s.forest.data (some callee) = .access access) (haccess : s.forest.accessKind callee = .plain)
    (hname : s.forest.nameText access.name ≠ "") (houter : s.Qualifies st access.expression outer)
    (hinside : outer.inside? (s.forest.nameText access.name) = some name)
    (hclass : s.env.hasClass name) : s.CallsClass st count name callee

/-- What is recorded of a name is what the name means there; its type is what is found out last. -/
theorem record_run (s : Setting) (place : Place) (node : NodeId) (token : Option NodeId)
    (access : AccessKind) (meaning : Meaning) (st : State) :
    ∃ st' : State, (Id.run ((s.record place node token access meaning).run st)).1 =
        (s.interpret st' node access meaning).1 ∧
      (Id.run ((s.record place node token access meaning).run st)).2.lastType node =
        (s.interpret st' node access meaning).1.type := by
  refine ⟨st, ?_⟩
  cases meaning with
  | unresolved failure => exact ⟨rfl, Findings.about_push_self _ node _⟩
  | _ => exact ⟨rfl, Findings.about_push_self st.toFindings node _⟩

/-- A member is used with its type at the node. -/
theorem record_member_comesToUse (s : Setting) (st : State) (place : Place) (node : NodeId)
    (token : Option NodeId) (m : Member) :
    ComesToUse (UsedAs node (s.interpret st node .plain (.member m)).1.type) st
      (s.record place node token .plain (.member m)) :=
  ⟨place, _, Array.mem_push_self, rfl, rfl⟩

theorem record_qualifier (h : meaning.qualifier? = some q) (node : NodeId) (st : State) :
    (Id.run ((s.record place node token access meaning).run st)).1 = q := by
  obtain ⟨st', hrun, -⟩ := record_run s place node token access meaning st
  rw [hrun]
  cases meaning with
  | package _ | classType _ => exact Option.some.inj h
  | _ => cases h

/-- The name after a qualifier is looked up on what the qualifier stands for. -/
theorem accessUse_run {access : Access} {p : Purpose} (hdata : s.forest.data (some id) = .access access)
    (haccess : s.forest.accessKind id = .plain) (hname : s.forest.nameText access.name ≠ "")
    (houter : (Id.run ((rec.qualifierOf access.expression).run st)).1 = q) :
    ∃ st' : State, Id.run ((s.accessUse rec id p).run st) =
      Id.run ((s.record .access id access.name .plain
        (s.memberMeaning q (s.forest.nameText access.name) p)).run st') := by
  refine ⟨(Id.run ((rec.qualifierOf access.expression).run st)).2, ?_⟩
  unfold accessUse accessMeaning
  rw [hdata]
  dsimp only
  rw [haccess]
  change Id.run ((s.record .access id access.name .plain
    (if s.forest.nameText access.name = "" then .indeterminate
      else s.memberMeaning (Id.run ((rec.qualifierOf access.expression).run st)).1
        (s.forest.nameText access.name) p)).run _) = _
  rw [houter, if_neg hname]
  rfl

/-- A chain that stands for a package or a class is found to do so. -/
theorem qualifier_run (hf : s.forest.Linked) (h : s.Qualifies st id q) (hn : id ≤ n) :
    (Id.run (((s.tasks (n + 1)).qualifierOf id).run st)).1 = q := by
  change (Id.run ((s.qualifier (s.tasks n) id).run st)).1 = q
  -- Along the chain: what is before a name lies further down in the tree, and one deeper.
  induction h generalizing n with
  | @name st id q hkind hdepth h =>
    have hdeep : ¬ maxDepth ≤ st.depth := Nat.not_le_of_lt hdepth
    have hrun : (Id.run ((s.nameUse id).run { st with depth := st.depth + 1 })).1 = q :=
      record_qualifier h id _
    simpa [qualifier, hkind, deeper, hdeep] using hrun
  | @member st id access outer q hkind hdata haccess hdepth _ hname h ih =>
    have hdeep : ¬ maxDepth ≤ st.depth := Nat.not_le_of_lt hdepth
    have hlt : access.expression < id := hf.lt_of_mem_parts (by simp [hdata, NodeData.parts])
    obtain ⟨k, rfl⟩ := Nat.exists_eq_add_of_lt (lt_of_lt_of_le hlt hn)
    have houter : (Id.run (((s.tasks (access.expression + k + 1)).qualifierOf access.expression).run
        { st with depth := st.depth + 1 })).1 = outer := ih (Nat.le_add_right _ k)
    obtain ⟨st', hst'⟩ := accessUse_run hdata haccess hname houter
    have hrun := (congrArg Prod.fst hst').trans (record_qualifier h id st')
    simpa [qualifier, hkind, deeper, hdeep] using hrun

/-- A bare name that is called comes to the constructor of the class that it names. -/
theorem IsOuterCall.nameMeaning (h : s.IsOuterCall st name count)
    (hclass : s.outerMeaning? st.enclosing name (.call count) = some meaning) :
    s.nameMeaning st name (.call count) = meaning := by
  rw [Setting.nameMeaning, if_neg h.nonempty, h.notLocal]
  dsimp only
  rw [h.notMember]
  dsimp only
  rw [hclass, Option.getD_some]

theorem outerMeaning?_of_imported (h : s.IsOuterCall st name count) {path found : String}
    (hpath : s.unit.scope.importPath? name = some path)
    (hclass : qualifiedToClass? path s.env.hasClass = some found) :
    s.outerMeaning? st.enclosing name (.call count) =
      some (.member (constructorOf s.env (.of found) count)) := by
  rw [outerMeaning?, h.notTopLevel, importedMeaning?, hpath, Option.bind_some, hclass]
  rfl

theorem outerMeaning?_of_bare (h : s.IsOuterCall st name count) {found : String}
    (himported : s.importedMeaning? name (.call count) = none)
    (hclass : s.unit.scope.resolveSimple? name st.enclosing s.env.hasClass = some found) :
    s.outerMeaning? st.enclosing name (.call count) =
      some (.member (constructorOf s.env (.of found) count)) := by
  rw [outerMeaning?, h.notTopLevel, himported, hclass]
  rfl

theorem memberMeaning_of_class {simple : String} (h : q.inside? simple = some name)
    (hclass : s.env.hasClass name) : s.memberMeaning q simple (.call count) =
      .member (constructorOf s.env (.of name) count) := by
  cases q with
  | package package =>
    rw [memberMeaning, packageMemberMeaning, Option.some.inj h, if_pos hclass]
    rfl
  | classType t =>
    obtain ⟨outer, ht, hname⟩ := Option.map_eq_some_iff.mp h
    rw [memberMeaning, classMemberMeaning, ht]
    dsimp only
    rw [hname, if_pos hclass]
    rfl
  | value t => cases h

/-- What is called as a class comes to a constructor of the class. -/
theorem calleeType_eq_record (hf : s.forest.Linked) (h : s.CallsClass st count name callee)
    (hn : callee ≤ n) : ∃ (place : Place) (token : Option NodeId) (st' : State),
    Id.run ((s.calleeType (s.tasks n) callee count).run st) =
      let r := Id.run ((s.record place callee token .plain
        (.member (constructorOf s.env (.of name) count))).run st')
      (r.1.valueType s.env, r.2) := by
  -- However the class is named, what is recorded for the callee is its constructor.
  cases h with
  | imported hkind houter hpath hclass =>
    refine ⟨.reference, some callee, st, ?_⟩
    rw [← houter.nameMeaning (outerMeaning?_of_imported houter hpath hclass), calleeType, hkind]
    rfl
  | bare hkind houter himported hclass =>
    refine ⟨.reference, some callee, st, ?_⟩
    rw [← houter.nameMeaning (outerMeaning?_of_bare houter himported hclass), calleeType, hkind]
    rfl
  | @after access outer hkind hdata haccess hname houter hinside hclass =>
    have hlt : access.expression < callee := hf.lt_of_mem_parts (by simp [hdata, NodeData.parts])
    obtain ⟨k, rfl⟩ := Nat.exists_eq_add_of_lt (lt_of_lt_of_le hlt hn)
    obtain ⟨st', hst'⟩ := accessUse_run (p := .call count) hdata haccess hname
      (qualifier_run hf houter (Nat.le_add_right _ k))
    refine ⟨.access, access.name, st', ?_⟩
    rw [← memberMeaning_of_class hinside hclass, ← hst', calleeType, hkind]
    rfl

/-- A constructor stands for a value of its class. -/
theorem interpret_constructorOf (hown : s.env.ConstructsItself name)
    (hcut : s.forest.isShortCircuited id = false) (st : State) (count : Nat) :
    (s.interpret st id .plain (.member (constructorOf s.env (.of name) count))).1 =
      .value (.named name (s.env.nullabilityOf (constructorOf s.env (.of name) count))) := by
  change Qualifier.value (s.typeAt id .plain (memberUse s.env st _).1) = _
  rw [memberUse_constructorOf hown, typeAt, hcut]
  rfl

/-- So it has the type of the class. -/
theorem calleeType_run (hf : s.forest.Linked) (h : s.CallsClass st count name callee) (hn : callee ≤ n)
    (hown : s.env.ConstructsItself name) (hcut : s.forest.isShortCircuited callee = false) :
    let t := Ty.named name (s.env.nullabilityOf (constructorOf s.env (.of name) count))
    (Id.run ((s.calleeType (s.tasks n) callee count).run st)).1 = t ∧
      (Id.run ((s.calleeType (s.tasks n) callee count).run st)).2.lastType callee = t := by
  obtain ⟨place, token, st', hrun⟩ := calleeType_eq_record hf h hn
  obtain ⟨last, hfirst, hlast⟩ := record_run s place callee token .plain
    (.member (constructorOf s.env (.of name) count)) st'
  rw [interpret_constructorOf hown hcut] at hfirst hlast
  rw [hrun]
  exact ⟨congrArg (·.valueType s.env) hfirst, hlast⟩

/-- And so it is used. -/
theorem calleeType_comesToUse (hf : s.forest.Linked) (h : s.CallsClass st count name callee)
    (hn : callee ≤ n) (hown : s.env.ConstructsItself name)
    (hcut : s.forest.isShortCircuited callee = false) :
    ComesToUse (UsedAs callee (.named name (s.env.nullabilityOf (constructorOf s.env (.of name) count))))
      st (s.calleeType (s.tasks n) callee count) := by
  obtain ⟨place, token, st', hrun⟩ := calleeType_eq_record hf h hn
  obtain ⟨found, use, hmem, hnode, htype⟩ := record_member_comesToUse s st' place callee token
    (constructorOf s.env (.of name) count)
  rw [interpret_constructorOf hown hcut] at htype
  refine ⟨found, use, ?_, hnode, htype⟩
  rw [hrun]
  exact hmem

/-- What comes after the callee leaves it as it is. -/
theorem call_run (hf : s.forest.Linked) {call : Call} (hdata : s.forest.data (some id) = .call call)
    (st : State) :
    let first := Id.run ((s.calleeType (s.tasks n) call.callee call.count).run st)
    (Id.run ((s.call (s.tasks n) call).run st)).1 = first.1 ∧
      (Id.run ((s.call (s.tasks n) call).run st)).2.lastType call.callee =
        first.2.lastType call.callee := by
  intro first
  have hrec := tasks_composed hf n
  -- The arguments and the lambda stand beside the callee, so that nothing in them is about it.
  let P : NodeId → Prop := fun y =>
    ∃ part ∈ call.argumentList.toList ++ call.trailingLambda.toList, s.forest.Inside part y
  have harguments : Composed s P (call.arguments.toList.forM (s.argument (s.tasks n))) := by
    refine .forM fun x hx => (argument_composed hrec hf x).mono fun y hy => ?_
    have hmem : x ∈ s.forest.children call.argumentList :=
      Array.mem_toList_iff.mp ((hf.held_subperm hdata).subset hx)
    cases hlist : call.argumentList with
    | none => simp [hlist, Forest.children, Forest.node?] at hmem
    | some list =>
      rw [hlist] at hmem
      exact ⟨list, by simp [hlist], (hf.inside_of_mem_children hmem).trans hy⟩
  have htrailing : Composed s P ((s.tasks n).typeOf call.trailingLambda) := by
    cases hlambda : call.trailingLambda with
    | none => exact .pure _
    | some lambda => exact (hrec (.expression lambda)).mono fun y hy => ⟨lambda, by simp [hlambda], hy⟩
  have hrest := harguments.seq (htrailing.seq (.pure first.1))
  refine ⟨rfl, Findings.lastType_of_about_eq (hrest.about_eq (?_) first.2)⟩
  rintro ⟨part, hpart, hin⟩
  have hparts : (NodeData.call call).direct =
      [] ++ call.callee :: (call.argumentList.toList ++ call.trailingLambda.toList) := rfl
  exact hf.not_inside_beside hdata hparts (s.forest.inside_self _) hpart hin

theorem expression_call {call : Call} (hkind : s.forest.kind? (some id) = some (.node .callExpression))
    (hdata : s.forest.data (some id) = .call call) (hdepth : st.depth < maxDepth) :
    Id.run ((s.expression rec id).run st) =
      let r := Id.run ((s.call rec call).run { st with depth := st.depth + 1 })
      (r.1, { r.2 with depth := r.2.depth - 1, types := r.2.types.push (id, r.1) }) := by
  have hdeep : ¬ maxDepth ≤ st.depth := Nat.not_le_of_lt hdepth
  simp [expression, hkind, deeper, hdeep, nodeType, hdata, recordType]

/-- A call of a class has the type of the class. -/
theorem expression_call_lastType (hf : s.forest.Linked) {call : Call}
    (hkind : s.forest.kind? (some id) = some (.node .callExpression))
    (hdata : s.forest.data (some id) = .call call) (hdepth : st.depth < maxDepth) (hn : id < n)
    (hcalls : s.CallsClass { st with depth := st.depth + 1 } call.count name call.callee)
    (hown : s.env.ConstructsItself name) (hsafe : ¬ s.forest.HasSafePoint id) {φ : Findings}
    (hφ : φ = (Id.run ((s.tasks n (.expression id)).run st)).2.toFindings) :
    let t := Ty.named name (s.env.nullabilityOf (constructorOf s.env (.of name) call.count))
    φ.lastType call.callee = t ∧ φ.lastType id = t := by
  intro t
  obtain ⟨k, rfl⟩ := Nat.exists_eq_add_of_lt hn
  have hlt : call.callee < id := hf.lt_of_mem_parts (by simp [hdata, NodeData.parts])
  -- A call is cut short where its callee is.
  have hcut : s.forest.isShortCircuited call.callee = false := Bool.eq_false_iff.mpr fun h =>
    hsafe (.call hdata ((hf.isShortCircuited_iff _).mp h))
  obtain ⟨htype, hcallee⟩ := call_run (n := id + k) hf hdata { st with depth := st.depth + 1 }
  obtain ⟨hfirst, hlast⟩ := calleeType_run hf hcalls (hlt.le.trans (Nat.le_add_right id k)) hown hcut
  rw [hfirst] at htype
  rw [hlast] at hcallee
  replace hφ : φ = (Id.run ((s.expression (s.tasks (id + k)) id).run st)).2.toFindings := hφ
  rw [expression_call hkind hdata hdepth] at hφ
  generalize Id.run ((s.call (s.tasks (id + k)) call).run { st with depth := st.depth + 1 }) = r
    at htype hcallee hφ
  replace hφ : φ = { r.2.toFindings with types := r.2.types.push (id, r.1) } := hφ
  rw [hφ]
  -- The callee comes before the call, so its type is still the last when the call's is recorded.
  constructor
  · have hkept := Findings.about_push_other (φ := r.2.toFindings) (Nat.ne_of_gt hlt) r.1
    exact (Findings.lastType_of_about_eq hkept).trans hcallee
  · exact (Findings.about_push_self r.2.toFindings id r.1).trans htype

/-- Where a class is called without a safe access on the way to it, and what its constructors are declared
to yield is the class, the call and what is called have the type of the class. It is not nullable exactly
where the constructor that is called is said to yield something, or where nothing is said of it and the class
is none of the platform. Binding leaves all classes such that their constructors yield them. -/
theorem classCall_lastType (s : Setting) :
    (∀ (before : Environment) (units : List ParsedUnit) (defaultImports : List String)
      (bound : List BoundUnit), before.Consistent → before.HasOnly Member.YieldsOwner →
      bindUnits before units defaultImports = .ok (s.env, bound) →
        ∀ name, s.env.ConstructsItself name) ∧
    (s.forest.Linked → ∀ (id : NodeId) (call : Call) (name : String) (n : Nat) (st : State)
      (φ : Findings), s.forest.kind? (some id) = some (.node .callExpression) →
      s.forest.data (some id) = .call call →
      s.CallsClass { st with depth := st.depth + 1 } call.count name call.callee →
      ¬ s.forest.HasSafePoint id → s.env.ConstructsItself name → st.depth < maxDepth → id < n →
      φ = (Id.run ((s.tasks n (.expression id)).run st)).2.toFindings →
        φ.lastType call.callee = φ.lastType id ∧
        φ.lastType id =
          .named name (s.env.nullabilityOf (constructorOf s.env (.of name) call.count)) ∧
        (φ.lastType id = .of name ↔
          s.env.YieldsNotNull name (constructorOf s.env (.of name) call.count))) := by
  refine ⟨fun before units defaultImports bound hbefore hyields hb => ?_, ?_⟩
  · exact (bindUnits_consistent hbefore hb).constructsItself (bindUnits_yieldsOwner hyields hb)
  · intro hf id call name n st φ hkind hdata hcalls hsafe hown hdepth hn hφ
    obtain ⟨hcallee, htype⟩ :=
      expression_call_lastType hf hkind hdata hdepth hn hcalls hown hsafe hφ
    refine ⟨hcallee.trans htype.symm, htype, ?_⟩
    obtain ⟨hclass, howner⟩ := constructorOf_itself hown call.count
    rw [htype, ← nullabilityOf_eq_notNull_iff hclass howner, Ty.of, Ty.named.injEq]
    simp

end Setting

end Attribution

open Attribution

/-- A property with a call of a class. -/
def callOfClass : ParsedUnit := ParsedUnit.ofSource "a.kt" "val x = C()"

/-- The call. -/
def callOfClassValue : Call where
  callee := 3
  typeArguments := #[]
  argumentList := some 6
  arguments := #[]
  trailingLambda := none

theorem callOfClass_forest : callOfClass.forest.kind? (some 7) = some (.node .callExpression) ∧
    callOfClass.forest.data (some 7) = .call callOfClassValue ∧
    callOfClass.forest.kind? (some 3) = some (.token .identifier) ∧
    callOfClass.forest.saysName 3 "C" = true := by
  decide +kernel

/-- The class, which declares nothing. -/
def calledClass : ClassInfo := { name := "C", package := "", kind := .plainClass, origin := .source }

/-- An environment with nothing but the class. -/
def calledClasses : Environment :=
  { classes := (∅ : Std.HashMap String ClassInfo).insert "C" calledClass }

theorem calledClasses_classInfo? : calledClasses.classInfo? "C" = some calledClass :=
  Std.HashMap.getElem?_insert_self

/-- The class is what is called, if no function of the file has its name. -/
theorem callOfClass_callsClass {s : Setting} {st : State} (hforest : s.forest = callOfClass.forest)
    (hpackage : s.unit.scope.package = "") (himports : s.unit.scope.explicitImports = [])
    (hinfo : s.env.classInfo? "C" = some calledClass)
    (htop : topLevelMember? s.env "" "C" (.call 0) = none) (hscopes : st.scopes = [])
    (hframes : st.frames = []) (henclosing : st.enclosing = []) : s.CallsClass st 0 "C" 3 := by
  obtain ⟨-, -, hkind, hsays⟩ := callOfClass_forest
  have hspelled : callOfClass.forest.Spelled := ParsedUnit.ofSource_spelled "a.kt" "val x = C()"
  have hname : callOfClass.forest.nameText (some 3) = "C" := hspelled.nameText hsays
  rw [← hforest] at hkind hname
  have hclass : s.env.hasClass "C" := Environment.isSome_classInfo?.mp (by rw [hinfo]; rfl)
  refine .bare hkind ?_ ?_ ?_ <;> rw [hname]
  · refine ⟨by decide, ?_, ?_, ?_⟩
    · rw [Setting.localMeaning?, State.localFunction?, State.local?, hscopes]
      rfl
    · rw [hframes, Setting.receiverMember, if_neg Bool.false_ne_true]
    · rw [hpackage]
      exact htop
  · rw [Setting.importedMeaning?, FileScope.importPath?, himports]
    rfl
  · simp [FileScope.resolveSimple?, FileScope.importPath?, FileScope.implicitPackages, hpackage,
      himports, inPackage, henclosing, hclass]

/-- The constructor of the class, which is not declared, yields the class. -/
theorem calledClass_yieldsNotNull {env : Environment} (hinfo : env.classInfo? "C" = some calledClass)
    (count : Nat) : env.ConstructsItself "C" ∧
      env.YieldsNotNull "C" (constructorOf env (.of "C") count) := by
  have hnone : env.membersNamed (.of "C") constructorName = [] := by
    simp [Environment.membersNamed, Environment.classOf?, hinfo, calledClass, Ty.of, Ty.name?,
      ClassInfo.membersNamed]
  refine ⟨?_, .inr ?_⟩
  · rw [Environment.ConstructsItself, hnone]
    exact fun m hm => absurd hm List.not_mem_nil
  · rw [constructorOf, hnone]
    refine ⟨rfl, ?_⟩
    rw [Environment.ownerOrigin?, hinfo]
    simp [calledClass]

theorem callOfClass_hasSafePoint {f : Forest} (hforest : f = callOfClass.forest) (hf : f.Linked) :
    ¬ f.HasSafePoint 7 := by
  obtain ⟨-, hdata, hkind, -⟩ := callOfClass_forest
  rw [← hforest] at hdata hkind
  obtain ⟨leaf, hleaf⟩ := hf.exists_leaf hkind
  intro h
  cases h with
  | point hd _ => cases hdata.symm.trans hd
  | access hd _ => cases hdata.symm.trans hd
  | call hd h =>
    cases hdata.symm.trans hd
    cases h with
    | point hd _ => cases hleaf.symm.trans hd
    | access hd _ => cases hleaf.symm.trans hd
    | call hd _ => cases hleaf.symm.trans hd

/-- The value of the property is one of the class; and whatever is bound over the built-in classes,
constructors yield their classes. -/
theorem callOfClass_lastType : (∃ s : Setting, s.forest = callOfClass.forest ∧
    (Id.run ((s.tasks 8 (.expression 7)).run {})).2.lastType 7 = .of "C") ∧
    ∀ (units : List ParsedUnit) (defaultImports : List String) (env : Environment)
      (bound : List BoundUnit), bindUnits Builtins.environment units defaultImports = .ok (env, bound) →
        ∀ name, env.ConstructsItself name := by
  refine ⟨?_, fun units defaultImports env bound hb => ?_⟩
  -- That every class constructs itself is known of all builders, so of the one that is empty.
  case refine_2 =>
    obtain ⟨hbinds, -⟩ := Setting.classCall_lastType { forest := {}, env, unit := default }
    exact hbinds _ units defaultImports bound Builtins.environment_consistent
      Builtins.environment_yieldsOwner hb
  -- The setting is named, as its fields are needed one by one and its forest is large.
  obtain ⟨s, hs⟩ : ∃ s : Setting, s =
      { forest := callOfClass.forest, env := calledClasses,
        unit := { fileName := "a.kt", scope := { defaultImports := [] }, facade := "AKt",
                  classNames := [] } } := ⟨_, rfl⟩
  have hforest : s.forest = callOfClass.forest := by rw [hs]
  have hpackage : s.unit.scope.package = "" := by rw [hs]
  have himports : s.unit.scope.explicitImports = [] := by rw [hs]
  have hinfo : s.env.classInfo? "C" = some calledClass := by rw [hs, calledClasses_classInfo?]
  have htop : topLevelMember? s.env "" "C" (.call 0) = none := by
    rw [hs]
    simp [topLevelMember?, Environment.topLevel, calledClasses, Purpose.selectLoosely?, overload?]
  have hlinked : s.forest.Linked := by
    rw [hforest]
    exact (ParsedUnit.ofSource_sound "a.kt" "val x = C()").linked
  obtain ⟨hkind, hdata, -⟩ := callOfClass_forest
  rw [← hforest] at hkind hdata
  -- The call is a use of the class, so its type is what the class yields, which is never null.
  obtain ⟨hown, hyields⟩ := calledClass_yieldsNotNull hinfo 0
  obtain ⟨-, hcalls⟩ := s.classCall_lastType
  obtain ⟨-, -, htype⟩ := hcalls hlinked 7 callOfClassValue "C" 8 {} _ hkind hdata
    (callOfClass_callsClass hforest hpackage himports hinfo htop rfl rfl rfl)
    (callOfClass_hasSafePoint hforest hlinked) hown (by decide) (by decide) rfl
  exact ⟨s, hforest, htype.mpr hyields⟩

end KotlinTree
