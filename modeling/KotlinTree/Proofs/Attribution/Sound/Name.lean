import KotlinTree.Attribution.Call
import KotlinTree.Attribution.Meaning
import KotlinTree.Proofs.Attribution.Keeps

/-!
Written types, names, accesses, imports and calls leave what is known sound, and yield types among the
same names of classes.
-/

namespace KotlinTree.Attribution

/-- What a part of a file yields has types among some names of classes. -/
def Task.Yields (names : String → Prop) : (task : Task) → task.Result → Prop
  | .expression _, t | .statement _, t => Ty.Within names t
  | .qualifier _, q => (Qualifier.type q).Within names
  | .declaration .., _ => True

/-- All parts of a node leave what is known sound. -/
def Tasks.Sound (s : Setting) (names : String → Prop) (rec : Tasks) : Prop :=
  ∀ task : Task, Keeps s names (rec task) (task.Yields names)

namespace Tasks.Sound

variable {s : Setting} {names : String → Prop} {rec : Tasks}

/-- Where an expression is missing, its type is unknown, which is within any names. -/
theorem typeOf (h : rec.Sound s names) (id : Option NodeId) :
    Keeps s names (rec.typeOf id) (Ty.Within names) := by
  cases id with
  | none => exact .pure Ty.within_unknown
  | some id => exact h (.expression id)

/-- Where a statement is missing, so is its type. -/
theorem statement (h : rec.Sound s names) (id : Option NodeId) :
    Keeps s names (rec.statement id) (Ty.Within names) := by
  cases id with
  | none => exact .pure Ty.within_unknown
  | some id => exact h (.statement id)

/-- What stands before a dot is attributed soundly. -/
theorem qualifierOf (h : rec.Sound s names) (id : NodeId) :
    Keeps s names (rec.qualifierOf id) fun q => q.type.Within names :=
  h (.qualifier id)

/-- A declaration is attributed soundly, and yields nothing. -/
theorem declaration (h : rec.Sound s names) (owner : Owner) (id : NodeId) :
    Keeps s names (rec.declaration owner id) fun _ => True :=
  h (.declaration owner id)

/-- A walk over expressions is sound as each of them is, and yields nothing. -/
theorem types (h : rec.Sound s names) (ids : List NodeId) :
    Keeps s names (rec.types ids) fun _ => True :=
  .forM fun id _ => (h.typeOf (some id)).discard

end Tasks.Sound

namespace Setting

variable {s : Setting} {names : String → Prop}

/-- A local variable or a local function has the type that its scope has noted. -/
theorem fits_localMeaning? {st : State} (hst : st.Sound s names) {name : String} {p : Purpose}
    {meaning : Meaning} (h : localMeaning? st name p = some meaning) :
    s.Fits names name meaning := by
  rcases Option.or_eq_some_iff.mp h with hfunction | ⟨-, hvalue⟩
  · obtain ⟨count, -, hfunction⟩ := Option.bind_eq_some_iff.mp hfunction
    obtain ⟨t, ht, rfl⟩ := Option.map_eq_some_iff.mp hfunction
    obtain ⟨scope, hscope, hlookup⟩ := List.exists_of_findSome?_eq_some ht
    exact (hst.scopes scope hscope).functions name t (mem_of_lookup hlookup)
  · obtain ⟨t, ht, rfl⟩ := Option.map_eq_some_iff.mp hvalue
    obtain ⟨scope, hscope, hlookup⟩ := List.exists_of_findSome?_eq_some ht
    exact (hst.scopes scope hscope).values name t (mem_of_lookup hlookup)

/-- What a simple name can mean is a local, a class, a member or a package, each of them within the
names. -/
theorem Closed.fits_nameMeaning (hc : s.Closed names) {st : State} (hst : st.Sound s names)
    (name : String) (p : Purpose) : s.Fits names name (s.nameMeaning st name p) := by
  unfold nameMeaning
  split
  · trivial
  split
  · rename_i meaning hlocal
    exact fits_localMeaning? hst hlocal
  split
  · rename_i m hm
    exact hc.fits_of_offers (offers_of_receiverMember hm)
  · trivial
  · cases ho : s.outerMeaning? st.enclosing name p with
    | none => trivial
    | some meaning => exact hc.fits_outerMeaning? ho

/-- What a name means by itself is a class of a closed environment. -/
theorem Closed.fits_absoluteMeaning (hc : s.Closed names) (name : String) :
    s.Fits names name (s.absoluteMeaning name) := by
  unfold absoluteMeaning
  split
  · rename_i hclass
    exact Ty.within_of (hc.hasClass name hclass)
  split <;> trivial

/-- A name of a class stands for its companion, and both are within the names. -/
theorem Closed.valueType_within (hc : s.Closed names) {q : Qualifier} (hq : q.type.Within names) :
    (q.valueType s.env).Within names := by
  cases q with
  | value t => exact hq
  | package name => exact Ty.within_unknown
  | classType t =>
    change (if isSingleton s.env t then t else (s.env.companionOf? t).getD t).Within names
    split
    · exact hq
    · exact Ty.within_getD (fun c hcompanion => hc.companion t c hcompanion) hq

/-- The type of a member where it is used is that of its declaration, or what has been learned of it. -/
theorem memberUse_within {st : State} (hst : st.Sound s names) {m : Member}
    (hm : m.type.Within names) : (memberUse s.env st m).1.Within names ∧
      (memberUse s.env st m).2.1.declared.Within names := by
  have hdeclared : (if m.type.isUnknown then (st.inferred[(m.owner, m.name)]?).getD m.type
      else m.type).Within names := by
    split
    · exact Ty.within_getD (fun t ht => hst.inferred _ t ht) hm
    · exact hm
  exact ⟨hdeclared.withNullability _, hdeclared⟩

/-- What is recorded of a name fits, if its meaning does. -/
theorem interpret_fits {st : State} (hst : st.Sound s names) (node : NodeId) (access : AccessKind)
    {name : String} {meaning : Meaning} (h : s.Fits names name meaning) :
    (s.interpret st node access meaning).1.type.Within names ∧
      ∀ type isPlatform, type.Within names → s.FitsUse names
        { node, name, access, type, target := (s.interpret st node access meaning).2.1,
          isPlatform } := by
  have hat (t : Ty) (ht : t.Within names) : (s.typeAt node access t).Within names := by
    unfold typeAt
    split
    · exact ht.nullable
    · exact ht
  cases meaning with
  | package name' =>
    refine ⟨Ty.within_unknown, fun type isPlatform ht => ⟨ht, Ty.within_unknown, ?_⟩⟩
    rintro (hkind | hkind) <;> cases hkind
  | classType t =>
    refine ⟨h, fun type isPlatform ht => ⟨ht, h, ?_⟩⟩
    rintro (hkind | hkind) <;> cases hkind
  | member m =>
    obtain ⟨htype, hfinds⟩ := h
    obtain ⟨huse, hdeclared⟩ := memberUse_within hst htype
    refine ⟨hat _ huse, fun type isPlatform ht => ⟨ht, hdeclared, fun hkind o ho => ?_⟩⟩
    rcases hfinds with hconstructor | hfinds
    · -- A constructor is recorded as such.
      have hsymbol : SymbolKind.ofMember m.kind = .field ∨ SymbolKind.ofMember m.kind = .method :=
        hkind
      rw [hconstructor] at hsymbol
      rcases hsymbol with hsymbol | hsymbol <;> cases hsymbol
    · exact ⟨m, hfinds, Option.some.inj ho, rfl⟩
  | localVariable t =>
    refine ⟨h, fun type isPlatform ht => ⟨ht, h, ?_⟩⟩
    rintro (hkind | hkind) <;> cases hkind
  | localFunction t =>
    refine ⟨h, fun type isPlatform ht => ⟨ht, h, fun _ o ho => ?_⟩⟩
    cases ho
  | indeterminate =>
    refine ⟨Ty.within_unknown, fun type isPlatform ht => ⟨ht, Ty.within_unknown, ?_⟩⟩
    rintro (hkind | hkind) <;> cases hkind
  | unresolved failure =>
    refine ⟨Ty.within_unknown, fun type isPlatform ht => ⟨ht, Ty.within_unknown, ?_⟩⟩
    rintro (hkind | hkind) <;> cases hkind

/-- What is recorded for a use has the type of what is meant, which fits. -/
theorem record_keeps (place : Place) (node : NodeId) (token : Option NodeId) (access : AccessKind)
    {meaning : Meaning} (h : s.Fits names (s.forest.nameText token) meaning) :
    Keeps s names (s.record place node token access meaning) fun q => q.type.Within names := by
  unfold record
  extract_lets rest
  -- What is recorded does not depend on whether a failure has been reported before.
  have hrest (u : Unit) : Keeps s names (rest u) fun q => q.type.Within names := by
    refine .get_bind fun st hst => ?_
    obtain ⟨htype, huse⟩ := interpret_fits hst node access h
    refine (Keeps.recordType node htype).seq ?_
    exact (Keeps.recordUse place (huse _ _ htype)).seq (.pure htype)
  split
  · exact (Keeps.report _ _).bind fun u _ => hrest u
  · exact hrest ()

/-- A name that is its own token is recorded in the same way. -/
theorem recordName_keeps {id : NodeId} {meaning : Meaning}
    (h : s.Fits names (s.forest.nameText (some id)) meaning) :
    Keeps s names (s.recordName id meaning) fun q => q.type.Within names :=
  record_keeps .reference id (some id) .plain h

/-- A simple name is used with the meaning that it has in the state. -/
theorem nameUse_keeps (hc : s.Closed names) (id : NodeId) :
    Keeps s names (s.nameUse id) fun q => q.type.Within names :=
  .get_bind fun _ hst => recordName_keeps (hc.fits_nameMeaning hst _ _)

/-- A written type names a class that the binder knows, or nothing. -/
theorem Closed.writtenType_within (hc : s.Closed names) (st : State) (id : NodeId) :
    (s.writtenType st id).Within names := by
  intro name hname
  rcases FileScope.isClass_or_any_of_resolveType hname with hclass | rfl
  · exact hc.hasClass name hclass
  · exact hc.any

/-- The type that is recorded for a reference is the one that is written. -/
theorem recordWrittenType_keeps (hc : s.Closed names) (id : NodeId) :
    Keeps s names (s.recordWrittenType id) (Ty.Within names) := by
  unfold recordWrittenType
  refine .get_bind fun st _ => ?_
  have ht := hc.writtenType_within st id
  have hrecord : Keeps s names (do recordType id (s.writtenType st id); return s.writtenType st id)
      (Ty.Within names) := (Keeps.recordType id ht).seq (.pure ht)
  dsimp only
  split
  · split
    · exact (Keeps.report _ _).seq hrecord
    · exact hrecord
  · exact hrecord

/-- Where a type reference is missing, its type is unknown. -/
theorem typeUse_keeps (hc : s.Closed names) (id : Option NodeId) :
    Keeps s names (s.typeUse id) (Ty.Within names) := by
  unfold typeUse
  split
  · exact .pure Ty.within_unknown
  · refine (recordWrittenType_keeps hc _).bind fun t ht => ?_
    exact (Keeps.forM fun x _ => (recordWrittenType_keeps hc x).discard).seq (.pure ht)

/-- Where a type reference is missing, no type is yielded. -/
theorem typeUse?_keeps (hc : s.Closed names) (id : Option NodeId) :
    Keeps s names (s.typeUse? id) fun t? => ∀ t, t? = some t → t.Within names := by
  unfold typeUse?
  split
  · exact .pure fun t ht => nomatch ht
  · exact (typeUse_keeps hc _).bind fun t ht => .pure fun t' h => Option.some.inj h ▸ ht

/-- A frame that is found is among those that are known to be sound. -/
theorem frame_within {st : State} (hst : st.Sound s names) {label : Option String} {isClass : Bool}
    {frame : Frame} (h : st.frame? label isClass = some frame) : frame.Within names :=
  hst.frames frame (List.mem_of_find?_eq_some h)

/-- A receiver that is missing is reported, and its type is unknown. -/
theorem missingReceiver_keeps (id : NodeId) (keyword : String) :
    Keeps s names (s.missingReceiver id keyword) fun _ => True :=
  (Keeps.report _ _).seq (.recordType id Ty.within_unknown)

/-- The receiver's type is that of a frame. -/
theorem thisType?_keeps (id : NodeId) :
    Keeps s names (s.thisType? id) fun t? => ∀ t, t? = some t → t.Within names := by
  unfold thisType?
  refine .get_bind fun st hst => ?_
  split
  · rename_i frame hframe
    have ht := (frame_within hst hframe).type
    exact (Keeps.recordType id ht).seq (.pure fun t h => Option.some.inj h ▸ ht)
  · exact (missingReceiver_keeps id _).seq (.pure fun t h => nomatch h)

/-- The type is the one that is written, or the superclass that a frame has been given. -/
theorem superType?_keeps (hc : s.Closed names) (id : NodeId) :
    Keeps s names (s.superType? id) fun t? => ∀ t, t? = some t → t.Within names := by
  unfold superType?
  refine .get_bind fun st hst => ?_
  split
  · rename_i frame hframe
    refine (typeUse?_keeps hc _).bind fun written hwritten => ?_
    have ht : (written.getD frame.superclass).Within names :=
      Ty.within_getD hwritten (frame_within hst hframe).superclass
    exact (Keeps.recordType id ht).seq (.pure fun t h => Option.some.inj h ▸ ht)
  · exact (missingReceiver_keeps id _).seq (.pure fun t h => nomatch h)

variable {rec : Tasks}

/-- An access means a member of what it is on, which has been attributed soundly. -/
theorem accessMeaning_keeps (h : rec.Sound s names) (hc : s.Closed names) (id : NodeId)
    (access : Access) (p : Purpose) :
    Keeps s names (s.accessMeaning rec id access p)
      (s.Fits names (s.forest.nameText access.name)) := by
  -- A missing name has no meaning yet.
  have hon {meaning : Meaning} (hm : s.Fits names (s.forest.nameText access.name) meaning) :
      s.Fits names (s.forest.nameText access.name)
        (if s.forest.nameText access.name = "" then .indeterminate else meaning) := by
    split
    · trivial
    · exact hm
  unfold accessMeaning
  dsimp only
  split
  · refine (thisType?_keeps _).bind fun t _ => ?_
    cases t with
    | none => exact .pure trivial
    | some t => exact .pure (hon (hc.fits_valueMemberMeaning t))
  · refine (superType?_keeps hc _).bind fun t _ => ?_
    cases t with
    | none => exact .pure trivial
    | some t => exact .pure (hc.fits_superMemberMeaning t)
  · exact (h.qualifierOf _).bind fun q _ => .pure (hon (hc.fits_memberMeaning q))
  · exact (h.qualifierOf _).bind fun q _ => .pure (hon (hc.fits_memberMeaning q))

/-- An access is recorded with what it means. -/
theorem accessUse_keeps (h : rec.Sound s names) (hc : s.Closed names) (id : NodeId) (p : Purpose) :
    Keeps s names (s.accessUse rec id p) fun q => q.type.Within names := by
  unfold accessUse
  split
  · rename_i access _
    exact (accessMeaning_keeps h hc id access p).bind fun meaning hm =>
      record_keeps .access id access.name _ hm
  · exact .pure Ty.within_unknown

/-- An import's path means a class, a member of one, or packages. -/
theorem importPath_keeps (hc : s.Closed names) (id : NodeId) :
    Keeps s names (s.importPath id) fun q => q.type.Within names := by
  induction id using Nat.strongRecOn with
  | ind id ih =>
    rw [importPath]
    split
    · exact recordName_keeps (hc.fits_absoluteMeaning _)
    split
    · rename_i access _
      split
      · rename_i hlt
        exact (ih _ hlt).bind fun q _ =>
          record_keeps .access id access.name .plain (hc.fits_memberMeaning q)
      · exact .pure Ty.within_unknown
    · exact .pure Ty.within_unknown

/-- An import is sound as its path is; that it means nothing is only reported. -/
theorem importUse_keeps (hc : s.Closed names) (id : NodeId) :
    Keeps s names (s.importUse id) fun _ => True := by
  unfold importUse
  split
  · split
    · exact (importPath_keeps hc _).discard
    · exact .pure trivial
  · exact .pure trivial

/-- An argument is attributed soundly, whatever its name. -/
theorem argument_keeps (h : rec.Sound s names) (id : NodeId) :
    Keeps s names (s.argument rec id) fun _ => True := by
  unfold argument
  split
  · exact (h.typeOf _).bind fun t ht => .recordType id ht
  · exact .pure trivial
  · exact (h.typeOf (some id)).discard

/-- A callee that is a name or an access yields the type of what it means, any other nothing known. -/
theorem calleeType_keeps (h : rec.Sound s names) (hc : s.Closed names) (callee : NodeId)
    (count : Nat) : Keeps s names (s.calleeType rec callee count) (Ty.Within names) := by
  unfold calleeType
  split
  · refine .get_bind fun st hst => ?_
    exact (recordName_keeps (hc.fits_nameMeaning hst _ _)).bind fun q hq =>
      .pure (hc.valueType_within hq)
  · exact (accessUse_keeps h hc callee _).bind fun q hq => .pure (hc.valueType_within hq)
  · exact (h.typeOf (some callee)).seq (.pure Ty.within_unknown)

/-- A call has the type that its callee yields; arguments and lambdas yield none. -/
theorem call_keeps (h : rec.Sound s names) (hc : s.Closed names) (call : Call) :
    Keeps s names (s.call rec call) (Ty.Within names) := by
  unfold Setting.call
  refine (calleeType_keeps h hc _ _).bind fun t ht => ?_
  refine (Keeps.forM fun x _ => argument_keeps h x).seq ?_
  exact (h.typeOf _).seq (.pure ht)

/-- The call behind an operator has the type of the member that is found. -/
theorem impliedCallType_keeps (hc : s.Closed names) (receiver : Ty) (method : String)
    (count : Nat) : Keeps s names (s.impliedCallType receiver method count) (Ty.Within names) := by
  unfold impliedCallType
  split
  · rename_i m hm
    have htype := hc.type_of_offers (offers_of_instanceMember? hm)
    exact .get_bind fun st hst => .pure (memberUse_within hst htype).1
  · exact .pure Ty.within_unknown

/-- A call written between its operands has the type of the member that is named. -/
theorem infixCall_keeps (h : rec.Sound s names) (hc : s.Closed names) (binary : BinaryExpression) :
    Keeps s names (s.infixCall rec binary) (Ty.Within names) := by
  unfold infixCall
  refine (h.typeOf _).bind fun receiver _ => ?_
  refine (recordName_keeps (hc.fits_valueMemberMeaning receiver)).bind fun q hq => ?_
  exact (h.typeOf _).seq (.pure (hc.valueType_within hq))

/-- An operator has a type of its own, or that of the member that it stands for. -/
theorem operatorCall_keeps (h : rec.Sound s names) (hc : s.Closed names)
    (binary : BinaryExpression) :
    Keeps s names (s.operatorCall rec binary) (Ty.Within names) := by
  unfold operatorCall
  refine (h.typeOf _).bind fun receiver _ => ?_
  refine (h.typeOf _).seq ?_
  split
  · exact impliedCallType_keeps hc _ _ _
  · exact .pure Ty.within_unknown

/-- Indices after a value have the type of the member that they call. -/
theorem indexing_keeps (h : rec.Sound s names) (hc : s.Closed names) (id : NodeId) :
    Keeps s names (s.indexing rec id) (Ty.Within names) := by
  unfold indexing
  split
  · exact .pure Ty.within_unknown
  · refine (h.typeOf _).bind fun t _ => ?_
    exact (h.types _).seq (impliedCallType_keeps hc t _ _)

/-- A callable reference yields nothing. -/
theorem callableReference_keeps (h : rec.Sound s names) (hc : s.Closed names)
    (reference : CallableReference) :
    Keeps s names (s.callableReference rec reference) fun _ => True := by
  unfold callableReference
  split
  · rename_i receiver name _ _
    split
    · refine (h.qualifierOf receiver).bind fun q _ => ?_
      split
      · rename_i m hm
        have hfits : s.Fits names (s.forest.nameText (some name)) (.member m) := by
          rw [← hm]
          exact hc.fits_memberMeaning q
        exact (recordName_keeps hfits).discard
      · exact .pure trivial
    · exact .pure trivial
  · exact .pure trivial

end Setting

end KotlinTree.Attribution
