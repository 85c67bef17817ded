import KotlinTree.Attribution.Declaration
import KotlinTree.Proofs.Attribution.Report.Name
import KotlinTree.Proofs.Binding.Surroundings

/-!
What declarations report if their parts report it: parameters, functions, properties, classes, and source
that is kept as it is. Types are looked at in the surroundings that the declarations around them make.
-/

namespace KotlinTree.Attribution.Setting

variable {s : Setting} {rec : Tasks} {d : Diagnostic}

theorem block_reports (h : rec.Proceed) (id : NodeId) :
    Reports d (fun c => ∃ statements, s.forest.data (some id) = .block statements ∧
      ∃ x ∈ statements, Finds d (rec (.statement x)) c) (s.block rec id) := by
  unfold block
  split
  · rename_i statements hd
    refine ((Reports.inScope _ (.through (fun _ x _ => (h.statement (some x)).self) _)).bind_first fun _ =>
      (Reports.recordType _ _).bind_first fun _ => .pure _).mono ?_
    rintro c ⟨_, hd', x, hx, hc⟩
    cases hd.symm.trans hd'
    exact ⟨x, Array.mem_toList_iff.mpr hx, hc⟩
  · rename_i hd
    exact (Reports.pure _).mono fun c ⟨statements, h, _⟩ => hd statements h

theorem parameter_reports (h : rec.Proceed) (property : Option Owner) (id : NodeId) :
    Reports d (fun c => ∃ p, s.forest.data (some id) = .parameter p ∧
      ((∃ x ∈ p.typeRef, Finds d (s.typeUse (some x)) c) ∨ ∃ x ∈ p.defaultValue, rec.Finds d x c))
      (s.parameter rec property id) := by
  unfold parameter
  split
  · rename_i parameter hd
    have hrecord (t : Ty) : Quiet d (do recordType id t; return t) :=
      (Reports.recordType id t).bind_first fun _ => .pure t
    refine ((typeUse_reports _).bind fun written => (h.typeOf _).bind_first fun _ =>
      (Reports.declareLocal _ _).bind_first fun _ => .ite (fun _ =>
        (Reports.recordVariable _).bind_first fun _ => hrecord _) fun _ => hrecord _).mono ?_
    rintro c ⟨p, hp, hc⟩
    cases hd.symm.trans hp
    exact hc
  · rename_i hd
    refine (Reports.pure _).mono ?_
    rintro c ⟨p, h, -⟩
    exact hd p h

theorem parameters_reports (h : rec.Proceed) (property : Option Owner) (ids : Array NodeId) :
    Reports d (fun c => ∃ x ∈ ids, Finds d (s.parameter rec property x) c)
      (s.parameters rec property ids) :=
  (Reports.forM fun x _ => (parameter_reports h property x).self.bind_first fun _ => .pure _).mono
    fun _ hc => by simpa using hc

theorem body_reports (h : rec.Proceed) (declaration : FunctionDeclaration) :
    Reports d (fun c => ∃ x ∈ declaration.body,
      if declaration.isExpressionBody then rec.Finds d x c else Finds d (s.block rec x) c)
      (s.body rec declaration) := by
  unfold body
  cases declaration.body with
  | none => exact (Reports.pure _).mono fun _ ⟨_, h, _⟩ => absurd h (Option.not_mem_none _)
  | some id =>
    cases declaration.isExpressionBody with
    | false =>
      refine ((block_reports h id).self.bind_first fun _ => .pure _).mono fun c ⟨x, hx, hc⟩ => ?_
      cases hx
      exact hc
    | true => exact (h.typeOf (some id)).mono fun c hc => hc

theorem delegation_reports (h : rec.Proceed) (id : NodeId) (body : Option NodeId) :
    Reports d (fun c => s.forest.kind? (some id) = some (.node .secondaryConstructor) ∧
      ∃ x ∈ s.childrenOf (some id) .callExpression, some x ≠ body ∧ rec.Finds d x c)
      (s.delegation rec id body) := by
  refine Reports.ite (fun hk => (h.types _).mono ?_) fun hk => (Reports.pure _).mono ?_
  · rintro c ⟨-, x, hx, hbody, hc⟩
    exact ⟨x, List.mem_filter.mpr ⟨hx, by simpa using hbody⟩, hc⟩
  · exact fun c hc => hk hc.1

/-- Some part of a function finds something, where the surroundings are those inside the function. -/
def FunctionFinds (s : Setting) (rec : Tasks) (d : Diagnostic) (id : NodeId) (f : FunctionDeclaration)
    (inside : Around) : Prop :=
  (∃ x ∈ f.receiverType, Finds d (s.typeUse (some x)) inside) ∨
    (∃ x ∈ f.returnType, Finds d (s.typeUse (some x)) inside) ∨
    Finds d (s.parameters rec none f.parameters) inside ∨
    Finds d (s.delegation rec id f.body) inside ∨ Finds d (s.body rec f) inside

theorem function_reports (h : rec.Proceed) (owner : Owner) (id : NodeId) :
    Reports d (fun c => ∃ f, s.forest.data (some id) = .function f ∧ s.FunctionFinds rec d id f
      (c.withTypeParameters (s.forest.typeParameterNames f.typeParameters))) (s.function rec owner id) := by
  unfold function
  split
  · rename_i f hd
    refine Reports.mono (R := fun c => s.FunctionFinds rec d id f
      (c.withTypeParameters (s.forest.typeParameterNames f.typeParameters)))
      (.withTypeParameters ((typeUse?_reports _).bind fun receiver =>
        (typeUse?_reports _).bind fun result => ?_)) ?_
    · extract_lets rest
      -- What follows is the same, whether the function has been declared in a block before or not.
      have hrest (u : Unit) : Reports d (fun c => Finds d (s.parameters rec none f.parameters) c ∨
          Finds d (s.delegation rec id f.body) c ∨ Finds d (s.body rec f) c) (rest u) := by
        refine (Reports.inScope _ ((parameters_reports h none _).self.bind fun _ => .inFrame ?_
          ((delegation_reports h id _).self.bind fun _ => (body_reports h f).self))).bind_first
            fun value => ?_
        · intro frame hframe
          obtain ⟨type, -, rfl⟩ := Option.map_eq_some_iff.mp hframe
          rfl
        split
        · split
          · exact .declare _
          · split
            · split
              · exact .learn _ _ _
              · exact .pure _
            · exact .pure _
        · exact .pure _
      split
      · exact (Reports.declare _).bind_second hrest
      · exact hrest ()
    · rintro c ⟨f', hf, hc⟩
      cases hd.symm.trans hf
      exact hc
  · rename_i hd
    exact (Reports.pure _).mono fun c ⟨f, h, _⟩ => hd f h

theorem accessor_reports (h : rec.Proceed) (type : Ty) (id : NodeId) :
    Reports d (fun c => ∃ f, s.forest.data (some id) = .function f ∧
      ((∃ x ∈ f.parameters, Finds d (s.parameter rec none x) c) ∨
        (∃ x ∈ f.returnType, Finds d (s.typeUse (some x)) c) ∨ Finds d (s.body rec f) c))
      (s.accessor rec type id) := by
  unfold accessor
  split
  · rename_i f hd
    refine (Reports.inScope _ ((Reports.declareLocal _ _).bind_second fun _ =>
      .bind (.forM fun x _ => (parameter_reports h none x).self.bind_first fun t => ?_) fun _ =>
        (typeUse_reports _).bind fun _ => (body_reports h f).self.bind_first fun _ => .pure _)).mono ?_
    · split
      · split
        · exact .declareLocal _ _
        · exact .pure _
      · exact .pure _
    · rintro c ⟨f', hf, hc⟩
      cases hd.symm.trans hf
      simpa using hc
  · rename_i hd
    exact (Reports.pure _).mono fun c ⟨f, h, _⟩ => hd f h

theorem destructuring_quiet (id : NodeId) : Quiet d (s.destructuring id) :=
  (Reports.forM fun _ _ => (Reports.declareLocal _ _).bind_first fun _ => .recordVariable _).quiet

theorem declareProperty_quiet (owner : Owner) (isWritten : Bool) (name : String) (type : Ty)
    (node : NodeId) : Quiet d (declareProperty owner isWritten name type node) := by
  unfold declareProperty
  split
  · split
    · exact (Reports.learn _ _ _).bind_first fun _ => .recordVariable _
    · exact .recordVariable _
  · exact .recordVariable _
  · exact (Reports.declareLocal _ _).bind_first fun _ => .recordVariable _

/-- Some part of a property finds something, where the surroundings are those inside the property. -/
def PropertyFinds (s : Setting) (rec : Tasks) (d : Diagnostic) (id : NodeId) (p : PropertyDeclaration)
    (inside : Around) : Prop :=
  (∃ x ∈ p.receiverType, Finds d (s.typeUse (some x)) inside) ∨
    (∃ x ∈ p.typeRef, Finds d (s.typeUse (some x)) inside) ∨
    (∃ x ∈ p.initializer, rec.Finds d x inside) ∨
    (∃ x ∈ s.nodeAfter? id .byKeyword, rec.Finds d x inside) ∨
    ∃ x ∈ s.childrenOf (some id) .propertyAccessor, ∀ type, Finds d (s.accessor rec type x) inside

theorem property_reports (h : rec.Proceed) (owner : Owner) (id : NodeId) :
    Reports d (fun c => ∃ p, s.forest.data (some id) = .property p ∧ s.PropertyFinds rec d id p
      (c.withTypeParameters (s.forest.propertyTypeParameters id))) (s.property rec owner id) := by
  unfold property
  split
  · rename_i p hd
    refine Reports.mono (R := fun c => s.PropertyFinds rec d id p
      (c.withTypeParameters (s.forest.propertyTypeParameters id)))
      (.withTypeParameters ((typeUse?_reports _).bind fun receiver =>
        (typeUse?_reports _).bind fun written => ?_)) ?_
    · refine (Reports.inFrame ?_ ((h.typeOf _).bind fun initial => (h.typeOf _).bind fun _ =>
        Reports.bind_first (.forM fun x _ => ?_) fun _ => .pure _)).bind_first fun type => ?_
      · intro frame hframe
        obtain ⟨type, -, rfl⟩ := Option.map_eq_some_iff.mp hframe
        rfl
      · exact ((accessor_reports h _ x).self).mono fun c hc => hc _
      -- What is declared at the end reports nothing.
      · split
        · exact declareProperty_quiet _ _ _ _ _
        · exact destructuring_quiet _
    · rintro c ⟨p', hp, hc⟩
      cases hd.symm.trans hp
      exact hc
  · rename_i hd
    refine (Reports.pure _).mono ?_
    rintro c ⟨p, h, -⟩
    exact hd p h

theorem supertype_reports (h : rec.Proceed) (id : NodeId) :
    Reports d (fun c => ∃ e, s.forest.data (some id) = .supertypeEntry e ∧
      (Finds d (s.typeUse (some e.typeRef)) c ∨
        Finds d ((s.childrenOf e.arguments .valueArgument).forM (s.argument rec)) c ∨
        ∃ x ∈ s.nodeAfter? id .byKeyword, rec.Finds d x c)) (s.supertype rec id) := by
  unfold supertype
  split
  · rename_i e hd
    refine ((typeUse_reports _).self.bind fun _ => (Reports.forM fun x _ => argument_reports h x).self.bind
      fun _ => (h.typeOf _).bind_first fun _ => .pure _).mono ?_
    rintro c ⟨e', he, hc⟩
    cases hd.symm.trans he
    exact hc
  · rename_i hd
    exact (Reports.pure _).mono fun c ⟨e, h, _⟩ => hd e h

theorem members_reports (h : rec.Proceed) (owner : Owner) (scope : LocalScope) (ids : Array NodeId) :
    Reports d (fun c => ∃ x ∈ ids, Finds d (rec (.declaration owner x)) c)
      (s.members rec owner scope ids) := by
  refine (Reports.through (fun _ x _ => ?_) _).mono fun c hc => by simpa using hc
  split
  · exact .inScope _ (h _ d).self
  · exact .inScope _ (h _ d).self
  · exact (h _ d).self

/-- Some part of a class finds something, where the surroundings are those inside the class. -/
def ClassFinds (s : Setting) (rec : Tasks) (d : Diagnostic) (x : ClassDeclaration) (inside : Around) : Prop :=
  (∃ parameters, s.forest.data x.primaryConstructor = .primaryConstructor parameters ∧
      ∀ owner, Finds d (s.parameters rec owner parameters) inside) ∨
    (∃ y ∈ x.supertypes.toList, Finds d (s.supertype rec y) inside) ∨
    ∀ owner scope, Finds d (s.members rec owner scope (s.forest.classMembers x.body))
      (inside.onClass (x.name.map fun name => s.forest.nameText (some name)))

theorem classUse_reports (h : rec.Proceed) (id : NodeId) :
    Reports d (fun c => ∃ x, s.forest.data (some id) = .classDeclaration x ∧ s.ClassFinds rec d x
      ((c.withTypeParameters (s.forest.typeParameterNames x.typeParameters)).inClass
        (s.unit.classNames.lookup id))) (s.classUse rec id) := by
  unfold classUse
  split
  · rename_i x hd
    extract_lets name owner rest
    refine Reports.mono (R := fun c => s.ClassFinds rec d x
      ((c.withTypeParameters (s.forest.typeParameterNames x.typeParameters)).inClass name))
      (.withTypeParameters (R := fun c => s.ClassFinds rec d x (c.inClass name))
        (.inClass (R := s.ClassFinds rec d x) ?_)) ?_
    · refine (Reports.pushScope _).bind_second fun _ => ?_
      -- Supertypes are looked at inside the class but outside its members, which have it as a receiver.
      have hrest (u : Unit) : Reports d (fun c =>
          (∃ y ∈ x.supertypes.toList, Finds d (s.supertype rec y) c) ∨
            ∀ owner scope, Finds d (s.members rec owner scope (s.forest.classMembers x.body))
              (c.onClass (x.name.map fun name => s.forest.nameText (some name)))) (rest u) := by
        refine .bind (.mapM fun y _ => (supertype_reports h y).self) fun supertypes =>
          Reports.popScope.bind_second fun scope => ?_
        have hmembers : Reports d _ (s.members rec owner scope (s.forest.classMembers x.body)) :=
          (members_reports h owner scope _).self
        exact ((Reports.inClassFrame rfl hmembers).bind_first fun _ => .pure _).mono
          fun c hc => hc owner scope
      split
      · rename_i parameters hparameters
        refine ((parameters_reports h (some owner) parameters).self.bind hrest).mono fun c hc => ?_
        refine hc.imp_left ?_
        rintro ⟨parameters', h, hfinds⟩
        cases hparameters.symm.trans h
        exact hfinds (some owner)
      · rename_i hnone
        refine (hrest ()).mono fun c hc => hc.resolve_left ?_
        rintro ⟨parameters, h, -⟩
        exact hnone parameters h
    · rintro c ⟨x', hx, hc⟩
      cases hd.symm.trans hx
      exact hc
  · rename_i hd
    refine (Reports.pure _).mono ?_
    rintro c ⟨x, h, -⟩
    exact hd x h

theorem keptSource_quiet (h : rec.Proceed) (id : NodeId) : Quiet d (s.keptSource rec id) := by
  refine (Reports.forM (R := fun _ _ => False) fun child _ => ?_).quiet
  split
  iterate 4 exact h _ d
  · exact (typeUse_reports _).quiet.bind_first fun _ => .pure _
  · exact (h.typeOf _).quiet.bind_first fun _ => .pure _
  · exact .pure _

theorem declaration_reports (h : rec.Proceed) (owner : Owner) (id : NodeId) :
    Reports d (fun c => s.forest.IsClass id ∧ Finds d (s.classUse rec id) c ∨
      (s.forest.kind? (some id) = some (.node .functionDeclaration) ∨
        s.forest.kind? (some id) = some (.node .secondaryConstructor)) ∧
        Finds d (s.function rec owner id) c ∨
      s.forest.kind? (some id) = some (.node .propertyDeclaration) ∧
        Finds d (s.property rec owner id) c ∨
      s.forest.kind? (some id) = some (.node .anonymousInitializer) ∧
        ∃ x ∈ s.childrenOf (some id) .block, Finds d (s.block rec x) c) (s.declaration rec owner id) := by
  unfold declaration Forest.IsClass
  split
  -- Classes and objects; functions and secondary constructors.
  iterate 2
    · rename_i hk
      refine ((classUse_reports h id).self.bind_first fun _ => .pure _).mono ?_
      simp [hk]
  iterate 2
    · rename_i hk
      refine (function_reports h owner id).self.mono ?_
      simp [hk]
  · rename_i hk
    refine (property_reports h owner id).self.mono ?_
    simp [hk]
  · rename_i hk
    refine (Reports.forM fun x _ => (block_reports h x).self.bind_first fun _ => .pure _).mono ?_
    simp [hk]
  · rename_i hk
    refine (keptSource_quiet h id).mono ?_
    simp [hk]
  · refine (Reports.pure _).mono ?_
    simp_all

end KotlinTree.Attribution.Setting
