import KotlinTree.Grammar.Declaration
import KotlinTree.Proofs.Grammar.Shape.Type

/-!
Statements in braces, classes, functions and properties are shaped.
-/

namespace KotlinTree

namespace Forest

variable {F : Forest} {cs : Array NodeId} {slots : List (Option NodeId × Slot)} {slot : Slot} {id : NodeId}

/-- A slot for one child need not be told apart from one for any. -/
theorem Fills.of_any {ids : List NodeId} (h : F.Fills cs (slots ++ slot.each ids))
    (hany : Slot.any slot ∈ slots) : F.Fills cs slots := by
  intro c hc
  refine (h c hc).imp_right fun ⟨entry, hentry, hfor, hsuits⟩ => ?_
  rcases List.mem_append.mp hentry with hentry | hentry
  · exact ⟨entry, hentry, hfor, hsuits⟩
  · obtain ⟨i, -, rfl⟩ := List.mem_map.mp hentry
    exact ⟨_, hany, fun i hi => absurd hi (Option.not_mem_none i), hsuits⟩

/-- What stands after the first word for a delegate is one. -/
theorem Fills.delegate (h : F.Fills cs slots) (hs : ∀ entry ∈ slots, ∃ kinds, entry.2 = .of kinds)
    {word : NodeId} (hword : Grammar.IsToken F .byKeyword word) {o : Option NodeId}
    (ho : ∀ id ∈ o, F.Stands .code id) :
    F.Fills (Grammar.add (cs.push word) o) (Slot.any .typeless :: Slot.any .delegate :: slots) := by
  have hpushed : F.Fills (cs.push word) (Slot.any .typeless :: Slot.any .delegate :: slots) :=
    (h.mono (by simp)).typeless hword.typeless (by simp)
  cases o with
  | none => exact hpushed
  | some id =>
    refine hpushed.push_of ((ho id rfl).imp_right fun hcode => ?_)
    refine ⟨Slot.any .delegate, by simp, fun i hi => absurd hi (Option.not_mem_none i), hcode #[], ?_⟩
    refine ⟨cs.toList, word, [], by simp, hword.kind, fun b hb => ?_⟩
    exact h.noWord hs (Array.mem_toList_iff.mp hb)

/-- Where a list of some arguments stands, any list of arguments may. -/
theorem Stands.only_of_arguments {ids : List NodeId} (h : F.Stands (.arguments ids) id) :
    F.Stands (.only .valueArgumentList) id := h.imp_right fun h cs => (h cs).1

end Forest

namespace Grammar

variable {F : Forest} {R : Prop}

namespace Productions.Shape

variable {rec : Productions} {cs : Array NodeId} {slots : List (Option NodeId × Slot)}

/-- What the rule of declarations yields stands where a declaration does. -/
theorem declaration (h : rec.Shape F) :
    Shapes F R (rec .declaration) fun o => ∀ id ∈ o, F.Stands .declaration id :=
  (h .declaration).of_imp fun _ => trivial

/-- What the rule of statements yields stands where code does. -/
theorem statement (h : rec.Shape F) :
    Shapes F R (rec .statement) fun o => ∀ id ∈ o, F.Stands .code id :=
  (h .statement).of_imp fun _ => trivial

/-- Each step of a list of statements adds code, a separator or what is not understood. -/
theorem statementStep (h : rec.Shape F) (hany : Slot.any .typeless ∈ slots) (x : Array NodeId × Array NodeId) :
    Shapes F (F.Fills x.1 (slots ++ Slot.code.each x.2.toList)) (statementStep rec x) fun r =>
      F.Fills r.value.1 (slots ++ Slot.code.each r.value.2.toList) := by
  obtain ⟨children, statements⟩ := x
  refine .look fun k => ?_
  split
  iterate 2
    · exact .pure id
  · exact Shapes.bump.bind fun semicolon => .pure fun hr => hr.1.typeless hr.2 (List.mem_append_left _ hany)
  · refine h.statement.bind fun o => ?_
    have hpush {R : Prop} (id : NodeId) (hR : R → F.Fills children (slots ++ Slot.code.each statements.toList) ∧
        F.Stands .code id) : Shapes F R (pure (.more (children.push id, statements.push id)))
          fun r : Step (Array NodeId × Array NodeId) =>
            F.Fills r.value.1 (slots ++ Slot.code.each r.value.2.toList) :=
      .pure fun hr => by simpa [Slot.each, Step.value] using (hR hr).1.push (hR hr).2
    cases o with
    | none => exact Shapes.unknown.bind fun id => hpush id fun hr => ⟨hr.1.1, hr.2.stands⟩
    | some id =>
      refine .bind (Q := F.Stands .code) (.pure fun hr => hr.2 id rfl) fun id => ?_
      exact hpush id fun hr => ⟨hr.1.1, hr.2⟩

/-- A list of statements is code between separators. -/
theorem statementList (h : rec.Shape F) (hany : Slot.any .typeless ∈ slots) (hcs : R → F.Fills cs slots) :
    Shapes F R (statementList rec cs) fun r => F.Fills r.1 (slots ++ Slot.code.each r.2.toList) :=
  (Shapes.repeating (h.statementStep hany) (cs, #[])).of_imp fun hr => by simpa [Slot.each] using hcs hr

/-- A block has statements between its braces. -/
theorem block (h : rec.Shape F) : Shapes F R (block rec) (F.Stands (.only .block)) := by
  refine .look fun start => Shapes.bump.bind fun opened => ?_
  refine .bind (Q := fun x => F.Fills x.1 ([Slot.any .typeless] ++ Slot.code.each x.2.toList)) ?_
    fun x => .node_stands (by decide) And.right
  refine Shapes.withTrailingLambda (.bind (h.statementList (List.mem_singleton_self _) fun hr => ?_) ?_)
  · exact Forest.fills_empty.typeless hr.2 (by simp)
  · exact fun x => (Shapes.eat (by decide)).bind fun closed => .pure fun hr => hr.1.2.add_plain hr.2

/-- The body of a branch or of a loop is code. -/
theorem controlBody (h : rec.Shape F) :
    Shapes F R (controlBody rec) fun o => ∀ id ∈ o, F.Stands .code id := by
  refine .look fun atBrace => .ite (Shapes.yielding (h.block.mono fun id hid => hid.mono ?_)) h.statement
  simp [NodeKind.codes]

/-- Each step of the parameters of a lambda adds a parameter or a sign between them. -/
theorem lambdaParameterStep (h : rec.Shape F) (x : Array NodeId × Array NodeId) :
    Shapes F (F.Fills x.1 ([Slot.any .typeless] ++ (Slot.only .parameter).each x.2.toList))
      (lambdaParameterStep rec x) fun r =>
        F.Fills r.value.1 ([Slot.any .typeless] ++ (Slot.only .parameter).each r.value.2.toList) := by
  obtain ⟨children, parameters⟩ := x
  refine .look fun k => ?_
  split
  iterate 2
    · exact .pure id
  · exact Shapes.bump.bind fun comma => .pure fun hr => hr.1.typeless hr.2 (by simp)
  · refine h.parameter.bind fun o => ?_
    cases o with
    | none => exact Shapes.unknown.bind fun token => .pure fun hr => hr.1.1.plain hr.2
    | some parameter =>
      refine .pure fun hr => ?_
      simpa [Slot.each, Step.value] using hr.1.push (hr.2 _ rfl)

/-- Parameters of a lambda stand before its arrow, if there are any. -/
theorem lambdaParameters (h : rec.Shape F) (hcs : R → F.Fills cs [Slot.any .typeless]) :
    Shapes F R (lambdaParameters rec cs) fun r =>
      F.Fills r.1 ([Slot.any .typeless] ++ (Slot.only .parameter).each r.2.toList) := by
  refine .look fun s => .ite ?_ (.pure fun hr => by simpa [Slot.each] using hcs hr)
  have hlist := Shapes.repeating h.lambdaParameterStep (cs, #[])
  refine (hlist.of_imp fun hr => by simpa [Slot.each] using hcs hr).bind fun x => ?_
  exact (Shapes.eat (by decide)).bind fun arrow => .pure fun hr => hr.1.2.add_plain hr.2

/-- A lambda has parameters and statements. -/
theorem lambda (h : rec.Shape F) : Shapes F R (lambda rec) (F.Stands (.only .lambdaExpression)) := by
  refine .look fun start => Shapes.bump.bind fun opened => ?_
  refine .bind (Q := fun x => F.Fills x.1 ([Slot.any .typeless] ++
    (Slot.only .parameter).each x.2.1.toList ++ Slot.code.each x.2.2.toList)) ?_
    fun x => .node_stands (by decide) And.right
  have hopened (hr : R ∧ F.Typeless opened) : F.Fills (#[].push opened) [Slot.any .typeless] :=
    Forest.fills_empty.typeless hr.2 (by simp)
  refine Shapes.withTrailingLambda ((h.lambdaParameters hopened).bind ?_)
  intro x
  refine (h.statementList (by simp) And.right).bind fun y => ?_
  exact (Shapes.eat (by decide)).bind fun closed => .pure fun hr => hr.1.2.add_plain hr.2

/-- Each step of a class body adds a member, a separator or what is not understood. -/
theorem memberStep (h : rec.Shape F) (x : Array NodeId × Array NodeId) :
    Shapes F (F.Fills x.1 ([Slot.any .typeless] ++ Slot.declaration.each x.2.toList)) (memberStep rec x)
      fun r => F.Fills r.value.1 ([Slot.any .typeless] ++ Slot.declaration.each r.value.2.toList) := by
  obtain ⟨children, members⟩ := x
  refine .look fun k => ?_
  split
  iterate 2
    · exact .pure id
  · exact Shapes.bump.bind fun semicolon => .pure fun hr => hr.1.typeless hr.2 (by simp)
  · refine h.declaration.bind fun o => ?_
    have hpush {R : Prop} (id : NodeId) (hR : R → F.Fills children
        ([Slot.any .typeless] ++ Slot.declaration.each members.toList) ∧ F.Stands .declaration id) :
        Shapes F R (pure (.more (children.push id, members.push id)))
          fun r : Step (Array NodeId × Array NodeId) =>
            F.Fills r.value.1 ([Slot.any .typeless] ++ Slot.declaration.each r.value.2.toList) :=
      .pure fun hr => by simpa [Slot.each, Step.value] using (hR hr).1.push (hR hr).2
    cases o with
    | none => exact Shapes.unknown.bind fun id => hpush id fun hr => ⟨hr.1.1, hr.2.stands⟩
    | some id =>
      refine .bind (Q := F.Stands .declaration) (.pure fun hr => hr.2 id rfl) fun id => ?_
      exact hpush id fun hr => ⟨hr.1.1, hr.2⟩

/-- A class body has declarations between its braces. -/
theorem classBody (h : rec.Shape F) : Shapes F R (classBody rec) (F.Stands (.only .classBody)) := by
  refine .look fun start => Shapes.bump.bind fun opened => ?_
  have hlist := Shapes.repeating h.memberStep (#[opened], #[])
  refine (hlist.of_imp fun hr => Forest.fills_empty.typeless hr.2 (by simp)).bind fun x => ?_
  refine (Shapes.eat (by decide)).bind fun closed => .node_stands (by decide) fun hr => ?_
  exact hr.1.2.add_plain hr.2

/-- A class has a body if a brace says so. -/
theorem classBodyIfAny (h : rec.Shape F) :
    Shapes F R (classBodyIfAny rec) fun o => ∀ id ∈ o, F.Stands (.only .classBody) id :=
  .look fun _ => .ite (Shapes.yielding h.classBody) .nothing

/-- A supertype that is constructed has a list of arguments. -/
theorem supertypeArguments (h : rec.Shape F) (hcs : R → F.Fills cs slots) :
    Shapes F R (supertypeArguments rec cs) fun r =>
      F.Fills r.1 (slots ++ (Slot.only .valueArgumentList).each r.2.toList) := by
  refine .look fun atParen => .look fun startsLine => .ite ?_ (.pure fun hr => ?_)
  · refine h.valueArgumentList.bind fun x => .pure fun hr => ?_
    exact (hcs hr.1).push hr.2.only_of_arguments
  · simpa [Slot.each] using hcs hr

/-- What stands after the word for it is a delegate. -/
theorem delegate (h : rec.Shape F) (hs : ∀ entry ∈ slots, ∃ kinds, entry.2 = .of kinds)
    (hcs : R → F.Fills cs slots) :
    Shapes F R (delegate rec cs) fun cs => F.Fills cs (Slot.any .typeless :: Slot.any .delegate :: slots) := by
  refine .ifAt (fun word => ?_) (.pure fun hr => (hcs hr).mono (by simp))
  refine (Shapes.withTrailingLambda h.expression).bind fun value => .pure fun hr => ?_
  exact (hcs hr.1.1).delegate hs hr.1.2 hr.2

/-- A supertype is a type with arguments or with a delegate. -/
theorem supertypeEntry (h : rec.Shape F) :
    Shapes F R (supertypeEntry rec) fun o => ∀ id ∈ o, F.Stands (.only .supertypeEntry) id := by
  refine .look fun start => (h.type none).bind fun o => ?_
  cases o with
  | none => exact .nothing
  | some typeRef =>
    have htype (hr : R ∧ ∀ id ∈ some typeRef, F.Stands .type id) :
        F.Fills #[typeRef] ([] ++ Slot.type.each [typeRef]) :=
      Forest.Fills.push Forest.fills_empty (hr.2 _ rfl)
    refine (h.supertypeArguments htype).bind fun x => ?_
    refine (h.delegate ?_ And.right).bind fun cs => Shapes.yielding (.node_stands (by decide) fun hr => ?_)
    · simp +contextual [Slot.each, or_imp]
    · exact hr.2.mono (by simp [NodeData.slots, Slot.each])

/-- Each step of a list of supertypes adds one of them. -/
theorem supertypeStep (h : rec.Shape F) (x : Array NodeId × Array NodeId) :
    Shapes F (F.Fills x.1 (slots ++ (Slot.only .supertypeEntry).each x.2.toList)) (supertypeStep rec x)
      fun r => F.Fills r.value.1 (slots ++ (Slot.only .supertypeEntry).each r.value.2.toList) := by
  obtain ⟨children, supertypes⟩ := x
  refine h.supertypeEntry.bind fun o => ?_
  cases o with
  | none => exact .pure And.left
  | some entry =>
    have hpush (hfills : F.Fills children (slots ++ (Slot.only .supertypeEntry).each supertypes.toList))
        (hentry : F.Stands (.only .supertypeEntry) entry) : F.Fills (children.push entry)
          (slots ++ (Slot.only .supertypeEntry).each (supertypes.push entry).toList) := by
      simpa [Slot.each] using hfills.push hentry
    refine (Shapes.eat (by decide)).bind fun comma => ?_
    cases comma with
    | none => exact .pure fun hr => hpush hr.1.1 (hr.1.2 _ rfl)
    | some comma => exact .pure fun hr => (hpush hr.1.1 (hr.1.2 _ rfl)).plain (hr.2 _ rfl)

/-- Supertypes stand after a colon. -/
theorem supertypeList (h : rec.Shape F) (hcs : R → F.Fills cs slots) :
    Shapes F R (supertypeList rec cs) fun r =>
      F.Fills r.1 (slots ++ (Slot.only .supertypeEntry).each r.2.toList) := by
  refine .ifAt (fun colon => ?_) (.pure fun hr => by simpa [Slot.each] using hcs hr)
  refine (Shapes.repeating h.supertypeStep (cs.push colon, #[])).of_imp fun hr => ?_
  simpa [Slot.each] using (hcs hr.1).plain (hr.2.plain (by decide))

/-- A primary constructor has modifiers, its word and parameters. -/
theorem primaryConstructor (h : rec.Shape F) :
    Shapes F R (primaryConstructor rec) (F.Stands (.only .primaryConstructor)) := by
  have hfound : Shapes F R (Grammar.modifiers rec #[]) fun r => F.Fills r.1 [Slot.any .typeless] :=
    h.modifiers fun _ => Forest.fills_empty
  refine .look fun start => hfound.bind fun found => (Shapes.eat (by decide)).bind fun keyword => ?_
  refine (h.parametersIfAny (by simp) fun hr => hr.1.2.add_plain hr.2).bind fun x => ?_
  exact .node_stands (by decide) And.right

/-- It is there if its word or a parenthesis says so. -/
theorem primaryConstructorIfAny (h : rec.Shape F) :
    Shapes F R (primaryConstructorIfAny rec) fun o => ∀ id ∈ o, F.Stands (.only .primaryConstructor) id := by
  refine .look fun startsLine => .look fun atParen => .look fun atKeyword => .look fun atSign => ?_
  exact .look fun atModifier => .ite (Shapes.yielding h.primaryConstructor) .nothing

/-- A class is a declaration with a name, type parameters, a constructor, supertypes and a body. -/
theorem classDeclaration (h : rec.Shape F) {start : Nat} {found : List Modifier}
    (hcs : R → F.Fills cs []) :
    Shapes F R (classDeclaration rec start cs found) (F.Stands .declaration) := by
  refine .look fun atInterface => Shapes.bump.bind fun keyword => Shapes.bumpName.bind fun name => ?_
  refine h.typeParametersIfAny.bind fun typeParameters => h.primaryConstructorIfAny.bind fun primary => ?_
  have hfront (hr : (((R ∧ F.Typeless keyword) ∧ ∀ id ∈ name, F.Plain id) ∧
      ∀ id ∈ typeParameters, F.Stands (.only .typeParameterList) id) ∧
      ∀ id ∈ primary, F.Stands (.only .primaryConstructor) id) :
      F.Fills (cs ++ among [some keyword, name, typeParameters, primary])
        ([Slot.any .typeless, Slot.any (.only .typeParameterList)] ++
          (Slot.only .primaryConstructor).each primary.toList) := by
    obtain ⟨⟨⟨⟨hr, hkeyword⟩, hname⟩, hparameters⟩, hprimary⟩ := hr
    rw [append_among]
    have hnamed : F.Fills _ [Slot.any .typeless, Slot.any (.only .typeParameterList)] :=
      (((hcs hr).mono (List.nil_subset _)).typeless hkeyword (by simp)).add_plain hname
    exact (hnamed.add_any hparameters (by simp)).add hprimary
  refine (h.supertypeList hfront).bind fun x => h.classBodyIfAny.bind fun body => ?_
  exact .node_stands (by decide) fun hr => hr.1.2.add hr.2

/-- The name of an object is plain. -/
theorem objectName : Shapes F R objectName fun o => ∀ id ∈ o, F.Plain id :=
  .look fun _ => .look fun _ => .ite .bumpName .nothing

/-- An object is a declaration with supertypes and a body. -/
theorem objectDeclaration (h : rec.Shape F) {start : Nat} {found : List Modifier}
    (hcs : R → F.Fills cs []) :
    Shapes F R (objectDeclaration rec start cs found) (F.Stands .declaration) := by
  refine Shapes.bump.bind fun keyword => objectName.bind fun name => ?_
  have hfront (hr : (R ∧ F.Typeless keyword) ∧ ∀ id ∈ name, F.Plain id) :
      F.Fills (cs ++ among [some keyword, name]) [Slot.any .typeless, Slot.any (.only .typeParameterList)] := by
    obtain ⟨⟨hr, hkeyword⟩, hname⟩ := hr
    rw [append_among]
    exact (((hcs hr).mono (List.nil_subset _)).typeless hkeyword (by simp)).add_plain hname
  refine (h.supertypeList hfront).bind fun x => h.classBodyIfAny.bind fun body => ?_
  exact .node_stands (by decide) fun hr => hr.1.2.add hr.2

/-- That a type may be missing changes nothing about its children. -/
theorem slots_markNullable (n : Node) : (markNullable n).kind = n.kind ∧
    (markNullable n).children = n.children ∧ (markNullable n).data.slots = n.data.slots := by
  unfold markNullable
  split
  · rename_i t ht
    refine ⟨rfl, rfl, ?_⟩
    rw [ht]
    rfl
  · exact ⟨rfl, rfl, rfl⟩

/-- The type of a receiver stands before the point. -/
theorem receiverIfAny (h : rec.Shape F) (hcs : R → F.Fills cs slots) :
    Shapes F R (receiverIfAny rec cs) fun r => F.Fills r.1 (slots ++ Slot.type.each r.2.toList) := by
  refine .look fun s => .ite (.pure fun hr => by simpa [Slot.each] using hcs hr) ?_
  refine (h.type _).bind fun receiver => .ifAt (fun point => ?_) ?_
  · refine .bind (Q := fun _ => True) ?_ fun _ => .pure fun hr => ?_
    · cases receiver with
      | none => exact .pure fun _ => trivial
      | some id => exact .change slots_markNullable fun _ => trivial
    · exact ((hcs hr.1.1.1).add hr.1.1.2).plain (hr.1.2.plain (by decide))
  · exact (Shapes.eat (by decide)).bind fun dot => .pure fun hr => ((hcs hr.1.1).add hr.1.2).add_plain hr.2

/-- Each constraint of a type parameter has a type. -/
theorem constraintStep (h : rec.Shape F) (hany : Slot.any .type ∈ slots) (cs : Array NodeId) :
    Shapes F (F.Fills cs slots) (constraintStep rec cs) fun r => F.Fills r.value slots := by
  refine Shapes.bumpName.bind fun name => ?_
  refine (h.typeAfterColon fun hr => hr.1.add_plain hr.2).bind fun typed => ?_
  refine .ite (.pure fun hr => hr.2.of_any hany) ((Shapes.eat (by decide)).bind fun comma => ?_)
  cases comma with
  | none => exact .pure fun hr => hr.1.2.of_any hany
  | some comma => exact .pure fun hr => (hr.1.2.of_any hany).plain (hr.2 _ rfl)

/-- Constraints stand after their word. -/
theorem whereClauseIfAny (h : rec.Shape F) (hany : Slot.any .type ∈ slots) (hcs : R → F.Fills cs slots) :
    Shapes F R (whereClauseIfAny rec cs) fun cs => F.Fills cs slots := by
  refine .ifAt (fun keyword => ?_) (.pure hcs)
  refine (Shapes.repeating (h.constraintStep hany) _).of_imp fun hr => ?_
  exact (hcs hr.1).plain (hr.2.plain (by decide))

/-- The body of a function is a block, or an expression after a sign. -/
theorem functionBody (h : rec.Shape F) (hcs : R → F.Fills cs slots) :
    Shapes F R (functionBody rec cs) fun r =>
      F.Fills r.1 (slots ++ (Slot.of (NodeKind.bodies r.2.2)).each r.2.1.toList) ∧
        ∀ b ∈ r.2.1, F.Stands (.of (NodeKind.bodies r.2.2)) b := by
  refine .look fun atBrace => .ite (h.block.bind fun body => .pure fun hr => ?_) ?_
  · refine ⟨(hcs hr.1).push hr.2, fun b hb => ?_⟩
    cases hb
    exact hr.2
  refine .ifAt (fun equals => h.expression.bind fun body => .pure fun hr => ?_) (.pure fun hr => ?_)
  · exact ⟨((hcs hr.1.1).plain (hr.1.2.plain (by decide))).add hr.2, hr.2⟩
  · exact ⟨by simpa [Slot.each] using hcs hr, fun b hb => absurd hb (Option.not_mem_none b)⟩

/-- A function is a declaration with a receiver, parameters, a type and a body. -/
theorem functionDeclaration (h : rec.Shape F) {start : Nat} {found : List Modifier}
    (hcs : R → F.Fills cs []) :
    Shapes F R (functionDeclaration rec start cs found) (F.Stands .declaration) := by
  refine Shapes.bump.bind fun keyword => h.typeParametersIfAny.bind fun typeParameters => ?_
  have hfront (hr : (R ∧ F.Typeless keyword) ∧
      ∀ id ∈ typeParameters, F.Stands (.only .typeParameterList) id) :
      F.Fills (cs ++ among [some keyword, typeParameters])
        [Slot.any .typeless, Slot.any (.only .typeParameterList), Slot.any .type] := by
    obtain ⟨⟨hr, hkeyword⟩, hparameters⟩ := hr
    rw [append_among]
    exact (((hcs hr).mono (List.nil_subset _)).typeless hkeyword (by simp)).add_any hparameters (by simp)
  refine (h.receiverIfAny hfront).bind fun received => Shapes.bumpName.bind fun name => ?_
  refine (h.parametersIfAny (by simp) fun hr => hr.1.2.add_plain hr.2).bind fun listed => ?_
  refine (h.typeAfterColon And.right).bind fun typed => (h.whereClauseIfAny (by simp) And.right).bind fun cs => ?_
  refine (h.functionBody And.right).bind fun body => .node_stands (by decide) fun hr => hr.2.1.mono ?_
  intro entry hentry
  simp only [NodeData.slots, List.mem_append, List.mem_cons, List.not_mem_nil, or_false] at hentry ⊢
  tauto

/-- An accessor may have a parameter, a type and a body. -/
theorem accessor (h : rec.Shape F) : Shapes F R (accessor rec) (F.Stands (.only .propertyAccessor)) := by
  have hfound : Shapes F R (Grammar.modifiers rec #[]) fun r =>
      F.Fills r.1 [Slot.any .typeless, Slot.any (.only .typeParameterList)] :=
    h.modifiers fun _ => Forest.fills_empty
  refine .look fun start => hfound.bind fun found => Shapes.bump.bind fun name => ?_
  refine .look fun atParen => .look fun startsLine => ?_
  extract_lets afterParameters
  have hafter {R : Prop} (x : Array NodeId × Array NodeId) (hx : R → F.Fills x.1
      ([Slot.any .typeless, Slot.any (.only .typeParameterList)] ++
        (Slot.only .parameter).each x.2.toList)) :
      Shapes F R (afterParameters x) (F.Stands (.only .propertyAccessor)) := by
    refine (h.typeAfterColon hx).bind fun typed => (h.functionBody And.right).bind fun body => ?_
    refine .node_stands (by decide) fun hr => hr.2.1.mono ?_
    intro entry hentry
    simp only [NodeData.slots, List.mem_append, List.mem_cons, List.not_mem_nil, or_false] at hentry ⊢
    tauto
  refine .ite ?_ ?_
  · refine (h.parameterList (by simp) fun hr => ?_).bind fun x => hafter x And.right
    exact hr.1.2.typeless hr.2 (by simp)
  · refine .bind (.pure fun hr => ?_) fun x => hafter x And.right
    simpa [Slot.each] using hr.1.2.typeless hr.2 (by simp)

/-- Accessors come after the value of a property. -/
theorem accessorStep (h : rec.Shape F) (hany : Slot.any (.only .propertyAccessor) ∈ slots) (cs : Array NodeId) :
    Shapes F (F.Fills cs slots) (accessorStep rec cs) fun r => F.Fills r.value slots := by
  refine .look fun s => .ite (h.accessor.bind fun id => .pure fun hr => ?_) (.pure id)
  exact hr.1.push_any hr.2 hany

/-- The name of a property is a name, or names in parentheses. -/
theorem propertyName (hcs : R → F.Fills cs slots) :
    Shapes F R (propertyName cs) fun r => F.Fills r.1 slots := by
  refine .look fun atParen => .ite ?_ ?_
  · exact Shapes.unknown.bind fun kept => .pure fun hr => (hcs hr.1).plain hr.2
  · exact Shapes.bumpName.bind fun name => .pure fun hr => (hcs hr.1).add_plain hr.2

/-- The value of a property is code, or a delegate after its word. -/
theorem propertyValue (h : rec.Shape F) (hs : ∀ entry ∈ slots, ∃ kinds, entry.2 = .of kinds)
    (hcs : R → F.Fills cs slots) :
    Shapes F R (propertyValue rec cs) fun r => F.Fills r.1
      (Slot.any .typeless :: Slot.any .delegate :: slots ++ Slot.code.each r.2.toList) := by
  refine .ifAt (fun word => h.expression.bind fun value => .pure fun hr => ?_) ?_
  · simpa [Slot.each] using (hcs hr.1.1).delegate hs hr.1.2 hr.2
  · exact (h.assignedValue hcs).mono fun x hx => hx.mono (by simp)

/-- The word for a delegate is not the one that a property starts with. -/
theorem propertyDeclaration (h : rec.Shape F) {k : TokenKind} (hk : k ≠ .byKeyword) {start : Nat}
    {found : List Modifier} (hcs : R → F.Fills cs []) :
    ShapesAt k F R (propertyDeclaration rec start cs found) (F.Stands .declaration) := by
  refine .look fun isVar => .bump fun keyword => h.typeParametersIfAny.bind fun typeParameters => ?_
  have hfront (hr : (R ∧ IsToken F k keyword) ∧
      ∀ id ∈ typeParameters, F.Stands (.only .typeParameterList) id) :
      F.Fills (cs ++ among [some keyword, typeParameters])
        [Slot.any (.only .typeParameterList), Slot.any (.only .propertyAccessor)] := by
    obtain ⟨⟨hr, hkeyword⟩, hparameters⟩ := hr
    rw [append_among]
    exact (((hcs hr).mono (List.nil_subset _)).plain (hkeyword.plain hk)).add_any hparameters (by simp)
  refine (h.receiverIfAny hfront).bind fun received => (propertyName And.right).bind fun named => ?_
  refine (h.typeAfterColon And.right).bind fun typed => (h.propertyValue ?_ And.right).bind fun valued => ?_
  · simp +contextual [Slot.each, Slot.any, or_imp, forall_and]
  refine ((Shapes.repeating (h.accessorStep (by simp)) _).of_imp And.right).bind fun cs => ?_
  refine (Shapes.eat (by decide)).bind fun semicolon => .node_stands (by decide) fun hr => ?_
  refine (hr.1.2.add_plain hr.2).mono ?_
  intro entry hentry
  simp only [NodeData.slots, List.mem_append, List.mem_cons, List.not_mem_nil, or_false] at hentry ⊢
  tauto

/-- A constructor hands its arguments on to another one. -/
theorem constructorCall (h : rec.Shape F) (hany : Slot.any .code ∈ slots) (hcs : R → F.Fills cs slots) :
    Shapes F R (constructorCall rec cs) fun cs => F.Fills cs slots := by
  refine .ifAt (fun colon => ?_) (.pure hcs)
  refine (Shapes.withTrailingLambda h.expression).bind fun call => .pure fun hr => ?_
  exact ((hcs hr.1.1).plain (hr.1.2.plain (by decide))).add_any hr.2 hany

/-- A secondary constructor is a declaration with parameters and a block. -/
theorem secondaryConstructor (h : rec.Shape F) {start : Nat} {found : List Modifier}
    (hcs : R → F.Fills cs []) :
    Shapes F R (secondaryConstructor rec start cs found) (F.Stands .declaration) := by
  refine Shapes.bump.bind fun name => ?_
  have hfront (hr : R ∧ F.Typeless name) : F.Fills (cs.push name)
      [Slot.any .code, Slot.any .typeless, Slot.any (.only .typeParameterList)] :=
    ((hcs hr.1).mono (List.nil_subset _)).typeless hr.2 (by simp)
  refine (h.parametersIfAny (by simp) hfront).bind fun listed => ?_
  refine (h.constructorCall (by simp) And.right).bind fun cs => (h.functionBody And.right).bind fun body => ?_
  refine .node_stands (by decide) fun hr => (hr.2.1.beside hr.2.2).mono ?_
  intro entry hentry
  simp only [NodeData.slots, List.append_eq, List.mem_append, List.mem_cons, List.not_mem_nil, or_false] at hentry ⊢
  tauto

/-- An initializer is a declaration with a block. -/
theorem initializer (h : rec.Shape F) {start : Nat} (hcs : R → F.Fills cs []) :
    Shapes F R (initializer rec start cs) (F.Stands .declaration) := by
  refine Shapes.bump.bind fun keyword => h.block.bind fun body => .node_stands (by decide) fun hr => ?_
  have hfront : F.Fills (cs.push keyword) (NodeData.plain.slots .anonymousInitializer) :=
    ((hcs hr.1.1).mono (List.nil_subset _)).typeless hr.1.2 List.mem_cons_self
  exact hfront.push_any hr.2 (List.mem_cons_of_mem _ List.mem_cons_self)

/-- Modifiers with nothing after them are a declaration of nothing. -/
theorem strayModifiers {start : Nat} : Shapes F R (strayModifiers start cs) (F.Stands .declaration) := by
  refine .look fun k => .look fun startsLine => ?_
  extract_lets finish
  have hfinish {R : Prop} (cs : Array NodeId) : Shapes F R (finish cs) (F.Stands .declaration) := by
    refine (Shapes.skipped rfl).bind fun id => ?_
    refine .bind (Q := fun _ => True) (.change (fun n => ⟨rfl, rfl, rfl⟩) fun _ => trivial) fun _ => ?_
    exact .pure fun hr => hr.1.2.stands
  refine .ite (Shapes.unknown.bind fun kept => ?_) ?_
  · exact .bind (Q := fun _ => True) (.pure fun _ => trivial) fun cs => hfinish cs
  · exact .bind (Q := fun _ => True) (.pure fun _ => trivial) fun cs => hfinish cs

/-- Each kind of declaration stands where a declaration does. -/
theorem anyDeclaration (h : rec.Shape F) :
    Shapes F R (Grammar.declaration rec) fun o => ∀ id ∈ o, F.Stands .declaration id := by
  have hfound : Shapes F R (Grammar.modifiers rec #[]) fun r => F.Fills r.1 [] :=
    h.modifiers fun _ => Forest.fills_empty
  refine .look fun start => hfound.bind fun found => .lookKind fun k => ?_
  split
  iterate 2
    · exact .of_shapes (Shapes.map_some (h.classDeclaration And.right))
  · exact .of_shapes (Shapes.map_some (h.objectDeclaration And.right))
  · exact .of_shapes (Shapes.map_some (h.functionDeclaration And.right))
  iterate 2
    · exact ShapesAt.map ((h.propertyDeclaration (by decide) And.right).mono fun id hid i hi => by
        cases hi
        exact hid)
  · exact .of_shapes (Shapes.map_some (h.secondaryConstructor And.right))
  · refine .of_shapes (.look fun next => .ite (Shapes.map_some (h.initializer And.right)) ?_)
    exact .ite .nothing (Shapes.map_some strayModifiers)

end Productions.Shape

end Grammar

end KotlinTree
