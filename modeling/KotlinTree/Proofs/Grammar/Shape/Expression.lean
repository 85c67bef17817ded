import KotlinTree.Grammar.Unit
import KotlinTree.Proofs.Grammar.Keeps.Expression
import KotlinTree.Proofs.Grammar.Shape.Declaration

/-!
Expressions, statements and whole files are shaped. Main statement: so is every node of a parsed file.
-/

namespace KotlinTree

namespace Grammar

variable {F : Forest} {R : Prop}

/-- Nothing but trees without types is added to some children. -/
def AddsTypeless (F : Forest) (cs cs' : Array NodeId) : Prop :=
  ∃ added : Array NodeId, cs' = cs ++ added ∧ ∀ c ∈ added, F.Typeless c

section
variable {cs cs' : Array NodeId} {slots : List (Option NodeId × Slot)} {id : NodeId}

/-- Where only children without types are added, slots that are filled remain so. -/
theorem AddsTypeless.fills (h : AddsTypeless F cs cs') (hcs : F.Fills cs slots)
    (hany : Slot.any .typeless ∈ slots) : F.Fills cs' slots := by
  obtain ⟨added, rfl, hadded⟩ := h
  intro c hc
  rcases Array.mem_append.mp hc with hc | hc
  · exact (hcs c hc).imp_right fun ⟨entry, hentry, hfor, hsuits⟩ => ⟨entry, hentry, hfor, hsuits.append added⟩
  · exact Or.inr ⟨_, hany, fun i hi => absurd hi (Option.not_mem_none i), hadded c hc⟩

/-- The first child is still the first. -/
theorem AddsTypeless.first (h : AddsTypeless F #[id] cs') : cs'[0]? = some id := by
  obtain ⟨added, rfl, -⟩ := h
  rw [Array.getElem?_append_left (by simp)]
  rfl

/-- If the first child has no type in it, none has. -/
theorem AddsTypeless.all (h : AddsTypeless F #[id] cs') (hid : F.Typeless id) : ∀ c ∈ cs', F.Typeless c := by
  obtain ⟨added, rfl, hadded⟩ := h
  intro c hc
  rcases Array.mem_append.mp hc with hc | hc
  · rwa [Array.mem_singleton.mp hc]
  · exact hadded c hc

end

/-- A label adds a sign and a name. -/
theorem Shapes.labelIfAny {cs : Array NodeId} :
    Shapes F R (labelIfAny cs) fun r => AddsTypeless F cs r.1 := by
  refine .look fun _ => .look fun _ => .ite ?_ (.pure fun _ => ⟨#[], by simp, by simp⟩)
  refine bump.bind fun sign => bumpName.bind fun label => .pure fun hr => ?_
  cases label with
  | none => exact ⟨#[sign], Array.push_eq_append, by simpa using hr.1.2⟩
  | some label =>
    exact ⟨#[sign, label], Array.ext' (by simp [add]), by simpa using ⟨hr.1.2, (hr.2 _ rfl).typeless⟩⟩

/-- The word for the current object stands where code does. -/
theorem Shapes.thisExpression : Shapes F R thisExpression (F.Stands .code) := by
  refine .look fun start => bump.bind fun keyword => labelIfAny.bind fun x => ?_
  exact .node_stands (by decide) fun hr => Forest.fills_of_typeless (hr.2.all hr.1.2)

/-- So does a reference to what can be called. -/
theorem Shapes.callableReference {start : Nat} {receiver : Option NodeId}
    (hreceiver : R → ∀ id ∈ receiver, F.Stands .code id) :
    Shapes F R (callableReference start receiver) (F.Stands .code) := by
  refine bump.bind fun colons => .look fun atClass => ?_
  extract_lets afterName
  have hafter (name : Option NodeId) : Shapes F ((R ∧ F.Typeless colons) ∧ ∀ id ∈ name, F.Typeless id)
      (afterName name) (F.Stands .code) := by
    refine .node_stands (by decide) fun hr => ?_
    rw [among_eq]
    have hfirst : F.Fills #[] [Slot.any .typeless] := Forest.fills_empty
    exact ((hfirst.add (hreceiver hr.1.1)).typeless hr.1.2 (by simp)).add_typeless hr.2 (by simp)
  refine .ite ((map_some bump).bind hafter) ?_
  exact (bumpName.mono fun o ho id hid => (ho id hid).typeless).bind hafter

namespace Productions.Shape

variable {rec : Productions} {cs : Array NodeId} {slots : List (Option NodeId × Slot)}

/-- The superclass that is meant stands between brackets. -/
theorem superType (h : rec.Shape F) (hany : Slot.any .typeless ∈ slots) (hcs : R → F.Fills cs slots) :
    Shapes F R (superType rec cs) fun r => F.Fills r.1 (slots ++ Slot.type.each r.2.toList) := by
  refine .look fun _ => .look fun _ => .ite ?_ (.pure fun hr => by simpa [Slot.each] using hcs hr)
  refine Shapes.bump.bind fun opened => (h.type none).bind fun type => ?_
  refine (Shapes.eat (by decide)).bind fun closed => .pure fun hr => ?_
  exact (((hcs hr.1.1.1).typeless hr.1.1.2 hany).add hr.1.2).add_plain hr.2

/-- The word for the superclass stands where code does, with the type that it may have. -/
theorem superExpression (h : rec.Shape F) : Shapes F R (superExpression rec) (F.Stands .code) := by
  refine .look fun start => Shapes.bump.bind fun keyword => ?_
  have hfirst (hr : R ∧ F.Typeless keyword) : F.Fills #[keyword] [Slot.any .typeless] :=
    Forest.fills_first hr.2 (by simp)
  refine (h.superType (List.mem_singleton_self _) hfirst).bind fun x => ?_
  exact Shapes.labelIfAny.bind fun y => .node_stands (by decide) fun hr =>
    hr.2.fills hr.1.2 List.mem_cons_self

/-- An expression in parentheses stands where code does. -/
theorem parenthesized (h : rec.Shape F) : Shapes F R (parenthesized rec) (F.Stands .code) := by
  refine .look fun start => Shapes.bump.bind fun opened => ?_
  refine (Shapes.withTrailingLambda h.expression).bind fun inner => ?_
  refine (Shapes.eat (by decide)).bind fun closed => .node_stands (by decide) fun hr => ?_
  have hopened : F.Fills #[opened] [Slot.any .typeless] := Forest.fills_first hr.1.1.2 (by simp)
  exact (hopened.add hr.1.2).add_plain hr.2

/-- What is done otherwise is code. -/
theorem elseBranch (h : rec.Shape F) (hany : Slot.any .typeless ∈ slots) (hcs : R → F.Fills cs slots) :
    Shapes F R (elseBranch rec cs) fun r => F.Fills r.1 (slots ++ Slot.code.each r.2.toList) := by
  refine .look fun _ => .look fun _ => ?_
  extract_lets afterSemicolon
  have hafter {R : Prop} (cs : Array NodeId) (hcs : R → F.Fills cs slots) :
      Shapes F R (afterSemicolon cs) fun r => F.Fills r.1 (slots ++ Slot.code.each r.2.toList) := by
    refine .ifAt (fun keyword => h.controlBody.bind fun branch => .pure fun hr => ?_) (.pure fun hr => ?_)
    · exact ((hcs hr.1.1).plain (hr.1.2.plain (by decide))).add hr.2
    · simpa [Slot.each] using hcs hr
  refine .ite (Shapes.bump.bind fun semicolon => ?_) ?_
  · exact .bind (Q := fun cs => F.Fills cs slots) (.pure fun hr => (hcs hr.1).typeless hr.2 hany)
      fun cs => hafter cs And.right
  · exact .bind (Q := fun cs => F.Fills cs slots) (.pure hcs) fun cs => hafter cs And.right

/-- A choice has a condition and two branches, all of which are code. -/
theorem ifExpression (h : rec.Shape F) : Shapes F R (ifExpression rec) (F.Stands .code) := by
  refine .look fun start => Shapes.bump.bind fun keyword => (Shapes.eat (by decide)).bind fun opened => ?_
  refine .bind (Q := fun x => F.Fills x.1 ((NodeData.ifExpression x.2).slots .ifExpression)) ?_
    fun x => .node_stands (by decide) And.right
  refine Shapes.withTrailingLambda (h.expression.bind fun condition => ?_)
  refine (Shapes.eat (by decide)).bind fun closed => h.controlBody.bind fun thenBranch => ?_
  have hfront (hr : ((((R ∧ F.Typeless keyword) ∧ ∀ id ∈ opened, F.Plain id) ∧
      ∀ id ∈ condition, F.Stands .code id) ∧ ∀ id ∈ closed, F.Plain id) ∧
      ∀ id ∈ thenBranch, F.Stands .code id) :
      F.Fills (add (add (add (add #[keyword] opened) condition) closed) thenBranch)
        ([Slot.any .typeless] ++ Slot.code.each condition.toList ++ Slot.code.each thenBranch.toList) := by
    obtain ⟨⟨⟨⟨⟨-, hkeyword⟩, hopened⟩, hcondition⟩, hclosed⟩, hthen⟩ := hr
    have hfirst : F.Fills #[keyword] [Slot.any .typeless] := Forest.fills_first hkeyword (by simp)
    exact (((hfirst.add_plain hopened).add hcondition).add_plain hclosed).add hthen
  refine (h.elseBranch (by simp) hfront).bind fun x => .pure fun hr => hr.2.mono ?_
  simp [NodeData.slots, Slot.each]

/-- What is returned is code. -/
theorem returnExpression (h : rec.Shape F) : Shapes F R (returnExpression rec) (F.Stands .code) := by
  refine .look fun start => Shapes.bump.bind fun keyword => Shapes.labelIfAny.bind fun x => ?_
  refine .look fun _ => ?_
  extract_lets afterValue
  have hafter (value : Option NodeId) : Shapes F (((R ∧ F.Typeless keyword) ∧ AddsTypeless F #[keyword] x.1) ∧
      ∀ id ∈ value, F.Stands .code id) (afterValue value) (F.Stands .code) := by
    refine .node_stands (by decide) fun hr => ?_
    have hfirst : F.Fills #[keyword] [Slot.any .typeless] :=
      Forest.fills_first hr.1.1.2 (by simp)
    exact (hr.1.2.fills hfirst (by simp)).add hr.2
  exact .ite (.bind .nothing hafter) (h.expression.bind hafter)

/-- What is thrown comes last, after the word that says so. -/
theorem jumpExpression (h : rec.Shape F) : Shapes F R (jumpExpression rec) (F.Stands .code) := by
  have hstands {R : Prop} {start : Nat} {cs : Array NodeId} (hcs : R → F.Fills cs [Slot.any .typeless, Slot.any .code])
      (hthrows : R → F.Throws cs) : Shapes F R (node .jumpExpression start cs) (F.Stands .code) :=
    (Shapes.node_of_throws fun hr _ => ⟨hcs hr, fun _ => hthrows hr⟩).mono fun _ hid =>
      Forest.IsOf.stands ⟨_, by decide, hid.1⟩
  have hfirst {keyword : NodeId} (hk : F.Typeless keyword) : F.Fills #[keyword] [Slot.any .typeless, Slot.any .code] :=
    Forest.fills_first hk (by simp)
  refine .look fun start => .knowAt (.bump fun keyword => ?_) (Shapes.bump.bind fun keyword => ?_)
  · refine Shapes.labelIfAny.bind fun x => ?_
    simp only [if_true]
    refine h.expression.bind fun value => ?_
    refine .bind (Q := fun cs => F.Fills cs [Slot.any .typeless, Slot.any .code] ∧ F.Throws cs)
      (.pure fun ⟨⟨⟨_, hkeyword⟩, hlabel⟩, hvalue⟩ => ?_) fun cs => hstands (fun hr => hr.2.1) fun hr => hr.2.2
    refine ⟨(hlabel.fills (hfirst hkeyword.typeless) (by simp)).add_any hvalue (by simp), ?_⟩
    -- The word stays the first child whatever comes after it, and the value is the last one.
    have hall := hlabel.all hkeyword.typeless
    cases value with
    | none => exact fun c hc => Or.inl (hall c hc)
    | some value =>
      intro c hc
      refine (Array.mem_push.mp hc).imp (hall c) fun he => ⟨?_, by simp [add, he]⟩
      have hlt : 0 < x.1.size := (Array.getElem?_eq_some_iff.mp hlabel.first).1
      have hkept : (add x.1 (some value))[0]? = some keyword := by
        rw [← hlabel.first]
        exact Array.getElem?_push_lt hlt ▸ (Array.getElem?_eq_getElem hlt).symm
      rw [hkept]
      exact hkeyword.kind
  · -- After any other word there is at most a label.
    refine Shapes.labelIfAny.bind fun x => ?_
    simp only [if_neg Bool.false_ne_true]
    refine .bind (Q := fun cs => F.Fills cs [Slot.any .typeless, Slot.any .code] ∧ ∀ c ∈ cs, F.Typeless c)
      (.pure fun hr => ⟨hr.2.fills (hfirst hr.1.2) (by simp), hr.2.all hr.1.2⟩) fun cs => ?_
    exact hstands (fun hr => hr.2.1) fun hr c hc => Or.inl (hr.2.2 c hc)

/-- Each kind of operand stands where code does. -/
theorem primary (h : rec.Shape F) : Shapes F R (primary rec) fun o => ∀ id ∈ o, F.Stands .code id := by
  -- What a primary expression can be: a token, a node without parts, or a declaration.
  have hleaf {k : TokenKind} (hk : k ≠ .byKeyword) :
      ShapesAt k F R (some <$> bump) fun o => ∀ id ∈ o, F.Stands .code id :=
    .map <| (ShapesAt.bump_plain hk).mono fun id hid i hi => by
      cases hi
      exact hid.stands
  have hkept {p : Parser NodeId} (hp : Shapes F R p F.Plain) :
      Shapes F R (some <$> p) fun o => ∀ id ∈ o, F.Stands .code id :=
    .map_some (hp.mono fun id hid => hid.stands)
  have hdeclared {p : Parser NodeId} (hp : Shapes F R p (F.Stands .declaration)) :
      Shapes F R (some <$> p) fun o => ∀ id ∈ o, F.Stands .code id :=
    .map_some (hp.mono fun id hid => hid.mono (List.subset_append_left _ _))
  -- One case for each kind of token that an operand can begin with, then one for all others.
  refine .look fun start => .lookKind fun k => ?_
  split
  iterate 7
    · exact hleaf (by decide)
  · exact .of_shapes (.map_some .thisExpression)
  · exact .of_shapes (.map_some h.superExpression)
  · exact .of_shapes (.map_some h.parenthesized)
  · exact .of_shapes (.map_some (h.lambda.mono fun id hid => hid.mono (by simp [NodeKind.codes])))
  · exact .of_shapes (.map_some h.ifExpression)
  · exact .of_shapes (.map_some h.returnExpression)
  iterate 3
    · exact .of_shapes (.map_some h.jumpExpression)
  · exact .of_shapes (.map_some (.callableReference fun _ id hid => absurd hid (Option.not_mem_none id)))
  · exact .of_shapes (hdeclared (h.objectDeclaration fun _ => Forest.fills_empty))
  · exact .of_shapes (h.declaration.mono fun o ho id hid => (ho id hid).mono (List.subset_append_left _ _))
  iterate 5
    · exact .of_shapes (hkept .unknown)
  iterate 8
    · exact .of_shapes .nothing
  · refine .of_shapes (.ite (hkept ?_) (hkept .unknownToken))
    exact (Shapes.bumpAs .identifier).mono fun id hid => hid.plain (by decide)

/-- An access has what it is on, which is code, and a name. -/
theorem memberAccess {start : Nat} {expression : NodeId} (hx : R → F.Stands .code expression) :
    Shapes F R (memberAccess start expression) (F.Stands .code) := by
  refine .look fun isNullSafe => Shapes.bump.bind fun operator => Shapes.bumpName.bind fun name => ?_
  refine .bind (Q := F.Stands .code) (.node_stands (by decide) fun hr => ?_) fun access => ?_
  · rw [among_eq]
    have hfirst : F.Fills #[] [Slot.any .typeless] := Forest.fills_empty
    exact ((hfirst.push (hx hr.1.1)).typeless hr.1.2 (by simp)).add_plain hr.2
  · refine .ite (.bind (Q := fun _ => True) (.change (fun n => ⟨rfl, rfl, rfl⟩) fun _ => trivial) fun _ => ?_) ?_
    · exact .pure fun hr => hr.1.2
    · exact .pure And.right

/-- A lambda after a call is code, with or without a label. -/
theorem trailingLambda (h : rec.Shape F) :
    Shapes F R (trailingLambda rec) fun o => ∀ id ∈ o, F.Stands .code id := by
  refine .look fun _ => .look fun _ => .look fun _ => .ite (Shapes.yielding ?_) .nothing
  exact h.lambda.mono fun id hid => hid.mono (by simp [NodeKind.codes])

/-- What is called is code, and so are its arguments. -/
theorem call (h : rec.Shape F) {start : Nat} {callee : NodeId} {typeArgumentList : Option NodeId}
    {typeArguments : Array NodeId} (hcallee : R → F.Stands .code callee)
    (hlist : R → ∀ id ∈ typeArgumentList, F.Stands (.only .typeArgumentList) id) :
    Shapes F R (call rec start callee typeArgumentList typeArguments) (F.Stands .code) := by
  refine .look fun atParen => ?_
  extract_lets afterArguments
  have hafter (x : Option NodeId × Array NodeId) : Shapes F (R ∧ ∀ id ∈ x.1, F.Stands (.arguments x.2.toList) id)
      (afterArguments x) (F.Stands .code) := by
    refine h.trailingLambda.bind fun lambda => .node_stands (by decide) fun ⟨⟨hr, harguments⟩, hlambda⟩ => ?_
    rw [among_eq]
    have hfirst : F.Fills #[] [Slot.any .typeless, Slot.any (.only .typeArgumentList)] := Forest.fills_empty
    refine ((((hfirst.push (hcallee hr)).add_any (hlist hr) (by simp)).add harguments).add hlambda).mono ?_
    -- These are the slots of a call in another order.
    intro entry hentry
    simp only [NodeData.slots, Slot.each, List.mem_append, List.mem_cons, List.not_mem_nil, or_false,
      List.map_cons, List.map_nil] at hentry ⊢
    tauto
  refine .ite (h.valueArgumentList.bind fun x => ?_) (.bind (.pure fun _ => by simp) hafter)
  refine .bind (.pure fun hr id hid => ?_) fun x => (hafter x).of_imp fun hr => ⟨hr.1.1, hr.2⟩
  cases hid
  exact hr.2

/-- Types between brackets are an argument list of a call or of a name. -/
theorem typeArgumentsThenCall (h : rec.Shape F) {start : Nat} {expression : NodeId}
    (hx : R → F.Stands .code expression) :
    Shapes F R (typeArgumentsThenCall rec start expression) (F.Stands .code) := by
  refine h.typeArgumentList.bind fun x => .look fun _ => .look fun _ => .ite ?_ ?_
  · refine h.call (fun hr => hx hr.1) fun hr id hid => ?_
    cases hid
    exact hr.2
  · exact (Shapes.skipped rfl).mono fun id hid => hid.stands

/-- Each index is code. -/
theorem indexStep (h : rec.Shape F) (cs : Array NodeId) :
    Shapes F (F.Fills cs [Slot.any .typeless, Slot.any .code]) (indexStep rec cs) fun r =>
      F.Fills r.value [Slot.any .typeless, Slot.any .code] := by
  refine .look fun k => ?_
  split
  iterate 2
    · exact .pure id
  · exact Shapes.bump.bind fun comma => .pure fun hr => hr.1.typeless hr.2 (by simp)
  · refine h.expression.bind fun o => ?_
    cases o with
    | none => exact Shapes.unknownToken.bind fun token => .pure fun hr => hr.1.1.plain hr.2
    | some index => exact .pure fun hr => hr.1.push_any (hr.2 _ rfl) (by simp)

/-- Indices stand after the code that they are applied to. -/
theorem indexing (h : rec.Shape F) {start : Nat} {expression : NodeId} (hx : R → F.Stands .code expression) :
    Shapes F R (indexing rec start expression) (F.Stands .code) := by
  refine Shapes.bump.bind fun opened => ?_
  have hlist := Shapes.repeating h.indexStep (#[expression].push opened)
  refine (hlist.of_imp fun hr => ?_).bind fun cs => (Shapes.eat (by decide)).bind fun closed => ?_
  · exact Forest.Fills.typeless (Forest.Fills.push_any Forest.fills_empty (hx hr.1) (by simp)) hr.2 (by simp)
  · exact .node_stands (by decide) fun hr => hr.1.2.add_plain hr.2

/-- A sign after an operand makes code of it. -/
theorem postfixOperator {start : Nat} {expression : NodeId} (hx : R → F.Stands .code expression) :
    Shapes F R (postfixOperator start expression) (F.Stands .code) := by
  refine .look fun operator => Shapes.bump.bind fun token => .node_stands (by decide) fun hr => ?_
  have hfirst : F.Fills #[] [Slot.any .typeless] := Forest.fills_empty
  exact (hfirst.push (hx hr.1)).typeless hr.2 (by simp)

/-- Whatever comes after an operand, the whole is code. -/
theorem postfixStep (h : rec.Shape F) (start : Nat) (x : NodeId) :
    Shapes F (F.Stands .code x) (postfixStep rec start x) fun r => F.Stands .code r.value := by
  refine .look fun startsLine => .look fun k => ?_
  split
  iterate 2
    · exact .map (memberAccess id)
  · exact .ite (.map (h.call id fun _ i hi => absurd hi (Option.not_mem_none i))) (.pure id)
  · exact .look fun _ => .ite (.map (h.typeArgumentsThenCall id)) (.pure id)
  · refine .look fun _ => .look fun _ => .ite (.map (h.call id ?_)) (.pure id)
    exact fun _ i hi => absurd hi (Option.not_mem_none i)
  · exact .ite (.map (h.indexing id)) (.pure id)
  iterate 3
    · exact .ite (.map (postfixOperator id)) (.pure id)
  · refine .map (.callableReference fun hx i hi => ?_)
    cases hi
    exact hx
  · exact .pure id

/-- So is an operand with all that comes after it. -/
theorem postfixed (h : rec.Shape F) : Shapes F R (postfixed rec) fun o => ∀ id ∈ o, F.Stands .code id := by
  refine .look fun start => h.primary.bind fun o => ?_
  cases o with
  | none => exact .nothing
  | some x => exact .map_some ((Shapes.repeating (h.postfixStep start) x).of_imp fun hr => hr.2 x rfl)

/-- And so it is with signs before it. -/
theorem prefixed (h : rec.Shape F) :
    Shapes F R (Grammar.prefixed rec) fun o => ∀ id ∈ o, F.Stands .code id := by
  refine .look fun operator => .ite (Shapes.nested ?_ fun id hid i hi => ?_) h.postfixed
  · refine .look fun start => Shapes.bump.bind fun token => ?_
    refine .bind (Q := fun o => ∀ id ∈ o, F.Stands .code id) ((h .prefixed).of_imp fun _ => trivial)
      fun operand => .yielding (.node_stands (by decide) fun hr => ?_)
    rw [among_eq]
    have hfirst : F.Fills #[] [Slot.any .typeless] := Forest.fills_empty
    exact (hfirst.typeless hr.1.2 (by simp)).add hr.2
  · cases hi
    exact hid.stands

/-- A node over an operand and a type. -/
theorem typeOperation (h : rec.Shape F) {kind : NodeKind} (hkind : kind ≠ .jumpExpression)
    (hmem : kind ∈ NodeKind.codes) {start : Nat} {expression : NodeId} {operator : TokenKind}
    (hx : R → F.Stands .code expression) :
    Shapes F R (do
      let token ← bump
      let typeRef ← rec (.typeReference none)
      Step.more <$> node kind start (among [some expression, some token, typeRef])
        (.typeOperation { expression, operator, typeRef })) fun r => F.Stands .code r.value := by
  refine Shapes.bump.bind fun token => (h.type none).bind fun type => .map ?_
  refine .node_stands ⟨hkind, hmem⟩ fun hr => ?_
  rw [among_eq]
  have hfirst : F.Fills #[] [Slot.any .typeless] := Forest.fills_empty
  exact ((hfirst.push (hx hr.1.1)).typeless hr.1.2 (by simp)).add hr.2

/-- The type of a cast stands after the code. -/
theorem castStep (h : rec.Shape F) (start : Nat) (x : NodeId) :
    Shapes F (F.Stands .code x) (castStep rec start x) fun r => F.Stands .code r.value :=
  .look fun _ => .look fun _ => .ite (h.typeOperation (by decide) (by decide) id) (.pure id)

/-- An operand with its casts is code. -/
theorem operand (h : rec.Shape F) : Shapes F R (operand rec) fun o => ∀ id ∈ o, F.Stands .code id := by
  refine .look fun start => .bind (Q := fun o => ∀ id ∈ o, F.Stands .code id)
    ((h .prefixed).of_imp fun _ => trivial) fun o => ?_
  cases o with
  | none => exact .nothing
  | some x => exact .map_some ((Shapes.repeating (h.castStep start) x).of_imp fun hr => hr.2 x rfl)

/-- A step of a climb makes code of code. -/
theorem binaryStep (h : rec.Shape F) (minPrecedence start : Nat) (x : NodeId) :
    Shapes F (F.Stands .code x) (binaryStep rec minPrecedence start x) fun r => F.Stands .code r.value := by
  refine .look fun operator => ?_
  split
  · exact .pure id
  · refine .look fun _ => .ite (.pure id) (.ite (h.typeOperation (by decide) (by decide) id) ?_)
    refine Shapes.bump.bind fun token => ?_
    refine .bind (Q := fun o => ∀ id ∈ o, F.Stands .code id) ((h (.binary _)).of_imp fun _ => trivial)
      fun right => .map ?_
    have hfills (hr : (F.Stands .code x ∧ F.Typeless token) ∧ ∀ id ∈ right, F.Stands .code id) :
        F.Fills (among [some x, some token, right])
          (Slot.any .typeless :: Slot.code.each (x :: right.toList)) := by
      rw [among_eq]
      have hfirst : F.Fills #[] [Slot.any .typeless] := Forest.fills_empty
      exact ((hfirst.push hr.1.1).typeless hr.1.2 (by simp)).add hr.2
    split
    · exact .node_stands (by decide) hfills
    · exact .node_stands (by decide) hfills

/-- What is climbed to is code. -/
theorem binary (h : rec.Shape F) (minPrecedence : Nat) :
    Shapes F R (Grammar.binary rec minPrecedence) fun o => ∀ id ∈ o, F.Stands .code id := by
  refine .look fun start => h.operand.bind fun o => ?_
  cases o with
  | none => exact .nothing
  | some x =>
    exact .map_some ((Shapes.repeating (h.binaryStep minPrecedence start) x).of_imp fun hr => hr.2 x rfl)

/-- Both sides of an assignment are code. -/
theorem assignmentOrExpression (h : rec.Shape F) :
    Shapes F R (assignmentOrExpression rec) fun o => ∀ id ∈ o, F.Stands .code id := by
  refine .look fun start => h.expression.bind fun o => ?_
  cases o with
  | none => exact .nothing
  | some target =>
    refine .look fun operator => .look fun _ => .ite (.pure And.right) ?_
    refine Shapes.bump.bind fun token => h.expression.bind fun value => ?_
    refine .yielding (.node_stands (by decide) fun hr => ?_)
    rw [among_eq]
    have hfirst : F.Fills #[] [Slot.any .typeless] := Forest.fills_empty
    exact ((hfirst.push (hr.1.1.2 _ rfl)).typeless hr.1.2 (by simp)).add hr.2

/-- Each kind of statement is code. -/
theorem anyStatement (h : rec.Shape F) :
    Shapes F R (Grammar.statement rec) fun o => ∀ id ∈ o, F.Stands .code id := by
  refine .look fun atDeclaration => .ite ?_ h.assignmentOrExpression
  exact h.declaration.mono fun o ho id hid => (ho id hid).mono (List.subset_append_left _ _)

/-- A round of productions has the shape that it relies on. -/
theorem production (h : rec.Shape F) : (production rec).Shape F
  | .expression => by
    refine Shapes.nested ((h (.binary 0)).of_imp fun _ => trivial) fun id hid i hi => ?_
    cases hi
    exact hid.stands
  | .binary minPrecedence => h.binary minPrecedence
  | .prefixed => h.prefixed
  | .typeReference limit => h.typeReference limit
  | .statement => h.anyStatement
  | .declaration => h.anyDeclaration

end Productions.Shape

/-- So have productions of any depth. -/
theorem productions_shape (F : Forest) (n : Nat) : (productions n).Shape F := by
  induction n with
  | zero => exact fun n => .nothing
  | succ n ih => exact ih.production

/-- A package has no type in it that counts. -/
theorem Shapes.packageDirective : Shapes F R packageDirective F.Plain := by
  refine .look fun start => bump.bind fun keyword => (Shapes.nameChain _ _).bind fun name => ?_
  refine (eat (by decide)).bind fun semicolon => .node_typeless (by decide) fun hr => ?_
  obtain ⟨⟨⟨-, hkeyword⟩, hname, -⟩, hsemicolon⟩ := hr
  exact typeless_add (typeless_add (by simpa using hkeyword) hname) fun id hid => (hsemicolon id hid).typeless

/-- Neither has the path of an import. -/
theorem Shapes.importName {cs : Array NodeId} (hcs : R → ∀ c ∈ cs, F.Typeless c) :
    Shapes F R (importName cs) fun r => ∀ c ∈ r.1, F.Typeless c := by
  refine .look fun _ => .look fun _ => .ite (bump.bind fun keyword => bumpName.bind fun name => ?_) (.pure hcs)
  refine .pure fun hr => typeless_add ?_ fun id hid => (hr.2 id hid).typeless
  exact typeless_add (hcs hr.1.1) fun i hi => Option.some.inj hi ▸ hr.1.2

theorem Shapes.importDirective : Shapes F R importDirective F.Plain := by
  refine .look fun start => bump.bind fun keyword => (Shapes.nameChain _ _).bind fun path => ?_
  refine (Shapes.importName fun hr => ?_).bind fun x => (eat (by decide)).bind fun semicolon => ?_
  · intro c hc
    rcases Array.mem_append.mp hc with hc | hc
    · exact typeless_add (by simpa using hr.1.2) hr.2.1 c hc
    · exact hr.2.2 c hc
  · refine .node_typeless (by decide) fun hr => ?_
    exact typeless_add hr.1.2 fun id hid => (hr.2 id hid).typeless

/-- Each step of a file adds a directive, a declaration or what is not understood. -/
theorem Productions.Shape.fileStep {rec : Productions} (h : rec.Shape F) (parts : FileParts) :
    Shapes F (F.Fills parts.children ([Slot.any .typeless] ++ Slot.declaration.each parts.declarations.toList))
      (fileStep rec parts) fun r => F.Fills r.value.children
        ([Slot.any .typeless] ++ Slot.declaration.each r.value.declarations.toList) := by
  refine .look fun k => ?_
  split
  · exact .pure id
  · exact Shapes.bump.bind fun semicolon => .pure fun hr => hr.1.typeless hr.2 (by simp)
  · exact Shapes.importDirective.bind fun directive => .pure fun hr => hr.1.plain hr.2
  · refine h.declaration.bind fun o => ?_
    -- Source that is kept as it is counts as a declaration, like what is one.
    have hpush {R : Prop} (id : NodeId) (hR : R → F.Fills parts.children
        ([Slot.any .typeless] ++ Slot.declaration.each parts.declarations.toList) ∧ F.Stands .declaration id) :
        Shapes F R (pure (.more { parts with
            children := parts.children.push id, declarations := parts.declarations.push id }))
          fun r : Step FileParts => F.Fills r.value.children
            ([Slot.any .typeless] ++ Slot.declaration.each r.value.declarations.toList) :=
      .pure fun hr => by simpa [Slot.each, Step.value] using (hR hr).1.push (hR hr).2
    cases o with
    | none => exact Shapes.unknown.bind fun id => hpush id fun hr => ⟨hr.1.1, hr.2.stands⟩
    | some id =>
      refine .bind (Q := F.Stands .declaration) (.pure fun hr => hr.2 id rfl) fun id => ?_
      exact hpush id fun hr => ⟨hr.1.1, hr.2⟩

/-- The root is that of a file. -/
theorem Productions.Shape.sourceFile {rec : Productions} (h : rec.Shape F) :
    Shapes F R (sourceFile rec) fun root => F.kind? (some root) = some (.node .sourceFile) := by
  refine .look fun atPackage => ?_
  extract_lets afterPackage
  have hafter (package : Option NodeId) : Shapes F (R ∧ ∀ id ∈ package, F.Plain id) (afterPackage package)
      fun root => F.kind? (some root) = some (.node .sourceFile) := by
    have hparts := Shapes.repeating h.fileStep { children := add #[] package }
    refine (hparts.of_imp fun hr => ?_).bind fun parts => Shapes.bump.bind fun endOfFile => .look fun s => ?_
    · simpa [Slot.each] using Forest.fills_empty.add_plain hr.2
    · exact (Shapes.node (by decide) fun hr => hr.1.2.typeless hr.2 (by simp)).mono fun root hroot => hroot.1
  exact .ite ((Shapes.map_some .packageDirective).bind hafter) (.bind .nothing hafter)

end Grammar

/-- Every node of a parsed file is shaped. -/
theorem ParsedUnit.ofSource_shaped (fileName source : String) :
    (ParsedUnit.ofSource fileName source).forest.Shaped := by
  have hrun := Grammar.runs_self (Grammar.sourceFile (Grammar.productions
    (Grammar.nestingBound (Grammar.State.ofSource fileName source).tokens.length)))
    (Grammar.State.ofSource fileName source)
  obtain ⟨-, hshaped⟩ := (Grammar.productions_shape _ _).sourceFile (R := True) hrun (Forest.PartOf.refl _)
  have hempty : (Grammar.State.ofSource fileName source).forest.size = 0 := by
    unfold Grammar.State.ofSource
    split <;> rfl
  exact fun i hi => (hshaped trivial).1 i (hempty ▸ Nat.zero_le i) hi

end KotlinTree
