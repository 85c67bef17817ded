import KotlinTree.Proofs.Grammar.Shape
import KotlinTree.Proofs.Grammar.Parameter

/-!
Names, arguments, annotations, types and parameters are shaped.
-/

namespace KotlinTree

namespace Forest.Fills

variable {F : Forest} {cs : Array NodeId} {slots : List (Option NodeId × Slot)} {o : Option NodeId} {slot : Slot}

/-- A plain node fills no slot. -/
theorem add_plain (h : F.Fills cs slots) (ho : ∀ id ∈ o, F.Plain id) : F.Fills (Grammar.add cs o) slots := by
  cases o with
  | none => exact h
  | some id => exact h.plain (ho id rfl)

/-- A node that any number of may stand there fills no further slot. -/
theorem add_any (h : F.Fills cs slots) (ho : ∀ id ∈ o, F.Stands slot id)
    (hany : Slot.any slot ∈ slots) : F.Fills (Grammar.add cs o) slots := by
  cases o with
  | none => exact h
  | some id => exact h.push_any (ho id rfl) hany

/-- A node without a type fills no further slot where such nodes may stand. -/
theorem add_typeless (h : F.Fills cs slots) (ho : ∀ id ∈ o, F.Typeless id)
    (hany : Slot.any .typeless ∈ slots) : F.Fills (Grammar.add cs o) slots := by
  cases o with
  | none => exact h
  | some id => exact h.typeless (ho id rfl) hany

/-- A node that stands in a slot fills it, and nothing fills nothing. -/
theorem add (h : F.Fills cs slots) (ho : ∀ id ∈ o, F.Stands slot id) :
    F.Fills (Grammar.add cs o) (slots ++ slot.each o.toList) := by
  cases o with
  | none => simpa [Slot.each, Grammar.add] using h
  | some id => exact h.push (ho id rfl)

end Forest.Fills

namespace Grammar

variable {F : Forest} {R : Prop}

/-- Nodes without types are still without types when one more is added. -/
theorem typeless_add {cs : Array NodeId} {o : Option NodeId} (hcs : ∀ c ∈ cs, F.Typeless c)
    (ho : ∀ id ∈ o, F.Typeless id) : ∀ c ∈ add cs o, F.Typeless c := by
  cases o with
  | none => exact hcs
  | some id => exact fun c hc => (Array.mem_push.mp hc).elim (hcs c) fun he => he ▸ ho id rfl

/-- A chain of names is made of accesses, none of which is a type. -/
theorem Shapes.nameChainStep (limit : Option Nat) (allowStar : Bool) (start : Nat)
    (x : NodeId × Nat × Array NodeId) :
    Shapes F (F.Typeless x.1 ∧ ∀ c ∈ x.2.2, F.Typeless c) (nameChainStep limit allowStar start x)
      fun r => F.Typeless r.value.1 ∧ ∀ c ∈ r.value.2.2, F.Typeless c := by
  obtain ⟨left, names, star⟩ := x
  refine .look fun atDot => .ite (.look fun next => .ite ?_ (.ite ?_ (.pure id))) (.pure id)
  · refine bump.bind fun dot => bumpName.bind fun name => ?_
    refine (node_typeless (by decide) fun h => ?_).bind fun access => ?_
    · rw [among_eq]
      exact typeless_add (by simpa [add] using ⟨h.1.1.1, h.1.2⟩) fun id hid => (h.2 id hid).typeless
    · exact .pure fun h => ⟨h.2.typeless, h.1.1.1.2⟩
  · refine bump.bind fun dot => bump.bind fun asterisk => .pure ?_
    rintro ⟨⟨⟨hleft, hstar⟩, hdot⟩, hlast⟩
    refine ⟨hleft, fun c hc => ?_⟩
    rcases Array.mem_push.mp hc with hc | rfl
    · exact (Array.mem_push.mp hc).elim (hstar c) fun he => he ▸ hdot
    · exact hlast

/-- There are only names in a chain of names. -/
theorem Shapes.nameChain (limit : Option Nat) (allowStar : Bool) :
    Shapes F R (nameChain limit allowStar) fun r =>
      (∀ id ∈ r.1, F.Typeless id) ∧ ∀ c ∈ r.2, F.Typeless c := by
  refine .look fun start => bumpName.bind fun first => ?_
  cases first with
  | none => exact .pure fun _ => by simp
  | some first =>
    have hchain := Shapes.repeating (Shapes.nameChainStep (F := F) limit allowStar start) (first, 1, #[])
    refine (hchain.of_imp fun h => ⟨(h.2 first rfl).typeless, by simp⟩).bind fun chain => ?_
    exact .pure fun h => by simpa using h.2

namespace Productions.Shape

variable {rec : Productions} {cs : Array NodeId} {slots : List (Option NodeId × Slot)}

/-- What is recurred to for a type stands where a type is due. -/
theorem type (h : rec.Shape F) (limit : Option Nat) :
    Shapes F R (rec (.typeReference limit)) fun o => ∀ id ∈ o, F.Stands .type id :=
  (h _).of_imp fun _ => trivial

/-- What is recurred to for an expression stands where code is due. -/
theorem expression (h : rec.Shape F) :
    Shapes F R (rec .expression) fun o => ∀ id ∈ o, F.Stands .code id :=
  (h _).of_imp fun _ => trivial

/-- An argument stands where an argument is due, spread or named or not. -/
theorem valueArgument (h : rec.Shape F) :
    Shapes F R (valueArgument rec) fun o => ∀ id ∈ o, F.Stands (.only .valueArgument) id := by
  refine .look fun start => .look fun atName => .look fun next => ?_
  extract_lets afterName
  have hafter (x : Option NodeId × Array NodeId) :
      Shapes F (R ∧ F.Fills x.2 [Slot.any .typeless]) (afterName x) fun o =>
        ∀ id ∈ o, F.Stands (.only .valueArgument) id := by
    refine (Shapes.eat (by decide)).bind fun spread => h.expression.bind fun value => ?_
    refine .ite .nothing (Shapes.yielding (.node_stands (by decide) ?_))
    exact fun ⟨⟨⟨_, hcs⟩, hspread⟩, hvalue⟩ => (hcs.add_plain hspread).add hvalue
  refine .ite ?_ (.bind (Q := fun x => F.Fills x.2 [Slot.any .typeless])
    (.pure fun _ => Forest.fills_empty) hafter)
  refine Shapes.bumpName.bind fun name => Shapes.bump.bind fun equals => ?_
  refine .bind (Q := fun x => F.Fills x.2 [Slot.any .typeless]) (.pure fun ⟨⟨_, hname⟩, hequals⟩ => ?_)
    fun x => (hafter x).of_imp fun hx => ⟨hx.1.1.1, hx.2⟩
  exact (Forest.fills_empty.add_plain hname).typeless hequals (by simp)

/-- Of the arguments and what is between them, only the former have types in them. -/
theorem valueArgumentStep (h : rec.Shape F) (x : Array NodeId × Array NodeId) :
    Shapes F (F.Fills x.1 [Slot.any .typeless, Slot.any (.only .valueArgument)] ∧
        ∀ c ∈ x.1, F.Typeless c ∨ c ∈ x.2) (valueArgumentStep rec x) fun r =>
      F.Fills r.value.1 [Slot.any .typeless, Slot.any (.only .valueArgument)] ∧
        ∀ c ∈ r.value.1, F.Typeless c ∨ c ∈ r.value.2 := by
  obtain ⟨children, arguments⟩ := x
  -- Whatever is no argument has no type, so it is added without being one.
  have hpush {id : NodeId} {R : Prop} (hR : R → (F.Fills children
      [Slot.any .typeless, Slot.any (.only .valueArgument)] ∧
        ∀ c ∈ children, F.Typeless c ∨ c ∈ arguments) ∧ F.Typeless id) :
      Shapes F R (pure (.more (children.push id, arguments))) fun r : Step (Array NodeId × Array NodeId) =>
        F.Fills r.value.1 [Slot.any .typeless, Slot.any (.only .valueArgument)] ∧
          ∀ c ∈ r.value.1, F.Typeless c ∨ c ∈ r.value.2 := by
    refine .pure fun hr => ?_
    obtain ⟨⟨hfills, hall⟩, hid⟩ := hR hr
    refine ⟨hfills.typeless hid (by simp), fun c hc => ?_⟩
    exact (Array.mem_push.mp hc).elim (hall c) fun he => Or.inl (he ▸ hid)
  refine .look fun k => ?_
  split
  iterate 2
    · exact .pure id
  · exact Shapes.bump.bind fun comma => hpush id
  iterate 2
    · exact Shapes.unknownToken.bind fun token => hpush fun hr => ⟨hr.1, hr.2.typeless⟩
  · refine h.valueArgument.bind fun o => ?_
    cases o with
    | none => exact Shapes.unknownToken.bind fun token => hpush fun hr => ⟨hr.1.1, hr.2.typeless⟩
    | some argument =>
      refine .pure fun ⟨⟨hfills, hall⟩, hargument⟩ => ?_
      refine ⟨hfills.push_any (hargument _ rfl) (by simp), fun c hc => ?_⟩
      rcases Array.mem_push.mp hc with hc | rfl
      · exact (hall c hc).imp_right fun hc => Array.mem_push_of_mem _ hc
      · exact Or.inr Array.mem_push_self

/-- A list of arguments holds the arguments that it says it holds. -/
theorem valueArgumentList (h : rec.Shape F) :
    Shapes F R (valueArgumentList rec) fun r => F.Stands (.arguments r.2.toList) r.1 := by
  refine .look fun start => Shapes.bump.bind fun opened => ?_
  have hlist := Shapes.repeating h.valueArgumentStep (#[opened], #[])
  refine (Shapes.withTrailingLambda (hlist.of_imp fun hr => ⟨?_, fun c hc => ?_⟩)).bind fun x => ?_
  · exact Forest.fills_first hr.2 (by simp)
  · obtain rfl := Array.mem_singleton.mp hc
    exact Or.inl hr.2
  obtain ⟨children, arguments⟩ := x
  refine (Shapes.eat (by decide)).bind fun closed => (Shapes.node (by decide) ?_).bind fun list => ?_
  · exact fun ⟨⟨_, hfills, _⟩, hclosed⟩ => hfills.add_plain hclosed
  · refine .pure fun ⟨⟨⟨_, _, hall⟩, hclosed⟩, hkind, hchildren⟩ => Or.inr fun _ => ?_
    refine ⟨Forest.isOf_only hkind, fun c hc => ?_⟩
    rw [hchildren] at hc
    cases closed with
    | none => simpa using hall c hc
    | some token =>
      refine (Array.mem_push.mp hc).elim (fun hc => by simpa using hall c hc) fun he => Or.inl ?_
      exact he ▸ (hclosed token rfl).typeless

/-- An annotation holds its name and its arguments, and its node is plain. -/
theorem annotationUse (h : rec.Shape F) : Shapes F R (annotationUse rec) F.Plain := by
  refine .look fun start => Shapes.bump.bind fun sign => (Shapes.nameChain _ _).bind fun name => ?_
  refine .look fun atColon => .look fun isAttached => ?_
  extract_lets finish afterTarget
  have hfinish {R : Prop} (cs : Array NodeId) : Shapes F R (finish cs) F.Plain := .skipped rfl
  have hafter {R : Prop} (cs : Array NodeId) : Shapes F R (afterTarget cs) F.Plain := by
    refine .look fun atParen => .look fun isAttached => .ite ?_ ?_
    · refine h.valueArgumentList.bind fun list => ?_
      exact .bind (Q := fun _ => True) (.pure fun _ => trivial) fun cs => hfinish cs
    · exact .bind (Q := fun _ => True) (.pure fun _ => trivial) fun cs => hfinish cs
  refine .ite ?_ (.bind (Q := fun _ => True) (.pure fun _ => trivial) fun cs => hafter cs)
  refine Shapes.bump.bind fun colon => (Shapes.nameChain _ _).bind fun target => ?_
  exact .bind (Q := fun _ => True) (.pure fun _ => trivial) fun cs => hafter cs

/-- Modifiers are tokens and annotations are plain, so none of the nodes collected so far has a type. -/
theorem modifierStep (h : rec.Shape F) (x : Array NodeId × List Modifier) :
    Shapes F (∀ c ∈ x.1, F.Typeless c) (modifierStep rec x) fun r => ∀ c ∈ r.value.1, F.Typeless c := by
  obtain ⟨list, found⟩ := x
  have hpush {id : NodeId} (hlist : ∀ c ∈ list, F.Typeless c) (hid : F.Typeless id) :
      ∀ c ∈ list.push id, F.Typeless c := typeless_add hlist fun i hi => Option.some.inj hi ▸ hid
  refine .look fun atSign => .ite ?_ (.look fun atModifier => .ite ?_ (.pure id))
  · exact h.annotationUse.bind fun annotation => .pure fun hr => hpush hr.1 hr.2.typeless
  · exact .look fun s => Shapes.bump.bind fun word => .pure fun hr => hpush hr.1 hr.2

/-- Modifiers are one more child, in which no type stands but in annotations. -/
theorem modifiers (h : rec.Shape F) (hcs : R → F.Fills cs slots) :
    Shapes F R (modifiers rec cs) fun r => F.Fills r.1 slots := by
  refine .look fun start => ?_
  have hlist := Shapes.repeating h.modifierStep (#[], [])
  refine (hlist.of_imp fun _ => by simp).bind fun x => .ite (.pure fun hr => hcs hr.1) ?_
  refine (Shapes.node_typeless (by decide) And.right).bind fun id => ?_
  exact .pure fun hr => (hcs hr.1.1).plain hr.2

/-- The slots of a written type. -/
abbrev typeSlots : List (Option NodeId × Slot) :=
  [Slot.any .typeless, Slot.any .type, Slot.any (.only .typeArgumentList)]

/-- The entries of a function type are types; names, colons and commas are not. -/
theorem functionTypeStep (h : rec.Shape F) (cs : Array NodeId) :
    Shapes F (F.Fills cs typeSlots) (functionTypeStep rec cs) fun r => F.Fills r.value typeSlots := by
  refine .look fun k => ?_
  split
  iterate 2
    · exact .pure id
  · exact Shapes.bump.bind fun comma => .pure fun hr => hr.1.typeless hr.2 (by simp)
  · refine .look fun next => ?_
    extract_lets afterName
    have hafter {R : Prop} (cs : Array NodeId) (hcs : R → F.Fills cs typeSlots) :
        Shapes F R (afterName cs) fun r => F.Fills r.value typeSlots := by
      refine (h.type none).bind fun o => ?_
      cases o with
      | none => exact Shapes.unknownToken.bind fun token => .pure fun hr => (hcs hr.1.1).plain hr.2
      | some parameter => exact .pure fun hr => (hcs hr.1).push_any (hr.2 _ rfl) (by simp)
    refine .ite ?_ (hafter cs id)
    refine Shapes.bumpName.bind fun name => Shapes.bump.bind fun colon => ?_
    refine .bind (Q := fun cs => F.Fills cs typeSlots) (.pure fun hr => ?_) fun cs => hafter cs And.right
    exact (hr.1.1.add_plain hr.1.2).typeless hr.2 (by simp)

/-- A function type goes on with its result, which is a type inside a type. -/
theorem functionTypeRest (h : rec.Shape F) (hcs : R → F.Fills cs typeSlots) :
    Shapes F R (functionTypeRest rec cs) fun cs => F.Fills cs typeSlots := by
  refine Shapes.bump.bind fun opened => ?_
  have hlist := Shapes.repeating h.functionTypeStep (cs.push opened)
  refine (hlist.of_imp fun hr => (hcs hr.1).typeless hr.2 (by simp)).bind fun cs => ?_
  refine (Shapes.eat (by decide)).bind fun closed => .look fun atArrow => .ite ?_ ?_
  · refine Shapes.bump.bind fun arrow => (h.type none).bind fun result => .pure fun hr => ?_
    exact ((hr.1.1.1.2.add_plain hr.1.1.2).typeless hr.1.2 (by simp)).add_any hr.2 (by simp)
  · exact .pure fun hr => hr.1.2.add_plain hr.2

/-- Each type argument is a type, besides projections and commas, which have none. -/
theorem typeArgumentStep (h : rec.Shape F) (x : Array NodeId × Array NodeId) :
    Shapes F (F.Fills x.1 [Slot.any .typeless, Slot.any .type]) (typeArgumentStep rec x) fun r =>
      F.Fills r.value.1 [Slot.any .typeless, Slot.any .type] := by
  obtain ⟨children, arguments⟩ := x
  refine .look fun k => ?_
  split
  iterate 2
    · exact .pure id
  iterate 2
    · exact Shapes.bump.bind fun token => .pure fun hr => hr.1.typeless hr.2 (by simp)
  · refine .look fun atOut => .look fun next => ?_
    extract_lets afterVariance
    have hafter {R : Prop} (cs : Array NodeId) (hcs : R → F.Fills cs [Slot.any .typeless, Slot.any .type]) :
        Shapes F R (afterVariance cs) fun r => F.Fills r.value.1 [Slot.any .typeless, Slot.any .type] := by
      refine (h.type none).bind fun o => ?_
      cases o with
      | none => exact Shapes.unknownToken.bind fun token => .pure fun hr => (hcs hr.1.1).plain hr.2
      | some argument => exact .pure fun hr => (hcs hr.1).push_any (hr.2 _ rfl) (by simp)
    refine .ite (Shapes.bump.bind fun word => ?_) (hafter _ id)
    exact .bind (Q := fun cs => F.Fills cs [Slot.any .typeless, Slot.any .type])
      (.pure fun hr => hr.1.typeless hr.2 (by simp)) fun cs => hafter cs And.right

/-- A list of type arguments is one, and says so by its kind. -/
theorem typeArgumentList (h : rec.Shape F) :
    Shapes F R (typeArgumentList rec) fun r => F.Stands (.only .typeArgumentList) r.1 := by
  refine .look fun start => Shapes.bump.bind fun opened => ?_
  have hlist := Shapes.repeating h.typeArgumentStep (#[opened], #[])
  refine (hlist.of_imp fun hr => Forest.fills_empty.typeless hr.2 (by simp)).bind fun x => ?_
  refine (Shapes.eat (by decide)).bind fun closed => ?_
  refine (Shapes.node_stands (by decide) fun hr => ?_).bind fun list => .pure And.right
  exact hr.1.2.add_plain hr.2

/-- A question mark that follows a type is plain. -/
theorem nullabilityStep (x : Array NodeId × Bool) :
    Shapes F (F.Fills x.1 typeSlots) (nullabilityStep x) fun r => F.Fills r.value.1 typeSlots := by
  obtain ⟨children, isNullable⟩ := x
  refine .look fun atQuestion => .look fun startsLine => .ite ?_ (.pure id)
  exact Shapes.bump.bind fun question => .pure fun hr => hr.1.typeless hr.2 (by simp)

/-- A type that has been named ends with its question marks, and is a type or nothing. -/
theorem finishType {start : Nat} {name : Option NodeId} {typeArguments : Array NodeId}
    (hcs : R → F.Fills cs typeSlots) :
    Shapes F R (finishType start cs name typeArguments) fun o => ∀ id ∈ o, F.Stands .type id := by
  have hmarked := Shapes.repeating (F := F) nullabilityStep (cs, false)
  refine (hmarked.of_imp hcs).bind fun x => Shapes.yielding (.node_stands (by decide) ?_)
  exact And.right

/-- A type begins with its name, and ends with its arguments and question marks. -/
theorem namedType (h : rec.Shape F) {limit : Option Nat} {start : Nat} (hcs : R → F.Fills cs typeSlots) :
    Shapes F R (namedType rec limit start cs) fun o => ∀ id ∈ o, F.Stands .type id := by
  refine (Shapes.nameChain _ _).bind fun chain => .look fun atLess => .look fun startsLine => ?_
  extract_lets afterArguments
  have hafter {R : Prop} (x : Array NodeId × Array NodeId) (hx : R → F.Fills x.1 typeSlots) :
      Shapes F R (afterArguments x) fun o => ∀ id ∈ o, F.Stands .type id := by
    refine .look fun atDot => .look fun next => .ite ?_ (finishType hx)
    refine Shapes.bump.bind fun dot => ?_
    exact (h.functionTypeRest fun hr => (hx hr.1).typeless hr.2 (by simp)).bind fun cs => finishType And.right
  have hnamed (hr : R ∧ (∀ id ∈ chain.1, F.Typeless id) ∧ ∀ c ∈ chain.2, F.Typeless c) :
      F.Fills (add cs chain.1) typeSlots :=
    (hcs hr.1).add_typeless hr.2.1 (by simp)
  refine .ite (h.typeArgumentList.bind fun listed => ?_) ?_
  · exact .bind (Q := fun x => F.Fills x.1 typeSlots) (.pure fun hr => (hnamed hr.1).push_any hr.2 (by simp))
      fun x => hafter x And.right
  · exact .bind (Q := fun x => F.Fills x.1 typeSlots) (.pure hnamed) fun x => hafter x And.right

/-- After its annotations, a type is a function's, one in parentheses or a named one. -/
theorem typeAfterAnnotations (h : rec.Shape F) {limit : Option Nat} {start : Nat}
    (hcs : R → F.Fills cs typeSlots) :
    Shapes F R (typeAfterAnnotations rec limit start cs) fun o => ∀ id ∈ o, F.Stands .type id := by
  refine .look fun atSuspend => .look fun next => ?_
  extract_lets afterSuspend
  have hafter {R : Prop} (cs : Array NodeId) (hcs : R → F.Fills cs typeSlots) :
      Shapes F R (afterSuspend cs) fun o => ∀ id ∈ o, F.Stands .type id := by
    refine .look fun atParen => .ite ?_ (.look fun atName => .ite (h.namedType hcs) .nothing)
    exact (h.functionTypeRest hcs).bind fun cs => finishType And.right
  refine .ite (Shapes.bump.bind fun word => ?_) ?_
  · exact .bind (Q := fun cs => F.Fills cs typeSlots) (.pure fun hr => (hcs hr.1).typeless hr.2 (by simp))
      fun cs => hafter cs And.right
  · exact .bind (Q := fun cs => F.Fills cs typeSlots) (.pure hcs) fun cs => hafter cs And.right

/-- A type reference stands where a type is due, if there is one. -/
theorem typeReference (h : rec.Shape F) (limit : Option Nat) :
    Shapes F R (typeReference rec limit) fun o => ∀ id ∈ o, F.Stands .type id := by
  refine .look fun start => Shapes.nested (.look fun atSign => ?_) fun id hid i hi => ?_
  · have hfound : Shapes F R (Grammar.modifiers rec #[]) fun r => F.Fills r.1 typeSlots :=
      h.modifiers fun _ => Forest.fills_empty
    refine .ite (hfound.bind fun found => ?_) ?_
    · exact .bind (Q := fun cs => F.Fills cs typeSlots) (.pure And.right)
        fun cs => h.typeAfterAnnotations And.right
    · exact .bind (Q := fun cs => F.Fills cs typeSlots) (.pure fun _ => Forest.fills_empty)
        fun cs => h.typeAfterAnnotations And.right
  · cases hi
    exact hid.stands

/-- After a colon, the type that was parsed fills the next slot. -/
theorem typeAfterColon (h : rec.Shape F) (hcs : R → F.Fills cs slots) :
    Shapes F R (typeAscription rec cs) fun r => F.Fills r.1 (slots ++ Slot.type.each r.2.toList) := by
  refine .ifAt (fun colon => (h.type none).bind fun type => .pure fun hr => ?_) (.pure fun hr => ?_)
  · exact ((hcs hr.1.1).plain (hr.1.2.plain (by decide))).add hr.2
  · simpa [Slot.each] using hcs hr

/-- After an equals sign, the value that was parsed fills the next slot. -/
theorem assignedValue (h : rec.Shape F) (hcs : R → F.Fills cs slots) :
    Shapes F R (assignedValue rec cs) fun r => F.Fills r.1 (slots ++ Slot.code.each r.2.toList) := by
  refine .ifAt (fun equals => h.expression.bind fun value => .pure fun hr => ?_) (.pure fun hr => ?_)
  · exact ((hcs hr.1.1).plain (hr.1.2.plain (by decide))).add hr.2
  · simpa [Slot.each] using hcs hr

/-- A parameter holds its name, its type and its value, each in a slot of its own. -/
theorem parameter (h : rec.Shape F) :
    Shapes F R (parameter rec) fun o => ∀ id ∈ o, F.Stands (.only .parameter) id := by
  refine .look fun start => ?_
  have hfound : Shapes F R (Grammar.modifiers rec #[]) fun r => F.Fills r.1 [Slot.any .typeless] :=
    h.modifiers fun _ => Forest.fills_empty
  refine hfound.bind fun found => ?_
  refine .look fun isVar => .look fun isVal => ?_
  extract_lets afterKeyword
  have hafter {R : Prop} (keyword : Option NodeId) (hR : R → F.Fills found.1 [Slot.any .typeless] ∧
      ∀ id ∈ keyword, F.Typeless id) :
      Shapes F R (afterKeyword keyword) fun o => ∀ id ∈ o, F.Stands (.only .parameter) id := by
    refine Shapes.bumpName.bind fun name => .ite .nothing ?_
    refine (h.typeAfterColon fun hr => ((hR hr.1).1.add_typeless (hR hr.1).2 (by simp)).add_plain hr.2).bind
      fun typed => ?_
    refine (h.assignedValue And.right).bind fun valued => Shapes.yielding (.node_stands (by decide) ?_)
    exact And.right
  refine .ite (.bind (Q := fun o => ∀ id ∈ o, F.Typeless id) (.map_some .bump) fun keyword => ?_) ?_
  · exact hafter keyword fun hr => ⟨hr.1.2, hr.2⟩
  · exact .bind (Q := fun o => ∀ id ∈ o, F.Typeless id) .nothing
      fun keyword => hafter keyword fun hr => ⟨hr.1.2, hr.2⟩

/-- Parameters have slots of their own. -/
theorem parameterStep (h : rec.Shape F) (hany : Slot.any .typeless ∈ slots) (x : Array NodeId × Array NodeId) :
    Shapes F (F.Fills x.1 (slots ++ (Slot.only .parameter).each x.2.toList)) (parameterStep rec x) fun r =>
      F.Fills r.value.1 (slots ++ (Slot.only .parameter).each r.value.2.toList) := by
  obtain ⟨children, parameters⟩ := x
  refine .look fun k => ?_
  split
  iterate 3
    · exact .pure id
  · exact Shapes.bump.bind fun comma => .pure fun hr => hr.1.typeless hr.2 (List.mem_append_left _ hany)
  · refine h.parameter.bind fun o => ?_
    cases o with
    | none => exact Shapes.unknownToken.bind fun token => .pure fun hr => hr.1.1.plain hr.2
    | some parameter =>
      refine .pure fun hr => ?_
      have hpushed := hr.1.push (hr.2 _ rfl)
      simpa [Slot.each, Step.value] using hpushed

/-- The parameters that are listed fill slots in their order. -/
theorem parameterList (h : rec.Shape F) (hany : Slot.any .typeless ∈ slots) (hcs : R → F.Fills cs slots) :
    Shapes F R (parameterList rec cs) fun r =>
      F.Fills r.1 (slots ++ (Slot.only .parameter).each r.2.toList) := by
  refine Shapes.bump.bind fun opened => ?_
  have hlist := Shapes.repeating (h.parameterStep hany) (cs.push opened, #[])
  refine (hlist.of_imp fun hr => ?_).bind fun x => ?_
  · simpa [Slot.each] using (hcs hr.1).typeless hr.2 hany
  · exact (Shapes.eat (by decide)).bind fun closed => .pure fun hr => hr.1.2.add_plain hr.2

/-- Without a list of parameters, none of the slots is filled. -/
theorem parametersIfAny (h : rec.Shape F) (hany : Slot.any .typeless ∈ slots) (hcs : R → F.Fills cs slots) :
    Shapes F R (parametersIfAny rec cs) fun r =>
      F.Fills r.1 (slots ++ (Slot.only .parameter).each r.2.toList) := by
  refine .look fun atParen => .ite (h.parameterList hany hcs) (.pure fun hr => ?_)
  simpa [Slot.each] using hcs hr

/-- A variance is a token, and has no type. -/
theorem varianceStep (cs : Array NodeId) :
    Shapes F (F.Fills cs [Slot.any .typeless]) (varianceStep cs) fun r =>
      F.Fills r.value [Slot.any .typeless] := by
  refine .look fun atIn => .look fun atOut => .look fun atReified => .look fun next => .ite ?_ (.pure id)
  exact Shapes.bump.bind fun word => .pure fun hr => hr.1.typeless hr.2 (by simp)

/-- A type parameter is a parameter with its bound, which is a type. -/
theorem typeParameter (h : rec.Shape F) :
    Shapes F R (typeParameter rec) fun o => ∀ id ∈ o, F.Stands (.only .parameter) id := by
  refine .look fun start => ?_
  have hvariance := Shapes.repeating (F := F) varianceStep #[]
  refine (hvariance.of_imp fun _ => Forest.fills_empty).bind fun cs => Shapes.bumpName.bind fun name => ?_
  cases name with
  | none => exact .nothing
  | some name =>
    refine (h.typeAfterColon fun hr => hr.1.2.plain (hr.2 _ rfl)).bind fun typed => ?_
    refine Shapes.yielding (.node_stands (by decide) fun hr => hr.2.mono ?_)
    simp [NodeData.slots, Slot.each]

/-- Each entry is a type parameter, besides commas and what is not understood, which have no types. -/
theorem typeParameterStep (h : rec.Shape F) (cs : Array NodeId) :
    Shapes F (F.Fills cs [Slot.any .typeless, Slot.any (.only .parameter)]) (typeParameterStep rec cs)
      fun r => F.Fills r.value [Slot.any .typeless, Slot.any (.only .parameter)] := by
  refine .look fun k => ?_
  split
  iterate 2
    · exact .pure id
  · exact Shapes.bump.bind fun comma => .pure fun hr => hr.1.typeless hr.2 (by simp)
  · refine h.typeParameter.bind fun o => ?_
    cases o with
    | none => exact Shapes.unknownToken.bind fun token => .pure fun hr => hr.1.1.plain hr.2
    | some parameter => exact .pure fun hr => hr.1.push_any (hr.2 _ rfl) (by simp)

/-- A list of type parameters is one, and says so by its kind. -/
theorem typeParametersIfAny (h : rec.Shape F) :
    Shapes F R (typeParametersIfAny rec) fun o => ∀ id ∈ o, F.Stands (.only .typeParameterList) id := by
  refine .look fun atLess => .ite (.look fun start => Shapes.bump.bind fun opened => ?_) .nothing
  have hlist := Shapes.repeating h.typeParameterStep #[opened]
  refine (hlist.of_imp fun hr => Forest.fills_empty.typeless hr.2 (by simp)).bind fun cs => ?_
  refine (Shapes.eat (by decide)).bind fun closed => Shapes.yielding (.node_stands (by decide) fun hr => ?_)
  exact hr.1.2.add_plain hr.2

end Productions.Shape

end Grammar

end KotlinTree
