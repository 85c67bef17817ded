import KotlinTree.Attribution.Declaration
import KotlinTree.Proofs.Attribution.Sound.Name

/-!
Declarations and source that is kept as it is leave what is known sound.
-/

namespace KotlinTree.Attribution.Setting

variable {s : Setting} {names : String → Prop} {rec : Tasks}

theorem block_keeps (h : rec.Sound s names) (hc : s.Closed names) (id : NodeId) :
    Keeps s names (s.block rec id) (Ty.Within names) := by
  unfold block
  split
  · refine (Keeps.inScope LocalScope.within_empty (Keeps.through (fun _ _ x _ => h.statement _)
      (Ty.within_of hc.unit))).bind fun last hlast => ?_
    exact (Keeps.recordType id hlast).seq (.pure hlast)
  · exact .pure Ty.within_unknown

theorem parameter_keeps (h : rec.Sound s names) (hc : s.Closed names) (property : Option Owner)
    (id : NodeId) : Keeps s names (s.parameter rec property id) (Ty.Within names) := by
  unfold parameter
  split
  · rename_i parameter _
    refine (typeUse_keeps hc _).bind fun written hwritten => ?_
    -- Any number of arguments come as an array.
    have htype : Ty.Within names
        (if parameter.modifiers.contains .varargWord then .of "kotlin.Array" else written) := by
      split
      · exact Ty.within_of hc.array
      · exact hwritten
    refine (h.typeOf _).seq ((Keeps.declareLocal _ htype).seq ?_)
    dsimp only
    split
    · refine (Keeps.recordVariable ?_).seq ((Keeps.recordType id htype).seq (.pure htype))
      split <;> exact htype
    · exact (Keeps.recordType id htype).seq (.pure htype)
  · exact .pure Ty.within_unknown

theorem parameters_keeps (h : rec.Sound s names) (hc : s.Closed names) (property : Option Owner)
    (ids : Array NodeId) : Keeps s names (s.parameters rec property ids) fun _ => True :=
  .forM fun x _ => (parameter_keeps h hc property x).discard

theorem body_keeps (h : rec.Sound s names) (hc : s.Closed names) (d : FunctionDeclaration) :
    Keeps s names (s.body rec d) (Ty.Within names) := by
  unfold body
  split
  · exact .pure Ty.within_unknown
  · split
    · exact h.typeOf _
    · exact (block_keeps h hc _).seq (.pure (Ty.within_of hc.unit))

theorem delegation_keeps (h : rec.Sound s names) (id : NodeId) (body : Option NodeId) :
    Keeps s names (s.delegation rec id body) fun _ => True := by
  unfold delegation
  split
  · exact h.types _
  · exact .pure trivial

/-- What an extension is applied to has the type that is written for it, and no superclass. -/
theorem ofReceiver_within {receiver : Option Ty} (hr : ∀ t, receiver = some t → t.Within names)
    (name : String) :
    ∀ f, receiver.map (Frame.ofReceiver · name) = some f → f.Within names := by
  intro f hf
  obtain ⟨t, ht, rfl⟩ := Option.map_eq_some_iff.mp hf
  exact ⟨hr t ht, Ty.within_unknown⟩

theorem function_keeps (h : rec.Sound s names) (hc : s.Closed names) (owner : Owner)
    (id : NodeId) : Keeps s names (s.function rec owner id) fun _ => True := by
  unfold function
  split
  · rename_i d _
    refine .withTypeParameters _ ?_
    refine (typeUse?_keeps hc _).bind fun receiver hreceiver => ?_
    refine (typeUse?_keeps hc _).bind fun result hresult => ?_
    extract_lets rest
    -- What follows is the same, whether the function has been declared in a block before or not.
    have hrest (u : Unit) : Keeps s names (rest u) fun _ => True := by
      refine (Keeps.inScope LocalScope.within_empty ((parameters_keeps h hc none _).seq
        (Keeps.inFrame (ofReceiver_within hreceiver _)
          ((delegation_keeps h id _).seq (body_keeps h hc d))))).bind fun value hvalue => ?_
      split
      · split
        · exact .declareLocalFunction _ hvalue
        · split
          · split
            · exact .learn _ _ hvalue
            · exact .pure trivial
          · exact .pure trivial
      · exact .pure trivial
    split
    · exact (Keeps.declareLocalFunction _ (Ty.within_getD hresult Ty.within_unknown)).bind
        fun u _ => hrest u
    · exact hrest ()
  · exact .pure trivial

theorem declareProperty_keeps (owner : Owner) (isWritten : Bool) (name : String) {type : Ty}
    (ht : type.Within names) (node : NodeId) :
    Keeps s names (declareProperty owner isWritten name type node) fun _ => True := by
  unfold declareProperty
  split
  · split
    · exact (Keeps.learn _ _ ht).seq (.recordVariable ht)
    · exact .recordVariable ht
  · exact .recordVariable ht
  · exact (Keeps.declareLocal name ht).seq (.recordVariable ht)

theorem accessor_keeps (h : rec.Sound s names) (hc : s.Closed names) {type : Ty}
    (ht : type.Within names) (id : NodeId) :
    Keeps s names (s.accessor rec type id) fun _ => True := by
  unfold accessor
  split
  · rename_i d _
    refine .inScope LocalScope.within_empty ((Keeps.declareLocal _ ht).seq ?_)
    refine (Keeps.forM fun x _ => ?_).seq ?_
    · refine (parameter_keeps h hc none x).bind fun t _ => ?_
      split
      · split
        · exact .declareLocal _ ht
        · exact .pure trivial
      · exact .pure trivial
    · exact (typeUse_keeps hc _).seq (body_keeps h hc d).discard
  · exact .pure trivial

theorem destructuring_keeps (id : NodeId) :
    Keeps s names (s.destructuring id) fun _ => True :=
  .forM fun _ _ => (Keeps.declareLocal _ Ty.within_unknown).seq (.recordVariable Ty.within_unknown)

theorem property_keeps (h : rec.Sound s names) (hc : s.Closed names) (owner : Owner)
    (id : NodeId) : Keeps s names (s.property rec owner id) fun _ => True := by
  unfold property
  split
  · rename_i d _
    refine .withTypeParameters _ ?_
    refine (typeUse?_keeps hc _).bind fun receiver hreceiver => ?_
    refine (typeUse?_keeps hc _).bind fun written hwritten => ?_
    refine Keeps.bind (P := Ty.Within names) ?_ fun type htype => ?_
    · refine .inFrame (ofReceiver_within hreceiver _) ?_
      refine (h.typeOf _).bind fun initial hinitial => ?_
      have htype : (written.getD initial).Within names := Ty.within_getD hwritten hinitial
      exact (h.typeOf _).seq ((Keeps.forM fun x _ => accessor_keeps h hc htype x).seq (.pure htype))
    · split
      · exact declareProperty_keeps _ _ _ htype id
      · exact destructuring_keeps id
  · exact .pure trivial

theorem supertype_keeps (h : rec.Sound s names) (hc : s.Closed names) (id : NodeId) :
    Keeps s names (s.supertype rec id) (Ty.Within names) := by
  unfold supertype
  split
  · refine (typeUse_keeps hc _).bind fun t ht => ?_
    exact (Keeps.forM fun x _ => argument_keeps h x).seq ((h.typeOf _).seq (.pure ht))
  · exact .pure Ty.within_unknown

theorem members_keeps (h : rec.Sound s names) (owner : Owner) {constructorScope : LocalScope}
    (hscope : constructorScope.Within names) (ids : Array NodeId) :
    Keeps s names (s.members rec owner constructorScope ids) fun _ => True := by
  unfold members
  refine .through (fun _ _ x _ => ?_) trivial
  have hdeclaration := h.declaration owner x
  split
  · exact .inScope hscope hdeclaration
  · exact .inScope hscope hdeclaration
  · exact hdeclaration

theorem firstSuperclass_within (hc : s.Closed names) {supertypes : List Ty}
    (h : ∀ t ∈ supertypes, t.Within names) : (firstSuperclass s.env supertypes).Within names :=
  Ty.within_getD (fun t ht => h t (List.mem_of_find?_eq_some ht)) (Ty.within_of hc.any)

/-- A class is known by its name, or by its supertypes. -/
theorem classTypes_within (hc : s.Closed names) {name : Option String} {supertypes : List Ty}
    (hname : ∀ n, name = some n → names n) (h : ∀ t ∈ supertypes, t.Within names) :
    (s.classTypes name supertypes).1.Within names ∧
      (s.classTypes name supertypes).2.1.Within names ∧
        (s.classTypes name supertypes).2.2.Within names := by
  cases name with
  | some name =>
    refine ⟨Ty.within_of (hname name rfl), Ty.within_of (hname name rfl), ?_⟩
    refine firstSuperclass_within hc fun t ht => ?_
    obtain ⟨above, habove, rfl⟩ := List.mem_map.mp ht
    exact Ty.within_of (hc.supertype name above habove)
  | none =>
    refine ⟨Ty.within_unknown, ?_, firstSuperclass_within hc h⟩
    refine Ty.within_getD (fun t ht => ?_) (Ty.within_of hc.any)
    exact h t (List.mem_of_head? (Option.eq_some_of_filter_eq_some ht))

theorem classUse_keeps (h : rec.Sound s names) (hc : s.Closed names) (id : NodeId) :
    Keeps s names (s.classUse rec id) (Ty.Within names) := by
  unfold classUse
  split
  · rename_i declaration _
    refine .withTypeParameters _ (.inClass _ ?_)
    have hname : ∀ n, s.unit.classNames.lookup id = some n → names n := fun n hn =>
      hc.className id n (mem_of_lookup hn)
    refine (Keeps.pushScope LocalScope.within_empty).seq ?_
    extract_lets rest
    -- What follows is the same, whether there is a constructor with parameters or not.
    have hrest (u : Unit) : Keeps s names (rest u) (Ty.Within names) := by
      refine (Keeps.mapM fun x _ => supertype_keeps h hc x).bind fun supertypes hsupertypes => ?_
      refine Keeps.popScope.bind fun scope hscope => ?_
      obtain ⟨htype, hvalue, hsuperclass⟩ := classTypes_within hc hname hsupertypes
      refine (Keeps.inFrame ?_ (members_keeps h _ hscope _)).seq (.pure hvalue)
      intro f hf
      cases hf
      exact ⟨htype, hsuperclass⟩
    split
    · exact (parameters_keeps h hc _ _).bind fun u _ => hrest u
    · exact hrest ()
  · exact .pure Ty.within_unknown

theorem keptSource_keeps (h : rec.Sound s names) (hc : s.Closed names) (id : NodeId) :
    Keeps s names (s.keptSource rec id) fun _ => True := by
  refine .forM fun child _ => ?_
  split
  · exact h.declaration .block child
  · exact h.declaration .block child
  · exact h.declaration .block child
  · exact h.declaration .block child
  · exact (typeUse_keeps hc _).discard
  · exact (h.typeOf _).discard
  · exact .pure trivial

theorem declaration_keeps (h : rec.Sound s names) (hc : s.Closed names) (owner : Owner)
    (id : NodeId) : Keeps s names (s.declaration rec owner id) fun _ => True := by
  unfold declaration
  split
  · exact (classUse_keeps h hc id).discard
  · exact (classUse_keeps h hc id).discard
  · exact function_keeps h hc owner id
  · exact function_keeps h hc owner id
  · exact property_keeps h hc owner id
  · exact .forM fun x _ => (block_keeps h hc x).discard
  · exact keptSource_keeps h hc id
  · exact .pure trivial

end KotlinTree.Attribution.Setting
