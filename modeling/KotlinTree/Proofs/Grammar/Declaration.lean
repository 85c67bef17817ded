import KotlinTree.Grammar.Declaration
import KotlinTree.Proofs.Grammar.Body

/-!
Functions, properties and constructors make trees of all that they take, and so do declarations of
every kind.
-/

namespace KotlinTree.Grammar

section
variable {rec : Productions} {s₀ s s' : State} {id : NodeId} {o : Option NodeId}
  {cs cs' xs : Array NodeId} {start : Nat} {found : List Modifier}

theorem cosmetic_markNullable : Cosmetic markNullable := by
  refine ⟨?_, ?_, ?_, ?_, ?_, ?_⟩
  all_goals
    intro n
    unfold markNullable
    split
    · rename_i ht
      simp only [ht]
      try first | rfl | exact ⟨rfl, rfl, rfl, rfl, rfl, rfl, rfl, rfl, rfl, rfl, rfl, rfl⟩
    · first | rfl | exact .refl _

theorem receiverIfAny_adds (hr : rec.Sound) (h : Runs (receiverIfAny rec cs) s (cs', o) s') :
    Adds s cs o.toList s' cs' := by
  unfold receiverIfAny at h
  obtain ⟨-, h⟩ | ⟨-, h⟩ := runs_ite.mp (runs_bind_get.mp h)
  · obtain ⟨he, rfl⟩ := runs_pure.mp h
    cases he
    exact Adds.refl _ _
  · obtain ⟨receiver, s₁, ht, h⟩ := runs_bind.mp h
    have ht := hr.type ht
    obtain ⟨-, h⟩ | ⟨-, h⟩ := runs_ite.mp (runs_bind_isAt.mp h)
    · obtain ⟨point, s₂, hb, h⟩ := runs_bind.mp h
      obtain ⟨⟨⟩, s₃, hc, h⟩ := runs_bind.mp h
      obtain ⟨he, rfl⟩ := runs_pure.mp h
      cases he
      have hb := bump_makes hb
      cases o with
      | none =>
        obtain ⟨-, rfl⟩ := runs_pure.mp hc
        exact (((Adds.refl s cs).add ht).push hb).mono (List.nil_sublist _)
      | some id =>
        -- The receiver is marked when the point after it has been taken.
        obtain ⟨q, rfl, hq⟩ := makesIfAny_some_iff.mp ht
        obtain ⟨r, rfl, hr⟩ := hb
        have hqr := (hq.trans hr).change (List.mem_append_left _ (List.mem_singleton_self q))
          cosmetic_markNullable hc
        have hlisted := ((Lists.refl cs).push q.root).push r.root
        refine ⟨⟨[q] ++ [r], ?_, (covers_root q).left _, hqr⟩, hlisted.mono ?_⟩
        · rw [roots_append, ← Array.append_assoc]
          simp [add]
        · exact (List.sublist_append_left _ _).subperm
    · obtain ⟨dot, s₂, hd, h⟩ := runs_bind.mp h
      obtain ⟨he, rfl⟩ := runs_pure.mp h
      cases he
      exact (((Adds.refl s cs).add ht).add (eat_yields hd).ifAny).mono (by simp)

theorem constraintStep_appends (hr : rec.Sound) {r : Step (Array NodeId)}
    (h : Runs (constraintStep rec cs) s r s') : Appends s cs [] s' r.value := by
  unfold constraintStep at h
  obtain ⟨name, s₁, hn, h⟩ := runs_bind.mp h
  obtain ⟨⟨children, type⟩, s₂, ht, h⟩ := runs_bind.mp h
  have hname := (Appends.refl s cs).add (bumpName_yields hn).ifAny
  have ha := (hname.trans (typeAscription_adds hr ht).1.appends).mono (List.nil_subset _)
  obtain ⟨-, h⟩ | ⟨-, h⟩ := runs_ite.mp h
  · obtain ⟨rfl, rfl⟩ := runs_pure.mp h
    exact ha
  · obtain ⟨comma, s₃, hc, h⟩ := runs_bind.mp h
    have hc := eat_yields hc
    cases comma with
    | some comma =>
      obtain ⟨rfl, rfl⟩ := runs_pure.mp h
      exact (ha.push hc.makes).mono (List.nil_subset _)
    | none =>
      obtain ⟨rfl, rfl⟩ := runs_pure.mp h
      rw [hc.eq_of_none]
      exact ha

theorem whereClauseIfAny_appends (hr : rec.Sound) (h : Runs (whereClauseIfAny rec cs) s cs' s') :
    Appends s cs [] s' cs' := by
  unfold whereClauseIfAny at h
  obtain ⟨-, h⟩ | ⟨-, h⟩ := runs_ite.mp (runs_bind_isAt.mp h)
  · obtain ⟨keyword, s₁, hb, h⟩ := runs_bind.mp h
    have hl := runs_repeating_appends (fun _ _ _ _ => constraintStep_appends hr) h
    exact (((bump_makes hb).appends cs).trans hl).mono (List.nil_subset _)
  · obtain ⟨rfl, rfl⟩ := runs_pure.mp h
    exact Appends.refl _ _

theorem functionBody_adds (hr : rec.Sound) {isExpression : Bool}
    (h : Runs (functionBody rec cs) s (cs', o, isExpression) s') :
    Adds s cs o.toList s' cs' := by
  unfold functionBody at h
  obtain ⟨-, h⟩ | ⟨-, h⟩ := runs_ite.mp (runs_bind_isAt.mp h)
  · obtain ⟨body, s₁, hb, h⟩ := runs_bind.mp h
    obtain ⟨he, rfl⟩ := runs_pure.mp h
    cases he
    exact (block_makes hr hb).adds cs
  · obtain ⟨-, h⟩ | ⟨-, h⟩ := runs_ite.mp (runs_bind_isAt.mp h)
    · obtain ⟨equals, s₁, hb, h⟩ := runs_bind.mp h
      obtain ⟨body, s₂, hv, h⟩ := runs_bind.mp h
      obtain ⟨he, rfl⟩ := runs_pure.mp h
      cases he
      have ha := ((bump_makes hb).adds cs).add (hr.expression hv).ifAny
      exact ha.mono (List.sublist_append_right _ _)
    · obtain ⟨he, rfl⟩ := runs_pure.mp h
      cases he
      exact Adds.refl _ _

theorem propertyName_adds (h : Runs (propertyName cs) s (cs', o) s') :
    Adds s cs o.toList s' cs' := by
  unfold propertyName at h
  obtain ⟨-, h⟩ | ⟨-, h⟩ := runs_ite.mp (runs_bind_isAt.mp h)
  · obtain ⟨kept, s₁, hk, h⟩ := runs_bind.mp h
    obtain ⟨he, rfl⟩ := runs_pure.mp h
    cases he
    exact ((unknown_makes hk).adds cs).mono (List.nil_sublist _)
  · obtain ⟨name, s₁, hn, h⟩ := runs_bind.mp h
    obtain ⟨he, rfl⟩ := runs_pure.mp h
    cases he
    exact (Adds.refl s cs).add (bumpName_yields hn).ifAny

theorem propertyValue_adds (hr : rec.Sound) (h : Runs (propertyValue rec cs) s (cs', o) s') :
    Adds s cs o.toList s' cs' ∧ ∀ id, o = some id → s'.forest.Follows .equals cs' id := by
  unfold propertyValue at h
  obtain ⟨-, h⟩ | ⟨-, h⟩ := runs_ite.mp (runs_bind_isAt.mp h)
  · obtain ⟨word, s₁, hb, h⟩ := runs_bind.mp h
    obtain ⟨object, s₂, hv, h⟩ := runs_bind.mp h
    obtain ⟨he, rfl⟩ := runs_pure.mp h
    cases he
    have ha := ((bump_makes hb).adds cs).add (hr.expression hv).ifAny
    exact ⟨ha.mono (List.nil_sublist _), fun _ he => absurd he (Option.not_mem_none _)⟩
  · exact assignedValue_adds hr h

theorem constructorCall_appends (hr : rec.Sound) (h : Runs (constructorCall rec cs) s cs' s') :
    Appends s cs [] s' cs' := by
  unfold constructorCall at h
  obtain ⟨-, h⟩ | ⟨-, h⟩ := runs_ite.mp (runs_bind_isAt.mp h)
  · obtain ⟨colon, s₁, hb, h⟩ := runs_bind.mp h
    obtain ⟨called, s₂, hw, h⟩ := runs_bind.mp h
    obtain ⟨rfl, rfl⟩ := runs_pure.mp h
    obtain ⟨t, he, rfl⟩ := runs_withTrailingLambda hw
    have ha := ((bump_makes hb).appends cs).add (hr.expression he).braces.ifAny
    exact ha.mono (List.nil_subset _)
  · obtain ⟨rfl, rfl⟩ := runs_pure.mp h
    exact Appends.refl _ _

theorem functionDeclaration_makes (hr : rec.Sound) (ha : Appends s₀ #[] [] s cs)
    (h : Runs (functionDeclaration rec start cs found) s id s') : Makes s₀ id s' := by
  unfold functionDeclaration at h
  obtain ⟨keyword, s₁, hk, h⟩ := runs_bind.mp h
  obtain ⟨typeParameters, s₂, ht, h⟩ := runs_bind.mp h
  obtain ⟨⟨front, receiver⟩, s₃, hrec, h⟩ := runs_bind.mp h
  obtain ⟨name, s₄, hn, h⟩ := runs_bind.mp h
  obtain ⟨⟨named, parameters⟩, s₅, hp, h⟩ := runs_bind.mp h
  obtain ⟨⟨typed, returnType⟩, s₆, hret, h⟩ := runs_bind.mp h
  obtain ⟨constrained, s₇, hw, h⟩ := runs_bind.mp h
  obtain ⟨⟨children, body, isExpression⟩, s₈, hb, h⟩ := runs_bind.mp h
  rw [append_among] at hrec
  have hkeyword := (ha.adds.push (bump_makes hk)).add (typeParametersIfAny_yields hr ht).ifAny
  have hrec := receiverIfAny_adds hr hrec
  have hlists := parametersIfAny_areParameters hr hp
  have hp := parametersIfAny_adds hr hp
  obtain ⟨hret, -⟩ := typeAscription_adds hr hret
  have hw := (whereClauseIfAny_appends hr hw).adds
  have hb := functionBody_adds hr hb
  have hne : front ≠ #[] := hrec.ne_empty (by simp)
  have hname := (hkeyword.trans hrec).add (bumpName_yields hn).ifAny
  have hrest := (hret.trans hw).trans hb
  have hall := (hname.trans hp).trans hrest
  refine hall.node_of_tells h ((hrest.areParameters hlists).tells rfl) ?_ rfl rfl ?_ ?_
  · exact hb.ne_empty (hw.ne_empty (hret.ne_empty (hp.ne_empty (by simp [hne]))))
  · simp only [NodeData.parts]
    grind
  · -- The name between the receiver and the parameters is passed over.
    have hskip := (List.sublist_append_right name.toList
      (parameters.toList ++ (returnType.toList ++ body.toList))).append_left receiver.toList
    simpa [NodeData.direct] using
      hskip.trans ((List.sublist_append_right typeParameters.toList _).cons keyword)

theorem accessor_makes (hr : rec.Sound) (h : Runs (accessor rec) s id s') : Makes s id s' := by
  unfold accessor at h
  obtain ⟨⟨children, found⟩, s₁, hm, h⟩ := runs_bind.mp (runs_bind_place.mp h)
  obtain ⟨list, rfl, hlist⟩ := modifiers_yields hr hm
  obtain ⟨word, s₂, hb, h⟩ := runs_bind.mp h
  have hfront := ((Adds.refl s #[]).add hlist.ifAny).push (bump_makes hb)
  have h := runs_bind_startsLine.mp (runs_bind_isAt.mp h)
  extract_lets afterParameters at h
  -- Without a parenthesis, there are no parameters.
  obtain ⟨listed, parameters, s₃, ⟨hp, hlists⟩, h⟩ : ∃ listed parameters s₃,
      (Adds s₂ ((add #[] list).push word) parameters.toList s₃ listed ∧
        s₃.forest.AreParameters parameters.toList) ∧
        Runs (afterParameters (listed, parameters)) s₃ id s' := by
    obtain ⟨-, h⟩ | ⟨-, h⟩ := runs_ite.mp h
    · obtain ⟨⟨listed, parameters⟩, t, hp, h⟩ := runs_bind.mp h
      exact ⟨_, _, _, ⟨parameterList_adds hr hp, parameterList_areParameters hr hp⟩, h⟩
    · exact ⟨_, #[], _, ⟨Adds.refl _ _, Forest.areParameters_of_nil rfl⟩, h⟩
  obtain ⟨⟨typed, returnType⟩, s₄, hret, h⟩ := runs_bind.mp h
  obtain ⟨⟨children, body, isExpression⟩, s₅, hbody, h⟩ := runs_bind.mp h
  obtain ⟨hret, -⟩ := typeAscription_adds hr hret
  have hbody := functionBody_adds hr hbody
  -- A word has been read, so the node is not empty.
  have hne := hbody.ne_empty (hret.ne_empty (hp.ne_empty Array.push_ne_empty))
  refine (((hfront.trans hp).trans hret).trans hbody).node_of_tells h
    (((hret.trans hbody).areParameters hlists).tells rfl) hne rfl rfl ?_ (by simp [NodeData.direct])
  simp only [NodeData.parts]
  grind

theorem accessorStep_appends (hr : rec.Sound) {r : Step (Array NodeId)}
    (h : Runs (accessorStep rec cs) s r s') : Appends s cs [] s' r.value := by
  unfold accessorStep at h
  obtain ⟨-, h⟩ | ⟨-, h⟩ := runs_ite.mp (runs_bind_get.mp h)
  · obtain ⟨made, s₁, ha, h⟩ := runs_bind.mp h
    obtain ⟨rfl, rfl⟩ := runs_pure.mp h
    exact ((accessor_makes hr ha).appends cs).mono (List.nil_subset _)
  · obtain ⟨rfl, rfl⟩ := runs_pure.mp h
    exact Appends.refl _ _

theorem propertyDeclaration_makes (hr : rec.Sound) (ha : Appends s₀ #[] [] s cs)
    (h : Runs (propertyDeclaration rec start cs found) s id s') : Makes s₀ id s' := by
  unfold propertyDeclaration at h
  obtain ⟨keyword, s₁, hk, h⟩ := runs_bind.mp (runs_bind_isAt.mp h)
  obtain ⟨typeParameters, s₂, ht, h⟩ := runs_bind.mp h
  obtain ⟨⟨front, receiver⟩, s₃, hrec, h⟩ := runs_bind.mp h
  obtain ⟨⟨named, name⟩, s₄, hn, h⟩ := runs_bind.mp h
  obtain ⟨⟨typed, typeRef⟩, s₅, htype, h⟩ := runs_bind.mp h
  obtain ⟨⟨valued, value⟩, s₆, hv, h⟩ := runs_bind.mp h
  obtain ⟨accessed, s₇, hacc, h⟩ := runs_bind.mp h
  obtain ⟨semicolon, s₈, hsemi, h⟩ := runs_bind.mp h
  rw [append_among] at hrec
  have hkeyword := (ha.adds.push (bump_makes hk)).add (typeParametersIfAny_yields hr ht).ifAny
  have hrec := receiverIfAny_adds hr hrec
  have hn := propertyName_adds hn
  obtain ⟨htype, hcolon⟩ := typeAscription_adds hr htype
  obtain ⟨hv, hequals⟩ := propertyValue_adds hr hv
  have hacc := (runs_repeating_appends (fun _ _ _ _ => accessorStep_appends hr) hacc).adds
  have hne : accessed ≠ #[] := by
    refine hacc.ne_empty (hv.ne_empty (htype.ne_empty (hn.ne_empty (hrec.ne_empty ?_))))
    simp
  have hrest := (hacc.add (eat_yields hsemi).ifAny).mono (List.nil_sublist _)
  have hall := (((hkeyword.trans hrec).trans hn).trans htype).trans (hv.trans hrest)
  refine hall.appends.node_of_describes (by simp [hne]) rfl ?_ ?_
    (Forest.tells_of_none rfl rfl) h
  · simp only [NodeData.parts]
    grind
  · refine ⟨(hall.listed.mono (List.Sublist.subperm ?_)).subperm,
      fun _ he => absurd he (Option.not_mem_none _), List.nil_subperm, ?_, ?_, ?_, rfl⟩
    · have hskip := (List.sublist_append_right name.toList
        (typeRef.toList ++ value.toList)).append_left receiver.toList
      simpa [NodeData.direct] using
        hskip.trans ((List.sublist_append_right typeParameters.toList _).cons keyword)
    · -- The type stands after its colon and the value after its sign, whatever comes after them.
      intro r hr
      rcases List.mem_append.mp hr with hr | hr
      · obtain ⟨id, hid, rfl⟩ := List.mem_map.mp hr
        exact (hv.trans hrest).follows (hcolon id (Option.mem_toList.mp hid))
      · obtain ⟨id, hid, rfl⟩ := List.mem_map.mp hr
        exact hrest.follows (hequals id (Option.mem_toList.mp hid))
    · exact fun _ hr => absurd hr List.not_mem_nil
    · exact fun _ he => absurd he (Option.not_mem_none _)

theorem secondaryConstructor_makes (hr : rec.Sound) (ha : Appends s₀ #[] [] s cs)
    (h : Runs (secondaryConstructor rec start cs found) s id s') : Makes s₀ id s' := by
  unfold secondaryConstructor at h
  obtain ⟨name, s₁, hk, h⟩ := runs_bind.mp h
  obtain ⟨⟨listed, parameters⟩, s₂, hp, h⟩ := runs_bind.mp h
  obtain ⟨called, s₃, hc, h⟩ := runs_bind.mp h
  obtain ⟨⟨children, body, isExpression⟩, s₄, hb, h⟩ := runs_bind.mp h
  have hlists := parametersIfAny_areParameters hr hp
  have hp := parametersIfAny_adds hr hp
  have hc := (constructorCall_appends hr hc).adds
  have hb := functionBody_adds hr hb
  have hne := hb.ne_empty (hc.ne_empty (hp.ne_empty Array.push_ne_empty))
  have hall := (((ha.adds.push (bump_makes hk)).trans hp).trans hc).trans hb
  exact hall.node_of_tells h (((hc.trans hb).areParameters hlists).tells rfl) hne rfl rfl
    (by simp [NodeData.parts]) (by simp [NodeData.direct])

theorem initializer_makes (hr : rec.Sound) (ha : Appends s₀ #[] [] s cs)
    (h : Runs (initializer rec start cs) s id s') : Makes s₀ id s' := by
  unfold initializer at h
  obtain ⟨keyword, s₁, hk, h⟩ := runs_bind.mp h
  obtain ⟨body, s₂, hb, h⟩ := runs_bind.mp h
  have hall := (ha.push (bump_makes hk)).push (block_makes hr hb)
  exact hall.node Array.push_ne_empty rfl (List.nil_subset _) h

theorem strayModifiers_makes (ha : Appends s₀ #[] [] s cs) (hne : cs ≠ #[])
    (h : Runs (strayModifiers start cs) s id s') : Makes s₀ id s' := by
  unfold strayModifiers at h
  have h := runs_bind_startsLine.mp (runs_bind_kind.mp h)
  extract_lets afterRest at h
  obtain ⟨children, s₁, hrest, h⟩ : ∃ children s₁, Appends s cs [] s₁ children ∧
      Runs (afterRest children) s₁ id s' := by
    obtain ⟨-, h⟩ | ⟨-, h⟩ := runs_ite.mp h
    · obtain ⟨kept, t, hk, h⟩ := runs_bind.mp h
      exact ⟨_, _, ((unknown_makes hk).appends cs).mono (List.nil_subset _), h⟩
    · exact ⟨_, _, Appends.refl _ _, h⟩
  obtain ⟨stray, s₂, hn, h⟩ := runs_bind.mp h
  obtain ⟨⟨⟩, s₃, hc, h⟩ := runs_bind.mp h
  obtain ⟨rfl, rfl⟩ := runs_pure.mp h
  have hm := (ha.trans hrest).node (hrest.ne_empty hne) rfl (List.nil_subset _) hn
  exact hm.change cosmetic_recovered hc

/-- A declaration, or nothing when neither modifiers nor a declaration start here. -/
theorem declaration_yields (hr : rec.Sound) (h : Runs (declaration rec) s o s') :
    Yields s o s' := by
  unfold declaration at h
  obtain ⟨⟨children, found⟩, s₁, hm, h⟩ := runs_bind.mp (runs_bind_place.mp h)
  obtain ⟨list, rfl, hlist⟩ := modifiers_yields hr hm
  have ha := ((Appends.refl s #[]).add hlist.ifAny).mono (List.nil_subset _)
  have h := runs_bind_kind.mp h
  split at h
  iterate 2
    · exact yields_of_runs_some (classDeclaration_makes hr ha) h
  · exact yields_of_runs_some (objectDeclaration_makes hr ha) h
  · exact yields_of_runs_some (functionDeclaration_makes hr ha) h
  iterate 2
    · exact yields_of_runs_some (propertyDeclaration_makes hr ha) h
  · exact yields_of_runs_some (secondaryConstructor_makes hr ha) h
  -- Modifiers in front of no declaration are kept as they are; without them, nothing has been read.
  · obtain ⟨-, h⟩ | ⟨-, h⟩ := runs_ite.mp (runs_bind_peek.mp h)
    · exact yields_of_runs_some (initializer_makes hr ha) h
    · obtain ⟨hnil, h⟩ | ⟨hnil, h⟩ := runs_ite.mp h
      · obtain ⟨rfl, rfl⟩ := runs_pure.mp h
        simp only [Array.isEmpty_iff, add_eq_empty_iff] at hnil
        obtain ⟨-, rfl⟩ := hnil
        rw [hlist.eq_of_none]
        exact yields_none s
      · obtain ⟨id, hd, rfl⟩ := runs_map.mp h
        rw [Array.isEmpty_iff] at hnil
        exact (strayModifiers_makes ha hnil hd).yields

end

end KotlinTree.Grammar
