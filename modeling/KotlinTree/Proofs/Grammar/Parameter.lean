import KotlinTree.Proofs.Grammar.Modifier
import KotlinTree.Proofs.Grammar.Type

/-!
Parameters, and the lists of them, make trees of all that they take.
-/

namespace KotlinTree.Grammar

section
variable {rec : Productions} {s₀ s s' : State} {id : NodeId} {o : Option NodeId}
  {cs cs' xs : Array NodeId}

/-- A written type comes right after the colon that is taken. -/
theorem typeAscription_adds (hr : rec.Sound) (h : Runs (typeAscription rec cs) s (cs', o) s') :
    Adds s cs o.toList s' cs' ∧ ∀ id, o = some id → s'.forest.Follows .colon cs' id := by
  unfold typeAscription at h
  obtain ⟨hcolon, h⟩ | ⟨-, h⟩ := runs_ite.mp (runs_bind_isAt.mp h)
  · obtain ⟨colon, s₁, hb, h⟩ := runs_bind.mp h
    obtain ⟨type, s₂, ht, h⟩ := runs_bind.mp h
    obtain ⟨he, rfl⟩ := runs_pure.mp h
    cases he
    have ht := hr.type ht
    refine ⟨(((bump_makes hb).adds cs).add ht).mono (List.sublist_append_right _ _), ?_⟩
    rintro id rfl
    exact ht.follows_sign hcolon hb cs
  · obtain ⟨he, rfl⟩ := runs_pure.mp h
    cases he
    refine ⟨Adds.refl _ _, ?_⟩
    intro id hid
    cases hid

/-- A value comes right after the sign that is taken. -/
theorem assignedValue_adds (hr : rec.Sound) (h : Runs (assignedValue rec cs) s (cs', o) s') :
    Adds s cs o.toList s' cs' ∧ ∀ id, o = some id → s'.forest.Follows .equals cs' id := by
  unfold assignedValue at h
  obtain ⟨hequals, h⟩ | ⟨-, h⟩ := runs_ite.mp (runs_bind_isAt.mp h)
  · obtain ⟨equals, s₁, hb, h⟩ := runs_bind.mp h
    obtain ⟨value, s₂, hv, h⟩ := runs_bind.mp h
    obtain ⟨he, rfl⟩ := runs_pure.mp h
    cases he
    have hv := (hr.expression hv).ifAny
    refine ⟨(((bump_makes hb).adds cs).add hv).mono (List.sublist_append_right _ _), ?_⟩
    rintro id rfl
    exact hv.follows_sign hequals hb cs
  · obtain ⟨he, rfl⟩ := runs_pure.mp h
    cases he
    refine ⟨Adds.refl _ _, ?_⟩
    intro id hid
    cases hid

theorem parameter_yields (hr : rec.Sound) (h : Runs (parameter rec) s o s') : Yields s o s' := by
  unfold parameter at h
  obtain ⟨⟨children, found⟩, s₁, hm, h⟩ := runs_bind.mp (runs_bind_place.mp h)
  have hwords := modifiers_words hr hm
  obtain ⟨list, rfl, hlist⟩ := modifiers_yields hr hm
  have h := runs_bind_isAt.mp (runs_bind_isAt.mp h)
  extract_lets afterKeyword at h
  obtain ⟨keyword, s₂, ⟨hkeyword, hleaf⟩, h⟩ : ∃ keyword s₂, (Yields s₁ keyword s₂ ∧
      LeafFirst s₂ (add #[] keyword)) ∧ Runs (afterKeyword keyword) s₂ o s' := by
    obtain ⟨-, h⟩ | ⟨-, h⟩ := runs_ite.mp h
    · obtain ⟨keyword, t, hb, h⟩ := runs_bind.mp h
      obtain ⟨word, hw, rfl⟩ := runs_map.mp hb
      exact ⟨_, _, ⟨(bump_makes hw).yields, (leafFirst_empty s₁).bump hw⟩, h⟩
    · exact ⟨none, _, ⟨yields_none s₁, leafFirst_empty s₁⟩, h⟩
  obtain ⟨name, s₃, hn, h⟩ := runs_bind.mp h
  have hname := bumpName_yields hn
  have hleaf := hleaf.bumpName hn
  obtain ⟨hnone, h⟩ | ⟨hsome, h⟩ := runs_ite.mp h
  · -- No node is made, and nothing has been taken that it would lose.
    simp only [Bool.and_eq_true, Option.isNone_iff_eq_none, Array.isEmpty_iff,
      add_eq_empty_iff] at hnone
    obtain ⟨rfl, ⟨-, rfl⟩, rfl⟩ := hnone
    obtain ⟨rfl, rfl⟩ := runs_pure.mp h
    rw [hname.eq_of_none, hkeyword.eq_of_none, hlist.eq_of_none]
    exact yields_none s
  · obtain ⟨⟨children, type⟩, s₄, ht, h⟩ := runs_bind.mp h
    obtain ⟨⟨children', value⟩, s₅, hv, h⟩ := runs_bind.mp h
    obtain ⟨id, s₆, hn, h⟩ := runs_bind.mp h
    obtain ⟨rfl, rfl⟩ := runs_pure.mp h
    have hlisted := (Adds.refl s #[]).add hlist.ifAny
    have hnamed := ((Adds.refl s₁ (add #[] list)).add hkeyword.ifAny).add hname.ifAny
    obtain ⟨ht, -⟩ := typeAscription_adds hr ht
    obtain ⟨hv, -⟩ := assignedValue_adds hr hv
    have hne : add (add (add #[] list) keyword) name ≠ #[] := by
      intro he
      simp only [add_eq_empty_iff] at he
      simp [he] at hsome
    have htyped := ht.trans hv
    have hall := hlisted.trans (hnamed.trans htyped)
    refine (hall.node_of_tells hn ?_ (htyped.ne_empty hne) rfl rfl ?_ ?_).yields
    · refine ⟨Forest.areParameters_of_nil rfl, ?_⟩
      rintro _ ⟨⟩
      rw [List.contains_iff_mem]
      obtain ⟨hnil, hnot⟩ | ⟨first, hfirst, hk, hfound⟩ := hwords
      · -- A keyword or the name comes first, which is no list of modifiers.
        rw [hnil] at hne htyped
        exact iff_of_false hnot ((hleaf.adds hne htyped).not_hasModifier _)
      · exact hfound.hasModifier_iff hk (by rw [hfirst]; rfl) (hnamed.trans htyped)
    · simp only [NodeData.parts]
      grind
    · exact (List.sublist_append_right _ _).trans (List.sublist_append_right _ _)

theorem parameter_kind? (h : Runs (parameter rec) s (some id) s') :
    s'.forest.kind? (some id) = some (.node .parameter) := by
  unfold parameter at h
  obtain ⟨⟨children, found⟩, s₁, -, h⟩ := runs_bind.mp (runs_bind_place.mp h)
  have h := runs_bind_isAt.mp (runs_bind_isAt.mp h)
  extract_lets afterKeyword at h
  obtain ⟨keyword, s₂, h⟩ : ∃ keyword s₂, Runs (afterKeyword keyword) s₂ (some id) s' := by
    obtain ⟨-, h⟩ | ⟨-, h⟩ := runs_ite.mp h
    · obtain ⟨keyword, t, -, h⟩ := runs_bind.mp h
      exact ⟨_, _, h⟩
    · exact ⟨_, _, h⟩
  obtain ⟨name, s₃, -, h⟩ := runs_bind.mp h
  obtain ⟨-, h⟩ | ⟨-, h⟩ := runs_ite.mp h
  · cases (runs_pure.mp h).1
  · obtain ⟨⟨children, type⟩, s₄, -, h⟩ := runs_bind.mp h
    obtain ⟨⟨children', value⟩, s₅, -, h⟩ := runs_bind.mp h
    obtain ⟨made, s₆, hn, h⟩ := runs_bind.mp h
    obtain ⟨he, rfl⟩ := runs_pure.mp h
    cases he
    obtain ⟨rfl, rfl⟩ := runs_node.mp hn
    exact Forest.kind?_addNode ..

theorem parameterStep_collects (hr : rec.Sound) {x : Array NodeId × Array NodeId}
    {r : Step (Array NodeId × Array NodeId)} (hx : Collects s₀ cs s x)
    (h : Runs (parameterStep rec x) s r s') : Collects s₀ cs s' r.value := by
  obtain ⟨children, parameters⟩ := x
  unfold parameterStep at h
  have h := runs_bind_kind.mp h
  -- At the end, at a comma, at a parameter, and at what is none.
  split at h
  iterate 3
    · obtain ⟨rfl, rfl⟩ := runs_pure.mp h
      exact hx
  · obtain ⟨comma, t, hb, h⟩ := runs_bind.mp h
    obtain ⟨rfl, rfl⟩ := runs_pure.mp h
    exact hx.child (bump_makes hb)
  · obtain ⟨found, s₁, hp, h⟩ := runs_bind.mp h
    have hy := parameter_yields hr hp
    cases found with
    | some found =>
      obtain ⟨rfl, rfl⟩ := runs_pure.mp h
      exact hx.member hy.makes
    | none =>
      rw [hy.eq_of_none] at h
      obtain ⟨kept, s₂, hk, h⟩ := runs_bind.mp h
      obtain ⟨rfl, rfl⟩ := runs_pure.mp h
      exact hx.child (unknownToken_makes hk)

/-- What is collected is of the right kind. -/
theorem parameterStep_areParameters (hr : rec.Sound) {x : Array NodeId × Array NodeId}
    {r : Step (Array NodeId × Array NodeId)} (hx : s.forest.AreParameters x.2.toList)
    (h : Runs (parameterStep rec x) s r s') : s'.forest.AreParameters r.value.2.toList := by
  obtain ⟨children, parameters⟩ := x
  unfold parameterStep at h
  have h := runs_bind_kind.mp h
  -- Only a parameter is added to the parameters, and it is one.
  split at h
  iterate 3
    · obtain ⟨rfl, rfl⟩ := runs_pure.mp h
      exact hx
  · obtain ⟨comma, t, hb, h⟩ := runs_bind.mp h
    obtain ⟨rfl, rfl⟩ := runs_pure.mp h
    exact ((bump_makes hb).adds #[]).areParameters hx
  · obtain ⟨found, s₁, hp, h⟩ := runs_bind.mp h
    have hy := parameter_yields hr hp
    cases found with
    | some found =>
      obtain ⟨rfl, rfl⟩ := runs_pure.mp h
      intro p hp'
      rcases Array.mem_push.mp (Array.mem_toList_iff.mp hp') with hold | rfl
      · exact (hy.makes.adds #[]).areParameters hx p (Array.mem_toList_iff.mpr hold)
      · exact parameter_kind? hp
    | none =>
      rw [hy.eq_of_none] at h
      obtain ⟨kept, s₂, hk, h⟩ := runs_bind.mp h
      obtain ⟨rfl, rfl⟩ := runs_pure.mp h
      exact ((unknownToken_makes hk).adds #[]).areParameters hx

theorem parameterList_areParameters (hr : rec.Sound)
    (h : Runs (parameterList rec cs) s (cs', xs) s') : s'.forest.AreParameters xs.toList := by
  unfold parameterList at h
  obtain ⟨opened, s₁, -, h⟩ := runs_bind.mp h
  obtain ⟨⟨children, parameters⟩, s₂, hl, h⟩ := runs_bind.mp h
  obtain ⟨closed, s₃, hc, h⟩ := runs_bind.mp h
  obtain ⟨he, rfl⟩ := runs_pure.mp h
  cases he
  have hall : s₂.forest.AreParameters xs.toList :=
    runs_repeating_value
      (I := fun t (x : Array NodeId × Array NodeId) => t.forest.AreParameters x.2.toList)
      (fun _ _ _ _ => parameterStep_areParameters hr) (Forest.areParameters_of_nil rfl) hl
  exact ((Adds.refl s₂ #[]).add (eat_yields hc).ifAny).areParameters hall

theorem parametersIfAny_areParameters (hr : rec.Sound)
    (h : Runs (parametersIfAny rec cs) s (cs', xs) s') : s'.forest.AreParameters xs.toList := by
  unfold parametersIfAny at h
  obtain ⟨-, h⟩ | ⟨-, h⟩ := runs_ite.mp (runs_bind_isAt.mp h)
  · exact parameterList_areParameters hr h
  · obtain ⟨he, rfl⟩ := runs_pure.mp h
    cases he
    exact Forest.areParameters_of_nil rfl

theorem parameterList_adds (hr : rec.Sound) (h : Runs (parameterList rec cs) s (cs', xs) s') :
    Adds s cs xs.toList s' cs' := by
  unfold parameterList at h
  obtain ⟨opened, s₁, ho, h⟩ := runs_bind.mp h
  obtain ⟨⟨children, parameters⟩, s₂, hl, h⟩ := runs_bind.mp h
  obtain ⟨closed, s₃, hc, h⟩ := runs_bind.mp h
  obtain ⟨he, rfl⟩ := runs_pure.mp h
  cases he
  have hl := runs_repeating_collects (fun _ _ _ _ => parameterStep_collects hr) hl
  have ha := (((bump_makes ho).adds cs).trans hl).add (eat_yields hc).ifAny
  exact ha.mono ((List.sublist_append_right _ _).trans (List.sublist_append_left _ _))

theorem parametersIfAny_adds (hr : rec.Sound)
    (h : Runs (parametersIfAny rec cs) s (cs', xs) s') : Adds s cs xs.toList s' cs' := by
  unfold parametersIfAny at h
  obtain ⟨-, h⟩ | ⟨-, h⟩ := runs_ite.mp (runs_bind_isAt.mp h)
  · exact parameterList_adds hr h
  · obtain ⟨he, rfl⟩ := runs_pure.mp h
    cases he
    exact Adds.refl _ _

theorem parametersIfAny_ne_empty (hr : rec.Sound) (hk : s.current.kind = .openParen)
    (h : Runs (parametersIfAny rec cs) s (cs', xs) s') : cs' ≠ #[] := by
  unfold parametersIfAny parameterList at h
  obtain ⟨-, h⟩ | ⟨hn, -⟩ := runs_ite.mp (runs_bind_isAt.mp h)
  · obtain ⟨opened, s₁, ho, h⟩ := runs_bind.mp h
    obtain ⟨⟨children, parameters⟩, s₂, hl, h⟩ := runs_bind.mp h
    obtain ⟨closed, s₃, hc, h⟩ := runs_bind.mp h
    obtain ⟨he, rfl⟩ := runs_pure.mp h
    cases he
    have hl := runs_repeating_collects (fun _ _ _ _ => parameterStep_collects hr) hl
    have hne : children ≠ #[] := hl.ne_empty Array.push_ne_empty
    simp [hne]
  · exact absurd (decide_eq_true hk) hn

/-- A name follows the variance that is taken. -/
theorem varianceStep_appends {r : Step (Array NodeId)} (h : Runs (varianceStep cs) s r s') :
    Appends s cs [] s' r.value ∧ (s'.current.kind = .identifier ∨ r.value = cs ∧ s' = s) := by
  unfold varianceStep at h
  rw [runs_bind_isAt, runs_bind_isAtText, runs_bind_isAtText, runs_bind_peek] at h
  obtain ⟨hp, h⟩ | ⟨-, h⟩ := runs_ite.mp h
  · obtain ⟨word, t, hb, h⟩ := runs_bind.mp h
    obtain ⟨rfl, rfl⟩ := runs_pure.mp h
    simp only [Bool.and_eq_true, decide_eq_true_iff] at hp
    refine ⟨((bump_makes hb).appends cs).mono (List.nil_subset _), Or.inl ?_⟩
    exact (bump_kind hb).trans hp.2
  · obtain ⟨rfl, rfl⟩ := runs_pure.mp h
    exact ⟨Appends.refl _ _, Or.inr ⟨rfl, rfl⟩⟩

theorem varianceStep_leafFirst {r : Step (Array NodeId)} (hl : LeafFirst s cs)
    (h : Runs (varianceStep cs) s r s') : LeafFirst s' r.value := by
  unfold varianceStep at h
  rw [runs_bind_isAt, runs_bind_isAtText, runs_bind_isAtText, runs_bind_peek] at h
  obtain ⟨-, h⟩ | ⟨-, h⟩ := runs_ite.mp h
  · obtain ⟨word, t, hb, h⟩ := runs_bind.mp h
    obtain ⟨rfl, rfl⟩ := runs_pure.mp h
    exact hl.bump hb
  · obtain ⟨rfl, rfl⟩ := runs_pure.mp h
    exact hl

theorem typeParameter_yields (hr : rec.Sound) (h : Runs (typeParameter rec) s o s') :
    Yields s o s' := by
  unfold typeParameter at h
  obtain ⟨children, s₁, hl, h⟩ := runs_bind.mp (runs_bind_place.mp h)
  have hc : Appends s #[] [] s₁ children ∧ (s₁.current.kind = .identifier ∨ s₁ = s) := by
    refine runs_repeating_value
      (I := fun t cs => Appends s #[] [] t cs ∧ (t.current.kind = .identifier ∨ t = s)) ?_
      ⟨Appends.refl s #[], Or.inr rfl⟩ hl
    rintro t cs r t' ⟨ha, hk⟩ hs
    obtain ⟨hs, hk' | ⟨-, rfl⟩⟩ := varianceStep_appends hs
    · exact ⟨ha.trans hs, Or.inl hk'⟩
    · exact ⟨ha.trans hs, hk⟩
  have hleaf : LeafFirst s₁ children :=
    runs_repeating_value (I := LeafFirst) (fun _ _ _ _ => varianceStep_leafFirst)
      (leafFirst_empty s) hl
  obtain ⟨name, s₂, hn, h⟩ := runs_bind.mp h
  have hy := bumpName_yields hn
  have hleaf := hleaf.bumpName hn
  cases name with
  | none =>
    obtain ⟨rfl, rfl⟩ := runs_pure.mp h
    -- A variance that had been taken would be lost, but a name follows it.
    rcases hc.2 with hk | hk
    · have hs := bumpName_isSome (by rw [hk]; rfl) hn
      cases hs
    · rw [hy.eq_of_none, hk]
      exact yields_none s
  | some name =>
    obtain ⟨⟨children', type⟩, s₃, ht, h⟩ := runs_bind.mp h
    obtain ⟨id, s₄, hn, h⟩ := runs_bind.mp h
    obtain ⟨rfl, rfl⟩ := runs_pure.mp h
    obtain ⟨ht, -⟩ := typeAscription_adds hr ht
    have hne := ht.ne_empty Array.push_ne_empty
    have hall := (hc.1.adds.push hy.makes).trans ht
    refine (hall.node_of_tells hn ⟨Forest.areParameters_of_nil rfl, ?_⟩ hne rfl rfl
      (by simp [NodeData.parts]) (by simp [NodeData.direct])).yields
    -- Variance is no modifier.
    rintro _ ⟨⟩
    exact iff_of_false Bool.false_ne_true ((hleaf.adds Array.push_ne_empty ht).not_hasModifier _)

theorem typeParameterStep_appends (hr : rec.Sound) {r : Step (Array NodeId)}
    (h : Runs (typeParameterStep rec cs) s r s') : Appends s cs [] s' r.value := by
  unfold typeParameterStep at h
  have h := runs_bind_kind.mp h
  split at h
  iterate 2
    · obtain ⟨rfl, rfl⟩ := runs_pure.mp h
      exact Appends.refl _ _
  · obtain ⟨comma, t, hb, h⟩ := runs_bind.mp h
    obtain ⟨rfl, rfl⟩ := runs_pure.mp h
    exact ((bump_makes hb).appends cs).mono (List.nil_subset _)
  · obtain ⟨found, s₁, hp, h⟩ := runs_bind.mp h
    have hy := typeParameter_yields hr hp
    cases found with
    | some found =>
      obtain ⟨rfl, rfl⟩ := runs_pure.mp h
      exact (hy.makes.appends cs).mono (List.nil_subset _)
    | none =>
      rw [hy.eq_of_none] at h
      obtain ⟨kept, s₂, hk, h⟩ := runs_bind.mp h
      obtain ⟨rfl, rfl⟩ := runs_pure.mp h
      exact ((unknownToken_makes hk).appends cs).mono (List.nil_subset _)

theorem typeParametersIfAny_yields (hr : rec.Sound) (h : Runs (typeParametersIfAny rec) s o s') :
    Yields s o s' := by
  unfold typeParametersIfAny at h
  obtain ⟨-, h⟩ | ⟨-, h⟩ := runs_ite.mp (runs_bind_isAt.mp h)
  · obtain ⟨opened, s₁, ho, h⟩ := runs_bind.mp (runs_bind_place.mp h)
    obtain ⟨children, s₂, hl, h⟩ := runs_bind.mp h
    obtain ⟨closed, s₃, hc, h⟩ := runs_bind.mp h
    obtain ⟨list, s₄, hn, h⟩ := runs_bind.mp h
    obtain ⟨rfl, rfl⟩ := runs_pure.mp h
    have hl := runs_repeating_appends (fun _ _ _ _ => typeParameterStep_appends hr) hl
    have hne : children ≠ #[] := hl.ne_empty (by simp)
    have ha := (((bump_makes ho).appends #[]).trans hl).add (eat_yields hc).ifAny
    exact (ha.node (by simp [hne]) rfl (List.nil_subset _) hn).yields
  · obtain ⟨rfl, rfl⟩ := runs_pure.mp h
    exact yields_none _

end

end KotlinTree.Grammar
