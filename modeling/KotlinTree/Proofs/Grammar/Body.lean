import KotlinTree.Grammar.Body
import KotlinTree.Proofs.Grammar.Parameter

/-!
Blocks, lambdas, and classes with their bodies make trees of all that they take.
-/

namespace KotlinTree.Grammar

section
variable {rec : Productions} {s₀ s s' : State} {id : NodeId} {o : Option NodeId}
  {cs cs' xs : Array NodeId}

theorem statementStep_collects (hr : rec.Sound) {x : Array NodeId × Array NodeId}
    {r : Step (Array NodeId × Array NodeId)} (hx : Collects s₀ cs s x)
    (h : Runs (statementStep rec x) s r s') : Collects s₀ cs s' r.value := by
  obtain ⟨children, statements⟩ := x
  unfold statementStep at h
  have h := runs_bind_kind.mp h
  -- At the end, at a separator, at a statement, and at what is none.
  split at h
  iterate 2
    · obtain ⟨rfl, rfl⟩ := runs_pure.mp h
      exact hx
  · obtain ⟨semicolon, t, hb, h⟩ := runs_bind.mp h
    obtain ⟨rfl, rfl⟩ := runs_pure.mp h
    exact hx.child (bump_makes hb)
  · obtain ⟨found, s₁, hs, h⟩ := runs_bind.mp h
    have hy := hr.statement hs
    cases found with
    | some statement =>
      obtain ⟨rfl, rfl⟩ := runs_pure.mp h
      exact hx.member hy.makes
    | none =>
      rw [hy.eq_of_none] at h
      obtain ⟨kept, s₂, hk, h⟩ := runs_bind.mp h
      obtain ⟨rfl, rfl⟩ := runs_pure.mp h
      exact hx.member (unknown_makes hk)

theorem statementList_adds (hr : rec.Sound)
    (h : Runs (statementList rec cs) s (cs', xs) s') : Adds s cs xs.toList s' cs' :=
  runs_repeating_collects (fun _ _ _ _ => statementStep_collects hr) h

theorem block_makes (hr : rec.Sound) (h : Runs (block rec) s id s') : Makes s id s' := by
  unfold block at h
  obtain ⟨opened, s₁, ho, h⟩ := runs_bind.mp (runs_bind_place.mp h)
  obtain ⟨⟨children, statements⟩, s₂, hw, h⟩ := runs_bind.mp h
  obtain ⟨t, hin, rfl⟩ := runs_withTrailingLambda hw
  obtain ⟨⟨inner, statements'⟩, t₁, hl, hin⟩ := runs_bind.mp hin
  obtain ⟨closed, t₂, hc, hin⟩ := runs_bind.mp hin
  obtain ⟨he, rfl⟩ := runs_pure.mp hin
  cases he
  have hl := statementList_adds hr hl
  have hne : inner ≠ #[] := hl.ne_empty (by simp)
  have ha := ((bump_makes ho).adds #[]).trans (hl.add (eat_yields hc).ifAny).braces
  exact ha.node (by simp [hne]) rfl (by simp [NodeData.parts]) (by simp [NodeData.direct]) h

theorem controlBody_yields (hr : rec.Sound) (h : Runs (controlBody rec) s o s') :
    Yields s o s' := by
  unfold controlBody at h
  obtain ⟨-, h⟩ | ⟨-, h⟩ := runs_ite.mp (runs_bind_isAt.mp h)
  · obtain ⟨id, s₁, hb, h⟩ := runs_bind.mp h
    obtain ⟨rfl, rfl⟩ := runs_pure.mp h
    exact (block_makes hr hb).yields
  · exact hr.statement h

theorem lambdaParameterStep_collects (hr : rec.Sound) {x : Array NodeId × Array NodeId}
    {r : Step (Array NodeId × Array NodeId)} (hx : Collects s₀ cs s x)
    (h : Runs (lambdaParameterStep rec x) s r s') : Collects s₀ cs s' r.value := by
  obtain ⟨children, parameters⟩ := x
  unfold lambdaParameterStep at h
  have h := runs_bind_kind.mp h
  -- At the end, at a comma, at a parameter, and at what is none.
  split at h
  iterate 2
    · obtain ⟨rfl, rfl⟩ := runs_pure.mp h
      exact hx
  · obtain ⟨comma, t, hb, h⟩ := runs_bind.mp h
    obtain ⟨rfl, rfl⟩ := runs_pure.mp h
    exact hx.child (bump_makes hb)
  · obtain ⟨found, s₁, hp, h⟩ := runs_bind.mp h
    have hy := parameter_yields hr hp
    cases found with
    | some found =>
      obtain ⟨rfl, rfl⟩ := runs_pure.mp h
      exact hx.member hy.makes
    | none =>
      rw [hy.eq_of_none] at h
      obtain ⟨kept, s₂, hk, h⟩ := runs_bind.mp h
      obtain ⟨rfl, rfl⟩ := runs_pure.mp h
      exact hx.child (unknown_makes hk)

theorem lambdaParameters_adds (hr : rec.Sound)
    (h : Runs (lambdaParameters rec cs) s (cs', xs) s') : Adds s cs xs.toList s' cs' := by
  unfold lambdaParameters at h
  obtain ⟨-, h⟩ | ⟨-, h⟩ := runs_ite.mp (runs_bind_get.mp h)
  · obtain ⟨⟨children, parameters⟩, s₁, hl, h⟩ := runs_bind.mp h
    obtain ⟨arrow, s₂, hc, h⟩ := runs_bind.mp h
    obtain ⟨he, rfl⟩ := runs_pure.mp h
    cases he
    have hl := runs_repeating_collects (fun _ _ _ _ => lambdaParameterStep_collects hr) hl
    exact (hl.add (eat_yields hc).ifAny).mono (List.sublist_append_left _ _)
  · obtain ⟨he, rfl⟩ := runs_pure.mp h
    cases he
    exact Adds.refl _ _

theorem lambda_makes (hr : rec.Sound) (h : Runs (lambda rec) s id s') : Makes s id s' := by
  unfold lambda at h
  obtain ⟨opened, s₁, ho, h⟩ := runs_bind.mp (runs_bind_place.mp h)
  obtain ⟨⟨children, parameters, statements⟩, s₂, hw, h⟩ := runs_bind.mp h
  obtain ⟨t, hin, rfl⟩ := runs_withTrailingLambda hw
  obtain ⟨⟨front, parameters'⟩, t₁, hp, hin⟩ := runs_bind.mp hin
  obtain ⟨⟨inner, statements'⟩, t₂, hl, hin⟩ := runs_bind.mp hin
  obtain ⟨closed, t₃, hc, hin⟩ := runs_bind.mp hin
  obtain ⟨he, rfl⟩ := runs_pure.mp hin
  cases he
  have hp := lambdaParameters_adds hr hp
  have hl := statementList_adds hr hl
  have hne : inner ≠ #[] := hl.ne_empty (hp.ne_empty (by simp))
  have hpl := ((hp.trans hl).add (eat_yields hc).ifAny).braces
  have ha := ((bump_makes ho).adds #[]).trans hpl
  exact ha.node (by simp [hne]) rfl (by simp only [NodeData.parts]; grind)
    (by simp [NodeData.direct]) h

theorem memberStep_collects (hr : rec.Sound) {x : Array NodeId × Array NodeId}
    {r : Step (Array NodeId × Array NodeId)} (hx : Collects s₀ cs s x)
    (h : Runs (memberStep rec x) s r s') : Collects s₀ cs s' r.value := by
  obtain ⟨children, members⟩ := x
  unfold memberStep at h
  have h := runs_bind_kind.mp h
  -- At the end, at a separator, at a member, and at what is none.
  split at h
  iterate 2
    · obtain ⟨rfl, rfl⟩ := runs_pure.mp h
      exact hx
  · obtain ⟨semicolon, t, hb, h⟩ := runs_bind.mp h
    obtain ⟨rfl, rfl⟩ := runs_pure.mp h
    exact hx.child (bump_makes hb)
  · obtain ⟨found, s₁, hs, h⟩ := runs_bind.mp h
    have hy := hr.declaration hs
    cases found with
    | some member =>
      obtain ⟨rfl, rfl⟩ := runs_pure.mp h
      exact hx.member hy.makes
    | none =>
      rw [hy.eq_of_none] at h
      obtain ⟨kept, s₂, hk, h⟩ := runs_bind.mp h
      obtain ⟨rfl, rfl⟩ := runs_pure.mp h
      exact hx.member (unknown_makes hk)

theorem classBody_makes (hr : rec.Sound) (h : Runs (classBody rec) s id s') : Makes s id s' := by
  unfold classBody at h
  obtain ⟨opened, s₁, ho, h⟩ := runs_bind.mp (runs_bind_place.mp h)
  obtain ⟨⟨children, members⟩, s₂, hl, h⟩ := runs_bind.mp h
  obtain ⟨closed, s₃, hc, h⟩ := runs_bind.mp h
  have hl := runs_repeating_collects (fun _ _ _ _ => memberStep_collects hr) hl
  have hne : children ≠ #[] := hl.ne_empty (by simp)
  have ha := (((bump_makes ho).adds #[]).trans hl).add (eat_yields hc).ifAny
  exact ha.node (by simp [hne]) rfl (by simp only [NodeData.parts]; grind)
    (by simp [NodeData.direct]) h

theorem classBodyIfAny_yields (hr : rec.Sound) (h : Runs (classBodyIfAny rec) s o s') :
    Yields s o s' := by
  unfold classBodyIfAny at h
  obtain ⟨-, h⟩ | ⟨-, h⟩ := runs_ite.mp (runs_bind_isAt.mp h)
  · obtain ⟨body, s₁, hb, h⟩ := runs_bind.mp h
    obtain ⟨rfl, rfl⟩ := runs_pure.mp h
    exact (classBody_makes hr hb).yields
  · obtain ⟨rfl, rfl⟩ := runs_pure.mp h
    exact yields_none _

theorem supertypeArguments_adds (hr : rec.Sound)
    (h : Runs (supertypeArguments rec cs) s (cs', o) s') :
    Adds s cs o.toList s' cs' ∧
      ∀ id, o = some id → s'.forest.kind? (some id) = some (.node .valueArgumentList) := by
  unfold supertypeArguments at h
  have h := runs_bind_startsLine.mp (runs_bind_isAt.mp h)
  obtain ⟨-, h⟩ | ⟨-, h⟩ := runs_ite.mp h
  · obtain ⟨⟨list, arguments⟩, s₁, hl, h⟩ := runs_bind.mp h
    obtain ⟨he, rfl⟩ := runs_pure.mp h
    cases he
    obtain ⟨ha, hlist⟩ := valueArgumentList_appends hr hl cs
    refine ⟨⟨ha.mono (by simp), (Lists.refl cs).push list⟩, ?_⟩
    intro id he
    cases he
    exact hlist.kind
  · obtain ⟨he, rfl⟩ := runs_pure.mp h
    cases he
    exact ⟨Adds.refl _ _, fun _ he => absurd he (Option.not_mem_none _)⟩

theorem delegate_appends (hr : rec.Sound) (h : Runs (delegate rec cs) s cs' s') :
    Appends s cs [] s' cs' := by
  unfold delegate at h
  obtain ⟨-, h⟩ | ⟨-, h⟩ := runs_ite.mp (runs_bind_isAt.mp h)
  · obtain ⟨word, s₁, hb, h⟩ := runs_bind.mp h
    obtain ⟨object, s₂, hw, h⟩ := runs_bind.mp h
    obtain ⟨rfl, rfl⟩ := runs_pure.mp h
    obtain ⟨t, he, rfl⟩ := runs_withTrailingLambda hw
    have ha := ((bump_makes hb).appends cs).add (hr.expression he).braces.ifAny
    exact ha.mono (List.nil_subset _)
  · obtain ⟨rfl, rfl⟩ := runs_pure.mp h
    exact Appends.refl _ _

theorem supertypeEntry_makesIfAny (hr : rec.Sound) (h : Runs (supertypeEntry rec) s o s') :
    MakesIfAny s o s' := by
  unfold supertypeEntry at h
  obtain ⟨found, s₁, ht, h⟩ := runs_bind.mp (runs_bind_place.mp h)
  have ht := hr.type ht
  cases found with
  | none =>
    obtain ⟨rfl, rfl⟩ := runs_pure.mp h
    exact ht
  | some type =>
    obtain ⟨⟨children, arguments⟩, s₂, ha, h⟩ := runs_bind.mp h
    obtain ⟨children', s₃, hd, h⟩ := runs_bind.mp h
    obtain ⟨entry, s₄, hn, h⟩ := runs_bind.mp h
    obtain ⟨rfl, rfl⟩ := runs_pure.mp h
    obtain ⟨ha, hlist⟩ := supertypeArguments_adds hr ha
    have hd := delegate_appends hr hd
    have hall := (((makesIfAny_some_iff.mp ht).adds #[]).trans ha).trans hd.adds
    have hne := hd.ne_empty (ha.ne_empty (by simp))
    refine (hall.node_of_roles hne rfl (by simp [NodeData.parts]) (by simp [NodeData.direct]) ?_
      (Forest.tells_of_none rfl rfl) hn).ifAny
    intro r hr
    obtain ⟨list, hlisted, rfl⟩ := List.mem_map.mp hr
    exact ⟨_, List.mem_singleton_self _, hd.kind? (hlist list (Option.mem_toList.mp hlisted))⟩

theorem supertypeStep_collects (hr : rec.Sound) {x : Array NodeId × Array NodeId}
    {r : Step (Array NodeId × Array NodeId)} (hx : Collects s₀ cs s x)
    (h : Runs (supertypeStep rec x) s r s') : Collects s₀ cs s' r.value := by
  obtain ⟨children, supertypes⟩ := x
  unfold supertypeStep at h
  obtain ⟨found, s₁, he, h⟩ := runs_bind.mp h
  have he := supertypeEntry_makesIfAny hr he
  cases found with
  | none =>
    obtain ⟨rfl, rfl⟩ := runs_pure.mp h
    exact hx.skip (makesIfAny_none_iff.mp he)
  | some entry =>
    have hentry := hx.member (makesIfAny_some_iff.mp he)
    obtain ⟨comma, s₂, hc, h⟩ := runs_bind.mp h
    have hc := eat_yields hc
    cases comma with
    | some comma =>
      obtain ⟨rfl, rfl⟩ := runs_pure.mp h
      exact hentry.child hc.makes
    | none =>
      obtain ⟨rfl, rfl⟩ := runs_pure.mp h
      rw [hc.eq_of_none]
      exact hentry

theorem supertypeList_adds (hr : rec.Sound) (h : Runs (supertypeList rec cs) s (cs', xs) s') :
    Adds s cs xs.toList s' cs' := by
  unfold supertypeList at h
  obtain ⟨-, h⟩ | ⟨-, h⟩ := runs_ite.mp (runs_bind_isAt.mp h)
  · obtain ⟨colon, s₁, hb, h⟩ := runs_bind.mp h
    have hl := runs_repeating_collects (fun _ _ _ _ => supertypeStep_collects hr) h
    exact (((bump_makes hb).adds cs).trans hl).mono (List.sublist_append_right _ _)
  · obtain ⟨he, rfl⟩ := runs_pure.mp h
    cases he
    exact Adds.refl _ _

/-- A constructor starts with something that is one of its parts. -/
theorem primaryConstructor_makes (hr : rec.Sound)
    (hat : s.current.kind = .openParen ∨ s.current.kind = .constructorKeyword ∨
      s.current.kind = .atSign ∨ isModifierAhead s.tokens = true)
    (h : Runs (primaryConstructor rec) s id s') : Makes s id s' := by
  unfold primaryConstructor at h
  obtain ⟨⟨children, found⟩, s₁, hm, h⟩ := runs_bind.mp (runs_bind_place.mp h)
  obtain ⟨list, rfl, hlist⟩ := modifiers_yields hr hm
  obtain ⟨keyword, s₂, hk, h⟩ := runs_bind.mp h
  obtain ⟨⟨children', parameters⟩, s₃, hp, h⟩ := runs_bind.mp h
  have hkeyword := eat_yields hk
  have hparams := parametersIfAny_adds hr hp
  have hlists := parametersIfAny_areParameters hr hp
  have ha := (((Adds.refl s #[]).add hlist.ifAny).add hkeyword.ifAny).trans hparams
  refine ha.node_of_tells h (hlists.tells rfl) ?_ rfl rfl (by simp [NodeData.parts])
    (by simp [NodeData.direct])
  by_cases hnil : add (add #[] list) keyword = #[]
  · -- Neither modifiers nor a keyword: there is a parenthesis.
    simp only [add_eq_empty_iff] at hnil
    obtain ⟨⟨-, rfl⟩, rfl⟩ := hnil
    obtain rfl := hlist.eq_of_none
    obtain rfl := hkeyword.eq_of_none
    rcases hat with hat | hat | hat
    · exact parametersIfAny_ne_empty hr hat hp
    · cases eat_isSome hat hk
    · exact absurd rfl (modifiers_isSome hr hat hm)
  · exact hparams.ne_empty hnil

theorem primaryConstructorIfAny_yields (hr : rec.Sound)
    (h : Runs (primaryConstructorIfAny rec) s o s') : Yields s o s' := by
  unfold primaryConstructorIfAny at h
  rw [runs_bind_startsLine, runs_bind_isAt, runs_bind_isAt, runs_bind_isAt,
    runs_bind_isAtModifier] at h
  obtain ⟨hat, h⟩ | ⟨-, h⟩ := runs_ite.mp h
  · obtain ⟨made, s₁, hp, h⟩ := runs_bind.mp h
    obtain ⟨rfl, rfl⟩ := runs_pure.mp h
    simp only [Bool.and_eq_true, Bool.or_eq_true, decide_eq_true_iff, or_assoc] at hat
    exact (primaryConstructor_makes hr hat.2 hp).yields
  · obtain ⟨rfl, rfl⟩ := runs_pure.mp h
    exact yields_none _

theorem classDeclaration_makes (hr : rec.Sound) {start : Nat} {found : List Modifier}
    (ha : Appends s₀ #[] [] s cs) (h : Runs (classDeclaration rec start cs found) s id s') :
    Makes s₀ id s' := by
  unfold classDeclaration at h
  obtain ⟨keyword, s₁, hk, h⟩ := runs_bind.mp (runs_bind_isAt.mp h)
  obtain ⟨name, s₂, hname, h⟩ := runs_bind.mp h
  obtain ⟨parameters, s₃, ht, h⟩ := runs_bind.mp h
  obtain ⟨primary, s₄, hp, h⟩ := runs_bind.mp h
  obtain ⟨⟨children, supertypes⟩, s₅, hs, h⟩ := runs_bind.mp h
  obtain ⟨body, s₆, hb, h⟩ := runs_bind.mp h
  rw [append_among] at hs
  have hnamed := ((ha.adds.push (bump_makes hk)).add (bumpName_yields hname).ifAny).add
    (typeParametersIfAny_yields hr ht).ifAny
  have hfront := hnamed.add (primaryConstructorIfAny_yields hr hp).ifAny
  have hs := supertypeList_adds hr hs
  have hne : children ≠ #[] := hs.ne_empty (by simp)
  have hall := (hfront.trans hs).add (classBodyIfAny_yields hr hb).ifAny
  refine hall.node (by simp [hne]) rfl (by simp only [NodeData.parts]; grind) ?_ h
  have hconstructor := List.sublist_append_right (([] ++ [keyword] ++ name.toList) ++
    parameters.toList) primary.toList
  exact (hconstructor.append_right _).append_right _

theorem objectName_yields (h : Runs objectName s o s') : Yields s o s' := by
  unfold objectName at h
  have h := runs_bind_startsLine.mp (runs_bind_isAtName.mp h)
  obtain ⟨-, h⟩ | ⟨-, h⟩ := runs_ite.mp h
  · exact bumpName_yields h
  · obtain ⟨rfl, rfl⟩ := runs_pure.mp h
    exact yields_none _

theorem objectDeclaration_makes (hr : rec.Sound) {start : Nat} {found : List Modifier}
    (ha : Appends s₀ #[] [] s cs) (h : Runs (objectDeclaration rec start cs found) s id s') :
    Makes s₀ id s' := by
  unfold objectDeclaration at h
  obtain ⟨keyword, s₁, hk, h⟩ := runs_bind.mp h
  obtain ⟨name, s₂, hname, h⟩ := runs_bind.mp h
  obtain ⟨⟨children, supertypes⟩, s₃, hs, h⟩ := runs_bind.mp h
  obtain ⟨body, s₄, hb, h⟩ := runs_bind.mp h
  rw [append_among] at hs
  have hfront := (ha.adds.push (bump_makes hk)).add (objectName_yields hname).ifAny
  have hs := supertypeList_adds hr hs
  have hne : children ≠ #[] := hs.ne_empty (by simp)
  have hall := (hfront.trans hs).add (classBodyIfAny_yields hr hb).ifAny
  refine hall.node (by simp [hne]) rfl (by simp only [NodeData.parts]; grind) ?_ h
  have hsupertypes := List.sublist_append_right ([] ++ [keyword] ++ name.toList) supertypes.toList
  exact hsupertypes.append_right _

end

end KotlinTree.Grammar
