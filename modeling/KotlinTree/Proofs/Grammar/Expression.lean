import KotlinTree.Grammar.Unit
import KotlinTree.Proofs.Grammar.Declaration

/-!
Expressions make trees of all that they take. An operator makes a tree over the one that has been
made of its left side.
-/

namespace KotlinTree.Grammar

section
variable {rec : Productions} {s₀ s s' : State} {id left : NodeId} {o : Option NodeId}
  {cs cs' xs : Array NodeId} {start : Nat}

theorem labelIfAny_appends (h : Runs (labelIfAny cs) s (cs', o) s') :
    Appends s cs o.toList s' cs' := by
  unfold labelIfAny at h
  have h := runs_bind_isAttached.mp (runs_bind_isAt.mp h)
  obtain ⟨-, h⟩ | ⟨-, h⟩ := runs_ite.mp h
  · obtain ⟨sign, s₁, hb, h⟩ := runs_bind.mp h
    obtain ⟨label, s₂, hn, h⟩ := runs_bind.mp h
    obtain ⟨he, rfl⟩ := runs_pure.mp h
    cases he
    have ha := ((bump_makes hb).appends cs).add (bumpName_yields hn).ifAny
    exact ha.mono (List.subset_append_right _ _)
  · obtain ⟨he, rfl⟩ := runs_pure.mp h
    cases he
    exact Appends.refl _ _

/-- The keyword is there, so the expression is not empty. -/
theorem thisExpression_makes (hk : s.current.kind = .thisKeyword)
    (h : Runs thisExpression s id s') : Makes s id s' := by
  unfold thisExpression at h
  obtain ⟨keyword, s₁, hb, h⟩ := runs_bind.mp (runs_bind_place.mp h)
  obtain ⟨⟨children, label⟩, s₂, hl, h⟩ := runs_bind.mp h
  have hl := labelIfAny_appends hl
  have hkeyword := (bump_makes hb).adds #[]
  have hlisted := (hkeyword.trans hl.adds).listed
  refine (hkeyword.appends.trans hl).node_of_roles (hl.ne_empty (by simp)) rfl ?_ ?_ ?_
    (Forest.tells_of_none rfl rfl) h
  · simp [NodeData.parts]
  · exact hlisted
  · intro r hr
    obtain rfl := List.mem_singleton.mp hr
    exact ⟨_, List.mem_cons_self, hl.kind? (hk ▸ bump_kind? hb)⟩

theorem superType_appends (hr : rec.Sound) (h : Runs (superType rec cs) s (cs', o) s') :
    Appends s cs o.toList s' cs' := by
  unfold superType at h
  have h := runs_bind_isAttached.mp (runs_bind_isAt.mp h)
  obtain ⟨-, h⟩ | ⟨-, h⟩ := runs_ite.mp h
  · obtain ⟨opened, s₁, hb, h⟩ := runs_bind.mp h
    obtain ⟨type, s₂, ht, h⟩ := runs_bind.mp h
    obtain ⟨closed, s₃, hc, h⟩ := runs_bind.mp h
    obtain ⟨he, rfl⟩ := runs_pure.mp h
    cases he
    have ha := (((bump_makes hb).appends cs).add (hr.type ht)).add (eat_yields hc).ifAny
    exact ha.mono (by grind)
  · obtain ⟨he, rfl⟩ := runs_pure.mp h
    cases he
    exact Appends.refl _ _

/-- The keyword is there, so the expression is not empty. -/
theorem superExpression_makes (hr : rec.Sound) (hk : s.current.kind = .superKeyword)
    (h : Runs (superExpression rec) s id s') : Makes s id s' := by
  unfold superExpression at h
  obtain ⟨keyword, s₁, hb, h⟩ := runs_bind.mp (runs_bind_place.mp h)
  obtain ⟨⟨children, type⟩, s₂, ht, h⟩ := runs_bind.mp h
  obtain ⟨⟨children', label⟩, s₃, hl, h⟩ := runs_bind.mp h
  have ht := superType_appends hr ht
  have hl := labelIfAny_appends hl
  have hkeyword := (bump_makes hb).adds #[]
  have hlisted := (hkeyword.trans (ht.trans hl).adds).listed
  refine (hkeyword.appends.trans (ht.trans hl)).node_of_roles
    (hl.ne_empty (ht.ne_empty (by simp))) rfl ?_ ?_ ?_ (Forest.tells_of_none rfl rfl) h
  · simp only [NodeData.parts]
    grind
  · exact hlisted
  · intro r hr
    obtain rfl := List.mem_singleton.mp hr
    exact ⟨_, List.mem_cons_of_mem _ List.mem_cons_self,
      (ht.trans hl).kind? (hk ▸ bump_kind? hb)⟩

theorem parenthesized_makes (hr : rec.Sound) (h : Runs (parenthesized rec) s id s') :
    Makes s id s' := by
  unfold parenthesized at h
  obtain ⟨opened, s₁, ho, h⟩ := runs_bind.mp (runs_bind_place.mp h)
  obtain ⟨inner, s₂, hw, h⟩ := runs_bind.mp h
  obtain ⟨t, he, rfl⟩ := runs_withTrailingLambda hw
  obtain ⟨closed, s₃, hc, h⟩ := runs_bind.mp h
  have ha := ((bump_makes ho).appends #[]).add (hr.expression he).braces.ifAny
  refine (ha.add (eat_yields hc).ifAny).node (by simp) rfl ?_ h
  simp only [NodeData.parts]
  grind

theorem elseBranch_adds (hr : rec.Sound) (h : Runs (elseBranch rec cs) s (cs', o) s') :
    Adds s cs o.toList s' cs' := by
  unfold elseBranch at h
  have h := runs_bind_peek.mp (runs_bind_isAt.mp h)
  extract_lets afterSemicolon at h
  obtain ⟨children, s₁, hs, h⟩ : ∃ children s₁, Adds s cs [] s₁ children ∧
      Runs (afterSemicolon children) s₁ (cs', o) s' := by
    obtain ⟨-, h⟩ | ⟨-, h⟩ := runs_ite.mp h
    · obtain ⟨semicolon, t, hb, h⟩ := runs_bind.mp h
      exact ⟨_, _, ((bump_makes hb).adds cs).mono (List.nil_sublist _), h⟩
    · exact ⟨_, _, Adds.refl _ _, h⟩
  obtain ⟨-, h⟩ | ⟨-, h⟩ := runs_ite.mp (runs_bind_isAt.mp h)
  · obtain ⟨keyword, s₂, hb, h⟩ := runs_bind.mp h
    obtain ⟨branch, s₃, hc, h⟩ := runs_bind.mp h
    obtain ⟨he, rfl⟩ := runs_pure.mp h
    cases he
    have ha := (hs.push (bump_makes hb)).add (controlBody_yields hr hc).ifAny
    exact ha.mono (List.sublist_append_right _ _)
  · obtain ⟨he, rfl⟩ := runs_pure.mp h
    cases he
    exact hs

theorem ifExpression_makes (hr : rec.Sound) (h : Runs (ifExpression rec) s id s') :
    Makes s id s' := by
  unfold ifExpression at h
  obtain ⟨keyword, s₁, hk, h⟩ := runs_bind.mp (runs_bind_place.mp h)
  obtain ⟨opened, s₂, ho, h⟩ := runs_bind.mp h
  obtain ⟨⟨children, expression⟩, s₃, hw, h⟩ := runs_bind.mp h
  obtain ⟨t, hin, rfl⟩ := runs_withTrailingLambda hw
  obtain ⟨condition, t₁, hcond, hin⟩ := runs_bind.mp hin
  obtain ⟨closed, t₂, hclose, hin⟩ := runs_bind.mp hin
  obtain ⟨thenBranch, t₃, hthen, hin⟩ := runs_bind.mp hin
  obtain ⟨⟨whole, otherwise⟩, t₄, helse, hin⟩ := runs_bind.mp hin
  obtain ⟨he, rfl⟩ := runs_pure.mp hin
  cases he
  have hfront := ((bump_makes hk).adds #[]).add (eat_yields ho).ifAny
  have helse := elseBranch_adds hr helse
  have hbody := (((((Adds.refl _ (add #[keyword] opened)).add (hr.expression hcond).ifAny).add
    (eat_yields hclose).ifAny).add (controlBody_yields hr hthen).ifAny).trans helse).braces
  refine (hfront.trans hbody).node (helse.ne_empty (by simp)) rfl ?_ ?_ h
  · simp only [NodeData.parts]
    grind
  · -- The parentheses are passed over.
    have hskip := (List.sublist_append_right closed.toList
      (thenBranch.toList ++ otherwise.toList)).append_left condition.toList
    simpa [NodeData.direct] using
      hskip.trans ((List.sublist_append_right opened.toList _).cons keyword)

theorem returnExpression_makes (hr : rec.Sound) (h : Runs (returnExpression rec) s id s') :
    Makes s id s' := by
  unfold returnExpression at h
  obtain ⟨keyword, s₁, hk, h⟩ := runs_bind.mp (runs_bind_place.mp h)
  obtain ⟨⟨children, label⟩, s₂, hl, h⟩ := runs_bind.mp h
  have hl := labelIfAny_appends hl
  have hne : children ≠ #[] := hl.ne_empty (by simp)
  have h := runs_bind_startsLine.mp h
  extract_lets afterValue at h
  obtain ⟨value, s₃, hv, h⟩ : ∃ value s₃, Yields s₂ value s₃ ∧
      Runs (afterValue value) s₃ id s' := by
    obtain ⟨-, h⟩ | ⟨-, h⟩ := runs_ite.mp h
    · exact ⟨none, _, yields_none _, h⟩
    · obtain ⟨value, t, he, h⟩ := runs_bind.mp h
      exact ⟨_, _, hr.expression he, h⟩
  have hall := (((bump_makes hk).appends #[]).trans hl).add hv.ifAny
  exact hall.node (by simp [hne]) rfl (by simp [NodeData.parts]) h

theorem jumpExpression_makes (hr : rec.Sound) (h : Runs (jumpExpression rec) s id s') :
    Makes s id s' := by
  unfold jumpExpression at h
  have h := runs_bind_isAt.mp (runs_bind_place.mp h)
  obtain ⟨keyword, s₁, hk, h⟩ := runs_bind.mp h
  obtain ⟨⟨children, label⟩, s₂, hl, h⟩ := runs_bind.mp h
  have hl := labelIfAny_appends hl
  have hne : children ≠ #[] := hl.ne_empty (by simp)
  extract_lets afterValue at h
  obtain ⟨thrown, s₃, hv, h⟩ : ∃ thrown s₃, Appends s₂ children [] s₃ thrown ∧
      Runs (afterValue thrown) s₃ id s' := by
    obtain ⟨-, h⟩ | ⟨-, h⟩ := runs_ite.mp h
    · obtain ⟨value, t, he, h⟩ := runs_bind.mp h
      have ha := (Appends.refl s₂ children).add (hr.expression he).ifAny
      exact ⟨_, _, ha.mono (List.nil_subset _), h⟩
    · exact ⟨_, _, Appends.refl _ _, h⟩
  have hall := (((bump_makes hk).appends #[]).trans hl).trans hv
  exact hall.node (hv.ne_empty hne) rfl (List.nil_subset _) h

/-- A callable reference begins at its receiver, if it has one. -/
theorem callableReference_makes {receiver : Option NodeId} (hm : MakesIfAny s₀ receiver s)
    (h : Runs (callableReference start receiver) s id s') : Makes s₀ id s' := by
  unfold callableReference at h
  obtain ⟨colons, s₁, hb, h⟩ := runs_bind.mp h
  have h := runs_bind_isAt.mp h
  extract_lets afterName at h
  obtain ⟨name, s₂, hn, h⟩ : ∃ name s₂, Yields s₁ name s₂ ∧ Runs (afterName name) s₂ id s' := by
    obtain ⟨-, h⟩ | ⟨-, h⟩ := runs_ite.mp h
    · obtain ⟨name, t, hc, h⟩ := runs_bind.mp h
      obtain ⟨word, hw, rfl⟩ := runs_map.mp hc
      exact ⟨_, _, (bump_makes hw).yields, h⟩
    · obtain ⟨name, t, hc, h⟩ := runs_bind.mp h
      exact ⟨_, _, bumpName_yields hc, h⟩
  have ha := (((Adds.refl s₀ #[]).add hm).push (bump_makes hb)).add hn.ifAny
  have h : Runs (node _ start _ _) s₂ id s' := h
  rw [among_eq] at h
  refine ha.node (by simp) rfl ?_ ?_ h
  · simp only [NodeData.parts]
    grind
  · simp [NodeData.direct]

/-- An operand is made, or there is none and nothing is read. -/
theorem primary_yields (hr : rec.Sound) (h : Runs (primary rec) s o s') : Yields s o s' := by
  unfold primary at h
  have h := runs_bind_kind.mp (runs_bind_place.mp h)
  -- A case for each kind of token, in the order of the production.
  split at h
  iterate 7
    · exact yields_of_runs_some bump_makes h
  · exact yields_of_runs_some (thisExpression_makes ‹_›) h
  · exact yields_of_runs_some (superExpression_makes hr ‹_›) h
  · exact yields_of_runs_some (parenthesized_makes hr) h
  · exact yields_of_runs_some (lambda_makes hr) h
  · exact yields_of_runs_some (ifExpression_makes hr) h
  · exact yields_of_runs_some (returnExpression_makes hr) h
  iterate 3
    · exact yields_of_runs_some (jumpExpression_makes hr) h
  · exact yields_of_runs_some (callableReference_makes (makesIfAny_none_iff.mpr (.refl s))) h
  · exact yields_of_runs_some (objectDeclaration_makes hr (Appends.refl s #[])) h
  · exact hr.declaration h
  iterate 5
    · exact yields_of_runs_some unknown_makes h
  iterate 8
    · obtain ⟨rfl, rfl⟩ := runs_pure.mp h
      exact yields_none _
  · obtain ⟨hsoft, h⟩ | ⟨-, h⟩ := runs_ite.mp h
    · have hname : s.current.kind.isName = true := Bool.or_eq_true_iff.mpr (.inr hsoft)
      exact yields_of_runs_some (bumpAs_makes (.inr ⟨rfl, hname⟩)) h
    · exact yields_of_runs_some unknownToken_makes h

/-- To note that an access is null-safe is cosmetic, as no part of it changes. -/
theorem cosmetic_nullSafe : Cosmetic fun n => { n with isNullSafe := true } :=
  ⟨fun _ => rfl, fun _ => rfl, fun _ => rfl, fun _ => rfl, fun _ => .refl _, fun _ => rfl⟩

/-- An access begins at its receiver and takes the operator that has been seen. -/
theorem memberAccess_makes (hm : Makes s₀ left s)
    (hpoint : s.current.kind = .dot ∨ s.current.kind = .questionDot)
    (h : Runs (memberAccess start left) s id s') : Makes s₀ id s' := by
  unfold memberAccess at h
  obtain ⟨operator, s₁, hb, h⟩ := runs_bind.mp (runs_bind_isAt.mp h)
  obtain ⟨name, s₂, hn, h⟩ := runs_bind.mp h
  obtain ⟨access, s₃, hnode, h⟩ := runs_bind.mp h
  have hsafe : s.current.kind =
      if decide (s.current.kind = .questionDot) then .questionDot else .dot := by
    rcases hpoint with hpoint | hpoint <;> simp [hpoint]
  have hmade := access_makes hm hb hn hnode hsafe
  obtain ⟨-, h⟩ | ⟨-, h⟩ := runs_ite.mp h
  · obtain ⟨⟨⟩, s₄, hc, h⟩ := runs_bind.mp h
    obtain ⟨rfl, rfl⟩ := runs_pure.mp h
    exact hmade.change cosmetic_nullSafe hc
  · obtain ⟨rfl, rfl⟩ := runs_pure.mp h
    exact hmade

theorem trailingLambda_yields (hr : rec.Sound) (h : Runs (trailingLambda rec) s o s') :
    Yields s o s' := by
  unfold trailingLambda at h
  rw [runs_bind_isAt, runs_bind_startsLine, runs_bind_get] at h
  obtain ⟨-, h⟩ | ⟨-, h⟩ := runs_ite.mp h
  · obtain ⟨made, s₁, hl, h⟩ := runs_bind.mp h
    obtain ⟨rfl, rfl⟩ := runs_pure.mp h
    exact (lambda_makes hr hl).yields
  · obtain ⟨rfl, rfl⟩ := runs_pure.mp h
    exact yields_none _

/-- A call is over what is called and its type arguments, which have been made before. -/
theorem call_makes (hr : rec.Sound) {list : Option NodeId} {typeArguments : Array NodeId}
    (ha : Appends s₀ #[] (left :: typeArguments.toList) s (add #[left] list))
    (h : Runs (call rec start left list typeArguments) s id s') : Makes s₀ id s' := by
  unfold call at h
  have h := runs_bind_isAt.mp h
  -- What follows the arguments is the same whether they are there or not.
  extract_lets afterArguments at h
  obtain ⟨argumentList, arguments, s₁, hargs, hheld, h⟩ : ∃ argumentList arguments s₁,
      Appends s (add #[left] list) (argumentList.toList ++ arguments.toList) s₁
          (add (add #[left] list) argumentList) ∧
        (argumentList = none ∧ arguments = #[] ∨
          ∃ made, argumentList = some made ∧ IsArgumentList s₁.forest made arguments.toList) ∧
        Runs (afterArguments (argumentList, arguments)) s₁ id s' := by
    obtain ⟨-, h⟩ | ⟨-, h⟩ := runs_ite.mp h
    · obtain ⟨⟨made, arguments⟩, t, hl, h⟩ := runs_bind.mp h
      obtain ⟨hl, hlist⟩ := valueArgumentList_appends hr hl (add #[left] list)
      exact ⟨some made, arguments, _, hl, .inr ⟨made, rfl, hlist⟩, h⟩
    · exact ⟨none, #[], _, Appends.refl s _, .inl ⟨rfl, rfl⟩, h⟩
  obtain ⟨last, s₂, hl, h⟩ := runs_bind.mp h
  have h : Runs (node _ start _ _) s₂ id s' := h
  rw [among_eq] at h
  have hlast := (trailingLambda_yields hr hl).ifAny
  have hall := (ha.trans hargs).add hlast
  have hlisted := ((((Lists.refl #[]).push left).add list).add argumentList).add last
  refine hall.node_of_describes (by simp) rfl ?_ ?_ (Forest.tells_of_none rfl rfl) h
  · simp only [NodeData.parts]
    grind
  · refine ⟨?_, ?_, ?_, fun _ hr => absurd hr List.not_mem_nil,
      fun _ hr => absurd hr List.not_mem_nil, fun _ he => absurd he (Option.not_mem_none _), rfl⟩
    · -- The type arguments are passed over.
      have hskip := (List.sublist_append_right list.toList
        (argumentList.toList ++ last.toList)).cons_cons left
      exact List.Subperm.trans hskip.subperm (by simpa using hlisted.subperm)
    · intro id hid
      cases hid
      cases list <;> cases argumentList <;> cases last <;> rfl
    · obtain ⟨rfl, rfl⟩ | ⟨made, rfl, hlist⟩ := hheld
      · exact List.nil_subperm
      · obtain ⟨_, -, hb⟩ := hlast
        exact (hlist.builds hb).held

/-- Type arguments follow what has been made, and the node around both begins with it. -/
theorem typeArgumentsThenCall_makes (hr : rec.Sound) (hm : Makes s₀ left s)
    (h : Runs (typeArgumentsThenCall rec start left) s id s') : Makes s₀ id s' := by
  unfold typeArgumentsThenCall at h
  obtain ⟨⟨list, arguments⟩, s₁, hl, h⟩ := runs_bind.mp h
  have ha := (hm.appends #[]).trans (typeArgumentList_appends hr hl #[left])
  have h := runs_bind_isAt.mp (runs_bind_isAt.mp h)
  obtain ⟨-, h⟩ | ⟨-, h⟩ := runs_ite.mp h
  · refine call_makes hr (ha.mono ?_) h
    grind
  · exact ha.node (by simp) rfl (List.nil_subset _) h

theorem indexStep_appends (hr : rec.Sound) {r : Step (Array NodeId)}
    (h : Runs (indexStep rec cs) s r s') : Appends s cs [] s' r.value := by
  unfold indexStep at h
  have h := runs_bind_kind.mp h
  split at h
  iterate 2
    · obtain ⟨rfl, rfl⟩ := runs_pure.mp h
      exact Appends.refl _ _
  · obtain ⟨comma, t, hb, h⟩ := runs_bind.mp h
    obtain ⟨rfl, rfl⟩ := runs_pure.mp h
    exact ((bump_makes hb).appends cs).mono (List.nil_subset _)
  · obtain ⟨index, s₁, he, h⟩ := runs_bind.mp h
    have hy := hr.expression he
    cases index with
    | some index =>
      obtain ⟨rfl, rfl⟩ := runs_pure.mp h
      exact (hy.makes.appends cs).mono (List.nil_subset _)
    | none =>
      rw [hy.eq_of_none] at h
      obtain ⟨kept, s₂, hk, h⟩ := runs_bind.mp h
      obtain ⟨rfl, rfl⟩ := runs_pure.mp h
      exact ((unknownToken_makes hk).appends cs).mono (List.nil_subset _)

/-- Indices are made from the receiver to the closing bracket. -/
theorem indexing_makes (hr : rec.Sound) (hm : Makes s₀ left s)
    (h : Runs (indexing rec start left) s id s') : Makes s₀ id s' := by
  unfold indexing at h
  obtain ⟨opened, s₁, ho, h⟩ := runs_bind.mp h
  obtain ⟨children, s₂, hl, h⟩ := runs_bind.mp h
  obtain ⟨closed, s₃, hc, h⟩ := runs_bind.mp h
  have hl := runs_repeating_appends (fun _ _ _ _ => indexStep_appends hr) hl
  have hne : children ≠ #[] := hl.ne_empty (by simp)
  have ha := (((hm.appends #[]).push (bump_makes ho)).trans hl).add (eat_yields hc).ifAny
  exact ha.node (by simp [hne]) rfl (List.nil_subset _) h

/-- An operator after its operand begins where the operand does. -/
theorem postfixOperator_makes (hm : Makes s₀ left s)
    (h : Runs (postfixOperator start left) s id s') : Makes s₀ id s' := by
  unfold postfixOperator at h
  obtain ⟨token, s₁, hb, h⟩ := runs_bind.mp (runs_bind_kind.mp h)
  have ha := (hm.appends #[]).push (bump_makes hb)
  exact ha.node (by simp) rfl (by simp [NodeData.parts]) h

/-- The tree so far is the left side of the next operator. -/
theorem postfixStep_makes (hr : rec.Sound) {r : Step NodeId} (hm : Makes s₀ left s)
    (h : Runs (postfixStep rec start left) s r s') : Makes s₀ r.value s' := by
  have hcall {id : NodeId} (h : Runs (call rec start left none #[]) s id s') : Makes s₀ id s' :=
    call_makes hr (hm.appends #[]) h
  unfold postfixStep at h
  -- One case for each operator that can stand after an operand, then the one for all other tokens.
  have h := runs_bind_kind.mp (runs_bind_startsLine.mp h)
  split at h
  · exact makes_of_runs_more (memberAccess_makes hm (.inl ‹_›)) h
  · exact makes_of_runs_more (memberAccess_makes hm (.inr ‹_›)) h
  · obtain ⟨-, h⟩ | ⟨-, h⟩ := runs_ite.mp h
    · exact makes_of_runs_more hcall h
    · obtain ⟨rfl, rfl⟩ := runs_pure.mp h
      exact hm
  · obtain ⟨-, h⟩ | ⟨-, h⟩ := runs_ite.mp (runs_bind_get.mp h)
    · exact makes_of_runs_more (typeArgumentsThenCall_makes hr hm) h
    · obtain ⟨rfl, rfl⟩ := runs_pure.mp h
      exact hm
  · have h := runs_bind_get.mp (runs_bind_get.mp h)
    obtain ⟨-, h⟩ | ⟨-, h⟩ := runs_ite.mp h
    · exact makes_of_runs_more hcall h
    · obtain ⟨rfl, rfl⟩ := runs_pure.mp h
      exact hm
  · obtain ⟨-, h⟩ | ⟨-, h⟩ := runs_ite.mp h
    · exact makes_of_runs_more (indexing_makes hr hm) h
    · obtain ⟨rfl, rfl⟩ := runs_pure.mp h
      exact hm
  -- The three operators that take nothing to their right.
  iterate 3
    · obtain ⟨-, h⟩ | ⟨-, h⟩ := runs_ite.mp h
      · exact makes_of_runs_more (postfixOperator_makes hm) h
      · obtain ⟨rfl, rfl⟩ := runs_pure.mp h
        exact hm
  · exact makes_of_runs_more (callableReference_makes hm.ifAny) h
  · obtain ⟨rfl, rfl⟩ := runs_pure.mp h
    exact hm

theorem postfixed_yields (hr : rec.Sound) (h : Runs (postfixed rec) s o s') : Yields s o s' := by
  unfold postfixed at h
  obtain ⟨first, s₁, hp, h⟩ := runs_bind.mp (runs_bind_place.mp h)
  have hy := primary_yields hr hp
  cases first with
  | none =>
    obtain ⟨rfl, rfl⟩ := runs_pure.mp h
    exact hy
  | some first =>
    exact yields_of_runs_some
      (runs_repeating_makes (fun _ _ _ _ => postfixStep_makes hr) hy.makes) h

/-- An operator before its operand begins at itself. -/
theorem prefixed_yields (hr : rec.Sound) (h : Runs (prefixed rec) s o s') : Yields s o s' := by
  unfold prefixed at h
  obtain ⟨-, h⟩ | ⟨-, h⟩ := runs_ite.mp (runs_bind_kind.mp h)
  · refine nested_yields ?_ h
    intro t o t' h
    obtain ⟨token, t₁, hb, h⟩ := runs_bind.mp (runs_bind_place.mp h)
    obtain ⟨operand, t₂, ho, h⟩ := runs_bind.mp h
    obtain ⟨id, t₃, hn, h⟩ := runs_bind.mp h
    obtain ⟨rfl, rfl⟩ := runs_pure.mp h
    rw [among_eq] at hn
    have ha := ((bump_makes hb).appends #[]).add (hr.prefixed ho).ifAny
    exact (ha.node (by simp) rfl (by simp [NodeData.parts]) hn).yields
  · exact postfixed_yields hr h

/-- A cast or a test is over an expression, its sign and a type. -/
theorem typeOperation_makes {token : NodeId} {type : Option NodeId} {k : NodeKind} {s₁ s₂ : State}
    (hm : Makes s₀ left s) (hb : Runs bump s token s₁) (ht : MakesIfAny s₁ type s₂)
    (hk : k = if s.current.kind = .isKeyword ∨ s.current.kind = .notIsKeyword then .isExpression
      else .asExpression)
    (hn : Runs (node k start (among [some left, some token, type])
      (.typeOperation { expression := left, operator := s.current.kind, typeRef := type })) s₂ id
        s') : Makes s₀ id s' := by
  rw [among_eq] at hn
  have ha := ((hm.adds #[]).push (bump_makes hb)).add ht
  refine ha.node (by simp) ?_ ?_ ?_ hn
  · refine NodeData.isSimple_iff.mpr ⟨rfl, rfl, rfl, NodeData.isRoled_iff.mpr ⟨rfl, rfl, rfl, rfl, rfl, ?_⟩⟩
    rw [hk]
    split <;> simp_all [NodeData.fits, NodeData.kinds]
  · simp only [NodeData.parts]
    grind
  · simp [NodeData.direct]

/-- A cast begins where its operand does. -/
theorem castStep_makes (hr : rec.Sound) {r : Step NodeId} (hm : Makes s₀ left s)
    (h : Runs (castStep rec start left) s r s') : Makes s₀ r.value s' := by
  unfold castStep at h
  have h := runs_bind_startsLine.mp (runs_bind_kind.mp h)
  obtain ⟨hcast, h⟩ | ⟨-, h⟩ := runs_ite.mp h
  · obtain ⟨token, s₁, hb, h⟩ := runs_bind.mp h
    obtain ⟨type, s₂, ht, h⟩ := runs_bind.mp h
    obtain ⟨id, hn, rfl⟩ := runs_map.mp h
    simp only [Bool.and_eq_true, Bool.or_eq_true, decide_eq_true_iff] at hcast
    refine typeOperation_makes hm hb (hr.type ht) ?_ hn
    rcases hcast.1 with hk | hk <;> simp [hk]
  · obtain ⟨rfl, rfl⟩ := runs_pure.mp h
    exact hm

theorem operand_yields (hr : rec.Sound) (h : Runs (operand rec) s o s') : Yields s o s' := by
  unfold operand at h
  obtain ⟨first, s₁, hp, h⟩ := runs_bind.mp (runs_bind_place.mp h)
  have hy := hr.prefixed hp
  cases first with
  | none =>
    obtain ⟨rfl, rfl⟩ := runs_pure.mp h
    exact hy
  | some first =>
    exact yields_of_runs_some
      (runs_repeating_makes (fun _ _ _ _ => castStep_makes hr) hy.makes) h

/-- An operator's node begins where its left side does. -/
theorem binaryStep_makes (hr : rec.Sound) {minPrecedence : Nat} {r : Step NodeId}
    (hm : Makes s₀ left s) (h : Runs (binaryStep rec minPrecedence start left) s r s') :
    Makes s₀ r.value s' := by
  unfold binaryStep at h
  have h := runs_bind_kind.mp h
  split at h
  · obtain ⟨rfl, rfl⟩ := runs_pure.mp h
    exact hm
  · obtain ⟨-, h⟩ | ⟨-, h⟩ := runs_ite.mp (runs_bind_startsLine.mp h)
    · obtain ⟨rfl, rfl⟩ := runs_pure.mp h
      exact hm
    -- An operator that tests takes a type, any other an operand.
    · obtain ⟨htest, h⟩ | ⟨-, h⟩ := runs_ite.mp h
      · obtain ⟨token, s₁, hb, h⟩ := runs_bind.mp h
        obtain ⟨type, s₂, ht, h⟩ := runs_bind.mp h
        obtain ⟨id, hn, rfl⟩ := runs_map.mp h
        simp only [Bool.or_eq_true, decide_eq_true_iff] at htest
        refine typeOperation_makes hm hb (hr.type ht) ?_ hn
        rcases htest with hk | hk <;> simp [hk]
      · obtain ⟨token, s₁, hb, h⟩ := runs_bind.mp h
        obtain ⟨right, s₂, ht, h⟩ := runs_bind.mp h
        obtain ⟨id, hn, rfl⟩ := runs_map.mp h
        rw [among_eq] at hn
        have hright := (hr.binary ht).ifAny
        have ha := ((hm.adds #[]).push (bump_makes hb)).add hright
        refine ha.node_of_roles (by simp) ?_ (by simp [NodeData.parts]) (by simp [NodeData.direct])
          ?_ (Forest.tells_of_none rfl rfl) hn
        · split <;> rfl
        · intro r hr
          obtain rfl := List.mem_singleton.mp hr
          exact ⟨_, List.mem_singleton_self _, hright.kind? (bump_kind? hb)⟩

theorem binary_yields (hr : rec.Sound) {minPrecedence : Nat}
    (h : Runs (binary rec minPrecedence) s o s') : Yields s o s' := by
  unfold binary at h
  obtain ⟨first, s₁, hp, h⟩ := runs_bind.mp (runs_bind_place.mp h)
  have hy := operand_yields hr hp
  cases first with
  | none =>
    obtain ⟨rfl, rfl⟩ := runs_pure.mp h
    exact hy
  | some first =>
    exact yields_of_runs_some
      (runs_repeating_makes (fun _ _ _ _ => binaryStep_makes hr) hy.makes) h

theorem expression_yields (hr : rec.Sound) (h : Runs (expression rec) s o s') : Yields s o s' :=
  nested_yields (fun _ _ _ h => hr.binary h) h

end

end KotlinTree.Grammar
