import KotlinTree.Proofs.Grammar.Expression

/-!
The whole grammar: every production makes trees of all that it takes, and a source file is one tree
that goes up to the end of the file.
-/

namespace KotlinTree.Grammar

section
variable {rec : Productions} {source : String} {s₀ s s' : State} {id : NodeId} {o : Option NodeId}
  {cs cs' : Array NodeId}

theorem assignmentOrExpression_yields (hr : rec.Sound)
    (h : Runs (assignmentOrExpression rec) s o s') : Yields s o s' := by
  unfold assignmentOrExpression at h
  obtain ⟨target, s₁, he, h⟩ := runs_bind.mp (runs_bind_place.mp h)
  have hy := hr.expression he
  -- Without a target, or without an operator on its line, the expression is all there is.
  cases target with
  | none =>
    obtain ⟨rfl, rfl⟩ := runs_pure.mp h
    exact hy
  | some target =>
    have h := runs_bind_startsLine.mp (runs_bind_kind.mp h)
    obtain ⟨-, h⟩ | ⟨-, h⟩ := runs_ite.mp h
    · obtain ⟨rfl, rfl⟩ := runs_pure.mp h
      exact hy
    · obtain ⟨token, s₂, hb, h⟩ := runs_bind.mp h
      obtain ⟨value, s₃, hv, h⟩ := runs_bind.mp h
      obtain ⟨id, s₄, hn, h⟩ := runs_bind.mp h
      obtain ⟨rfl, rfl⟩ := runs_pure.mp h
      rw [among_eq] at hn
      have ha := ((hy.makes.adds #[]).push (bump_makes hb)).add (hr.expression hv).ifAny
      refine (ha.node (by simp) rfl ?_ ?_ hn).yields
      · simp only [NodeData.parts]
        grind
      · simp [NodeData.direct]

/-- Only the tokens are looked at. -/
theorem runs_bind_isAtDeclaration {f : Bool → Parser (Option NodeId)}
    (h : Runs (isAtDeclaration >>= f) s o s') : ∃ b, Runs (f b) s o s' := by
  obtain ⟨b, s₁, hd, h⟩ := runs_bind.mp h
  have hs : s₁ = s := by
    unfold isAtDeclaration at hd
    have hd := runs_bind_kind.mp hd
    split at hd
    all_goals exact (congrArg Prod.snd hd).symm
  exact ⟨b, hs ▸ h⟩

theorem statement_yields (hr : rec.Sound) (h : Runs (statement rec) s o s') : Yields s o s' := by
  unfold statement at h
  obtain ⟨b, h⟩ := runs_bind_isAtDeclaration h
  obtain ⟨-, h⟩ | ⟨-, h⟩ := runs_ite.mp h
  · exact hr.declaration h
  · exact assignmentOrExpression_yields hr h

theorem production_sound (hr : rec.Sound) : Productions.Sound (production rec) where
  yields n s o s' hn h := by
    cases n with
    | expression => exact expression_yields hr h
    | binary _ => exact binary_yields hr h
    | prefixed => exact prefixed_yields hr h
    | typeReference limit => exact absurd rfl (hn limit)
    | statement => exact statement_yields hr h
    | declaration => exact declaration_yields hr h
  typeReference _ _ _ _ h := typeReference_makesIfAny hr h

/-- However deep the productions are nested, they keep their promises. -/
theorem productions_sound (n : Nat) : Productions.Sound (productions n) := by
  induction n with
  | zero =>
    constructor
    · intro _ s o s' _ h
      obtain ⟨rfl, rfl⟩ := runs_pure.mp h
      exact yields_none _
    · intro _ s o s' h
      obtain ⟨rfl, rfl⟩ := runs_pure.mp h
      exact (yields_none _).ifAny
  | succ n ih => exact production_sound ih

theorem packageDirective_makes (h : Runs packageDirective s id s') : Makes s id s' := by
  unfold packageDirective at h
  obtain ⟨keyword, s₁, hk, h⟩ := runs_bind.mp (runs_bind_place.mp h)
  obtain ⟨⟨name, star⟩, s₂, hn, h⟩ := runs_bind.mp h
  obtain ⟨semicolon, s₃, hc, h⟩ := runs_bind.mp h
  have ha := ((bump_makes hk).appends #[]).add (nameChain_yields hn).ifAny
  refine (ha.add (eat_yields hc).ifAny).node (by simp) rfl ?_ h
  simp only [NodeData.parts]
  grind

theorem importName_appends (h : Runs (importName cs) s (cs', o) s') :
    Appends s cs o.toList s' cs' := by
  unfold importName at h
  have h := runs_bind_startsLine.mp (runs_bind_isAt.mp h)
  obtain ⟨-, h⟩ | ⟨-, h⟩ := runs_ite.mp h
  · obtain ⟨keyword, s₁, hb, h⟩ := runs_bind.mp h
    obtain ⟨name, s₂, hn, h⟩ := runs_bind.mp h
    obtain ⟨he, rfl⟩ := runs_pure.mp h
    cases he
    have ha := ((bump_makes hb).appends cs).add (bumpName_yields hn).ifAny
    exact ha.mono (List.subset_append_right _ _)
  · obtain ⟨he, rfl⟩ := runs_pure.mp h
    cases he
    exact Appends.refl _ _

theorem importDirective_makes (h : Runs importDirective s id s') : Makes s id s' := by
  unfold importDirective at h
  obtain ⟨keyword, s₁, hk, h⟩ := runs_bind.mp (runs_bind_place.mp h)
  obtain ⟨⟨path, star⟩, s₂, hn, h⟩ := runs_bind.mp h
  obtain ⟨⟨children, localName⟩, s₃, hl, h⟩ := runs_bind.mp h
  obtain ⟨semicolon, s₄, hc, h⟩ := runs_bind.mp h
  obtain ⟨t, ⟨hy, hpath⟩, hstar, -⟩ := nameChain_appends hn
  have hl := importName_appends hl
  have hfront := ((bump_makes hk).appends #[]).add hy.ifAny
  have hne : children ≠ #[] := hl.ne_empty (by simp)
  have hrest := ((hstar.onto _).trans hl).add (eat_yields hc).ifAny
  refine (hfront.trans hrest).node_of_describes (by simp [hne]) rfl ?_ ?_
    (Forest.tells_of_none rfl rfl) h
  · simp only [NodeData.parts]
    grind
  · refine ⟨List.nil_subperm, fun _ he => absurd he (Option.not_mem_none _), List.nil_subperm,
      fun _ hr => absurd hr List.not_mem_nil, fun _ hr => absurd hr List.not_mem_nil,
      fun id hid => ?_, rfl⟩
    obtain ⟨_, -, -, hb⟩ := hrest
    exact hb.isPath (hpath id hid)

/-- The children of a file so far, with its imports and declarations among them. -/
def FileParts.Made (s₀ : State) (cs : Array NodeId) (s : State) (parts : FileParts) : Prop :=
  Adds s₀ cs (parts.imports.toList ++ parts.declarations.toList) s parts.children

theorem FileParts.Made.ahead {parts : FileParts} (h : parts.Made s₀ cs s)
    (h₀ : Ahead source s₀.tokens) : Ahead source s.tokens := by
  obtain ⟨qs, -, -, hb⟩ := h.appends
  exact hb.ahead h₀

/-- A file goes on after each step that takes a token, and ends only with the end of the file. -/
theorem fileStep_leaves (hr : rec.Sound) {parts : FileParts} {r : Step FileParts}
    (hp : parts.Made s₀ cs s) (ha : Ahead source s.tokens) (h : Runs (fileStep rec parts) s r s') :
    r.Leaves (fun x => x.Made s₀ cs s' ∧ s'.ahead.length < s.ahead.length)
      fun x => x.Made s₀ cs s' ∧ s'.current.isEnd = true := by
  unfold fileStep at h
  have h := runs_bind_kind.mp h
  split at h
  · rename_i hk
    obtain ⟨rfl, rfl⟩ := runs_pure.mp h
    exact ⟨hp, decide_eq_true hk⟩
  · rename_i hk
    obtain ⟨semicolon, t, hb, h⟩ := runs_bind.mp h
    obtain ⟨rfl, rfl⟩ := runs_pure.mp h
    have hm := bump_makes hb
    refine ⟨(Adds.push hp hm).mono (List.sublist_append_left _ _), hm.progress ha ?_⟩
    simp [Token.isEnd, hk]
  · rename_i hk
    obtain ⟨directive, t, hd, h⟩ := runs_bind.mp h
    obtain ⟨rfl, rfl⟩ := runs_pure.mp h
    have hm := importDirective_makes hd
    refine ⟨(Adds.push hp hm).perm ?_, hm.progress ha ?_⟩
    · rw [Array.toList_push, List.append_assoc, List.append_assoc]
      exact List.perm_append_comm.append_left _
    · simp [Token.isEnd, hk]
  · rename_i hk _ _
    obtain ⟨found, s₁, hd, h⟩ := runs_bind.mp h
    have hend : s.current.isEnd = false := decide_eq_false hk
    have hy := hr.declaration hd
    have hpush {id : NodeId} (hm : Makes s id s') :
        FileParts.Made s₀ cs s' { parts with
          children := parts.children.push id, declarations := parts.declarations.push id } := by
      unfold FileParts.Made
      rw [Array.toList_push, ← List.append_assoc]
      exact Adds.push hp hm
    cases found with
    | some declared =>
      obtain ⟨rfl, rfl⟩ := runs_pure.mp h
      exact ⟨hpush hy.makes, hy.makes.progress ha hend⟩
    | none =>
      -- No declaration has taken anything, so the unknown part starts here and takes a token.
      rw [hy.eq_of_none] at h
      obtain ⟨kept, s₂, hk, h⟩ := runs_bind.mp h
      obtain ⟨rfl, rfl⟩ := runs_pure.mp h
      have hm := unknown_makes hk
      exact ⟨hpush hm, hm.progress ha hend⟩

/-- Steps that take tokens come to their end before they run out. -/
theorem runs_repeating_done {σ : Type} {step : σ → Parser (Step σ)} {I Q : State → σ → Prop}
    {x y : σ} (hstep : ∀ s x r s', I s x → Runs (step x) s r s' →
      r.Leaves (fun z => I s' z ∧ s'.ahead.length < s.ahead.length) (Q s'))
    (h₀ : I s x) (h : Runs (repeating step x) s y s') : Q s' y :=
  runs_repeating_ends (m := fun t => t.ahead.length) (fun _ => Nat.le_succ _) hstep h₀ h

/-- A file is one tree, and nothing is left after it. -/
theorem sourceFile_makes (hr : rec.Sound) (ha : Ahead source s.tokens)
    (h : Runs (sourceFile rec) s id s') :
    Makes s id s' ∧ ∃ stop, s'.tokens = [.endAt stop] := by
  unfold sourceFile at h
  have h := runs_bind_isAt.mp h
  extract_lets afterPackage at h
  obtain ⟨package, s₁, hp, h⟩ : ∃ package s₁, Yields s package s₁ ∧
      Runs (afterPackage package) s₁ id s' := by
    obtain ⟨-, h⟩ | ⟨-, h⟩ := runs_ite.mp h
    · obtain ⟨made, t, hd, h⟩ := runs_bind.mp h
      obtain ⟨directive, hm, rfl⟩ := runs_map.mp hd
      exact ⟨_, _, (packageDirective_makes hm).yields, h⟩
    · exact ⟨none, _, yields_none _, h⟩
  obtain ⟨parts, s₂, hl, h⟩ := runs_bind.mp h
  have hfront := (Adds.refl s #[]).add hp.ifAny
  have ha₁ : Ahead source s₁.tokens := by
    obtain ⟨qs, -, -, hb⟩ := hfront.appends
    exact hb.ahead ha
  -- The loop ends only at the end of the file, since each step before it takes a token.
  have hstart : FileParts.Made s₁ (add #[] package) s₁ { children := add #[] package } :=
    Adds.refl s₁ _
  obtain ⟨hparts, hend⟩ := runs_repeating_done
    (I := fun t (x : FileParts) => x.Made s₁ (add #[] package) t)
    (Q := fun t x => x.Made s₁ (add #[] package) t ∧ t.current.isEnd = true)
    (fun _ _ _ _ hx hs => fileStep_leaves hr hx (hx.ahead ha₁) hs) hstart hl
  obtain ⟨last, s₃, hb, h⟩ := runs_bind.mp h
  have hall := (hfront.trans hparts).push (bump_makes hb)
  have h := runs_bind_get.mp h
  refine ⟨hall.node Array.push_ne_empty rfl ?_ ?_ h, ?_⟩
  · simp only [NodeData.parts]
    grind
  · exact (List.sublist_append_right _ _).trans (List.sublist_append_left _ _)
  · obtain ⟨-, rfl⟩ := runs_node.mp h
    obtain ⟨-, rfl⟩ := runs_bumpAs.mp (runs_bump.mp hb)
    refine ⟨s₂.current.stop, ?_⟩
    simp only [State.tokens, State.advance, (hparts.ahead ha₁).isEnd_iff.mp hend]

end

theorem tokens_ofSource (fileName source : String) :
    (State.ofSource fileName source).tokens = Token.ofSource source := by
  unfold State.ofSource
  cases ht : Token.ofSource source with
  | nil => exact absurd ht (Token.ofSource_cuts source).ne_nil
  | cons t ts => rfl

theorem forest_ofSource (fileName source : String) :
    (State.ofSource fileName source).forest = {} := by
  unfold State.ofSource
  split <;> rfl

/-- A parse makes one tree with the root of the unit, and comes to the end of its source. -/
theorem ofSource_builds (fileName source : String) :
    ∃ s q, Builds (State.ofSource fileName source) [q] s ∧
      q.root = (ParsedUnit.ofSource fileName source).root ∧
      s.forest = (ParsedUnit.ofSource fileName source).forest ∧ ∃ stop, s.tokens = [.endAt stop] := by
  have ha := ahead_ofSource fileName source
  have hr := productions_sound (nestingBound (State.ofSource fileName source).tokens.length)
  obtain ⟨⟨q, hq, hb⟩, hend⟩ := sourceFile_makes hr ha (runs_self _ _)
  exact ⟨_, q, hb, hq, rfl, hend⟩

end KotlinTree.Grammar
