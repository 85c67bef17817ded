import KotlinTree.Proofs.Grammar.Phrase
import KotlinTree.Grammar.Parameter

/-!
Types and parameters make trees of all that they take. A type is the one thing that may be given up
after tokens have been taken: annotations that no type follows are left behind.
-/

namespace KotlinTree.Grammar

section
variable {rec : Productions} {s₀ s s' : State} {id : NodeId} {o : Option NodeId}
  {cs cs' : Array NodeId}

theorem functionTypeStep_appends (hr : rec.Sound) {r : Step (Array NodeId)}
    (h : Runs (functionTypeStep rec cs) s r s') : Appends s cs [] s' r.value := by
  unfold functionTypeStep at h
  have h := runs_bind_kind.mp h
  split at h
  · obtain ⟨rfl, rfl⟩ := runs_pure.mp h
    exact Appends.refl _ _
  · obtain ⟨rfl, rfl⟩ := runs_pure.mp h
    exact Appends.refl _ _
  · obtain ⟨comma, t, hb, h⟩ := runs_bind.mp h
    obtain ⟨rfl, rfl⟩ := runs_pure.mp h
    exact ((bump_makes hb).appends cs).mono (List.nil_subset _)
  · -- A parameter of a function type: a type, which may have a name before it.
    have h := runs_bind_peek.mp h
    extract_lets afterName at h
    obtain ⟨named, s₁, hn, h⟩ : ∃ named s₁, Appends s cs [] s₁ named ∧
        Runs (afterName named) s₁ r s' := by
      obtain ⟨-, h⟩ | ⟨-, h⟩ := runs_ite.mp h
      · obtain ⟨name, t, hname, h⟩ := runs_bind.mp h
        obtain ⟨colon, t', hcolon, h⟩ := runs_bind.mp h
        have ha := (Appends.refl s cs).add (bumpName_yields hname).ifAny
        exact ⟨_, _, (ha.push (bump_makes hcolon)).mono (List.nil_subset _), h⟩
      · exact ⟨_, _, Appends.refl s cs, h⟩
    obtain ⟨parameter, s₂, ht, h⟩ := runs_bind.mp h
    have ht := hr.type ht
    cases parameter with
    | some parameter =>
      obtain ⟨rfl, rfl⟩ := runs_pure.mp h
      exact (hn.push (makesIfAny_some_iff.mp ht)).mono (List.nil_subset _)
    | none =>
      obtain ⟨kept, s₃, hk, h⟩ := runs_bind.mp h
      obtain ⟨rfl, rfl⟩ := runs_pure.mp h
      have hs := hn.skip (makesIfAny_none_iff.mp ht)
      exact (hs.push (unknownToken_makes hk)).mono (List.nil_subset _)

theorem functionTypeRest_appends (hr : rec.Sound) (h : Runs (functionTypeRest rec cs) s cs' s') :
    Appends s cs [] s' cs' ∧ cs' ≠ #[] := by
  unfold functionTypeRest at h
  obtain ⟨opened, s₁, ho, h⟩ := runs_bind.mp h
  obtain ⟨children, s₂, hl, h⟩ := runs_bind.mp h
  obtain ⟨closed, s₃, hc, h⟩ := runs_bind.mp h
  have hl := runs_repeating_appends (fun _ _ _ _ => functionTypeStep_appends hr) hl
  have ha := (((bump_makes ho).appends cs).trans hl).add (eat_yields hc).ifAny
  have hne : children ≠ #[] := hl.ne_empty Array.push_ne_empty
  obtain ⟨-, h⟩ | ⟨-, h⟩ := runs_ite.mp (runs_bind_isAt.mp h)
  · obtain ⟨arrow, s₄, hb, h⟩ := runs_bind.mp h
    obtain ⟨result, s₅, ht, h⟩ := runs_bind.mp h
    obtain ⟨rfl, rfl⟩ := runs_pure.mp h
    refine ⟨((ha.push (bump_makes hb)).add (hr.type ht)).mono (List.nil_subset _), ?_⟩
    simp
  · obtain ⟨rfl, rfl⟩ := runs_pure.mp h
    exact ⟨ha.mono (List.nil_subset _), by simp [hne]⟩

theorem typeArgumentStep_collects (hr : rec.Sound) {x : Array NodeId × Array NodeId}
    {r : Step (Array NodeId × Array NodeId)} (hx : Collects s₀ cs s x)
    (h : Runs (typeArgumentStep rec x) s r s') : Collects s₀ cs s' r.value := by
  obtain ⟨children, arguments⟩ := x
  unfold typeArgumentStep at h
  have h := runs_bind_kind.mp h
  split at h
  · obtain ⟨rfl, rfl⟩ := runs_pure.mp h
    exact hx
  · obtain ⟨rfl, rfl⟩ := runs_pure.mp h
    exact hx
  · obtain ⟨comma, t, hb, h⟩ := runs_bind.mp h
    obtain ⟨rfl, rfl⟩ := runs_pure.mp h
    exact hx.child (bump_makes hb)
  · obtain ⟨star, t, hb, h⟩ := runs_bind.mp h
    obtain ⟨rfl, rfl⟩ := runs_pure.mp h
    exact hx.child (bump_makes hb)
  · -- A type, which may have its variance before it.
    have h := runs_bind_peek.mp (runs_bind_isAtText.mp h)
    extract_lets afterVariance at h
    obtain ⟨children, s₁, hv, h⟩ : ∃ children s₁, Collects s₀ cs s₁ (children, arguments) ∧
        Runs (afterVariance children) s₁ r s' := by
      obtain ⟨-, h⟩ | ⟨-, h⟩ := runs_ite.mp h
      · obtain ⟨word, t, hb, h⟩ := runs_bind.mp h
        exact ⟨_, _, hx.child (bump_makes hb), h⟩
      · exact ⟨_, _, hx, h⟩
    obtain ⟨argument, s₂, ht, h⟩ := runs_bind.mp h
    have ht := hr.type ht
    cases argument with
    | some argument =>
      obtain ⟨rfl, rfl⟩ := runs_pure.mp h
      exact hv.member (makesIfAny_some_iff.mp ht)
    | none =>
      obtain ⟨kept, s₃, hk, h⟩ := runs_bind.mp h
      obtain ⟨rfl, rfl⟩ := runs_pure.mp h
      exact (hv.skip (makesIfAny_none_iff.mp ht)).child (unknownToken_makes hk)

theorem typeArgumentList_appends (hr : rec.Sound) {arguments : Array NodeId}
    (h : Runs (typeArgumentList rec) s (id, arguments) s') (cs : Array NodeId) :
    Appends s cs (id :: arguments.toList) s' (cs.push id) := by
  unfold typeArgumentList at h
  have h := runs_bind_place.mp h
  obtain ⟨opened, s₁, ho, h⟩ := runs_bind.mp h
  obtain ⟨⟨children, arguments⟩, s₂, hl, h⟩ := runs_bind.mp h
  obtain ⟨closed, s₃, hc, h⟩ := runs_bind.mp h
  obtain ⟨list, s₄, hn, h⟩ := runs_bind.mp h
  obtain ⟨he, rfl⟩ := runs_pure.mp h
  cases he
  have ha := (runs_repeating_collects (fun _ _ _ _ => typeArgumentStep_collects hr) hl).appends
  have hall := (((bump_makes ho).appends #[]).trans ha).add (eat_yields hc).ifAny
  have hne := ha.ne_empty (by simp)
  exact (hall.node_appends (by simp [hne]) rfl (List.nil_subset _) hn cs).mono (by grind)

theorem nullabilityStep_appends {isNullable : Bool} {r : Step (Array NodeId × Bool)}
    (h : Runs (nullabilityStep (cs, isNullable)) s r s') : Appends s cs [] s' r.value.1 := by
  unfold nullabilityStep at h
  have h := runs_bind_startsLine.mp (runs_bind_isAt.mp h)
  obtain ⟨-, h⟩ | ⟨-, h⟩ := runs_ite.mp h
  · obtain ⟨mark, t, hb, h⟩ := runs_bind.mp h
    obtain ⟨rfl, rfl⟩ := runs_pure.mp h
    exact ((bump_makes hb).appends cs).mono (List.nil_subset _)
  · obtain ⟨rfl, rfl⟩ := runs_pure.mp h
    exact Appends.refl _ _

theorem finishType_makes {start : Nat} {name : Option NodeId} {typeArguments : Array NodeId}
    (h : Runs (finishType start cs name typeArguments) s o s')
    (ha : Appends s₀ #[] (name.toList ++ typeArguments.toList) s cs)
    (hl : Lists #[] name.toList cs) (hne : cs ≠ #[]) :
    ∃ id, o = some id ∧ Makes s₀ id s' := by
  unfold finishType at h
  obtain ⟨⟨children, isNullable⟩, s₁, hmarks, h⟩ := runs_bind.mp h
  obtain ⟨id, s₂, hn, h⟩ := runs_bind.mp h
  obtain ⟨rfl, rfl⟩ := runs_pure.mp h
  have hm : Appends s cs [] s₁ children :=
    runs_repeating_value (I := fun t (x : Array NodeId × Bool) => Appends s cs [] t x.1)
      (fun t x r t' hi hs => hi.trans (nullabilityStep_appends hs)) (Appends.refl s cs) hmarks
  have hl := hl.trans hm.adds.listed
  rw [List.append_nil] at hl
  refine ⟨id, rfl, (ha.trans hm).node_of_roles (hm.ne_empty hne) rfl ?_ ?_ ?_ ?_ hn⟩
  · simp [NodeData.parts]
  · exact hl
  · exact fun _ hr => absurd hr List.not_mem_nil
  · exact Forest.tells_of_none rfl rfl

theorem namedType_makes (hr : rec.Sound) {limit : Option Nat} {start : Nat}
    (ha : Appends s₀ #[] [] s cs) (hk : s.current.kind.isName = true)
    (h : Runs (namedType rec limit start cs) s o s') : ∃ id, o = some id ∧ Makes s₀ id s' := by
  unfold namedType at h
  obtain ⟨⟨name, star⟩, s₁, hname, h⟩ := runs_bind.mp h
  obtain ⟨first, rfl⟩ := Option.isSome_iff_exists.mp (nameChain_isSome hk hname)
  have hc := ha.push (nameChain_yields hname).makes
  have h := runs_bind_startsLine.mp (runs_bind_isAt.mp h)
  extract_lets afterArguments at h
  obtain ⟨children, typeArguments, s₂, hargs, h⟩ : ∃ children typeArguments s₂,
      Appends s₁ (cs.push first) typeArguments.toList s₂ children ∧
        Runs (afterArguments (children, typeArguments)) s₂ o s' := by
    obtain ⟨-, h⟩ | ⟨-, h⟩ := runs_ite.mp h
    · obtain ⟨⟨list, arguments⟩, t, hl, h⟩ := runs_bind.mp h
      have hl := typeArgumentList_appends hr hl (cs.push first)
      exact ⟨_, arguments, _, hl.mono (List.subset_cons_self _ _), h⟩
    · exact ⟨_, #[], _, Appends.refl s₁ _, h⟩
  have hall := hc.trans hargs
  have hlisted := (ha.adds.push (nameChain_yields hname).makes).trans hargs.adds
  have hne := hargs.ne_empty Array.push_ne_empty
  have h := runs_bind_peek.mp (runs_bind_isAt.mp h)
  obtain ⟨-, h⟩ | ⟨-, h⟩ := runs_ite.mp h
  · -- The type so far is what a function type is applied to.
    obtain ⟨dot, s₃, hb, h⟩ := runs_bind.mp h
    obtain ⟨rest, s₄, hrest, h⟩ := runs_bind.mp h
    obtain ⟨hrest, hne⟩ := functionTypeRest_appends hr hrest
    have hwhole := (hall.push (bump_makes hb)).trans hrest
    exact finishType_makes h (hwhole.mono (by simp)) hwhole.adds.listed hne
  · exact finishType_makes h (hall.mono (by simp)) (hlisted.listed.mono (by simp)) hne

theorem typeAfterAnnotations_makes (hr : rec.Sound) {limit : Option Nat} {start : Nat}
    (ha : Appends s₀ #[] [] s cs) (h : Runs (typeAfterAnnotations rec limit start cs) s o s') :
    (o = none ∧ s' = s) ∨ ∃ id, o = some id ∧ Makes s₀ id s' := by
  unfold typeAfterAnnotations at h
  have h := runs_bind_peek.mp (runs_bind_isAtText.mp h)
  extract_lets afterSuspend at h
  -- The word is taken before a parenthesis only, after which a type does follow.
  obtain ⟨children, s₁, hs, hat, h⟩ : ∃ children s₁, Appends s₀ #[] [] s₁ children ∧
      (s₁ = s ∨ s₁.current.kind = .openParen) ∧ Runs (afterSuspend children) s₁ o s' := by
    obtain ⟨hp, h⟩ | ⟨-, h⟩ := runs_ite.mp h
    · obtain ⟨word, t, hb, h⟩ := runs_bind.mp h
      simp only [Bool.and_eq_true, decide_eq_true_iff] at hp
      refine ⟨_, _, (ha.push (bump_makes hb)).mono (List.nil_subset _), ?_, h⟩
      exact Or.inr ((bump_kind hb).trans hp.2)
    · exact ⟨_, _, ha, Or.inl rfl, h⟩
  obtain ⟨-, h⟩ | ⟨hparen, h⟩ := runs_ite.mp (runs_bind_isAt.mp h)
  · obtain ⟨rest, s₂, hrest, h⟩ := runs_bind.mp h
    obtain ⟨hrest, hne⟩ := functionTypeRest_appends hr hrest
    have hwhole := hs.trans hrest
    exact Or.inr (finishType_makes h hwhole hwhole.adds.listed hne)
  · obtain ⟨hname, h⟩ | ⟨-, h⟩ := runs_ite.mp (runs_bind_isAtName.mp h)
    · exact Or.inr (namedType_makes hr hs hname h)
    · obtain ⟨rfl, rfl⟩ := runs_pure.mp h
      refine Or.inl ⟨rfl, ?_⟩
      rcases hat with hat | hat
      · exact hat
      · exact absurd (decide_eq_true hat) hparen

/-- Annotations that no type follows are left behind. -/
theorem typeReference_makesIfAny (hr : rec.Sound) {limit : Option Nat}
    (h : Runs (typeReference rec limit) s o s') : MakesIfAny s o s' := by
  unfold typeReference at h
  refine nested_makesIfAny ?_ (runs_bind_place.mp h)
  intro s o s' h
  have h := runs_bind_isAt.mp h
  extract_lets afterAnnotations at h
  obtain ⟨hat, h⟩ | ⟨-, h⟩ := runs_ite.mp h
  · obtain ⟨⟨annotations, found⟩, s₁, hm, h⟩ := runs_bind.mp h
    have hat : s.current.kind = .atSign := of_decide_eq_true hat
    obtain ⟨q, rfl, hfirst, hq⟩ | ⟨-, -, hsign, -⟩ := modifiers_cases hr hm
    · have ha : Appends s #[] [] s₁ (#[].push q.root) :=
        ((show Makes s q.root s₁ from ⟨q, rfl, hq⟩).appends #[]).mono (List.nil_subset _)
      obtain ⟨rfl, rfl⟩ | ⟨id, rfl, hm⟩ := typeAfterAnnotations_makes hr ha h
      · -- The annotations are a tree that begins with their first sign, and it is dropped.
        exact makesIfAny_none_iff.mpr (hq.drop hat hfirst)
      · exact hm.ifAny
    · exact absurd hat hsign
  · obtain ⟨rfl, rfl⟩ | ⟨id, rfl, hm⟩ := typeAfterAnnotations_makes hr (Appends.refl s #[]) h
    · exact makesIfAny_none_iff.mpr (.refl _)
    · exact hm.ifAny

end

end KotlinTree.Grammar
