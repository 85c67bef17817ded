import KotlinTree.Proofs.Grammar.Primitive

/-!
Names, arguments and annotations make trees of all that they take.
-/

namespace KotlinTree.Grammar

section
variable {rec : Productions} {s₀ s s' : State} {id : NodeId} {o : Option NodeId}

/-- An access over a tree, with the point after it and the name after the point, if there is one. -/
theorem access_makes {expression operator access : NodeId} {name : Option NodeId} {start : Nat}
    {isNullSafe : Bool} {s₁ s₂ : State} (hm : Makes s₀ expression s)
    (hb : Runs bump s operator s₁) (hname : Runs bumpName s₁ name s₂)
    (hn : Runs (node .propertyAccessExpression start
      (among [some expression, some operator, name])
      (.access { expression, operator, name, isNullSafe })) s₂ access s')
    (hpoint : s.current.kind = if isNullSafe then .questionDot else .dot) : Makes s₀ access s' := by
  rw [among_eq] at hn
  have hy := bumpName_yields hname
  -- The children are what the access is on, its operator and its name, in the order of the text.
  have ha := ((hm.adds #[]).push (bump_makes hb)).add hy.ifAny
  refine ha.appends.node_of_describes (by simp) rfl (by simp [NodeData.parts]) ?_
    (Forest.tells_of_none rfl rfl) hn
  refine ⟨ha.listed.subperm, ?_, List.nil_subperm, fun _ hr => absurd hr List.not_mem_nil, ?_,
    fun _ he => absurd he (Option.not_mem_none _), rfl⟩
  · intro id hid
    cases hid
    cases name <;> rfl
  · intro r hr
    rcases List.mem_cons.mp hr with rfl | hr
    · exact ⟨_, List.mem_singleton_self _, hy.ifAny.kind? (hpoint ▸ bump_kind? hb)⟩
    · obtain ⟨leaf, hleaf, rfl⟩ := List.mem_map.mp hr
      obtain rfl := Option.mem_toList.mp hleaf
      exact ⟨_, List.mem_singleton_self _, bumpName_kind? hname⟩

/-- A run leaves a tree that is a path. -/
def MakesPath (s : State) (id : NodeId) (s' : State) : Prop := Makes s id s' ∧ s'.forest.IsPath id

/-- A step makes an access over the names so far, stops, or adds the star after them. -/
theorem nameChainStep_cases {limit : Option Nat} {allowStar : Bool} {start names : Nat}
    {left : NodeId} {r : Step (NodeId × Nat × Array NodeId)} (hm : MakesPath s₀ left s)
    (h : Runs (nameChainStep limit allowStar start (left, names, #[])) s r s') :
    (∃ access, r = .more (access, names + 1, #[]) ∧ MakesPath s₀ access s') ∨
      (r = .done (left, names, #[]) ∧ s' = s) ∨
      ∃ star, r = .done (left, names, star) ∧ allowStar = true ∧ Appends s #[] [] s' star := by
  unfold nameChainStep at h
  obtain ⟨hdot, h⟩ | ⟨-, h⟩ := runs_ite.mp (runs_bind_isAt.mp h)
  · obtain ⟨hnext, h⟩ | ⟨-, h⟩ := runs_ite.mp (runs_bind_peek.mp h)
    · -- A name after the point: an access over what is there so far.
      obtain ⟨dot, s₁, hb, h⟩ := runs_bind.mp h
      obtain ⟨name, s₂, hname, h⟩ := runs_bind.mp h
      obtain ⟨access, s₃, hn, h⟩ := runs_bind.mp h
      obtain ⟨rfl, rfl⟩ := runs_pure.mp h
      have hpoint : s.current.kind = .dot := of_decide_eq_true (Bool.and_eq_true_iff.mp hdot).1
      have hmade := access_makes hm.1 hb hname hn hpoint
      refine Or.inl ⟨access, rfl, hmade, ?_⟩
      obtain ⟨name, rfl⟩ := Option.isSome_iff_exists.mp (bumpName_isSome (bump_kind hb ▸ hnext) hname)
      obtain ⟨_, -, hdotted⟩ := bump_makes hb
      obtain ⟨_, -, hnamed⟩ := (bumpName_yields hname).makes
      obtain ⟨rfl, rfl⟩ := runs_node.mp hn
      have hlink : (s₂.forest.addNode .propertyAccessExpression start
          (among [some left, some dot, some name]) (.access ⟨left, dot, some name, false⟩)).2.link?
            s₂.forest.size = some (left, name) := by
        rw [Forest.link?, Forest.data_addNode]
        rfl
      exact .link hlink ((hnamed.isPath (hdotted.isPath hm.2)).addNode _ _ _ _)
    · obtain ⟨hstar, h⟩ | ⟨-, h⟩ := runs_ite.mp h
      · -- A star ends the chain and is no part of it.
        obtain ⟨dot, s₁, hdot, h⟩ := runs_bind.mp h
        obtain ⟨asterisk, s₂, hast, h⟩ := runs_bind.mp h
        obtain ⟨rfl, rfl⟩ := runs_pure.mp h
        refine Or.inr (Or.inr ⟨_, rfl, ?_, ?_⟩)
        · simp only [Bool.and_eq_true] at hstar
          exact hstar.1
        · exact (((bump_makes hdot).appends #[]).push (bump_makes hast)).mono (List.nil_subset _)
      · obtain ⟨rfl, rfl⟩ := runs_pure.mp h
        exact Or.inr (Or.inl ⟨rfl, rfl⟩)
  · obtain ⟨rfl, rfl⟩ := runs_pure.mp h
    exact Or.inr (Or.inl ⟨rfl, rfl⟩)

/-- A chain is a path, and the star after it is further trees. -/
theorem nameChain_appends {limit : Option Nat} {allowStar : Bool} {star : Array NodeId}
    (h : Runs (nameChain limit allowStar) s (o, star) s') :
    ∃ s₁, (Yields s o s₁ ∧ ∀ id, o = some id → s₁.forest.IsPath id) ∧
      Appends s₁ #[] [] s' star ∧ (allowStar = false → s' = s₁) := by
  unfold nameChain at h
  rw [runs_bind_place] at h
  obtain ⟨first, s₁, hfirst, h⟩ := runs_bind.mp h
  have hy := bumpName_yields hfirst
  cases first with
  | none =>
    obtain ⟨he, rfl⟩ := runs_pure.mp h
    cases he
    exact ⟨s₁, ⟨hy, fun _ he => absurd he (Option.not_mem_none _)⟩, Appends.refl s₁ #[], fun _ => rfl⟩
  | some first =>
    obtain ⟨⟨left, names, star'⟩, s₂, hr, h⟩ := runs_bind.mp h
    obtain ⟨he, rfl⟩ := runs_pure.mp h
    cases he
    have hyields {x : NodeId} {t : State} (hm : MakesPath s x t) :
        Yields s (some x) t ∧ ∀ id, some x = some id → t.forest.IsPath id :=
      ⟨hm.1.yields, fun id he => Option.some.inj he ▸ hm.2⟩
    -- The chain so far is a path and there is no asterisk; the step that takes one is the last.
    refine runs_repeating
      (I := fun t (x : NodeId × Nat × Array NodeId) => MakesPath s x.1 t ∧ x.2.2 = #[])
      (Q := fun t x => ∃ t₁, (Yields s (some x.1) t₁ ∧ ∀ id, some x.1 = some id →
        t₁.forest.IsPath id) ∧ Appends t₁ #[] [] t x.2.2 ∧ (allowStar = false → t = t₁)) ?_ ?_
      ⟨⟨hy.makes, .name (bumpName_kind? hfirst)⟩, rfl⟩ hr
    · rintro t ⟨x, n, cs⟩ ⟨hm, rfl⟩
      exact ⟨t, hyields hm, Appends.refl t #[], fun _ => rfl⟩
    · rintro t ⟨x, n, cs⟩ r t' ⟨hm, rfl⟩ hs
      obtain ⟨access, rfl, hm⟩ | ⟨rfl, rfl⟩ | ⟨cs, rfl, hstar, ha⟩ := nameChainStep_cases hm hs
      · exact ⟨hm, rfl⟩
      · exact ⟨t', hyields hm, Appends.refl t' #[], fun _ => rfl⟩
      · refine ⟨t, hyields hm, ha, ?_⟩
        intro hno
        rw [hstar] at hno
        cases hno

theorem nameChain_yields {limit : Option Nat} {star : Array NodeId}
    (h : Runs (nameChain limit false) s (o, star) s') : Yields s o s' := by
  obtain ⟨s₁, ⟨hy, -⟩, -, hs⟩ := nameChain_appends h
  exact hs rfl ▸ hy

theorem nameChain_isSome {limit : Option Nat} {allowStar : Bool} {star : Array NodeId}
    (hk : s.current.kind.isName = true) (h : Runs (nameChain limit allowStar) s (o, star) s') :
    o.isSome = true := by
  unfold nameChain at h
  obtain ⟨first, s₁, hfirst, h⟩ := runs_bind.mp (runs_bind_place.mp h)
  obtain ⟨first, rfl⟩ := Option.isSome_iff_exists.mp (bumpName_isSome hk hfirst)
  obtain ⟨⟨left, names, star'⟩, s₂, -, h⟩ := runs_bind.mp h
  obtain ⟨he, -⟩ := runs_pure.mp h
  cases he
  rfl

theorem valueArgument_yields (hr : rec.Sound) (h : Runs (valueArgument rec) s o s') :
    Yields s o s' := by
  unfold valueArgument at h
  rw [runs_bind_place, runs_bind_isAtName, runs_bind_peek] at h
  extract_lets rest at h
  -- Up to here there is a name with its sign, or nothing has been taken.
  obtain ⟨name, children, s₁, hc, h⟩ : ∃ name children s₁,
      (Appends s #[] name.toList s₁ children ∧ (children = #[] → s₁ = s)) ∧
        Runs (rest (name, children)) s₁ o s' := by
    obtain ⟨-, h⟩ | ⟨-, h⟩ := runs_ite.mp h
    · obtain ⟨name, t, hn, h⟩ := runs_bind.mp h
      obtain ⟨equals, t', he, h⟩ := runs_bind.mp h
      have ha := ((Appends.refl s #[]).add (bumpName_yields hn).ifAny).push (bump_makes he)
      exact ⟨_, _, _, ⟨ha.mono (by simp), fun hp => absurd hp Array.push_ne_empty⟩, h⟩
    · exact ⟨none, _, _, ⟨Appends.refl s #[], fun _ => rfl⟩, h⟩
  obtain ⟨spread, s₂, hspread, h⟩ := runs_bind.mp h
  obtain ⟨expression, s₃, hexpr, h⟩ := runs_bind.mp h
  have hs := eat_yields hspread
  have he := hr.expression hexpr
  obtain ⟨hnone, h⟩ | ⟨hsome, h⟩ := runs_ite.mp h
  · -- No part of an argument is there, so nothing has been taken at all.
    simp only [Bool.and_eq_true, Option.isNone_iff_eq_none, Array.isEmpty_iff,
      add_eq_empty_iff] at hnone
    obtain ⟨rfl, rfl, rfl⟩ := hnone
    obtain ⟨rfl, rfl⟩ := runs_pure.mp h
    rw [he.eq_of_none, hs.eq_of_none, hc.2 rfl]
    exact yields_none s
  · obtain ⟨argument, s₄, hn, h⟩ := runs_bind.mp h
    obtain ⟨rfl, rfl⟩ := runs_pure.mp h
    have ha := (hc.1.add hs.ifAny).add he.ifAny
    refine (ha.node ?_ rfl (by simp [NodeData.parts]) hn).yields
    intro hz
    simp only [add_eq_empty_iff] at hz
    simp [hz] at hsome

theorem valueArgumentStep_collects (hr : rec.Sound) {cs : Array NodeId}
    {x : Array NodeId × Array NodeId} {r : Step (Array NodeId × Array NodeId)}
    (hx : Collects s₀ cs s x) (h : Runs (valueArgumentStep rec x) s r s') :
    Collects s₀ cs s' r.value := by
  obtain ⟨children, arguments⟩ := x
  unfold valueArgumentStep at h
  rw [runs_bind_kind] at h
  split at h
  · obtain ⟨rfl, rfl⟩ := runs_pure.mp h
    exact hx
  · obtain ⟨rfl, rfl⟩ := runs_pure.mp h
    exact hx
  · obtain ⟨comma, s₁, hb, h⟩ := runs_bind.mp h
    obtain ⟨rfl, rfl⟩ := runs_pure.mp h
    exact hx.child (bump_makes hb)
  · obtain ⟨kept, s₁, hk, h⟩ := runs_bind.mp h
    obtain ⟨rfl, rfl⟩ := runs_pure.mp h
    exact hx.child (unknownToken_makes hk)
  · obtain ⟨kept, s₁, hk, h⟩ := runs_bind.mp h
    obtain ⟨rfl, rfl⟩ := runs_pure.mp h
    exact hx.child (unknownToken_makes hk)
  · obtain ⟨argument, s₁, ha, h⟩ := runs_bind.mp h
    have hy := valueArgument_yields hr ha
    cases argument with
    | some argument =>
      obtain ⟨rfl, rfl⟩ := runs_pure.mp h
      exact hx.member hy.makes
    | none =>
      -- What starts no argument is kept, which goes on by a token.
      rw [hy.eq_of_none] at h
      obtain ⟨kept, s₂, hk, h⟩ := runs_bind.mp h
      obtain ⟨rfl, rfl⟩ := runs_pure.mp h
      exact hx.child (unknownToken_makes hk)

/-- A node is a list of arguments, and the arguments are among its children. -/
structure IsArgumentList (f : Forest) (list : NodeId) (arguments : List NodeId) : Prop where
  kind : f.kind? (some list) = some (.node .valueArgumentList)
  held : arguments.Subperm (f.children (some list)).toList

theorem IsArgumentList.builds {ps : List Piece} {arguments : List NodeId}
    (h : IsArgumentList s.forest id arguments) (hb : Builds s ps s') :
    IsArgumentList s'.forest id arguments :=
  ⟨hb.kind? h.kind, hb.children h.kind ▸ h.held⟩

theorem valueArgumentList_appends (hr : rec.Sound) {arguments : Array NodeId}
    (h : Runs (valueArgumentList rec) s (id, arguments) s') (cs : Array NodeId) :
    Appends s cs (id :: arguments.toList) s' (cs.push id) ∧
      IsArgumentList s'.forest id arguments.toList := by
  unfold valueArgumentList at h
  rw [runs_bind_place] at h
  obtain ⟨opened, s₁, ho, h⟩ := runs_bind.mp h
  obtain ⟨⟨children, arguments⟩, s₂, ha, h⟩ := runs_bind.mp h
  obtain ⟨closed, s₃, hc, h⟩ := runs_bind.mp h
  obtain ⟨list, s₄, hn, h⟩ := runs_bind.mp h
  obtain ⟨he, rfl⟩ := runs_pure.mp h
  cases he
  have ho := (bump_makes ho).adds #[]
  obtain ⟨t, hl, rfl⟩ := runs_withTrailingLambda ha
  have ha := (runs_repeating_collects (fun _ _ _ _ => valueArgumentStep_collects hr) hl).braces
  have hall := (ho.trans ha).add (eat_yields hc).ifAny
  have hne : children ≠ #[] := ha.ne_empty (by simp)
  constructor
  · have hmade := hall.appends.node_appends (by simp [hne]) rfl (List.nil_subset _) hn cs
    exact hmade.mono (by grind)
  -- The arguments are among the children, between the parentheses.
  · obtain ⟨rfl, rfl⟩ := runs_node.mp hn
    refine ⟨Forest.kind?_addNode .., ?_⟩
    rw [State.noded, Forest.children_addNode]
    have hsub := (List.sublist_append_right [opened] arguments.toList).trans
      (List.sublist_append_left _ closed.toList)
    exact (hall.mono hsub).listed.subperm

/-- An annotation, below which its sign is the first node that is made. -/
theorem annotationUse_appends (hr : rec.Sound) (h : Runs (annotationUse rec) s id s')
    (cs : Array NodeId) : Appends s cs [id, s.forest.size] s' (cs.push id) := by
  unfold annotationUse at h
  rw [runs_bind_place] at h
  obtain ⟨sign, s₁, hs, h⟩ := runs_bind.mp h
  have hfirst := (runs_bumpAs.mp (runs_bump.mp hs)).1
  obtain ⟨⟨name, star⟩, s₂, hn, h⟩ := runs_bind.mp h
  have hc := ((bump_makes hs).appends #[]).add (nameChain_yields hn).ifAny
  have h := runs_bind_isAttached.mp (runs_bind_isAt.mp h)
  extract_lets afterArguments afterTarget at h
  -- A colon after the name makes it the target of what is named next.
  obtain ⟨targeted, s₃, ht, h⟩ : ∃ cs s₃, Appends s₂ (add #[sign] name) [] s₃ cs ∧
      Runs (afterTarget cs) s₃ id s' := by
    obtain ⟨-, h⟩ | ⟨-, h⟩ := runs_ite.mp h
    · obtain ⟨colon, t, hb, h⟩ := runs_bind.mp h
      obtain ⟨⟨target, star⟩, t', hn, h⟩ := runs_bind.mp h
      have ha := ((bump_makes hb).appends (add #[sign] name)).add (nameChain_yields hn).ifAny
      exact ⟨_, _, ha.mono (List.nil_subset _), h⟩
    · exact ⟨_, _, Appends.refl s₂ _, h⟩
  have h := runs_bind_isAttached.mp (runs_bind_isAt.mp h)
  obtain ⟨children, s₄, ha, h⟩ : ∃ cs s₄, Appends s₃ targeted [] s₄ cs ∧
      Runs (afterArguments cs) s₄ id s' := by
    obtain ⟨-, h⟩ | ⟨-, h⟩ := runs_ite.mp h
    · obtain ⟨⟨list, arguments⟩, t, hl, h⟩ := runs_bind.mp h
      exact ⟨_, _, (valueArgumentList_appends hr hl _).1.mono (List.nil_subset _), h⟩
    · exact ⟨_, _, Appends.refl s₃ _, h⟩
  have hne := ha.ne_empty (ht.ne_empty (by simp))
  refine (((hc.trans ht).trans ha).node_appends hne rfl (List.nil_subset _) h cs).mono ?_
  rw [hfirst]
  grind

/-- A modifier or an annotation is one more tree of the list. -/
theorem modifierStep_appends (hr : rec.Sound) {list : Array NodeId} {found : List Modifier}
    {r : Step (Array NodeId × List Modifier)}
    (h : Runs (modifierStep rec (list, found)) s r s') :
    (∃ id x, r = .more (list.push id, x) ∧ Appends s list [id, s.forest.size] s' (list.push id)) ∨
      (r = .done (list, found) ∧ s' = s ∧ s.current.kind ≠ .atSign ∧
        isModifierAhead s.tokens = false) := by
  unfold modifierStep at h
  obtain ⟨-, h⟩ | ⟨hsign, h⟩ := runs_ite.mp (runs_bind_isAt.mp h)
  · obtain ⟨use, t, ha, h⟩ := runs_bind.mp h
    obtain ⟨rfl, rfl⟩ := runs_pure.mp h
    exact Or.inl ⟨use, found, rfl, annotationUse_appends hr ha list⟩
  · obtain ⟨-, h⟩ | ⟨hword, h⟩ := runs_ite.mp (runs_bind_isAtModifier.mp h)
    · obtain ⟨word, t, hb, h⟩ := runs_bind.mp (runs_bind_get.mp h)
      obtain ⟨rfl, rfl⟩ := runs_pure.mp h
      refine Or.inl ⟨word, _, rfl, ((bump_makes hb).appends list).mono ?_⟩
      rw [(runs_bumpAs.mp (runs_bump.mp hb)).1]
      grind
    · obtain ⟨rfl, rfl⟩ := runs_pure.mp h
      exact Or.inr ⟨rfl, rfl, fun hk => hsign (decide_eq_true hk), by simpa using hword⟩

/-- Modifiers are one more child, unless there are none. The first node that is made is below
it. -/
theorem modifiers_cases (hr : rec.Sound) {cs children : Array NodeId} {found : List Modifier}
    (h : Runs (modifiers rec cs) s (children, found) s') :
    (∃ q : Piece, children = cs.push q.root ∧ s.forest.size ∈ q.members ∧ Builds s [q] s') ∨
      (children = cs ∧ s' = s ∧ s.current.kind ≠ .atSign ∧ isModifierAhead s.tokens = false) := by
  unfold modifiers at h
  obtain ⟨⟨list, found'⟩, s₁, hl, h⟩ := runs_bind.mp (runs_bind_place.mp h)
  obtain ⟨r, t, hstep, hrest⟩ := runs_repeating_first hl
  obtain ⟨id, x, rfl, hfirst⟩ | ⟨rfl, rfl, hnone⟩ := modifierStep_appends hr hstep
  · -- The first step has made the first node, and the steps after it keep it among the trees.
    have hc : Appends s #[] [s.forest.size] s₁ list ∧ list ≠ #[] := by
      refine runs_repeatUpTo_value
        (I := fun t (x : Array NodeId × List Modifier) =>
          Appends s #[] [s.forest.size] t x.1 ∧ x.1 ≠ #[]) ?_
        ⟨hfirst.mono (List.subset_cons_self _ _), Array.push_ne_empty⟩ hrest
      rintro t ⟨cs, fs⟩ r t' ⟨ha, hne⟩ hs
      obtain ⟨id, x, rfl, hmore⟩ | ⟨rfl, rfl, -⟩ := modifierStep_appends hr hs
      · exact ⟨(ha.trans hmore).mono (List.subset_append_left _ _), Array.push_ne_empty⟩
      · exact ⟨ha, hne⟩
    obtain ⟨hnil, -⟩ | ⟨-, h⟩ := runs_ite.mp h
    · exact absurd (Array.isEmpty_iff.mp hnil) hc.2
    · obtain ⟨id, s₂, hn, h⟩ := runs_bind.mp h
      obtain ⟨hv, rfl⟩ := runs_pure.mp h
      cases hv
      obtain ⟨q, rfl, hq, hb⟩ := (hc.1.node_appends hc.2 rfl (List.nil_subset _) hn #[]).single
      obtain ⟨p, hp, hm⟩ := hq s.forest.size (List.mem_cons_of_mem _ (List.mem_singleton_self _))
      rw [List.mem_singleton.mp hp] at hm
      exact Or.inl ⟨q, rfl, hm, hb⟩
  · obtain ⟨hv, rfl⟩ := hrest
    cases hv
    obtain ⟨-, h⟩ | ⟨hnil, -⟩ := runs_ite.mp h
    · obtain ⟨hv, rfl⟩ := runs_pure.mp h
      cases hv
      exact Or.inr ⟨rfl, rfl, hnone⟩
    · exact absurd rfl hnil

theorem modifiers_yields (hr : rec.Sound) {cs children : Array NodeId} {found : List Modifier}
    (h : Runs (modifiers rec cs) s (children, found) s') :
    ∃ o, children = add cs o ∧ Yields s o s' := by
  obtain ⟨q, rfl, -, hb⟩ | ⟨rfl, rfl, -⟩ := modifiers_cases hr h
  · exact ⟨some q.root, rfl, (show Makes s q.root s' from ⟨q, rfl, hb⟩).yields⟩
  · exact ⟨none, rfl, yields_none _⟩

theorem modifiers_isSome (hr : rec.Sound) {cs children : Array NodeId} {found : List Modifier}
    (hat : s.current.kind = .atSign ∨ isModifierAhead s.tokens = true)
    (h : Runs (modifiers rec cs) s (children, found) s') : children ≠ cs := by
  obtain ⟨q, rfl, -⟩ | ⟨-, -, hsign, hword⟩ := modifiers_cases hr h
  · intro he
    have hsize := congrArg Array.size he
    rw [Array.size_push] at hsize
    omega
  · rcases hat with hat | hat
    · exact absurd hat hsign
    · rw [hword] at hat
      cases hat

end

end KotlinTree.Grammar
