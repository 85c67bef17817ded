import KotlinTree.Proofs.Grammar.Progress

/-!
The productions that all others are made of: taking tokens, repetition, nesting, and the keeping of source
that the grammar does not cover. A token becomes a leaf with its trivia and its text, where the token
stands, and stays that for the rest of the parse.
-/

namespace KotlinTree.Grammar

section
variable {s s₁ s' : State} {id : NodeId} {o : Option NodeId}

/-- A token that is taken makes a leaf. -/
theorem bumpAs_makes {k : TokenKind} (hk : TakenAs k s.current) (h : Runs (bumpAs k) s id s') :
    Makes s id s' :=
  ⟨.leaf id, rfl, .bump hk h⟩

/-- To take the current token is to take it as what it is. -/
theorem runs_bump : Runs bump s id s' ↔ Runs (bumpAs s.current.kind) s id s' := Iff.rfl

/-- It makes a leaf, too. -/
theorem bump_makes (h : Runs bump s id s') : Makes s id s' :=
  bumpAs_makes (.inl rfl) (runs_bump.mp h)

/-- A name is taken if there is one. -/
theorem bumpName_yields (h : Runs bumpName s o s') : Yields s o s' := by
  unfold bumpName at h
  rw [runs_bind_isAtName] at h
  obtain ⟨hk, h⟩ | ⟨-, h⟩ := runs_ite.mp h
  · obtain ⟨id, s₁, hb, h⟩ := runs_bind.mp h
    obtain ⟨rfl, rfl⟩ := runs_pure.mp h
    exact (bumpAs_makes (.inr ⟨rfl, hk⟩) hb).yields
  · obtain ⟨rfl, rfl⟩ := runs_pure.mp h
    exact yields_none _

/-- A name that is there is taken as an identifier. -/
theorem bumpName_of_isName (hk : s.current.kind.isName = true) (h : Runs bumpName s o s') :
    ∃ id, o = some id ∧ Runs (bumpAs .identifier) s id s' := by
  unfold bumpName at h
  obtain ⟨-, h⟩ | ⟨hn, -⟩ := runs_ite.mp (runs_bind_isAtName.mp h)
  · obtain ⟨id, s₁, hb, h⟩ := runs_bind.mp h
    obtain ⟨rfl, rfl⟩ := runs_pure.mp h
    exact ⟨id, rfl, hb⟩
  · exact absurd hk hn

/-- Where a name stands, it is taken. -/
theorem bumpName_isSome (hk : s.current.kind.isName = true) (h : Runs bumpName s o s') :
    o.isSome = true := by
  obtain ⟨id, rfl, -⟩ := bumpName_of_isName hk h
  rfl

/-- A leaf is of the kind that is asked for. -/
theorem bumpAs_kind? {k : TokenKind} (h : Runs (bumpAs k) s id s') :
    s'.forest.kind? (some id) = some (.token k) := by
  obtain ⟨rfl, rfl⟩ := runs_bumpAs.mp h
  have hget := Forest.getElem?_addLeaf s.forest k ⟨s.current.place, s.current.stop⟩
    s.current.leading s.current.text s.current.value s.forest.size
  rw [if_pos rfl] at hget
  rw [State.advance_forest]
  exact Forest.kind?_of_getElem? hget

/-- The kind of a leaf is that of its token. -/
theorem bump_kind? (h : Runs bump s id s') :
    s'.forest.kind? (some id) = some (.token s.current.kind) := bumpAs_kind? (runs_bump.mp h)

/-- What is taken as a name is an identifier, whatever word it is. -/
theorem bumpName_kind? (h : Runs bumpName s (some id) s') :
    s'.forest.kind? (some id) = some (.token .identifier) := by
  unfold bumpName at h
  obtain ⟨-, h⟩ | ⟨-, h⟩ := runs_ite.mp (runs_bind_isAtName.mp h)
  · obtain ⟨name, s₁, hb, h⟩ := runs_bind.mp h
    obtain ⟨he, rfl⟩ := runs_pure.mp h
    cases he
    exact bumpAs_kind? hb
  · obtain ⟨he, -⟩ := runs_pure.mp h
    cases he

/-- What is made after a sign has been taken stands right after it. -/
theorem MakesIfAny.follows_sign {sign : TokenKind} {word : NodeId} (h : MakesIfAny s₁ (some id) s')
    (hat : decide (s.current.kind = sign) = true) (hb : Runs bump s word s₁) (cs : Array NodeId) :
    s'.forest.Follows sign ((cs.push word).push id) id := by
  have hkind := h.kind? (bump_kind? hb)
  rw [of_decide_eq_true hat] at hkind
  exact ⟨cs.toList, word, [], by simp, hkind⟩

/-- The token after the one that is taken comes next. -/
theorem bumpAs_nextKind {k : TokenKind} (h : Runs (bumpAs k) s id s') : s'.current.kind = s.nextKind := by
  obtain ⟨-, rfl⟩ := runs_bumpAs.mp h
  unfold State.nextKind State.advance
  cases s.ahead <;> rfl

/-- After a token is taken, the next one is current. -/
theorem bump_kind (h : Runs bump s id s') : s'.current.kind = s.nextKind :=
  bumpAs_nextKind (runs_bump.mp h)

/-- A sign is taken if it is there. -/
theorem eat_yields {k : TokenKind} (h : Runs (eat k) s o s') : Yields s o s' := by
  unfold eat at h
  rw [runs_bind_isAt] at h
  obtain ⟨-, h⟩ | ⟨-, h⟩ := runs_ite.mp h
  · obtain ⟨id, s₁, hb, h⟩ := runs_bind.mp h
    obtain ⟨rfl, rfl⟩ := runs_pure.mp h
    exact (bump_makes hb).yields
  · obtain ⟨rfl, rfl⟩ := runs_pure.mp h
    exact yields_none _

/-- Where it stands, it is taken. -/
theorem eat_isSome {k : TokenKind} (hk : s.current.kind = k) (h : Runs (eat k) s o s') :
    o.isSome = true := by
  unfold eat at h
  obtain ⟨-, h⟩ | ⟨hn, -⟩ := runs_ite.mp (runs_bind_isAt.mp h)
  · obtain ⟨id, s₁, -, h⟩ := runs_bind.mp h
    obtain ⟨rfl, -⟩ := runs_pure.mp h
    rfl
  · exact absurd (decide_eq_true hk) hn

/-- Nothing is there only if nothing has been and nothing comes. -/
@[simp] theorem add_eq_empty_iff {cs : Array NodeId} : add cs o = #[] ↔ cs = #[] ∧ o = none := by
  cases o with
  | none => simp [add]
  | some id => simp [add]

/-- Nodes that are there, at the end of some children. -/
theorem append_among (cs : Array NodeId) (os : List (Option NodeId)) :
    cs ++ among os = os.foldl add cs := by
  induction os generalizing cs with
  | nil => simp [among]
  | cons o os ih =>
    rw [List.foldl_cons, ← ih]
    cases o with
    | none => simp [among, add]
    | some id => simp [among, add]

/-- Of nodes that may be there, those that are come in their order. -/
theorem among_eq (os : List (Option NodeId)) : among os = os.foldl add #[] := by
  rw [← append_among, Array.empty_append]

/-- A step on the state does what its function says. -/
theorem runs_modify {f : State → State} {u : Unit} :
    Runs (modify f) s u s' ↔ s' = f s := by
  constructor
  · intro h
    exact (congrArg Prod.snd h).symm
  · rintro rfl
    rfl

/-- A node is still made when its looks are changed. -/
theorem Makes.change {f : Node → Node} (hf : Cosmetic f) (hm : Makes s id s₁)
    (h : Runs (change id f) s₁ () s') : Makes s id s' := by
  obtain ⟨q, rfl, hq⟩ := hm
  exact ⟨q, rfl, hq.change (List.mem_singleton_self q) hf h⟩

/-- To mark a node as wrong is such a change. -/
theorem cosmetic_recovered : Cosmetic fun n => { n with isRecovered := true } :=
  ⟨fun _ => rfl, fun _ => rfl, fun _ => rfl, fun _ => rfl, fun _ => .refl _, fun _ => rfl⟩

/-- A node that is reported as wrong is made. -/
theorem Makes.recovered {kept : NodeId} (hm : Makes s id s₁) (h : Runs (recovered id) s₁ kept s') :
    Makes s kept s' := by
  unfold Grammar.recovered at h
  obtain ⟨⟨⟩, s₂, hc, h⟩ := runs_bind.mp h
  obtain ⟨⟨⟩, s₃, hd, h⟩ := runs_bind.mp h
  obtain ⟨rfl, rfl⟩ := runs_pure.mp h
  obtain ⟨q, rfl, hq⟩ := hm.change cosmetic_recovered hc
  rw [runs_modify.mp hd]
  exact ⟨q, rfl, hq.report _⟩

end

/-- What a step leaves when it goes on, and what when it is done. -/
def Step.Leaves {σ : Type} (more done : σ → Prop) : Step σ → Prop
  | .more x => more x
  | .done x => done x

/-- Where a step leaves off. -/
def Step.value {σ : Type} : Step σ → σ
  | .more x | .done x => x

section
variable {σ : Type} {step : σ → Parser (Step σ)} {I Q : State → σ → Prop} {s s' : State} {x y : σ}

/-- What every step keeps holds when the repetition is over. -/
theorem runs_repeatUpTo {n : Nat} (hout : ∀ s x, I s x → Q s x)
    (hstep : ∀ s x r s', I s x → Runs (step x) s r s' → r.Leaves (I s') (Q s'))
    (h₀ : I s x) (h : Runs (repeatUpTo step n x) s y s') : Q s' y := by
  induction n generalizing s x with
  | zero =>
    obtain ⟨rfl, rfl⟩ := runs_pure.mp h
    exact hout _ _ h₀
  | succ n ih =>
    obtain ⟨r, s₁, hr, h⟩ := runs_bind.mp h
    have hl := hstep s x r s₁ h₀ hr
    cases r with
    | more z => exact ih hl h
    | done z =>
      obtain ⟨rfl, rfl⟩ := runs_pure.mp h
      exact hl

/-- An invariant of all steps holds at the end of a repetition, however the repetition ends. -/
theorem runs_repeating (hout : ∀ s x, I s x → Q s x)
    (hstep : ∀ s x r s', I s x → Runs (step x) s r s' → r.Leaves (I s') (Q s'))
    (h₀ : I s x) (h : Runs (repeating step x) s y s') : Q s' y :=
  runs_repeatUpTo hout hstep h₀ (runs_bind_get.mp h)

/-- A repetition all of whose steps leave what they start from. -/
theorem runs_repeatUpTo_value {n : Nat}
    (hstep : ∀ s x r s', I s x → Runs (step x) s r s' → I s' r.value)
    (h₀ : I s x) (h : Runs (repeatUpTo step n x) s y s') : I s' y := by
  refine runs_repeatUpTo (fun _ _ hi => hi) ?_ h₀ h
  intro s x r s' hi hr
  have hv := hstep s x r s' hi hr
  cases r <;> exact hv

/-- It is enough that each step keeps it. -/
theorem runs_repeating_value (hstep : ∀ s x r s', I s x → Runs (step x) s r s' → I s' r.value)
    (h₀ : I s x) (h : Runs (repeating step x) s y s') : I s' y :=
  runs_repeatUpTo_value hstep h₀ (runs_bind_get.mp h)

/-- Steps that add to children, and so does their repetition. -/
theorem runs_repeating_appends {step : Array NodeId → Parser (Step (Array NodeId))}
    {cs cs' : Array NodeId}
    (hstep : ∀ s cs r s', Runs (step cs) s r s' → Appends s cs [] s' r.value)
    (h : Runs (repeating step cs) s cs' s') : Appends s cs [] s' cs' :=
  runs_repeating_value (I := fun t x => Appends s cs [] t x)
    (fun t x r t' hi hr => hi.trans (hstep t x r t' hr)) (Appends.refl s cs) h

/-- Steps that collect add up to a list of what has been collected. -/
theorem runs_repeating_collects
    {step : Array NodeId × Array NodeId → Parser (Step (Array NodeId × Array NodeId))}
    {cs cs' xs : Array NodeId}
    (hstep : ∀ t x r t', Collects s cs t x → Runs (step x) t r t' → Collects s cs t' r.value)
    (h : Runs (repeating step (cs, #[])) s (cs', xs) s') : Adds s cs xs.toList s' cs' :=
  runs_repeating_value (I := Collects s cs) hstep (collects_start s cs) h

/-- Steps that each make a tree over the one before, and so does their repetition. -/
theorem runs_repeating_makes {step : NodeId → Parser (Step NodeId)} {s₀ : State} {first id : NodeId}
    (hstep : ∀ t x r t', Makes s₀ x t → Runs (step x) t r t' → Makes s₀ r.value t')
    (h₀ : Makes s₀ first s) (h : Runs (repeating step first) s id s') : Makes s₀ id s' :=
  runs_repeating_value (I := fun t x => Makes s₀ x t) hstep h₀ h

/-- A node with which the repetition goes on is made. -/
theorem makes_of_runs_more {p : Parser NodeId} {s₀ : State} {r : Step NodeId}
    (hp : ∀ {id}, Runs p s id s' → Makes s₀ id s') (h : Runs (Step.more <$> p) s r s') :
    Makes s₀ r.value s' := by
  obtain ⟨id, hid, rfl⟩ := runs_map.mp h
  exact hp hid

/-- Steps that come nearer to an end, which is at most as far as there are tokens, reach it. -/
theorem runs_repeating_ends {m : State → Nat} (hm : ∀ s, m s ≤ s.ahead.length + 1)
    (hstep : ∀ s x r s', I s x → Runs (step x) s r s' →
      r.Leaves (fun z => I s' z ∧ m s' < m s) (Q s'))
    (h₀ : I s x) (h : Runs (repeating step x) s y s') : Q s' y := by
  have hrun (n : Nat) (s : State) (x : σ) (hi : I s x) (hn : m s < n)
      (h : Runs (repeatUpTo step n x) s y s') : Q s' y := by
    induction n generalizing s x with
    | zero => exact absurd hn (Nat.not_lt_zero _)
    | succ n ih =>
      obtain ⟨r, s₁, hr, h⟩ := runs_bind.mp h
      have hl := hstep s x r s₁ hi hr
      cases r with
      | more z => exact ih s₁ z hl.1 (lt_of_lt_of_le hl.2 (Nat.le_of_lt_succ hn)) h
      | done z =>
        obtain ⟨rfl, rfl⟩ := runs_pure.mp h
        exact hl
  exact hrun _ s x h₀ (Nat.lt_succ_of_le (hm s)) (runs_bind_get.mp h)

/-- There is always a first step. -/
theorem runs_repeating_first (h : Runs (repeating step x) s y s') :
    ∃ r s₁, Runs (step x) s r s₁ ∧
      r.Leaves (fun z => Runs (repeatUpTo step (s.ahead.length + 1) z) s₁ y s')
        fun z => z = y ∧ s₁ = s' := by
  obtain ⟨r, s₁, hr, h⟩ := runs_bind.mp (runs_bind_get.mp h)
  refine ⟨r, s₁, hr, ?_⟩
  cases r with
  | more z => exact h
  | done z => exact runs_pure.mp h

end

section
variable {s s' : State} {id : NodeId} {o : Option NodeId}

/-- A step of kept source adds the token it takes, and takes one unless it stops at the end of the
file or has taken some before. -/
theorem unknownStep_appends {s₀ : State} {children : Array NodeId} {depth : Nat}
    {r : Step (Array NodeId × Nat)} (hc : Appends s₀ #[] [] s children)
    (h : Runs (unknownStep (children, depth)) s r s') :
    Appends s₀ #[] [] s' r.value.1 ∧
      (r.value.1 = #[] →
        r = .done (children, depth) ∧ children = #[] ∧ s.current.isEnd = true ∧ s' = s) := by
  have hpush {id : NodeId} {s' : State} (hb : Runs bump s id s') :
      Appends s₀ #[] [] s' (children.push id) :=
    (hc.push (bump_makes hb)).mono (List.nil_subset _)
  unfold unknownStep at h
  rw [runs_bind_get] at h
  obtain ⟨hend, h⟩ | ⟨-, h⟩ := runs_ite.mp h
  · obtain ⟨rfl, rfl⟩ := runs_pure.mp h
    exact ⟨hc, fun he => ⟨rfl, he, hend, rfl⟩⟩
  · obtain ⟨hstop, h⟩ | ⟨-, h⟩ := runs_ite.mp h
    · -- Such a place is a stop only after something has been taken.
      obtain ⟨rfl, rfl⟩ := runs_pure.mp h
      refine ⟨hc, ?_⟩
      rintro rfl
      simp at hstop
    · obtain ⟨-, h⟩ | ⟨-, h⟩ := runs_ite.mp h
      all_goals
        obtain ⟨id, s₁, hb, h⟩ := runs_bind.mp h
        obtain ⟨rfl, rfl⟩ := runs_pure.mp h
        exact ⟨hpush hb, fun he => absurd he Array.push_ne_empty⟩

/-- What is not understood is made into a node. -/
theorem unknown_makes (h : Runs unknown s id s') : Makes s id s' := by
  unfold unknown at h
  rw [runs_bind_place] at h
  obtain ⟨⟨children, depth⟩, s₁, hr, h⟩ := runs_bind.mp h
  obtain ⟨kept, s₂, hn, h⟩ := runs_bind.mp h
  refine Makes.recovered ?_ h
  obtain ⟨r, t, hfirst, hrest⟩ := runs_repeating_first hr
  obtain ⟨ha, hne⟩ := unknownStep_appends (Appends.refl s #[]) hfirst
  by_cases he : r.value.1 = #[]
  · -- Nothing is taken at the end of the file only.
    obtain ⟨rfl, -, hend, rfl⟩ := hne he
    obtain ⟨hz, rfl⟩ := hrest
    cases hz
    refine ⟨.gather [] kept, rfl, .node (.refl t) (fun _ => ⟨hend, rfl⟩) rfl ?_ ?_ ?_ hn⟩
    · exact covers_nil
    · exact Forest.describes_of_isSimple rfl List.nil_subperm
    · exact Forest.tells_of_none rfl rfl
  · -- What the first step has taken is kept by those after it.
    have hc : Appends s #[] [] s₁ children ∧ children ≠ #[] := by
      cases r with
      | done z =>
        obtain ⟨rfl, rfl⟩ := hrest
        exact ⟨ha, he⟩
      | more z =>
        refine runs_repeatUpTo_value (I := fun t x => Appends s #[] [] t x.1 ∧ x.1 ≠ #[]) ?_
          ⟨ha, he⟩ hrest
        rintro t ⟨cs, d⟩ r t' ⟨hcs, hcs'⟩ hstep
        obtain ⟨hr, hr'⟩ := unknownStep_appends hcs hstep
        exact ⟨hr, fun hv => hcs' (hr' hv).2.1⟩
    exact hc.1.node hc.2 rfl (List.nil_subset _) hn

/-- So is a single token that is not understood. -/
theorem unknownToken_makes (h : Runs unknownToken s id s') : Makes s id s' := by
  unfold unknownToken at h
  rw [runs_bind_place] at h
  obtain ⟨token, s₁, hb, h⟩ := runs_bind.mp h
  obtain ⟨kept, s₂, hn, h⟩ := runs_bind.mp h
  have hc := (bump_makes hb).appends #[]
  exact (hc.node Array.push_ne_empty rfl (List.nil_subset _) hn).recovered h

/-- A part with other rules for lambdas is run under them, and they are as before when it ends. -/
theorem runs_withTrailingLambda {α : Type} {p : Parser α} {allowed : Bool} {a : α}
    (h : Runs (withTrailingLambda allowed p) s a s') :
    ∃ s₁, Runs p { s with noTrailingLambda := !allowed } a s₁ ∧
      s' = { s₁ with noTrailingLambda := s.noTrailingLambda } := by
  unfold withTrailingLambda at h
  rw [runs_bind_get] at h
  obtain ⟨⟨⟩, s₁, hset, h⟩ := runs_bind.mp h
  obtain ⟨b, s₂, hp, h⟩ := runs_bind.mp h
  obtain ⟨⟨⟩, s₃, hreset, h⟩ := runs_bind.mp h
  obtain ⟨rfl, rfl⟩ := runs_pure.mp h
  rw [runs_modify] at hset hreset
  exact ⟨s₂, hset ▸ hp, hreset⟩

/-- What is appended between braces is appended to what stands before them. -/
theorem Appends.braces {allowed : Bool} {cs cs' : Array NodeId} {found : List NodeId} {s₁ : State}
    (h : Appends { s with noTrailingLambda := !allowed } cs found s₁ cs') :
    Appends s cs found { s₁ with noTrailingLambda := s.noTrailingLambda } cs' := by
  obtain ⟨qs, hc, hq, hb⟩ := h
  exact ⟨qs, hc, hq, hb.braces allowed⟩

/-- What is added between braces is added to it. -/
theorem Adds.braces {allowed : Bool} {cs cs' : Array NodeId} {found : List NodeId} {s₁ : State}
    (h : Adds { s with noTrailingLambda := !allowed } cs found s₁ cs') :
    Adds s cs found { s₁ with noTrailingLambda := s.noTrailingLambda } cs' :=
  ⟨h.appends.braces, h.listed⟩

/-- What is yielded between braces is yielded. -/
theorem Yields.braces {allowed : Bool} {s₁ : State}
    (h : Yields { s with noTrailingLambda := !allowed } o s₁) :
    Yields s o { s₁ with noTrailingLambda := s.noTrailingLambda } := by
  rcases h with ⟨rfl, rfl⟩ | ⟨id, rfl, q, hq, hb⟩
  · exact yields_none s
  · exact (show Makes s id _ from ⟨q, hq, hb.braces allowed⟩).yields

/-- One level deeper, or too deep for anything but keeping the source. -/
theorem runs_nested {p : Parser (Option NodeId)} (h : Runs (nested p) s o s') :
    (∃ id, o = some id ∧ Makes s id s') ∨
      s.depth < maxDepth ∧ ∃ s₁, Runs p { s with depth := s.depth + 1 } o s₁ ∧
        s' = { s₁ with depth := s₁.depth - 1 } := by
  unfold nested at h
  rw [runs_bind_get] at h
  obtain ⟨-, h⟩ | ⟨hd, h⟩ := runs_ite.mp h
  · obtain ⟨id, s₁, hu, h⟩ := runs_bind.mp h
    obtain ⟨rfl, rfl⟩ := runs_pure.mp h
    exact Or.inl ⟨id, rfl, unknown_makes hu⟩
  · obtain ⟨⟨⟩, s₁, hset, h⟩ := runs_bind.mp h
    obtain ⟨found, s₂, hp, h⟩ := runs_bind.mp h
    obtain ⟨⟨⟩, s₃, hreset, h⟩ := runs_bind.mp h
    obtain ⟨rfl, rfl⟩ := runs_pure.mp h
    rw [runs_modify] at hset hreset
    exact Or.inr ⟨Nat.lt_of_not_le hd, s₂, hset ▸ hp, hreset⟩

/-- A rule that makes a node does so when it is nested, also past the limit. -/
theorem nested_makesIfAny {p : Parser (Option NodeId)}
    (hp : ∀ s o s', Runs p s o s' → MakesIfAny s o s') (h : Runs (nested p) s o s') :
    MakesIfAny s o s' := by
  rcases runs_nested h with ⟨id, rfl, hm⟩ | ⟨hd, s₁, hr, rfl⟩
  · exact hm.ifAny
  · obtain ⟨q, rfl, hb⟩ := hp _ _ _ hr
    exact ⟨q, rfl, hb.deeper hd⟩

/-- A rule that yields a node does so when it is nested. -/
theorem nested_yields {p : Parser (Option NodeId)}
    (hp : ∀ s o s', Runs p s o s' → Yields s o s') (h : Runs (nested p) s o s') :
    Yields s o s' := by
  rcases runs_nested h with ⟨id, rfl, hm⟩ | ⟨hd, s₁, hr, rfl⟩
  · exact hm.yields
  · rcases hp _ _ _ hr with ⟨rfl, rfl⟩ | ⟨id, rfl, q, hq, hb⟩
    · exact yields_none s
    · exact (show Makes s id _ from ⟨q, hq, hb.deeper hd⟩).yields

end

/-- What each production promises of those that it recurs through. A type may be given up after its
annotations have been read, and nothing else after a token has been taken. -/
structure Productions.Sound (rec : Productions) : Prop where
  yields : ∀ n s o s', (∀ limit, n ≠ .typeReference limit) → Runs (rec n) s o s' → Yields s o s'
  typeReference : ∀ limit s o s', Runs (rec (.typeReference limit)) s o s' → MakesIfAny s o s'

section
variable {rec : Productions} {s s' : State} {o : Option NodeId}

/-- The rule of expressions yields. -/
theorem Productions.Sound.expression (hr : rec.Sound) (h : Runs (rec .expression) s o s') :
    Yields s o s' := hr.yields _ _ _ _ (fun _ he => Nonterminal.noConfusion he) h

/-- The rule of statements yields. -/
theorem Productions.Sound.statement (hr : rec.Sound) (h : Runs (rec .statement) s o s') :
    Yields s o s' := hr.yields _ _ _ _ (fun _ he => Nonterminal.noConfusion he) h

/-- The rule of declarations yields. -/
theorem Productions.Sound.declaration (hr : rec.Sound) (h : Runs (rec .declaration) s o s') :
    Yields s o s' := hr.yields _ _ _ _ (fun _ he => Nonterminal.noConfusion he) h

/-- The rule of operands yields. -/
theorem Productions.Sound.prefixed (hr : rec.Sound) (h : Runs (rec .prefixed) s o s') :
    Yields s o s' := hr.yields _ _ _ _ (fun _ he => Nonterminal.noConfusion he) h

/-- The rule of operations yields, from any strength on. -/
theorem Productions.Sound.binary (hr : rec.Sound) {p : Nat} (h : Runs (rec (.binary p)) s o s') :
    Yields s o s' := hr.yields _ _ _ _ (fun _ he => Nonterminal.noConfusion he) h

/-- The rule of types makes a type where it yields anything. -/
theorem Productions.Sound.type (hr : rec.Sound) {limit : Option Nat}
    (h : Runs (rec (.typeReference limit)) s o s') : MakesIfAny s o s' :=
  hr.typeReference _ _ _ _ h

end

end KotlinTree.Grammar

namespace KotlinTree

/-- A node is a leaf of a kind, made of a token. -/
def Forest.IsLeafOf (f : Forest) (i : NodeId) (k : TokenKind) (t : Token) : Prop :=
  ∃ n atom, f.nodes[i]? = some n ∧ n.kind = .token k ∧ n.span = ⟨t.place, t.stop⟩ ∧
    n.data.leaf? = some ⟨t.leading, t.text, atom⟩

namespace Forest.IsLeafOf

variable {f : Forest} {i : NodeId} {k : TokenKind} {t : Token}

/-- The leaf of a token is of the kind that it was taken as. -/
theorem kind? (h : f.IsLeafOf i k t) : f.kind? (some i) = some (.token k) := by
  obtain ⟨n, -, hn, hkind, -⟩ := h
  rw [kind?_of_getElem? hn, hkind]

/-- It has the text of the token, and what stands before it. -/
theorem leaf? (h : f.IsLeafOf i k t) : ∃ atom, f.leaf? (some i) = some ⟨t.leading, t.text, atom⟩ := by
  obtain ⟨n, atom, hn, -, -, hleaf⟩ := h
  exact ⟨atom, (leaf?_of_getElem? hn).trans hleaf⟩

/-- It lies where the token lies. -/
theorem span (h : f.IsLeafOf i k t) : f.span (some i) = ⟨t.place, t.stop⟩ := by
  obtain ⟨n, -, hn, -, hspan, -⟩ := h
  rw [span_of_getElem? hn, hspan]

/-- A leaf stays the leaf of its token when the forest grows. -/
theorem grown {g : Forest} (h : f.IsLeafOf i k t) (hx : f.Extends g) : g.IsLeafOf i k t := by
  obtain ⟨n, atom, hn, hkind, hspan, hleaf⟩ := h
  obtain ⟨m, hm, hkept⟩ := hx.kept hn
  exact ⟨m, atom, hm, hkept.kind.trans hkind, hkept.span.trans hspan, hkept.leaf?.trans hleaf⟩

end Forest.IsLeafOf

namespace Grammar

section
variable {s s' : State} {i id : NodeId} {k j : TokenKind} {t : Token}

/-- The new leaf is that of the current token. -/
theorem State.isLeafOf_leafed (s : State) (k : TokenKind) :
    (s.leafed k).IsLeafOf s.forest.size k s.current := by
  have hget := Forest.getElem?_addLeaf s.forest k ⟨s.current.place, s.current.stop⟩
    s.current.leading s.current.text s.current.value s.forest.size
  rw [if_pos rfl] at hget
  exact ⟨_, _, hget, rfl, rfl, rfl⟩

/-- A token that is taken becomes its leaf. -/
theorem isLeafOf_bumpAs (h : Runs (bumpAs k) s id s') : s'.forest.IsLeafOf id k s.current := by
  obtain ⟨rfl, rfl⟩ := runs_bumpAs.mp h
  rw [State.advance_forest]
  exact s.isLeafOf_leafed k

/-- Leaves remain when more tokens are taken. -/
theorem IsLeafOf.bumpAs (hi : s.forest.IsLeafOf i k t) (h : Runs (bumpAs j) s id s') :
    s'.forest.IsLeafOf i k t := by
  obtain ⟨-, rfl⟩ := runs_bumpAs.mp h
  rw [State.advance_forest]
  exact hi.grown (Forest.extends_addLeaf _ _ _ _ _ _)

/-- A node leaves leaves what they are, whether or not it may have them as children. -/
theorem IsLeafOf.node {kind : NodeKind} {start : Nat} {children : Array NodeId} {data : NodeData}
    (hi : s.forest.IsLeafOf i k t) (h : Runs (Grammar.node kind start children data) s id s') :
    s'.forest.IsLeafOf i k t := by
  obtain ⟨-, rfl⟩ := runs_node.mp h
  obtain ⟨n, atom, hn, hkind, hspan, hleaf⟩ := hi
  refine ⟨_, atom, Forest.getElem?_addNode_of_lt hn kind start children data, ?_⟩
  simp only [Forest.adopt_kind, Forest.adopt_span, Forest.adopt_data]
  exact ⟨hkind, hspan, hleaf⟩

/-- Leaves remain when the looks of a node are changed. -/
theorem IsLeafOf.change {change : Node → Node} (hi : s.forest.IsLeafOf i k t)
    (hc : Cosmetic change) (h : Runs (Grammar.change id change) s () s') :
    s'.forest.IsLeafOf i k t := by
  obtain rfl := runs_change.mp h
  exact hi.grown (Forest.extends_modify hc.kept)

end

end Grammar

end KotlinTree
