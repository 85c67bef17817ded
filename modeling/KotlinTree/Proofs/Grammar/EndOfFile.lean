import KotlinTree.Proofs.Grammar.Keeps.Expression
import KotlinTree.Proofs.Grammar.Primitive
import KotlinTree.Proofs.Grammar.Precedence
import KotlinTree.Proofs.Token.Partition

/-!
Where the end of the file goes. It is the last child of the root, and no other leaf is made of it,
unless the source breaks off where a parse takes the next token without a look at it: after an
annotation, for the word of an accessor or for a type, and after the colon of a named parameter type.
-/

namespace KotlinTree

namespace Forest

/-- A leaf that is made of the end of the file. -/
def IsEndLeaf (f : Forest) (i : NodeId) : Prop := f.kind? (some i) = some (.token .endOfFile)

/-- A leaf that has been taken for another token: for the word of an accessor, or to be kept alone. -/
def IsStray (f : Forest) (i : NodeId) : Prop :=
  ∃ j, f.kind? (some j) = some (.node .propertyAccessor) ∧ (f.children (some j)).back? = some i ∨
    f.kind? (some j) = some (.node .unknown) ∧ f.children (some j) = #[i]

section
variable {f g : Forest} {i : NodeId}

theorem IsStray.grows (hi : f.IsStray i) (h : f.Grows g) : g.IsStray i := by
  obtain ⟨j, ⟨hk, hback⟩ | ⟨hk, hcs⟩⟩ := hi
  · refine ⟨j, .inl ⟨h.kind? hk, ?_⟩⟩
    rw [h.children hk]
    exact hback
  · refine ⟨j, .inr ⟨h.kind? hk, ?_⟩⟩
    rw [h.children hk]
    exact hcs

end

end Forest

namespace Grammar

/-- An annotation goes up to the end of the file. -/
def AnnotationLast (ts : List Token) : Prop :=
  ∃ n s id s', s.tokens <:+ ts ∧ s.current.kind = .atSign ∧
    Runs (annotationUse (productions n)) s id s' ∧ s'.current.kind = .endOfFile

/-- The last tokens are a name and a colon. -/
def ColonLast (ts : List Token) : Prop :=
  ∃ front name colon last, ts = front ++ [name, colon, last] ∧ name.kind.isName = true ∧
    colon.kind = .colon

/-- The tokens break off where more is expected. -/
def BreaksOff (ts : List Token) : Prop := AnnotationLast ts ∨ ColonLast ts

/-- The end of the file has not been taken, or it has been as a stray, in a source that breaks off. -/
structure State.Settled (source : String) (s : State) : Prop where
  ahead : Ahead source s.tokens
  strays : ∀ i, s.forest.IsEndLeaf i → s.forest.IsStray i
  rest : s.tokens <:+ Token.ofSource source ∧ (∀ i, ¬ s.forest.IsEndLeaf i) ∨
    BreaksOff (Token.ofSource source) ∧ (∃ i, s.forest.IsEndLeaf i) ∧
      ∃ place, s.tokens = [.endAt place]

/-- If the end of the file comes next, the source has broken off. -/
def State.Pending (source : String) (s : State) : Prop :=
  s.Settled source ∧ (s.current.kind = .endOfFile → BreaksOff (Token.ofSource source))

section
variable {source : String} {s s' t : State} {id : NodeId} {k : TokenKind}

theorem State.Settled.ahead_eq_nil_iff (h : s.Settled source) :
    s.ahead = [] ↔ s.current.kind = .endOfFile := by
  rw [← h.ahead.isEnd_iff]
  exact decide_eq_true_iff

/-- Before the end of the file, the next tokens come after the one that is taken. -/
theorem State.Settled.tokens (h : s.Settled source) (hk : s.current.kind ≠ .endOfFile)
    (hb : Runs (bumpAs k) s id s') : s'.tokens = s.ahead := by
  obtain ⟨-, rfl⟩ := runs_bumpAs.mp hb
  unfold State.advance
  cases hahead : s.ahead with
  | nil => exact absurd (h.ahead_eq_nil_iff.mp hahead) hk
  | cons u us => rfl

/-- Before the end of the file, nothing has been made of it. -/
theorem State.Settled.amid (h : s.Settled source) (hk : s.current.kind ≠ .endOfFile) :
    s.tokens <:+ Token.ofSource source ∧ ∀ i, ¬ s.forest.IsEndLeaf i := by
  rcases h.rest with h | ⟨-, -, place, htokens⟩
  · exact h
  · have hcurrent : s.current = .endAt place := (List.cons.inj htokens).1
    rw [hcurrent] at hk
    exact absurd rfl hk

/-- Nothing changes where no end of the file is made. -/
theorem State.Settled.grown (h : s.Settled source) (hgrows : s.forest.Grows s'.forest)
    (hends : ∀ i, s'.forest.IsEndLeaf i → s.forest.IsEndLeaf i) (htokens : s'.tokens = s.tokens) :
    s'.Settled source where
  ahead := htokens ▸ h.ahead
  strays i hi := (h.strays i (hends i hi)).grows hgrows
  rest := by
    rw [htokens]
    rcases h.rest with ⟨hsuffix, hnone⟩ | ⟨hbreaks, ⟨i, hi⟩, hplace⟩
    · exact .inl ⟨hsuffix, fun i hi => hnone i (hends i hi)⟩
    · exact .inr ⟨hbreaks, ⟨i, hgrows.kind? hi⟩, hplace⟩

theorem settled_leaf (hk : k ≠ .endOfFile) :
    Leads (Amid (State.Settled source)) (bumpAs k) fun _ => State.Settled source := by
  intro s id s' ⟨hs, hend⟩ h
  obtain ⟨hsuffix, hnone⟩ := hs.amid hend
  -- The token is not the last one, and is not taken for it either.
  have hends (i : NodeId) : ¬ s'.forest.IsEndLeaf i := by
    intro hi
    rcases kind?_of_bumpAs h hi with hold | ⟨-, hnew⟩
    · exact hnone i hold
    · cases hnew
      exact hk rfl
  refine ⟨runs_bumpAs_ahead h hs.ahead, fun i hi => absurd hi (hends i), .inl ⟨?_, hends⟩⟩
  rw [hs.tokens hend h]
  exact (List.suffix_cons _ _).trans hsuffix

theorem settled_node (k : NodeKind) (start : Nat) (cs : Array NodeId) (data : NodeData) :
    Keeps (State.Settled source) (node k start cs data) := by
  intro s id s' hs h
  refine hs.grown (runs_node_grows h) (fun i hi => ?_) ?_
  · rcases kind?_of_node h hi with hold | ⟨-, hnew⟩
    · exact hold
    · cases hnew
  · rw [← (runs_node.mp h).2]
    rfl

theorem settled_persists (source : String) : Persists (State.Settled source) where
  leaf k hk := settled_leaf hk
  node k start cs data _ := settled_node k start cs data
  change id f hf s _ s' hs h := by
    obtain rfl := runs_change.mp h
    exact hs.grown (Forest.grows_modify _ _ hf) (fun i hi => Forest.kind?_of_modify hf hi) rfl
  context s _ _ _ hs := hs.grown ⟨fun i n hn => ⟨n, hn, rfl, rfl, .refl _⟩⟩ (fun i hi => hi) rfl
  next s hs hnext hend := by
    have hnil := hs.ahead_eq_nil_iff.mpr hend
    exact hnext (by rw [State.nextKind, hnil]; rfl)

/-- The end of the file that has been taken is the last child of a node for another token. -/
theorem State.Settled.stray (hs : s.Settled source) (hend : s.current.kind = .endOfFile)
    (hbreaks : BreaksOff (Token.ofSource source)) {last : NodeId} (hb : Runs bump s last t)
    {k : NodeKind} {start : Nat} {cs : Array NodeId} {data : NodeData}
    (hk : k = .propertyAccessor ∧ cs.back? = some last ∨ k = .unknown ∧ cs = #[last])
    (hn : Runs (node k start cs data) t id s') : s'.Settled source := by
  -- The token at the end is a leaf for the end of the file, and the node around it shows that it is
  -- stray.
  have hgrows := (runs_bumpAs_grows (runs_bump.mp hb)).trans (runs_node_grows hn)
  have hlast : s'.forest.IsEndLeaf last := by
    have hleaf := bump_kind? hb
    rw [hend] at hleaf
    exact (runs_node_grows hn).kind? hleaf
  have hstray : s'.forest.IsStray last := by
    obtain ⟨rfl, rfl⟩ := runs_node.mp hn
    refine ⟨t.forest.size, ?_⟩
    rw [State.noded, Forest.kind?_addNode, Forest.children_addNode]
    rcases hk with ⟨rfl, hback⟩ | ⟨rfl, rfl⟩
    · exact .inl ⟨rfl, hback⟩
    · exact .inr ⟨rfl, rfl⟩
  have htokens : s'.tokens = t.tokens := by
    rw [← (runs_node.mp hn).2]
    rfl
  refine ⟨?_, fun i hi => ?_, .inr ⟨hbreaks, ⟨_, hlast⟩, s.current.stop, ?_⟩⟩
  · rw [htokens]
    exact runs_bumpAs_ahead (runs_bump.mp hb) hs.ahead
  -- Any other leaf for the end of the file was there before, and is stray as it was.
  · rcases kind?_of_node hn hi with hi | ⟨-, hnew⟩
    · rcases kind?_of_bumpAs (runs_bump.mp hb) hi with hold | ⟨rfl, -⟩
      · exact (hs.strays i hold).grows hgrows
      · exact hstray
    · cases hnew
  · rw [htokens, ← (runs_bumpAs.mp (runs_bump.mp hb)).2]
    simp only [State.tokens, State.advance, hs.ahead_eq_nil_iff.mpr hend]

theorem pending_unknownToken :
    Leads (State.Pending source) unknownToken fun _ => State.Settled source := by
  intro s id s' ⟨hs, hbreaks⟩ hr
  have hI := settled_persists source
  -- Any other token may be taken; only the end of the file becomes a stray.
  by_cases hend : s.current.kind = .endOfFile
  · obtain ⟨token, t, hb, hr⟩ := runs_bind.mp (runs_bind_place.mp hr)
    obtain ⟨made, t₁, hn, hr⟩ := runs_bind.mp hr
    have ht := hs.stray hend (hbreaks hend) hb (.inr ⟨rfl, rfl⟩) hn
    have hmade : t₁.forest.IsOperand made := by
      obtain ⟨rfl, rfl⟩ := runs_node.mp hn
      exact ⟨.node .unknown, Forest.kind?_addNode .., rfl⟩
    exact hI.recovered.forget ⟨ht, hmade⟩ hr
  · exact (hI.unknownToken hI.bump).forget ⟨hs, hend⟩ hr

theorem nextKind_ne_endOfFile (h : isModifierAhead s.tokens = true) : s.nextKind ≠ .endOfFile := by
  intro hnext
  unfold State.tokens isModifierAhead at h
  unfold State.nextKind at hnext
  cases hahead : s.ahead with
  | nil => simp [hahead] at h
  | cons next after =>
    have hk : next.kind = .endOfFile := by simpa [hahead] using hnext
    simp [hahead, hk, followsModifier, isIdentifierModifier, TokenKind.isModifier] at h

variable {n : Nat}

/-- All productions keep what is made of the end of the file where it may be. -/
abbrev Settles (source : String) (n : Nat) : Prop :=
  Carries (productions n) (Amid (State.Settled source)) (State.Settled source) (State.Pending source)

theorem modifierStep_pending (h : Settles source n) (x : Array NodeId × List Modifier) :
    Keeps (State.Pending source) (modifierStep (productions n) x) := by
  intro s r s' hs hr
  obtain ⟨hat, hr⟩ | ⟨-, hr⟩ := runs_ite.mp (runs_bind_isAt.mp hr)
  · obtain ⟨use, t, hu, hr⟩ := runs_bind.mp hr
    obtain ⟨-, rfl⟩ := runs_pure.mp hr
    have hk : s.current.kind = .atSign := of_decide_eq_true hat
    have hend : s.current.kind ≠ .endOfFile := by simp [hk]
    refine ⟨h.annotationUse ⟨hs.1, hend⟩ hu, fun hlast => .inl ?_⟩
    exact ⟨n, s, use, t, (hs.1.amid hend).1, hk, hu, hlast⟩
  · obtain ⟨hat, hr⟩ | ⟨-, hr⟩ := runs_ite.mp (runs_bind_isAtModifier.mp hr)
    · obtain ⟨word, t, hb, hr⟩ := runs_bind.mp (runs_bind_get.mp hr)
      obtain ⟨-, rfl⟩ := runs_pure.mp hr
      -- A word is a modifier only before another token.
      have hnext := nextKind_ne_endOfFile hat
      refine ⟨h.bump ⟨hs.1, h.next s hs.1 hnext⟩ hb, fun hlast => absurd ?_ hnext⟩
      rw [← bump_kind hb]
      exact hlast
    · obtain ⟨-, rfl⟩ := runs_pure.mp hr
      exact hs

theorem modifiers_pending (h : Settles source n) (cs : Array NodeId) :
    Keeps (State.Pending source) (modifiers (productions n) cs) := by
  refine .look fun start => (Keeps.repeating (modifierStep_pending h) _).bind fun found => .ite (.pure _) ?_
  refine Leads.bind (Q := fun _ => State.Pending source) ?_ fun list => .pure _
  intro s id s' hs hr
  -- The node over the modifiers leaves the next token what it was.
  refine ⟨settled_node _ _ _ _ hs.1 hr, fun hend => hs.2 ?_⟩
  rw [← (runs_node.mp hr).2] at hend
  exact hend

/-- A type that is missing has taken nothing but annotations. -/
theorem typeReference_pending (h : Settles source n) (limit : Option Nat) :
    Leads (State.Pending source) (typeReference (productions n) limit) fun o s =>
      o = none → s.Pending source :=
  typeReference_missing h.sound (fun _ _ hs => ⟨h.context _ _ _ _ hs.1, hs.2⟩) (modifiers_pending h _) limit

/-- Where the end of the file comes after a name and a colon, the source breaks off there. -/
theorem settled_named :
    Leads (fun s => s.Settled source ∧ s.current.kind.isName = true ∧ s.nextKind = .colon)
      (bumpName >>= fun _ => bump) fun _ => State.Pending source := by
  intro s id s' ⟨hs, hname, hcolon⟩ hr
  have hI := settled_persists source
  have hnext : s.nextKind ≠ .endOfFile := by simp [hcolon]
  have hend : s.current.kind ≠ .endOfFile := hI.next s hs hnext
  obtain ⟨name, t, hn, hb⟩ := runs_bind.mp hr
  have ht := hI.bumpNameNext ⟨hs, hname, hnext⟩ hn
  have hs' := hI.bump ht hb
  refine ⟨hs', fun hlast => .inr ?_⟩
  obtain ⟨word, -, hw⟩ := bumpName_of_isName hname hn
  have htokens : s.tokens = [s.current, t.current, s'.current] :=
    calc s.tokens = s.current :: t.tokens := by rw [hs.tokens hend hw]; rfl
      _ = s.current :: t.current :: s'.tokens := by rw [ht.1.tokens ht.2 (runs_bump.mp hb)]; rfl
      _ = [s.current, t.current, s'.current] := by rw [State.tokens, hs'.ahead_eq_nil_iff.mpr hlast]
  obtain ⟨front, hfront⟩ := (hs.amid hend).1
  refine ⟨front, s.current, t.current, s'.current, ?_, hname, ?_⟩
  · rw [← hfront, htokens]
  · rw [bumpAs_nextKind hw]
    exact hcolon

theorem typeAscription_eq {rec : Productions} {cs : Array NodeId} {x : Array NodeId × Option NodeId}
    (hk : s.current.kind = .endOfFile) (h : Runs (typeAscription rec cs) s x s') :
    x = (cs, none) ∧ s' = s := by
  obtain ⟨hcolon, -⟩ | ⟨-, h⟩ := runs_ite.mp (runs_bind_isAt.mp h)
  · simp [hk] at hcolon
  · obtain ⟨rfl, rfl⟩ := runs_pure.mp h
    exact ⟨rfl, rfl⟩

theorem functionBody_eq {rec : Productions} {cs : Array NodeId} {x : Array NodeId × Option NodeId × Bool}
    (hk : s.current.kind = .endOfFile) (h : Runs (functionBody rec cs) s x s') :
    x = (cs, none, false) ∧ s' = s := by
  obtain ⟨hbrace, -⟩ | ⟨-, h⟩ := runs_ite.mp (runs_bind_isAt.mp h)
  · simp [hk] at hbrace
  · obtain ⟨hequals, -⟩ | ⟨-, h⟩ := runs_ite.mp (runs_bind_isAt.mp h)
    · simp [hk] at hequals
    · obtain ⟨rfl, rfl⟩ := runs_pure.mp h
      exact ⟨rfl, rfl⟩

/-- At the end of the file, an accessor has nothing but its word, which is the end of the file. -/
theorem accessor_settled {rec : Productions} {x : Array NodeId × List Modifier}
    (hm : Runs (modifiers rec #[]) s x t) (ht : t.Pending source) (hend : t.current.kind = .endOfFile)
    (hr : Runs (accessor rec) s id s') : s'.Settled source := by
  obtain ⟨⟨cs, found⟩, t', hm', hr⟩ := runs_bind.mp (runs_bind_place.mp hr)
  obtain ⟨rfl, rfl⟩ := Prod.mk.inj (hm.symm.trans hm')
  obtain ⟨word, t₁, hb, hr⟩ := runs_bind.mp hr
  -- What may come after the word starts with another token than the end of the file.
  have hk : t₁.current.kind = .endOfFile := by
    rw [bump_kind hb, State.nextKind, ht.1.ahead_eq_nil_iff.mpr hend]
    rfl
  have hr := runs_bind_startsLine.mp (runs_bind_isAt.mp hr)
  extract_lets afterParameters at hr
  obtain ⟨hparen, -⟩ | ⟨-, hr⟩ := runs_ite.mp hr
  · simp [hk] at hparen
  · obtain ⟨x, t₁, hp, hparameters⟩ := runs_bind.mp hr
    obtain ⟨rfl, rfl⟩ := runs_pure.mp hp
    obtain ⟨y, t₂, htyped, hrest⟩ := runs_bind.mp hparameters
    obtain ⟨rfl, rfl⟩ := typeAscription_eq hk htyped
    obtain ⟨z, t₃, hbody, hmade⟩ := runs_bind.mp hrest
    obtain ⟨rfl, rfl⟩ := functionBody_eq hk hbody
    exact ht.1.stray hend (ht.2 hend) hb (.inl ⟨rfl, Array.back?_push⟩) hmade

theorem keepsAccessors_settled (h : Settles source n) :
    KeepsAccessors (State.Settled source) (productions n) := by
  intro s id s' ⟨hs, hahead⟩ hr
  have hstart : s.current.kind ≠ .endOfFile := by
    intro hk
    unfold State.tokens isAccessorAhead at hahead
    simp [hk, TokenKind.isModifier] at hahead
  -- A run has one result, so that the end of the modifiers is known before the accessor is opened.
  have hm := runs_self (modifiers (productions n) #[]) s
  have ht := modifiers_pending h #[] ⟨hs, fun hk => absurd hk hstart⟩ hm
  by_cases hend : (Id.run ((modifiers (productions n) #[]).run s)).2.current.kind = .endOfFile
  · exact accessor_settled hm ht hend hr
  · refine h.accessor (P := (· = s)) (Q := Amid (State.Settled source)) ?_ h.bump rfl hr
    rintro s x t rfl hrun
    obtain ⟨-, rfl⟩ := Prod.mk.inj (hm.symm.trans hrun)
    exact ⟨ht.1, hend⟩

theorem settles_of (hrec : ∀ nt, Keeps (State.Settled source) (productions n nt))
    (htyped : Leads (State.Pending source) (productions n (.typeReference none)) fun o s =>
      o = none → s.Pending source) : Settles source n where
  toPersists := settled_persists source
  sound := productions_sound n
  first := (settled_persists source).bump
  ready_of_amid _ hs := hs
  recur := hrec
  blank_of_amid _ hs := ⟨hs.1, fun hk => absurd hk hs.2⟩
  named := settled_named
  typed _ _ _ hs hr := ⟨hrec _ hs.1 hr, htyped hs hr⟩
  untyped := pending_unknownToken

theorem settles (source : String) (n : Nat) : Settles source n := by
  -- At depth zero nothing is read; each level is made of productions one level below.
  induction n with
  | zero => exact settles_of (fun nt => .pure none) (.yield fun _ hs _ => hs)
  | succ n ih =>
    exact settles_of (fun nt => ih.production settled_node (keepsAccessors_settled ih) nt)
      (typeReference_pending ih none)

end

end Grammar

/-- The end of the file is one leaf, which has all that comes after the last token. -/
structure Forest.EndsOnce (f : Forest) (last : NodeId) (t : Token) : Prop where
  only : ∀ i, f.IsEndLeaf i ↔ i = last
  leaf : f.IsLeafOf last .endOfFile t

/-- The end of the file has been taken for another token before, and nothing is left for its own leaf. -/
structure Forest.EndsEarly (f : Forest) (last : NodeId) : Prop where
  early : ∃ i, f.IsEndLeaf i ∧ i ≠ last
  strays : ∀ i, f.IsEndLeaf i → i ≠ last → f.IsStray i
  leaf : ∃ place, f.IsLeafOf last .endOfFile (.endAt place)

/-- The end of the file that comes last is the end of a source, once or early. -/
def Forest.Ends (f : Forest) (source : String) (last : NodeId) : Prop :=
  (∃ earlier t, Token.Closes source earlier t ∧ f.EndsOnce last t) ∨
    Grammar.BreaksOff (Token.ofSource source) ∧ f.EndsEarly last

namespace Grammar

theorem settled_end {source : String} {s t s' : State} {last root : NodeId} {cs : Array NodeId}
    {start : Nat} {data : NodeData} (hs : s.Settled source) (hend : s.current.kind = .endOfFile)
    (hb : Runs bump s last t) (hn : Runs (node .sourceFile start cs data) t root s') :
    s'.forest.Ends source last := by
  have hgrows := (runs_bumpAs_grows (runs_bump.mp hb)).trans (runs_node_grows hn)
  have hleaf : s'.forest.IsLeafOf last .endOfFile s.current := by
    have hmade := isLeafOf_bumpAs (runs_bump.mp hb)
    rw [hend] at hmade
    exact IsLeafOf.node hmade hn
  have hnew (i : NodeId) (hi : s'.forest.IsEndLeaf i) : s.forest.IsEndLeaf i ∨ i = last := by
    rcases kind?_of_node hn hi with hi | ⟨-, hnew⟩
    · rcases kind?_of_bumpAs (runs_bump.mp hb) hi with hold | ⟨hlast, -⟩
      · exact .inl hold
      · exact .inr hlast
    · cases hnew
  rcases hs.rest with ⟨⟨front, hfront⟩, hnone⟩ | ⟨hbreaks, ⟨i, hi⟩, place, htokens⟩
  · left
    -- The token that is left is the last one of the source.
    obtain ⟨earlier, u, hcloses⟩ := Token.exists_closes source
    obtain rfl : s.current = u := by
      rw [State.tokens, hs.ahead_eq_nil_iff.mpr hend, hcloses.tokens] at hfront
      exact (List.cons.inj (List.append_inj' hfront rfl).2).1
    refine ⟨earlier, s.current, hcloses, fun i => ⟨fun hi => ?_, ?_⟩, hleaf⟩
    · exact (hnew i hi).resolve_left (hnone i)
    · rintro rfl
      exact hleaf.kind?
  · right
    have hcurrent : s.current = .endAt place := (List.cons.inj htokens).1
    refine ⟨hbreaks, ⟨i, hgrows.kind? hi, ?_⟩, fun j hj hne => ?_, place, hcurrent ▸ hleaf⟩
    · rintro rfl
      -- The new leaf comes after all that were there before.
      obtain ⟨n, hn, -⟩ := Forest.exists_of_kind? hi
      have hlt := Forest.lt_size_of_getElem? hn
      rw [(runs_bumpAs.mp (runs_bump.mp hb)).1] at hlt
      exact lt_irrefl _ hlt
    · exact (hs.strays j ((hnew j hj).resolve_right hne)).grows hgrows

theorem sourceFile_settled (source : String) (n : Nat) :
    Leads (State.Settled source) (sourceFile (productions n)) fun root s =>
      ∃ file, s.forest.data (some root) = .sourceFile file ∧
        (s.forest.children (some root)).back? = some file.endOfFile ∧
        s.forest.Ends source file.endOfFile := by
  refine (settles source n).sourceFile (fun _ hs => hs.ahead) fun parts package => ?_
  rintro s root s' ⟨hs, hend⟩ hr
  obtain ⟨last, t, hb, hn⟩ := runs_bind.mp hr
  have hn := runs_bind_get.mp hn
  have hends := settled_end hs (of_decide_eq_true hend) hb hn
  obtain ⟨rfl, rfl⟩ := runs_node.mp hn
  refine ⟨_, Forest.data_addNode .., ?_, hends⟩
  rw [State.noded, Forest.children_addNode]
  exact Array.back?_push

theorem settled_ofSource (fileName source : String) :
    (State.ofSource fileName source).Settled source := by
  have hnone (i : NodeId) : ¬ (State.ofSource fileName source).forest.IsEndLeaf i := by
    rw [forest_ofSource]
    intro hi
    cases hi
  refine ⟨ahead_ofSource fileName source, fun i hi => absurd hi (hnone i), .inl ⟨?_, hnone⟩⟩
  rw [tokens_ofSource]

end Grammar

/-- The end of the file is the last child of the root. It is the only leaf of its kind, with the trivia
after the last token, unless the source breaks off where the parse takes it for another token. -/
theorem ParsedUnit.endOfFile_once_or_early (fileName source : String) :
    ∃ file,
      (ofSource fileName source).forest.data (some (ofSource fileName source).root) = .sourceFile file ∧
      ((ofSource fileName source).forest.children (some (ofSource fileName source).root)).back? =
        some file.endOfFile ∧
      (ofSource fileName source).forest.Ends source file.endOfFile := by
  have hs := Grammar.settled_ofSource fileName source
  have hfile := Grammar.sourceFile_settled source
    (Grammar.nestingBound (Grammar.State.ofSource fileName source).tokens.length)
  exact hfile hs (Grammar.runs_self _ _)

example : ((ParsedUnit.ofSource "Sample.kt" "val x = 1\n@get\n// t\n").forest.nodes.toList.filter
    (·.kind = .token .endOfFile)).map (·.data.leaf?.map Leaf.leading) = [some "\n// t\n", some ""] := by
  decide +kernel

end KotlinTree
