import KotlinTree.Proofs.Grammar.Climbing

/-!
How many leaves a parse makes. Main statements: every token before the end of the file becomes one leaf
(`tokenLeaves_ofSource`), and the end of the file becomes no more leaves than there are tokens with it
(`endLeaves_ofSource`).
-/

namespace KotlinTree

namespace Forest

/-- The kinds of all nodes, in the order in which they have been made. -/
def kinds (f : Forest) : List Kind := f.nodes.toList.map Node.kind

/-- How many leaves are made of tokens before the end of the file. -/
def tokenLeaves (f : Forest) : Nat :=
  f.kinds.countP fun
    | .token k => k ≠ .endOfFile
    | .node _ => false

/-- How many leaves are made of the end of the file. -/
def endLeaves (f : Forest) : Nat := f.kinds.count (.token .endOfFile)

section
variable (f : Forest)

/-- A leaf is added with its kind. -/
theorem kinds_addLeaf (k : TokenKind) (span : Span) (leading text value : String) :
    (f.addLeaf k span leading text value).2.kinds = f.kinds ++ [.token k] := by
  simp [addLeaf, kinds]

/-- A node is added with its kind. -/
theorem kinds_addNode (k : NodeKind) (place : Nat) (children : Array NodeId) (data : NodeData) :
    (f.addNode k place children data).2.kinds = f.kinds ++ [.node k] := by
  have hpushed : f.kinds ++ [.node k] = ((f.nodes.push
      { kind := .node k, span := f.spanOver place children, data, children }).toList).map Node.kind := by
    simp [kinds]
  rw [hpushed]
  apply List.ext_getElem?
  intro i
  -- The children get a parent, which does not change their kinds.
  have hkind : Node.kind ∘ adopt children f.size i = Node.kind := funext fun n => adopt_kind ..
  simp only [kinds, List.getElem?_map, Array.getElem?_toList, getElem?_addNode_of_any, Option.map_map, hkind,
    Array.getElem?_push]
  rfl

/-- A cosmetic change leaves all kinds. -/
theorem kinds_modify (id : NodeId) {change : Node → Node} (hc : Grammar.Cosmetic change) :
    (f.modify id change).kinds = f.kinds := by
  apply List.ext_getElem?
  intro i
  simp only [kinds, List.getElem?_map, Array.getElem?_toList, modify, Array.getElem?_modify]
  split <;> simp [Function.comp_def, hc.kind]

end

end Forest

namespace Grammar

section
variable {source : String} {n : Nat} {s s' : State} {id : NodeId}

theorem kinds_bumpAs {k : TokenKind} (h : Runs (bumpAs k) s id s') :
    s'.forest.kinds = s.forest.kinds ++ [.token k] := by
  obtain ⟨-, rfl⟩ := runs_bumpAs.mp h
  rw [State.advance_forest]
  exact Forest.kinds_addLeaf ..

theorem kinds_node {k : NodeKind} {start : Nat} {cs : Array NodeId} {data : NodeData}
    (h : Runs (node k start cs data) s id s') : s'.forest.kinds = s.forest.kinds ++ [.node k] := by
  obtain ⟨-, rfl⟩ := runs_node.mp h
  exact Forest.kinds_addNode ..

theorem ahead_length_bumpAs {k : TokenKind} (h : Runs (bumpAs k) s id s') :
    s'.ahead.length = s.ahead.length - 1 := by
  obtain ⟨-, rfl⟩ := runs_bumpAs.mp h
  exact State.advance_ahead_length _

/-- Before the end of the file, something is ahead. -/
theorem ahead_length_pos (h : Ahead source s.tokens) (hk : s.current.kind ≠ .endOfFile) :
    0 < s.ahead.length := by
  refine List.length_pos_iff.mpr fun hnil => hk ?_
  exact of_decide_eq_true (h.isEnd_iff.mpr hnil)

/-- At the end of the file, nothing is ahead. -/
theorem ahead_length_end (h : Ahead source s.tokens) (hk : s.current.kind = .endOfFile) :
    s.ahead.length = 0 :=
  List.length_eq_zero_iff.mpr (h.isEnd_iff.mp (decide_eq_true hk))

/-- Every token that is taken before the end of the file becomes one leaf, and no other is made. -/
theorem Builds.tokenLeaves {ps : List Piece} (h : Builds s ps s') (hs : Ahead source s.tokens) :
    s'.forest.tokenLeaves + s'.ahead.length = s.forest.tokenLeaves + s.ahead.length := by
  induction h with
  | refl s => rfl
  | trans first _ ih₁ ih₂ => exact (ih₂ (first.ahead hs)).trans (ih₁ hs)
  | @bump s s' k id taken h =>
    have hlength := ahead_length_bumpAs h
    unfold Forest.tokenLeaves
    rw [kinds_bumpAs h, List.countP_append, List.countP_singleton, hlength]
    -- At the end of the file, the leaf is not counted and nothing is ahead; else one goes from ahead
    -- to the leaves.
    by_cases hend : s.current.kind = .endOfFile
    · obtain rfl := taken.eq_endOfFile (decide_eq_true hend)
      simp [ahead_length_end hs hend]
    · have hk : k ≠ .endOfFile := by
        rcases taken with rfl | ⟨rfl, -⟩
        · exact hend
        · decide
      have hpos := ahead_length_pos hs hend
      simp only [ne_eq, hk, not_false_eq_true, decide_true, if_true]
      omega
  | node below _ _ _ _ _ h ih =>
    have hkinds := kinds_node h
    obtain ⟨-, rfl⟩ := runs_node.mp h
    rw [← ih hs]
    unfold Forest.tokenLeaves
    rw [hkinds, List.countP_append, List.countP_singleton]
    simp
  | change _ _ cosmetic h ih =>
    obtain rfl := runs_change.mp h
    rw [← ih hs]
    unfold Forest.tokenLeaves
    rw [Forest.kinds_modify _ _ cosmetic]
  | report _ _ ih => exact ih hs
  | deeper _ _ ih => exact ih hs
  | braces _ _ ih => exact ih hs
  | drop _ _ _ ih => exact ih hs

/-- With the tokens before the end of the file that are left, there are no more leaves made of this end than
so many. -/
structure State.Within (source : String) (n : Nat) (s : State) : Prop where
  ahead : Ahead source s.tokens
  within : s.forest.endLeaves + s.ahead.length ≤ n

/-- At the end of the file, one more leaf may be made of it. -/
def State.Spare (source : String) (n : Nat) (s : State) : Prop :=
  s.Within source n ∧ (s.current.kind = .endOfFile → s.forest.endLeaves < n)

theorem State.Within.mono {m : Nat} (h : s.Within source n) (hn : n ≤ m) : s.Within source m :=
  ⟨h.ahead, h.within.trans hn⟩

/-- Only the end of the file is counted. -/
theorem endLeaves_bumpAs {k : TokenKind} (h : Runs (bumpAs k) s id s') :
    s'.forest.endLeaves = s.forest.endLeaves + if k = .endOfFile then 1 else 0 := by
  unfold Forest.endLeaves
  rw [kinds_bumpAs h, List.count_append, List.count_singleton]
  simp

theorem endLeaves_node {k : NodeKind} {start : Nat} {cs : Array NodeId} {data : NodeData}
    (h : Runs (node k start cs data) s id s') : s'.forest.endLeaves = s.forest.endLeaves := by
  unfold Forest.endLeaves
  rw [kinds_node h, List.count_append]
  simp

/-- Before the end of the file something is left, so that a token that is taken makes room. -/
theorem State.Within.pos (h : Amid (State.Within source n) s) : 0 < n := by
  have hpos := ahead_length_pos h.1.ahead h.2
  have hwithin := h.1.within
  omega

/-- A token that is no end of the file takes one of those that are ahead. -/
theorem within_leaf {k : TokenKind} (hk : k ≠ .endOfFile) :
    Leads (Amid (State.Within source (n + 1))) (bumpAs k) fun _ => State.Within source n := by
  intro s id s' ⟨hs, hend⟩ h
  refine ⟨runs_bumpAs_ahead h hs.ahead, ?_⟩
  have hpos := ahead_length_pos hs.ahead hend
  have hwithin := hs.within
  rw [endLeaves_bumpAs h, if_neg hk, ahead_length_bumpAs h]
  omega

theorem within_node (k : NodeKind) (start : Nat) (cs : Array NodeId) (data : NodeData) :
    Keeps (State.Within source n) (node k start cs data) := by
  intro s id s' hs h
  have hends := endLeaves_node h
  obtain ⟨-, rfl⟩ := runs_node.mp h
  exact ⟨hs.ahead, hends ▸ hs.within⟩

/-- A bound on the leaves at the end lasts through tokens and nodes. -/
theorem within_persists (source : String) (n : Nat) : Persists (State.Within source n) where
  leaf _ hk := (within_leaf hk).of_imp fun _ hs => ⟨hs.1.mono n.le_succ, hs.2⟩
  node k start cs data _ := within_node k start cs data
  change id f hf s _ s' hs h := by
    obtain rfl := runs_change.mp h
    refine ⟨hs.ahead, ?_⟩
    unfold Forest.endLeaves
    rw [Forest.kinds_modify _ _ hf]
    exact hs.within
  context s _ _ _ hs := ⟨hs.ahead, hs.within⟩
  next s hs hnext hend := by
    have hnil := List.length_eq_zero_iff.mp (ahead_length_end hs.ahead hend)
    exact hnext (by rw [State.nextKind, hnil]; rfl)

/-- A token before the end of the file makes room for a leaf. -/
theorem within_bump : Leads (Amid (State.Within source (n + 1))) bump fun _ => State.Within source n :=
  fun _ _ _ hs h => within_leaf hs.2 hs (runs_bump.mp h)

/-- With one to spare, any token may be taken. -/
theorem spare_bump : Leads (State.Spare source n) bump fun _ => State.Within source n := by
  intro s id s' ⟨hs, hspare⟩ h
  by_cases hend : s.current.kind = .endOfFile
  · have hr := runs_bump.mp h
    have hroom := hspare hend
    refine ⟨runs_bumpAs_ahead hr hs.ahead, ?_⟩
    rw [endLeaves_bumpAs hr, ahead_length_bumpAs hr, ahead_length_end hs.ahead hend, if_pos hend]
    omega
  · exact (within_persists source n).bump ⟨hs, hend⟩ h

theorem State.Within.spare (h : s.Within source n) : s.Spare source (n + 1) := by
  have hwithin := h.within
  exact ⟨h.mono n.le_succ, fun _ => by omega⟩

/-- All productions keep the leaves of the end of the file within the tokens. -/
def Spares (source : String) (rec : Productions) : Prop :=
  ∀ n, Carries rec (Amid (State.Within source n)) (State.Within source n) (State.Spare source n)

variable {rec : Productions}

/-- One that starts before the end of the file makes room. -/
theorem Spares.first (h : Spares source rec) (n : Nat) :
    Carries rec (Amid (State.Within source (n + 1))) (State.Within source n) (State.Spare source n) :=
  { h n with
    first := within_bump
    ready_of_amid := fun _ hs => ⟨hs.1.mono n.le_succ, hs.2⟩ }

/-- Before the end of the file, there is one to spare. -/
theorem spare_of_amid : Amid (State.Within source n) s → s.Spare source n :=
  fun hs => ⟨hs.1, fun hend => absurd hend hs.2⟩

theorem modifierStep_spare (h : Spares source rec) (x : Array NodeId × List Modifier) :
    Keeps (State.Spare source n) (modifierStep rec x) := by
  -- An annotation or a word is taken before the end of the file, which makes room.
  have hroom {p : Parser NodeId} {f : NodeId → Parser (Step (Array NodeId × List Modifier))}
      (hp : ∀ m, Leads (Amid (State.Within source (m + 1))) p fun _ => State.Within source m)
      (hf : ∀ id, Keeps (State.Spare source n) (f id)) :
      Leads (Amid (State.Spare source n)) (p >>= f) fun _ => State.Spare source n := by
    refine Leads.bind (Q := fun _ => State.Spare source n) (fun s id s' hs hr => ?_) hf
    obtain ⟨m, rfl⟩ := Nat.exists_eq_succ_of_ne_zero (State.Within.pos ⟨hs.1.1, hs.2⟩).ne'
    exact (hp m ⟨hs.1.1, hs.2⟩ hr).spare
  refine .ifAt (by decide) ?_ (.seeModifier fun atModifier => .seen id ?_ (.pure _))
  · exact hroom (fun m => (h.first m).annotationUse) fun annotation => .pure _
  · exact .look fun s => hroom (fun m => within_bump) fun word => .pure _

theorem modifiers_spare (h : Spares source rec) (cs : Array NodeId) :
    Keeps (State.Spare source n) (modifiers rec cs) := by
  refine .look fun start => (Keeps.repeating (modifierStep_spare h) _).bind fun found => .ite (.pure _) ?_
  refine Leads.bind (Q := fun _ => State.Spare source n) (fun s id s' hs hr => ?_) fun list => .pure _
  have hends := endLeaves_node hr
  refine ⟨within_node _ _ _ _ hs.1 hr, fun hend => ?_⟩
  obtain ⟨-, rfl⟩ := runs_node.mp hr
  exact hends ▸ hs.2 hend

/-- A name and a colon are two tokens, so one is left to spare. -/
theorem within_named :
    Leads (fun s => s.Within source n ∧ s.current.kind.isName = true ∧ s.nextKind = .colon)
      (bumpName >>= fun _ => bump) fun _ => State.Spare source n := by
  have hname := (within_persists source n).bumpNameNext
  refine (hname.of_imp fun s hs => ⟨hs.1, hs.2.1, ?_⟩).bind fun name s id s' hs hr => ?_
  · rw [hs.2.2]
    decide
  · obtain ⟨m, rfl⟩ := Nat.exists_eq_succ_of_ne_zero (State.Within.pos hs).ne'
    exact (within_bump hs hr).spare

/-- An accessor starts before the end of the file, and so may take it for its word. -/
theorem keepsAccessors_within (h : Spares source rec) : KeepsAccessors (State.Within source n) rec := by
  refine (h n).accessor ((modifiers_spare h _).of_imp fun s hs => spare_of_amid ⟨hs.1, fun hend => ?_⟩) spare_bump
  have hahead := hs.2
  unfold State.tokens isAccessorAhead at hahead
  simp [hend, TokenKind.isModifier] at hahead

/-- Productions that keep every bound leave one to spare. -/
theorem spares_of (hr : rec.Sound) (hrec : ∀ n nt, Keeps (State.Within source n) (rec nt))
    (htyped : ∀ n, Leads (State.Spare source n) (rec (.typeReference none)) fun o s =>
      o = none → s.Spare source n) : Spares source rec := fun n =>
  { within_persists source n with
    sound := hr
    first := (within_persists source n).bump
    ready_of_amid := fun _ hs => hs
    recur := hrec n
    blank_of_amid := fun _ hs => spare_of_amid hs
    named := within_named
    typed := fun _ _ _ hs h => ⟨hrec n _ hs.1 h, htyped n hs h⟩
    untyped := ((within_persists source n).unknownToken spare_bump).forget }

theorem productions_spare (source : String) (depth : Nat) : Spares source (productions depth) := by
  -- At depth zero nothing is read; each level is made of productions one level below.
  induction depth with
  | zero => exact spares_of (productions_sound 0) (fun _ _ => .pure none) fun _ => .yield fun _ hs _ => hs
  | succ depth ih =>
    refine spares_of (productions_sound (depth + 1)) (fun n nt => ?_) fun n => ?_
    · exact (ih n).production within_node (keepsAccessors_within ih) nt
    · exact typeReference_missing (productions_sound depth)
        (fun s d hs => ⟨(ih n).context _ _ _ _ hs.1, hs.2⟩) (modifiers_spare ih _) none

/-- A whole file ends once, besides what its productions have taken at the end. -/
theorem sourceFile_within (source : String) (depth n : Nat) :
    Leads (State.Within source n) (sourceFile (productions depth)) fun _ s => s.forest.endLeaves ≤ n + 1 := by
  refine (productions_spare source depth n).sourceFile (fun _ hs => hs.ahead) fun parts package => ?_
  rintro s root s' ⟨hs, hend⟩ h
  obtain ⟨last, t, hb, hn⟩ := runs_bind.mp h
  have hwithin := hs.within
  rw [endLeaves_node (runs_bind_get.mp hn), endLeaves_bumpAs (runs_bump.mp hb)]
  split <;> omega

end

end Grammar

namespace ParsedUnit

variable (fileName source : String)

/-- Every token before the end of the file becomes one leaf. -/
theorem tokenLeaves_ofSource :
    (ofSource fileName source).forest.tokenLeaves + 1 = (Token.ofSource source).length := by
  obtain ⟨s, q, hb, -, hforest, stop, hstop⟩ := Grammar.ofSource_builds fileName source
  have hcount := hb.tokenLeaves (Grammar.ahead_ofSource fileName source)
  have hahead : s.ahead = [] := (List.cons.inj hstop).2
  have htokens := congrArg List.length (Grammar.tokens_ofSource fileName source)
  rw [hforest, hahead, Grammar.forest_ofSource] at hcount
  have hempty : ({} : Forest).tokenLeaves = 0 := rfl
  rw [hempty] at hcount
  simp only [Grammar.State.tokens, List.length_cons, List.length_nil] at hcount htokens
  omega

/-- The end of the file becomes no more leaves than there are tokens with it. -/
theorem endLeaves_ofSource :
    (ofSource fileName source).forest.endLeaves ≤ (Token.ofSource source).length := by
  have hstart : (Grammar.State.ofSource fileName source).Within source
      (Grammar.State.ofSource fileName source).ahead.length := by
    refine ⟨Grammar.ahead_ofSource fileName source, ?_⟩
    rw [Grammar.forest_ofSource]
    exact (Nat.zero_add _).le
  have hfile := Grammar.sourceFile_within source
    (Grammar.nestingBound (Grammar.State.ofSource fileName source).tokens.length)
    (Grammar.State.ofSource fileName source).ahead.length
  have hends := hfile hstart (Grammar.runs_self _ _)
  have htokens := congrArg List.length (Grammar.tokens_ofSource fileName source)
  exact hends.trans_eq htokens

-- Two missing types and the end of the root.
example : (ofSource "Open.kt" "val x: (@A(fun(y: (@B").forest.endLeaves = 3 := by decide +kernel

end ParsedUnit

end KotlinTree
