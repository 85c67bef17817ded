import KotlinTree.Proofs.Attribution.Once.Expression
import KotlinTree.Proofs.Attribution.Renaming

/-!
Names in the tree of a file, and names in what is known about it, while the file is renamed. What is
known follows a renaming through its own node, and the tree one through any node that has the name. Main
statement: what both are after any renamings. They agree as long as one renames where names are used.
-/

namespace KotlinTree
open Attribution

/-- What has been found once is what is known. -/
theorem Attribution.Findings.usesAt_of_mem {φ : Findings} {place : Place} {use : NameUse}
    (honce : φ.uses.toList.Pairwise fun a b => a.2.node ≠ b.2.node) (h : (place, use) ∈ φ.uses) :
    (φ.usesAt place)[use.node]? = some use := by
  obtain ⟨before, after, hsplit⟩ := List.append_of_mem (Array.mem_toList_iff.mpr h)
  rw [hsplit] at honce
  have hafter := (List.pairwise_cons.mp (List.pairwise_append.mp honce).2.1).1
  unfold Findings.usesAt
  rw [← Array.foldl_toList, hsplit, List.foldl_append, List.foldl_cons]
  -- What comes after is found at other nodes.
  refine List.foldlRecOn (motive := fun all : Std.HashMap NodeId NameUse => all[use.node]? = some use)
    after _ ?_ fun all hall entry hentry => ?_
  · simp
  · have hne := hafter entry hentry
    dsimp only
    split
    · rw [Std.HashMap.getElem?_insert, if_neg (by simpa using hne.symm)]
      exact hall
    · exact hall

namespace AttributedUnit

variable {source : String} {u u' : AttributedUnit} {id token : NodeId} {text : String}

/-- The use of a name at a node, as the name of an access or alone. -/
def useAt? (u : AttributedUnit) : Place → NodeId → Option NameUse
  | .access, id => u.access? id
  | .reference, id => u.reference? id

/-- What is known has been found. -/
theorem mem_uses_of_useAt? {φ : Findings} {p : ParsedUnit} {place : Place} {use : NameUse}
    (h : (φ.unit p).useAt? place id = some use) : (place, use) ∈ φ.uses ∧ use.node = id := by
  cases place <;> exact Findings.mem_uses_of_usesAt h

theorem useAt?_of_mem {φ : Findings} {p : ParsedUnit} {place : Place} {use : NameUse}
    (honce : φ.uses.toList.Pairwise fun a b => a.2.node ≠ b.2.node) (h : (place, use) ∈ φ.uses) :
    (φ.unit p).useAt? place use.node = some use := by
  have hknown := Findings.usesAt_of_mem honce h
  cases place <;> exact hknown

/-- A name is used at a node. -/
def IsUsed (u : AttributedUnit) (id : NodeId) : Prop := ∃ place use, u.useAt? place id = some use

/-- The text of what names a node. -/
def nameText (u : AttributedUnit) (id : NodeId) : String := u.forest.nameText (u.nameToken? id)

/-- A node is its own name, or linked to it. -/
theorem link?_of_nameToken? (h : u.nameToken? id = some token) :
    id = token ∨ ∃ left, u.forest.link? id = some (left, token) := by
  rw [nameToken?_eq] at h
  split at h
  · exact .inl (Option.some.inj h)
  · split at h
    · obtain ⟨⟨left, name⟩, hlink, rfl⟩ := Option.map_eq_some_iff.mp h
      exact .inr ⟨left, hlink⟩
    · cases h

theorem name_eq_of_spells (hf : u.forest.Linked) {place : Place} {use : NameUse}
    (h : u.forest.Spells place use) : use.name = u.nameText use.node := by
  unfold nameText
  cases h with
  | access hd hname =>
    have hkind := hf.kind?_of_data hd rfl rfl
    rw [hname, nameToken?, hkind, hd]
  | reference hkind hname =>
    rw [hname, nameToken?_eq, if_pos hkind]

/-- Uses of names are spelled as the names are, and no two are of one name. -/
structure Spelled (u : AttributedUnit) : Prop where
  name : ∀ place id use, u.useAt? place id = some use → use.name = u.nameText id
  own : ∀ x y token, u.IsUsed x → u.IsUsed y → u.nameToken? x = some token →
    u.nameToken? y = some token → x = y

theorem spelled_of_attributeUnit {env : Environment} {fileName : String} {bound : BoundUnit}
    {stops : Nat → Bool} (h : attributeUnit env (.ofSource fileName source) bound stops = .ok u) :
    u.Spelled := by
  let p := ParsedUnit.ofSource fileName source
  let s : Setting := { forest := p.forest, env, unit := bound, stops }
  have hsound : s.forest.Sound source := ParsedUnit.ofSource_sound fileName source
  have honce := (Setting.file_once hsound p.root).of_run
  have hspells := (Setting.file_composed (s := s) hsound.linked p.root).uses {}
    fun _ hentry => absurd hentry (Array.not_mem_empty _)
  obtain ⟨-, rfl⟩ := eq_of_attributeUnit h
  generalize (Id.run ((s.file p.root).run {})).2 = st at honce hspells
  have hmarked (id : NodeId) (hid : (st.toFindings.unit p).IsUsed id) : id ∈ st.marks.uses := by
    obtain ⟨place, use, huse⟩ := hid
    obtain ⟨hmem, rfl⟩ := mem_uses_of_useAt? huse
    exact List.mem_map.mpr ⟨(place, use), Array.mem_toList_iff.mpr hmem, rfl⟩
  refine ⟨fun place id use huse => ?_, fun x y token hx hy htokenx htokeny => ?_⟩
  · obtain ⟨hmem, rfl⟩ := mem_uses_of_useAt? huse
    exact name_eq_of_spells (u := st.toFindings.unit p) hsound.linked (hspells _ hmem).1
  · -- A name has one access, and is not used by itself if it has one.
    have hunused (id : NodeId) (hid : id ∈ st.marks.uses) (left : NodeId)
        (hlink : s.forest.link? id = some (left, token)) : token ∉ st.marks.uses :=
      honce.names_unused id hid left token hlink (hsound.linked.beneath_of_link? hlink).to_reflTransGen
    rcases link?_of_nameToken? htokenx with rfl | ⟨left, hlinkx⟩ <;>
      rcases link?_of_nameToken? htokeny with rfl | ⟨left', hlinky⟩
    · rfl
    · exact absurd (hmarked x hx) (hunused y (hmarked y hy) left' hlinky)
    · exact absurd (hmarked y hy) (hunused x (hmarked x hx) left hlinkx)
    · have hchild (id left : NodeId) (hlink : s.forest.link? id = some (left, token)) :
          s.forest.IsChild token id := by
        obtain ⟨access, hdata, -, hname⟩ := Forest.exists_access_of_link? hlink
        exact hsound.linked.isChild_of_mem_direct hdata (by simp [NodeData.direct, hname])
      exact Option.some.inj ((hchild x left hlinkx).symm.trans (hchild y left' hlinky))

/-- The file with other names at some nodes, one after another. -/
def renameMembers? (u : AttributedUnit) (renames : List (NodeId × String)) : Option AttributedUnit :=
  renames.foldlM (fun u rename => u.renameMember? rename.1 rename.2) u

/-- The last name that is given at nodes of which `p` holds, and another one if none is. -/
def lastGiven (renames : List (NodeId × String)) (p : NodeId → Prop) [DecidablePred p]
    (otherwise : String) : String :=
  renames.foldl (fun name rename => if p rename.1 then Forest.nameIn rename.2 else name) otherwise

theorem lastGiven_congr {renames : List (NodeId × String)} {p q : NodeId → Prop} [DecidablePred p]
    [DecidablePred q] (h : ∀ rename ∈ renames, p rename.1 ↔ q rename.1) (otherwise : String) :
    lastGiven renames p otherwise = lastGiven renames q otherwise := by
  refine List.foldl_ext _ _ _ fun name rename hmem => ?_
  simp only [h rename hmem]

/-- What one renaming does to the names that are known and to those in the tree. -/
theorem WellFormed.names_renameMember? (hu : u.WellFormed source) {node : NodeId}
    (h : u.renameMember? node text = some u') :
    (∀ place id, u'.useAt? place id = (u.useAt? place id).map fun use =>
      { use with name := lastGiven [(node, text)] (· = id) use.name }) ∧
    (∀ id, u'.nameToken? id = u.nameToken? id) ∧
    ∀ id, u'.nameText id =
      lastGiven [(node, text)] (fun x => u.nameToken? x = u.nameToken? id) (u.nameText id) := by
  obtain ⟨token, leaf, forest, htoken, hr, rfl⟩ := exists_of_renameMember? h
  have hrenamed : u.Renamed (u.renamed forest node (forest.nameText (some token))) node token text :=
    hu.renamed hr
  have hsame (id : NodeId) : (u.renamed forest node (forest.nameText (some token))).nameToken? id =
      u.nameToken? id := nameToken?_congr (hr.kind? id) (hr.link? id)
  refine ⟨fun place id => ?_, hsame, fun id => ?_⟩
  · have hknown : (u.renamed forest node (forest.nameText (some token))).useAt? place id =
        (u.useAt? place id).map fun use =>
          if id = node then { use with name := Forest.nameIn text } else use := by
      cases place with
      | access => exact hrenamed.access id
      | reference => exact hrenamed.reference id
    rw [hknown]
    -- Only the use of the node itself is given the name.
    refine Option.map_congr fun use _ => ?_
    by_cases hid : id = node
    · simp [lastGiven, hid]
    · simp [lastGiven, hid, Ne.symm hid]
  · unfold nameText
    rw [hsame id, lastGiven, List.foldl_cons, List.foldl_nil, htoken]
    cases hname : u.nameToken? id with
    | none =>
      rw [if_neg (Option.some_ne_none token)]
      exact (hr.named hu.named).nameText_none.trans hu.named.nameText_none.symm
    | some other =>
      -- The text is that of the token, so it changes for all nodes that are named by it.
      by_cases hother : other = token
      · rw [hother, if_pos rfl]
        exact hr.nameText_self hu.named
      · rw [if_neg fun he => hother (Option.some.inj he).symm]
        exact hr.nameText_other hu.named hother

/-- What is known after renamings has the last names that were given at its nodes. The tree has those
that were given at any nodes of the same name. -/
theorem WellFormed.names_renameMembers? {renames : List (NodeId × String)}
    (hu : u.WellFormed source) (h : u.renameMembers? renames = some u') :
    (∀ place id, u'.useAt? place id = (u.useAt? place id).map fun use =>
      { use with name := lastGiven renames (· = id) use.name }) ∧
    (∀ id, u'.nameText id =
      lastGiven renames (fun x => u.nameToken? x = u.nameToken? id) (u.nameText id)) ∧
    ∀ rename ∈ renames, ∃ token, u.nameToken? rename.1 = some token := by
  -- The first rename is made before the others, whose tokens are found in what it leaves.
  induction renames generalizing u with
  | nil =>
    cases h
    refine ⟨fun place id => ?_, fun id => rfl, fun rename hmem => absurd hmem List.not_mem_nil⟩
    exact Option.map_id'.symm
  | cons rename renames ih =>
    obtain ⟨node, text⟩ := rename
    rw [renameMembers?, List.foldlM_cons] at h
    obtain ⟨next, hnext, h⟩ := Option.bind_eq_some_iff.mp h
    obtain ⟨hknown, hsame, htext⟩ := hu.names_renameMember? hnext
    obtain ⟨hknown', htext', htokens⟩ := ih (hu.renameMember? hnext) h
    obtain ⟨token, -, -, htoken, -⟩ := exists_of_renameMember? hnext
    refine ⟨fun place id => ?_, fun id => ?_, fun rename hmem => ?_⟩
    · rw [hknown', hknown, Option.map_map]
      rfl
    · simp only [htext', htext, hsame]
      rfl
    · rcases List.mem_cons.mp hmem with rfl | hmem
      · exact ⟨token, htoken⟩
      · rw [← hsame]
        exact htokens rename hmem

/-- After any renamings of an attributed file, what is known of a use of a name has the last name that
was given at its node, and the tree has the last one that was given at any node of that name. The two
agree if all renamings were at nodes at which names are used. -/
theorem renameMembers?_names {env : Environment} {fileName : String} {bound : BoundUnit}
    {stops : Nat → Bool} {renames : List (NodeId × String)}
    (h : attributeUnit env (.ofSource fileName source) bound stops = .ok u)
    (hrenames : u.renameMembers? renames = some u') :
    (∀ place id, u'.useAt? place id = (u.useAt? place id).map fun use =>
      { use with name := lastGiven renames (· = id) use.name }) ∧
    (∀ place id use, u.useAt? place id = some use → u'.nameText id =
      lastGiven renames (fun x => u.nameToken? x = u.nameToken? id) use.name) ∧
    ((∀ rename ∈ renames, u.IsUsed rename.1) →
      ∀ place id use, u'.useAt? place id = some use → use.name = u'.nameText id) := by
  have hspelled := spelled_of_attributeUnit h
  have hwell : u.WellFormed source := (OfSource.attributed h).wellFormed
  obtain ⟨hknown, htext, htokens⟩ := hwell.names_renameMembers? hrenames
  refine ⟨hknown, fun place id use huse => ?_, fun hused place id use huse => ?_⟩
  -- Before any rename, a use has the name that its token says.
  · rw [htext, hspelled.name place id use huse]
  · rw [hknown] at huse
    obtain ⟨before, hbefore, rfl⟩ := Option.map_eq_some_iff.mp huse
    dsimp only
    rw [htext, ← hspelled.name place id before hbefore]
    -- Uses share a token only if they share the node, so the renames that count are the same.
    refine lastGiven_congr (fun rename hmem => ⟨fun he => he ▸ rfl, fun he => ?_⟩) _
    obtain ⟨token, htoken⟩ := htokens rename hmem
    have hid : u.IsUsed id := ⟨place, before, hbefore⟩
    exact hspelled.own _ _ token (hused rename hmem) hid htoken (he.symm.trans htoken)

/-- What has been found in a file is known of it. -/
theorem exists_useAt? {env : Environment} {fileName : String} {bound : BoundUnit}
    (h : attributeUnit env (.ofSource fileName source) bound = .ok u) (place : Place) (id : NodeId) :
    let p := ParsedUnit.ofSource fileName source
    let s : Setting := { forest := p.forest, env, unit := bound, stops := fun _ => false }
    (∃ entry ∈ (Id.run ((s.file p.root).run {})).2.uses.toList, entry.1 = place ∧ entry.2.node = id) →
      ∃ use, u.useAt? place id = some use := by
  intro p s
  have hsound : s.forest.Sound source := ParsedUnit.ofSource_sound fileName source
  obtain ⟨honce, -⟩ := (Setting.file_once hsound p.root).of_run.pairwise
  obtain ⟨-, rfl⟩ := eq_of_attributeUnit h
  generalize (Id.run ((s.file p.root).run {})).2 = st at honce
  rintro ⟨⟨place, use⟩, hmem, rfl, rfl⟩
  exact ⟨use, useAt?_of_mem honce (Array.mem_toList_iff.mp hmem)⟩

/-- Nodes that have names can be renamed one after another. -/
theorem WellFormed.exists_renameMembers? (hu : u.WellFormed source) (renames : List (NodeId × String))
    (h : ∀ rename ∈ renames, ∃ token, u.nameToken? rename.1 = some token) :
    ∃ u', u.renameMembers? renames = some u' := by
  induction renames generalizing u with
  | nil => exact ⟨u, rfl⟩
  | cons rename renames ih =>
    obtain ⟨token, htoken⟩ := h rename List.mem_cons_self
    obtain ⟨next, hnext⟩ := hu.exists_renameMember? htoken rename.2
    obtain ⟨-, hsame, -⟩ := hu.names_renameMember? hnext
    have hrest := ih (hu.renameMember? hnext) fun r hr =>
      (h r (List.mem_cons_of_mem _ hr)).imp fun token => (hsame r.1).trans
    obtain ⟨u', hu'⟩ := hrest
    refine ⟨u', ?_⟩
    rw [renameMembers?, List.foldlM_cons, hnext]
    exact hu'

/-- An access is renamed at its node, and then at its name, which leaves what is known as it was. -/
theorem renameMembers?_names_token : ∃ (u u' : AttributedUnit) (use : NameUse),
    u.useAt? .access 7 = some use ∧ u.renameMembers? [(7, "c"), (6, "d")] = some u' ∧
      u'.useAt? .access 7 = some { use with name := "c" } ∧ u'.nameText 7 = "d" := by
  obtain ⟨u, h⟩ := exists_attributed "a.kt" "val x = this.b"
  obtain ⟨use, huse⟩ := exists_useAt? h .access 7 (by decide +kernel)
  have htoken : u.nameToken? 7 = some 6 ∧ u.nameToken? 6 = some 6 := by
    rw [nameToken?_eq, nameToken?_eq, (tree_of_attributeUnit h).1]
    decide +kernel
  have hwell := (OfSource.attributed h).wellFormed
  obtain ⟨u', hu'⟩ := hwell.exists_renameMembers? [(7, "c"), (6, "d")] (by simp [htoken])
  obtain ⟨hknown, htext, -⟩ := renameMembers?_names h hu'
  refine ⟨u, u', use, huse, hu', ?_, ?_⟩
  · have hname : Forest.nameIn "c" = "c" := by decide +kernel
    rw [hknown, huse]
    simp [lastGiven, hname]
  · have hname : Forest.nameIn "d" = "d" := by decide +kernel
    rw [htext .access 7 use huse]
    simp [lastGiven, htoken, hname]

end AttributedUnit

end KotlinTree
