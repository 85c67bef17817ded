import KotlinTree.Proofs.Attribution.Expression
import KotlinTree.Proofs.RoundTrip
import KotlinTree.Proofs.Syntax.LeafText
import KotlinTree.Proofs.WellFormed

/-!
Files that come of a source: what attribution makes of its parse, and what renaming makes of that.
What is known about them is known about nodes of their trees. Main statement: renaming changes one
name in one place, and can be taken back.
-/

namespace KotlinTree
open Attribution

namespace AttributedUnit

variable {source : String} {u u' : AttributedUnit} {id token : NodeId} {name : String}

/-- A file with another forest, and with another name where a node uses one. -/
def renamed (u : AttributedUnit) (forest : Forest) (id : NodeId) (name : String) : AttributedUnit :=
  { u with
    forest
    accessUses := u.accessUses.modify id fun use => { use with name }
    references := u.references.modify id fun use => { use with name } }

theorem exists_of_renameMember? (h : u.renameMember? id name = some u') :
    ∃ token leaf forest, u.nameToken? id = some token ∧ u.forest.Retold forest token leaf name ∧
      u' = u.renamed forest id (forest.nameText (some token)) := by
  obtain ⟨token, htoken, h⟩ := Option.bind_eq_some_iff.mp h
  obtain ⟨forest, hforest, rfl⟩ := Option.map_eq_some_iff.mp h
  obtain ⟨leaf, hr⟩ := Forest.retold_of_setText? hforest
  exact ⟨token, leaf, forest, htoken, hr, rfl⟩

theorem getElem?_modify_name (uses : Std.HashMap NodeId NameUse) (id : NodeId) (name : String)
    (j : NodeId) : (uses.modify id fun use => { use with name })[j]? =
      (uses[j]?).map fun use => if j = id then { use with name } else use := by
  rw [Std.HashMap.getElem?_modify]
  by_cases hj : j = id
  · subst hj
    simp
  · simp [hj, Ne.symm hj]

/-- A file that attribution makes of the parse of a source, or renaming of such a file. -/
inductive OfSource (source : String) : AttributedUnit → Prop
  | attributed {env : Environment} {fileName : String} {bound : BoundUnit} {stops : Nat → Bool}
    {u : AttributedUnit}
    (h : attributeUnit env (.ofSource fileName source) bound stops = .ok u) : OfSource source u
  | renamed {u u' : AttributedUnit} {id : NodeId} {name : String} (of : OfSource source u)
    (h : u.renameMember? id name = some u') : OfSource source u'

/-- The tree of a file is that of a source, and accesses and variables are known of its nodes. -/
structure WellFormed (source : String) (u : AttributedUnit) : Prop extends
    u.forest.Sound source where
  root_lt : u.root < u.forest.size
  access : ∀ id use, u.access? id = some use → use.node = id ∧ u.forest.Inside u.root id ∧
    u.forest.kind? (some id) = some (.node .propertyAccessExpression)
  declared : ∀ v ∈ u.declared, u.forest.Inside u.root v.node
  order : ∃ ids, ids.Perm u.accessUses.keys ∧ u.accessOrder = inSourceOrder u.forest ids

theorem wellFormed_of_attributeUnit {env : Environment} {p : ParsedUnit} {bound : BoundUnit}
    {stops : Nat → Bool} (hf : p.forest.Sound source) (hroot : p.root < p.forest.size)
    (h : attributeUnit env p bound stops = .ok u) : u.WellFormed source := by
  obtain ⟨-, rfl⟩ := eq_of_attributeUnit h
  let s : Setting := { forest := p.forest, env, unit := bound, stops }
  have hempty : ({} : Findings).AreAt s.forest (s.forest.Inside p.root) :=
    ⟨fun _ hentry => absurd hentry (Array.not_mem_empty _),
      fun _ hv => absurd hv (Array.not_mem_empty _)⟩
  have hfound := (Setting.file_composed (s := s) hf.linked p.root).areAt {} hempty
  exact {
    hf with
    root_lt := hroot
    access := by
      intro id use hget
      obtain ⟨huse, rfl⟩ : (Place.access, use) ∈ _ ∧ use.node = id :=
        Findings.mem_uses_of_usesAt hget
      obtain ⟨hin, hplace⟩ := hfound.uses _ huse
      obtain ⟨access, hdata⟩ := hplace rfl
      exact ⟨rfl, hin, hf.linked.kind?_of_data hdata rfl rfl⟩
    declared := fun v hv => hfound.declared v (Array.mem_toList_iff.mp hv)
    order := ⟨_, .refl _, rfl⟩ }

theorem inSourceOrder_congr {f g : Forest} (h : ∀ id, g.span (some id) = f.span (some id))
    (ids : List NodeId) : inSourceOrder g ids = inSourceOrder f ids := by
  unfold inSourceOrder
  simp only [h]

/-- Renaming leaves all nodes where they are, and the uses of names at the same nodes. -/
theorem WellFormed.renameMember? (hu : u.WellFormed source) (h : u.renameMember? id name = some u') :
    u'.WellFormed source := by
  obtain ⟨token, leaf, forest, -, hr, rfl⟩ := exists_of_renameMember? h
  obtain ⟨ids, hperm, horder⟩ := hu.order
  exact {
    linked := hr.linked hu.linked
    placed := hr.placed hu.linked hu.placed
    named := hr.named hu.named
    root_lt := hr.size ▸ hu.root_lt
    access := by
      intro j use hget
      obtain ⟨before, hbefore, rfl⟩ :=
        Option.map_eq_some_iff.mp ((getElem?_modify_name _ _ _ _).symm.trans hget)
      obtain ⟨hnode, hin, hkind⟩ := hu.access j before hbefore
      refine ⟨?_, hr.inside_iff.mpr hin, (hr.kind? j).trans hkind⟩
      split <;> exact hnode
    declared := fun v hv => hr.inside_iff.mpr (hu.declared v hv)
    -- The nodes with uses are the same, and lie where they did.
    order := by
      refine ⟨ids, hperm.trans ?_, horder.trans (inSourceOrder_congr hr.span ids).symm⟩
      rw [List.perm_ext_iff_of_nodup Std.HashMap.nodup_keys Std.HashMap.nodup_keys]
      intro j
      exact Std.HashMap.mem_keys.trans (Std.HashMap.mem_modify.symm.trans Std.HashMap.mem_keys.symm) }

theorem OfSource.wellFormed (h : u.OfSource source) : u.WellFormed source := by
  induction h with
  | @attributed env fileName bound stops u h =>
    obtain ⟨_, hmade⟩ := ParsedUnit.ofSource_made fileName source
    have hsound := ParsedUnit.ofSource_sound fileName source
    exact wellFormed_of_attributeUnit hsound hmade.root_top.1 h
  | renamed _ h ih => exact ih.renameMember? h

/-- Every source can be attributed, if with nothing around it. -/
theorem exists_attributed (fileName source : String) :
    ∃ u, attributeUnit default (.ofSource fileName source) default = .ok u :=
  attributeUnit_ok default (ParsedUnit.ofSource_sound fileName source).linked default _ fun _ => rfl

/-- Attribution leaves the tree as it was. -/
theorem tree_of_attributeUnit {env : Environment} {p : ParsedUnit} {bound : BoundUnit}
    {stops : Nat → Bool} (h : attributeUnit env p bound stops = .ok u) :
    u.forest = p.forest ∧ u.root = p.root := by
  obtain ⟨-, rfl⟩ := eq_of_attributeUnit h
  exact ⟨rfl, rfl⟩

/-- A node has a name: it is a name, or an access with one. -/
def HasName (u : AttributedUnit) (id : NodeId) : Prop :=
  u.forest.kind? (some id) = some (.token .identifier) ∨
    u.forest.kind? (some id) = some (.node .propertyAccessExpression) ∧
      ∃ access token, u.forest.data (some id) = .access access ∧ access.name = some token

/-- The name of an access is the one that it links to what it is on. -/
theorem nameToken?_eq (u : AttributedUnit) (id : NodeId) : u.nameToken? id =
    if u.forest.kind? (some id) = some (.token .identifier) then some id
    else if u.forest.kind? (some id) = some (.node .propertyAccessExpression) then
      (u.forest.link? id).map Prod.snd
    else none := by
  unfold nameToken? Forest.link?
  split
  · rename_i access hkind hdata
    simp [hkind, hdata, NodeData.link?, Function.comp_def]
  · rename_i hkind
    simp [hkind]
  · rename_i hname haccess
    rw [if_neg hname]
    split
    · rename_i hkind
      cases hd : u.forest.data (some id) with
      | access access => exact absurd hd (haccess access hkind)
      | _ => rfl
    · rfl

theorem exists_nameToken?_iff : (∃ token, u.nameToken? id = some token) ↔ u.HasName id := by
  rw [nameToken?_eq]
  unfold HasName Forest.link?
  by_cases hname : u.forest.kind? (some id) = some (.token .identifier)
  · simp [hname]
  · by_cases haccess : u.forest.kind? (some id) = some (.node .propertyAccessExpression)
    · cases u.forest.data (some id) <;> simp [haccess, NodeData.link?]
    · simp [hname, haccess]

/-- What names a node is a name, and so it is a leaf. -/
theorem WellFormed.exists_leaf (hu : u.WellFormed source) (h : u.nameToken? id = some token) :
    ∃ leaf, u.forest.leaf? (some token) = some leaf := by
  have hkind : u.forest.kind? (some token) = some (.token .identifier) := by
    unfold nameToken? at h
    split at h
    · rename_i access hkind hdata
      have hrole : (token, [Kind.token .identifier]) ∈ (NodeData.access access).roles := by
        simp [NodeData.roles, h]
      obtain ⟨k, hk, hrole⟩ := hu.linked.exists_role hdata hrole
      rw [hrole, List.mem_singleton.mp hk]
    · rename_i hkind
      exact Option.some.inj h ▸ hkind
    · cases h
  obtain ⟨leaf, hdata⟩ := hu.linked.exists_leaf hkind
  exact ⟨leaf, by rw [Forest.leaf?_eq, hdata]; rfl⟩

theorem WellFormed.exists_renameMember? (hu : u.WellFormed source)
    (h : u.nameToken? id = some token) (name : String) : ∃ u', u.renameMember? id name = some u' := by
  obtain ⟨leaf, hleaf⟩ := hu.exists_leaf h
  obtain ⟨forest, hforest⟩ := Forest.exists_setText? hleaf name
  unfold AttributedUnit.renameMember?
  rw [h, Option.bind_some, hforest]
  exact ⟨_, rfl⟩

theorem nameToken?_congr (hkind : u'.forest.kind? (some id) = u.forest.kind? (some id))
    (hlink : u'.forest.link? id = u.forest.link? id) : u'.nameToken? id = u.nameToken? id := by
  rw [nameToken?_eq, nameToken?_eq, hkind, hlink]

/-- A file is another with another text for a leaf, and with another name where a node uses one. -/
structure Renamed (u u' : AttributedUnit) (id token : NodeId) (text : String) : Prop where
  print : u.forest.Reaches u.root token → ∃ p q,
    u.print = p ++ u.forest.leafText (some token) ++ q ∧ u'.print = p ++ text ++ q
  leafText : u'.forest.leafText (some token) = text
  leading : ∀ j, (u'.forest.leaf? (some j)).map Leaf.leading =
    (u.forest.leaf? (some j)).map Leaf.leading
  /-- All other nodes are what they were, and have the names that they had. -/
  node : ∀ j ≠ token, u'.forest.nodes[j]? = u.forest.nodes[j]?
  nameText : ∀ j ≠ token, u'.forest.nameText (some j) = u.forest.nameText (some j)
  kind : ∀ j, u'.forest.kind? (some j) = u.forest.kind? (some j)
  span : ∀ j, u'.forest.span (some j) = u.forest.span (some j)
  parent : ∀ j, u'.forest.parent? (some j) = u.forest.parent? (some j)
  children : ∀ j, u'.forest.children (some j) = u.forest.children (some j)
  fileName : u'.fileName = u.fileName
  root : u'.root = u.root
  types : u'.types = u.types
  declared : u'.declared = u.declared
  diagnostics : u'.diagnostics = u.diagnostics
  accessOrder : u'.accessOrder = u.accessOrder
  access : ∀ j, u'.access? j = (u.access? j).map fun use =>
    if j = id then { use with name := Forest.nameIn text } else use
  reference : ∀ j, u'.reference? j = (u.reference? j).map fun use =>
    if j = id then { use with name := Forest.nameIn text } else use

theorem WellFormed.renamed (hu : u.WellFormed source) {forest : Forest} {leaf : Leaf}
    (hr : u.forest.Retold forest token leaf name) :
    u.Renamed (u.renamed forest id (forest.nameText (some token))) id token name := by
  -- The text before is needed to say what is written.
  have htext : u.forest.leafText (some token) = leaf.text := by
    rw [Forest.leafText, hr.was, Option.map_some, Option.getD_some]
  exact {
    print := by
      rw [hu.linked.reaches_iff_inside, htext]
      exact hr.print hu.linked hu.root_lt
    leafText := congrArg (fun l => (l.map Leaf.text).getD "") hr.leaf?_self
    leading := by
      intro j
      change (forest.leaf? (some j)).map Leaf.leading = _
      -- White space before a leaf stays, also before the leaf itself.
      by_cases hj : j = token
      · rw [hj, hr.leaf?_self, hr.was]
        rfl
      · rw [hr.leaf?_other hj]
    node := fun j hj => hr.node_other hj
    nameText := fun j hj => hr.nameText_other hu.named hj
    kind := hr.kind?
    span := hr.span
    parent := hr.parent?
    children := hr.children
    fileName := rfl
    root := rfl
    types := rfl
    declared := rfl
    diagnostics := rfl
    accessOrder := rfl
    access := hr.nameText_self hu.named ▸ getElem?_modify_name _ _ _
    reference := hr.nameText_self hu.named ▸ getElem?_modify_name _ _ _ }

/-- The same leaf names the node after renaming, so that its old text can be given back. -/
theorem WellFormed.exists_back (hu : u.WellFormed source) (htoken : u.nameToken? id = some token)
    (h : u.renameMember? id name = some u') :
    ∃ back, u'.renameMember? id (u.forest.leafText (some token)) = some back ∧
      back.print = u.print := by
  obtain ⟨token', leaf, forest, htoken', hr, rfl⟩ := exists_of_renameMember? h
  obtain rfl := Option.some.inj (htoken.symm.trans htoken')
  have hwell := hu.renameMember? h
  have hsame : (u.renamed forest id (forest.nameText (some token))).nameToken? id = some token :=
    (nameToken?_congr (hr.kind? id) (hr.link? id)).trans htoken
  obtain ⟨back, hback⟩ := hwell.exists_renameMember? hsame (u.forest.leafText (some token))
  refine ⟨back, hback, ?_⟩
  obtain ⟨token', leaf', forest', htoken', hr', rfl⟩ := exists_of_renameMember? hback
  obtain rfl := Option.some.inj (hsame.symm.trans htoken')
  rw [Forest.leafText, hr.was, Option.map_some, Option.getD_some] at hr'
  exact hr.print_back hr' hu.linked hu.root_lt

/-- Exactly the nodes with a name can be renamed. Renaming changes the text of one leaf, and the file
prints the rest of its text as before; no other node, no link and nothing that is known about the file
changes, but for the name in what is known about the node. The old text can be given back, and the file
then prints as before. -/
theorem renameMember?_local (hu : u.OfSource source) (id : NodeId) (name : String) :
    (u.renameMember? id name = none ↔ ¬ u.HasName id) ∧
      ∀ u', u.renameMember? id name = some u' → ∃ token, u.nameToken? id = some token ∧
        u.Renamed u' id token name ∧
          ∃ back, u'.renameMember? id (u.forest.leafText (some token)) = some back ∧
            back.print = u.print := by
  have hwell := hu.wellFormed
  constructor
  · rw [← exists_nameToken?_iff, not_exists, Option.eq_none_iff_forall_ne_some]
    constructor
    · intro hnone token htoken
      obtain ⟨u', hu'⟩ := hwell.exists_renameMember? htoken name
      exact hnone u' hu'
    · intro hnone u' hu'
      obtain ⟨token, _, _, htoken, -⟩ := exists_of_renameMember? hu'
      exact hnone token htoken
  · intro u' hu'
    obtain ⟨token, leaf, forest, htoken, hr, rfl⟩ := exists_of_renameMember? hu'
    exact ⟨token, htoken, hwell.renamed hr, hwell.exists_back htoken hu'⟩

/-- The first access of a chain is renamed, which changes one name in the text, and gets its name back. -/
theorem renameMember?_local_chain : ∃ u u' back : AttributedUnit, u.OfSource "val x = a?.b.c()" ∧
    u.renameMember? 6 "d" = some u' ∧ u.Renamed u' 6 5 "d" ∧
      (∃ p q, u.print = p ++ "b" ++ q ∧ u'.print = p ++ "d" ++ q) ∧
        u'.renameMember? 6 "b" = some back ∧ back.print = u.print := by
  obtain ⟨u, h⟩ := exists_attributed "a.kt" "val x = a?.b.c()"
  obtain ⟨hforest, hroot⟩ := tree_of_attributeUnit h
  have hu : u.OfSource "val x = a?.b.c()" := .attributed h
  have htoken : u.nameToken? 6 = some 5 := by
    rw [nameToken?_eq, hforest]
    decide +kernel
  have hb : u.forest.leafText (some 5) = "b" := by
    rw [hforest]
    decide +kernel
  -- The name is reached through the property, its value, what is called and what that is on.
  have hreaches : u.forest.Reaches u.root 5 := by
    rw [hforest, hroot]
    have hvalue : (ParsedUnit.ofSource "a.kt" "val x = a?.b.c()").forest.Reaches
        (ParsedUnit.ofSource "a.kt" "val x = a?.b.c()").root 13 :=
      .tail (.single (show 14 ∈ _ by decide +kernel)) (by decide +kernel)
    exact ((hvalue.tail (show 9 ∈ _ by decide +kernel)).tail (show 6 ∈ _ by decide +kernel)).tail
      (by decide +kernel)
  obtain ⟨hnone, hsome⟩ := renameMember?_local hu 6 "d"
  have hname : u.renameMember? 6 "d" ≠ none := fun h => hnone.mp h (exists_nameToken?_iff.mp ⟨5, htoken⟩)
  obtain ⟨u', hu'⟩ := Option.ne_none_iff_exists'.mp hname
  obtain ⟨token, htoken', hrenamed, back, hback, hprint⟩ := hsome u' hu'
  obtain rfl := Option.some.inj (htoken.symm.trans htoken')
  have hsplit := hrenamed.print hreaches
  rw [hb] at hsplit hback
  exact ⟨u, u', back, hu, hu', hrenamed, hsplit, hback, hprint⟩

end AttributedUnit

end KotlinTree
