import KotlinTree.Proofs.Attribution.Renames
import KotlinTree.Proofs.Attribution.Used

/-!
The order of accesses, and the visit of a file. Accesses lie over different stretches of the source, so that
it does not depend on the order in which they are found. Main statements: it is the same for all such
orders, and an access comes after those that it is on; the visit comes to each access and to each variable
once.
-/

namespace KotlinTree

section
open Attribution

namespace Span

/-- One stretch begins before another, or does so at the same place and does not end after it. -/
def Precedes (a b : Span) : Prop := a.start < b.start ∨ a.start = b.start ∧ a.stop ≤ b.stop

theorem Precedes.antisymm {a b : Span} (h : a.Precedes b) (h' : b.Precedes a) : a = b := by
  obtain ⟨start, stop⟩ := a
  obtain ⟨start', stop'⟩ := b
  simp only [Precedes] at h h'
  simp only [Span.mk.injEq]
  omega

end Span

namespace Attribution

variable {f : Forest} {ids ids' : List NodeId}

theorem inSourceOrder_perm (f : Forest) (ids : List NodeId) : (inSourceOrder f ids).Perm ids :=
  List.mergeSort_perm _ _

theorem inSourceOrder_pairwise (f : Forest) (ids : List NodeId) :
    (inSourceOrder f ids).Pairwise fun a b => (f.span (some a)).Precedes (f.span (some b)) := by
  refine List.Pairwise.imp ?_ (List.pairwise_mergeSort ?_ ?_ ids)
  · intro a b h
    simpa only [Span.Precedes, Bool.or_eq_true, Bool.and_eq_true, decide_eq_true_eq] using h
  · intro a b c hab hbc
    simp only [Bool.or_eq_true, Bool.and_eq_true, decide_eq_true_eq] at hab hbc ⊢
    omega
  · intro a b
    simp only [Bool.or_eq_true, Bool.and_eq_true, decide_eq_true_eq]
    omega

/-- Nodes that lie over different stretches have one order. -/
theorem inSourceOrder_eq (hspan : ∀ a ∈ ids, ∀ b ∈ ids, a ≠ b → f.span (some a) ≠ f.span (some b))
    (h : ids'.Perm ids) : inSourceOrder f ids' = inSourceOrder f ids := by
  have hperm := (inSourceOrder_perm f ids').trans (h.trans (inSourceOrder_perm f ids).symm)
  refine hperm.eq_of_pairwise ?_ (inSourceOrder_pairwise f ids') (inSourceOrder_pairwise f ids)
  intro a b ha hb hab hba
  rw [(inSourceOrder_perm f ids').mem_iff, h.mem_iff] at ha
  rw [(inSourceOrder_perm f ids).mem_iff] at hb
  by_contra hne
  exact hspan a ha b hb hne (hab.antisymm hba)

end Attribution

namespace Forest

variable {source : String} {f : Forest} {a b root : NodeId}

/-- An access beneath another is beside its point, and accesses apart begin at different places. -/
theorem Placed.span_access_ne (hp : f.Placed source) (hf : f.Linked) {d e : Access}
    (ha : f.data (some a) = .access d) (hb : f.data (some b) = .access e) (hroot : f.Inside root a)
    (hroot' : f.Inside root b) (hab : a ≠ b) : f.span (some a) ≠ f.span (some b) := by
  -- One within the other: the outer one also holds its operator, which the inner one does not.
  have hbeneath {x y : NodeId} {d e : Access} (hx : f.data (some x) = .access d)
      (hy : f.data (some y) = .access e) (hne : x ≠ y) (hin : f.Inside x y) :
      f.span (some y) ≠ f.span (some x) := by
    have hyx : f.Beneath y x := by
      rcases Relation.reflTransGen_iff_eq_or_transGen.mp hin with he | h
      · exact absurd he hne
      · exact h
    refine hp.span_ne_of_beneath hf (hf.isChild_operator hx) (hp.filled_operator hf hx) hyx ?_
    intro hpoint
    have hkind := hf.kind?_operator hx
    obtain ⟨leaf, hleaf⟩ := hf.exists_leaf hkind
    rw [hf.eq_of_inside_token hkind hpoint, hleaf] at hy
    cases hy
  by_cases hin : f.Inside a b
  · exact (hbeneath ha hb hab hin).symm
  · by_cases hin' : f.Inside b a
    · exact hbeneath hb ha hab.symm hin'
    -- Neither within the other: their places are apart, and not empty.
    · have hapart := hp.apart_of_not_inside hf hroot hroot' hin hin'
      have hstart := hapart.start_ne (f.inside_self a) (f.inside_self b) (hp.filled_access hf ha)
        (hp.filled_access hf hb)
      exact fun he => hstart (congrArg Span.start he)

/-- One node is what another is applied to, through accesses and calls. -/
def OnSpine (f : Forest) : NodeId → NodeId → Prop :=
  Relation.TransGen fun tail id => f.chainTail? id = some tail

theorem chainTail?_eq (f : Forest) (id : NodeId) : f.chainTail? id = (f.data (some id)).first? := by
  unfold chainTail? NodeData.first?
  cases f.data (some id) <;> rfl

/-- What a node is applied to starts it. -/
theorem Placed.span_chainTail? (hp : f.Placed source) (hf : f.Linked)
    (h : f.chainTail? a = some b) : (f.span (some b)).start = (f.span (some a)).start ∧
      (f.span (some b)).stop ≤ (f.span (some a)).stop := by
  rw [chainTail?_eq] at h
  have hfirst := hf.first_child rfl h
  have hchild := hf.isChild_of_mem_children (Array.mem_of_getElem? hfirst)
  obtain ⟨n, hn, -⟩ := hf.exists_parent hchild
  rw [children_of_getElem? hn] at hfirst
  refine ⟨?_, (hp.span_child hf hchild).2⟩
  rw [span_of_getElem? hn]
  exact ((hp a n hn).first b hfirst).symm

/-- What an access is on ends before its point does. -/
theorem Placed.stop_expression_lt (hp : f.Placed source) (hf : f.Linked) {d : Access}
    (ha : f.data (some a) = .access d) :
    (f.span (some d.expression)).stop < (f.span (some a)).stop := by
  have hnodup : (d.expression :: d.operator :: d.name.toList).Nodup := hf.direct_nodup ha
  have hne : d.expression ≠ d.operator := by
    rintro he
    rw [he] at hnodup
    exact (List.nodup_cons.mp hnodup).1 List.mem_cons_self
  have hfirst : f.chainTail? a = some d.expression := by
    unfold chainTail?
    rw [ha]
  have hstart := (hp.span_chainTail? hf hfirst).1
  have hin := hp.span_child hf (hf.isChild_operator ha)
  have hfilled := hp.filled_operator hf ha
  have hapart := hp.apart_of_children hf (hf.mem_children_of_mem_direct ha List.mem_cons_self)
    (hf.mem_children_of_isChild (hf.isChild_operator ha)) hne
  unfold Filled Span.Filled at hfilled
  unfold Span.Within at hin
  -- The point cannot end before what starts the access begins.
  rcases hapart.spans _ _ (f.inside_self _) (f.inside_self _) with hapart | hapart
  · exact (hapart.trans_lt hfilled).trans_le hin.2
  · exact absurd (hapart.trans (hstart.le.trans hin.1)) (Nat.not_le_of_lt hfilled)

theorem Placed.span_onSpine (hp : f.Placed source) (hf : f.Linked) (h : f.OnSpine b a) :
    (f.span (some b)).start = (f.span (some a)).start ∧
      (f.span (some b)).stop ≤ (f.span (some a)).stop := by
  induction h with
  | single h => exact hp.span_chainTail? hf h
  | tail _ h ih =>
    obtain ⟨hstart, hstop⟩ := hp.span_chainTail? hf h
    exact ⟨ih.1.trans hstart, ih.2.trans hstop⟩

/-- What an access is on comes before it in the order of the source, and not after it. -/
theorem Placed.not_precedes_of_onSpine (hp : f.Placed source) (hf : f.Linked) {d : Access}
    (ha : f.data (some a) = .access d) (h : f.OnSpine b a) :
    ¬ (f.span (some a)).Precedes (f.span (some b)) := by
  obtain ⟨c, hbc, hca⟩ := Relation.TransGen.tail'_iff.mp h
  have hc : c = d.expression := by
    unfold chainTail? at hca
    rw [ha] at hca
    exact (Option.some.inj hca).symm
  have hlt := hp.stop_expression_lt hf ha
  rw [← hc] at hlt
  have hspan : (f.span (some b)).stop ≤ (f.span (some c)).stop := by
    rcases Relation.reflTransGen_iff_eq_or_transGen.mp hbc with rfl | hbc
    · exact le_rfl
    · exact (hp.span_onSpine hf hbc).2
  have hstart := (hp.span_onSpine hf h).1
  unfold Span.Precedes
  omega

end Forest

namespace AttributedUnit

variable {source : String} {u : AttributedUnit} {id : NodeId}

theorem mem_keys_iff : id ∈ u.accessUses.keys ↔ ∃ use, u.access? id = some use := by
  rw [Std.HashMap.mem_keys, access?, ← Option.isSome_iff_exists, Std.HashMap.mem_iff_isSome_getElem?]

theorem WellFormed.exists_access (hu : u.WellFormed source) (h : id ∈ u.accessUses.keys) :
    u.forest.kind? (some id) = some (.node .propertyAccessExpression) ∧
      u.forest.Inside u.root id ∧ ∃ d, u.forest.data (some id) = .access d := by
  obtain ⟨use, huse⟩ := mem_keys_iff.mp h
  obtain ⟨-, hin, hkind⟩ := hu.access id use huse
  refine ⟨hkind, hin, ?_⟩
  have hkinds := hu.linked.mem_kinds hkind
  cases hd : u.forest.data (some id) with
  | access d => exact ⟨d, rfl⟩
  | typeOperation operation => grind [NodeData.kinds]
  | _ => simp [hd, NodeData.kinds] at hkinds

theorem WellFormed.span_ne (hu : u.WellFormed source) {a b : NodeId} (ha : a ∈ u.accessUses.keys)
    (hb : b ∈ u.accessUses.keys) (hab : a ≠ b) :
    u.forest.span (some a) ≠ u.forest.span (some b) := by
  obtain ⟨-, hain, d, hd⟩ := hu.exists_access ha
  obtain ⟨-, hbin, e, he⟩ := hu.exists_access hb
  exact hu.placed.span_access_ne hu.linked hd he hain hbin hab

/-- Whatever the order of the nodes is, sorting makes it this one. -/
theorem WellFormed.inSourceOrder_eq (hu : u.WellFormed source) {ids : List NodeId}
    (h : ids.Perm u.accessUses.keys) : inSourceOrder u.forest ids = u.accessOrder := by
  obtain ⟨ids', hperm, horder⟩ := hu.order
  have hspan : ∀ a ∈ u.accessUses.keys, ∀ b ∈ u.accessUses.keys, a ≠ b →
      u.forest.span (some a) ≠ u.forest.span (some b) := fun a ha b hb => hu.span_ne ha hb
  rw [horder, Attribution.inSourceOrder_eq hspan h, Attribution.inSourceOrder_eq hspan hperm]

theorem WellFormed.accessOrder_perm (hu : u.WellFormed source) :
    u.accessOrder.Perm u.accessUses.keys := by
  rw [← hu.inSourceOrder_eq (.refl _)]
  exact inSourceOrder_perm _ _

/-- Of two elements of a list in order, the one that cannot be before the other comes after it. -/
theorem sublist_of_not_before {α : Type} {R : α → α → Prop} {l : List α} {a b : α}
    (hl : l.Pairwise R) (ha : a ∈ l) (hb : b ∈ l) (hne : a ≠ b) (h : ¬ R a b) : [b, a].Sublist l := by
  obtain ⟨before, after, rfl⟩ := List.append_of_mem hb
  have hafter : a ∈ after := by
    rcases List.mem_append.mp ha with hbefore | hcons
    · exact absurd ((List.pairwise_append.mp hl).2.2 a hbefore b List.mem_cons_self) h
    · exact (List.mem_cons.mp hcons).resolve_left hne
  have hpair : [b, a].Sublist (b :: after) :=
    List.cons_sublist_cons.mpr (List.singleton_sublist.mpr hafter)
  exact hpair.trans (List.sublist_append_right before _)

/-- All accesses of a file are at accesses of its tree, which lie over different stretches of the
source. They come in the same order, whatever the order is in which the table of accesses has them, and
each after those that it is on. -/
theorem accesses_ordered (hu : u.OfSource source) :
    (∀ id ∈ u.accessUses.keys,
      u.forest.kind? (some id) = some (.node .propertyAccessExpression)) ∧
    (∀ a ∈ u.accessUses.keys, ∀ b ∈ u.accessUses.keys, a ≠ b →
      u.forest.span (some a) ≠ u.forest.span (some b)) ∧
    (∀ ids : List NodeId, ids.Perm u.accessUses.keys →
      u.accesses = (inSourceOrder u.forest ids).filterMap u.access?) ∧
    ∀ (a b : NodeId) (x y : NameUse), u.access? a = some x → u.access? b = some y →
      u.forest.OnSpine b a → [y, x].Sublist u.accesses := by
  have hwell := hu.wellFormed
  refine ⟨fun id hid => (hwell.exists_access hid).1, fun a ha b hb => hwell.span_ne ha hb, ?_, ?_⟩
  -- Keys are distinct and so are their places, so any table with these keys is sorted alike.
  · intro ids hids
    rw [hwell.inSourceOrder_eq hids]
    rfl
  · intro a b x y hx hy hspine
    have ha := mem_keys_iff.mpr ⟨x, hx⟩
    have hb := mem_keys_iff.mpr ⟨y, hy⟩
    obtain ⟨-, -, d, hd⟩ := hwell.exists_access ha
    have hsorted : u.accessOrder.Pairwise fun a b =>
        (u.forest.span (some a)).Precedes (u.forest.span (some b)) := by
      rw [← hwell.inSourceOrder_eq (.refl _)]
      exact inSourceOrder_pairwise _ _
    -- What stands on the spine of an access ends sooner, so it is not sorted behind it.
    have hbefore := hwell.placed.not_precedes_of_onSpine hwell.linked hd hspine
    have hne : a ≠ b := by
      rintro rfl
      exact hbefore (Or.inr ⟨rfl, le_rfl⟩)
    have hpair := sublist_of_not_before hsorted (hwell.accessOrder_perm.mem_iff.mpr ha)
      (hwell.accessOrder_perm.mem_iff.mpr hb) hne hbefore
    -- The order of the nodes is the order of what they are used for.
    have huses := hpair.filterMap u.access?
    rwa [List.filterMap_cons_some hy, List.filterMap_cons_some hx, List.filterMap_nil] at huses

/-- A property with the value of a chain of two accesses. -/
def chained : ParsedUnit := ParsedUnit.ofSource "a.kt" "val x = a?.b.c"

theorem chained_forest : chained.root = 12 ∧ chained.forest.size = 12 + 1 ∧
    chained.forest.data (some 12) = .sourceFile
      { fileName := "a.kt", package := none, imports := #[], declarations := #[10], endOfFile := 11 } ∧
    (chained.forest.kind? (some 10) = some (.node .propertyDeclaration) ∧
      chained.forest.data (some 10) = .property
        { modifiers := [], isVar := false, receiverType := none, name := some 1,
          typeRef := none, initializer := some 9 }) ∧
    (chained.forest.kind? (some 9) = some (.node .propertyAccessExpression) ∧
      chained.forest.data (some 9) = .access
        { expression := 6, operator := 7, name := some 8, isNullSafe := false }) ∧
    chained.forest.kind? (some 6) = some (.node .propertyAccessExpression) ∧
    chained.forest.data (some 6) = .access
      { expression := 3, operator := 4, name := some 5, isNullSafe := true } := by
  decide +kernel

/-- What the outer access of the chain comes to use, the file does. -/
theorem chained_comesToUse {s : Setting} {Q : Place → NameUse → Prop}
    (hforest : s.forest = chained.forest) (hstops : s.stops 0 = false)
    (h : ∀ st : State, st.depth = 1 → ComesToUse Q st (s.accessUse (s.tasks (11 + 1)) 9 .value)) :
    ComesToUse Q {} (s.file chained.root) := by
  obtain ⟨hroot, hsize, hfile, ⟨hkind, hdata⟩, ⟨haccess, -⟩, -⟩ := chained_forest
  have hlinked : s.forest.Linked := by
    rw [hforest]
    exact (ParsedUnit.ofSource_sound "a.kt" "val x = a?.b.c").linked
  rw [← hforest] at hsize hfile hkind hdata haccess
  have hproperty : s.forest.IsProperty 10 _ 1 := ⟨hkind, hdata, rfl⟩
  have hfirst : ComesToUse Q { polls := 1 }
      (s.declaration (s.tasks (12 + 1)) (.named s.unit.facade) 10) := by
    refine Setting.property_comesToUse hlinked hproperty rfl rfl rfl fun names => ?_
    exact Setting.expression_access_comesToUse haccess (show 0 < maxDepth by decide) (h _ rfl)
  rw [← hsize] at hfirst
  rw [hroot]
  exact Setting.file_comesToUse hlinked hfile rfl rfl hstops hfirst

/-- Both accesses of the chain are known, and come in its order. -/
theorem accesses_ordered_chain : ∃ (u : AttributedUnit) (first last : NameUse),
    u.OfSource "val x = a?.b.c" ∧ u.forest.OnSpine 6 9 ∧
      u.access? 6 = some first ∧ u.access? 9 = some last ∧ [first, last].Sublist u.accesses := by
  obtain ⟨u, h⟩ := exists_attributed "a.kt" "val x = a?.b.c"
  have hu : u.OfSource "val x = a?.b.c" := .attributed h
  obtain ⟨-, -, -, -, ⟨-, hlast⟩, hkind, hfirst⟩ := chained_forest
  have hspine : u.forest.OnSpine 6 9 := by
    rw [(tree_of_attributeUnit h).1]
    exact .single (by decide +kernel)
  -- The run is looked at in a setting of its own, with the same forest and nothing else in it.
  obtain ⟨s, hs⟩ : ∃ s : Setting, s =
      { forest := chained.forest, env := default, unit := default, stops := fun _ => false } :=
    ⟨_, rfl⟩
  have hforest : s.forest = chained.forest := by rw [hs]
  have hstops : s.stops 0 = false := by rw [hs]
  rw [← hforest] at hlast hfirst hkind
  have hknown {id : NodeId} (huse : ComesToUse (fun place use => place = .access ∧ use.node = id) {}
      (s.file chained.root)) : ∃ use, u.access? id = some use := by
    obtain ⟨place, use, hmem, hat⟩ := huse
    rw [hs, chained] at hmem
    exact exists_useAt? h .access id ⟨_, Array.mem_toList_iff.mpr hmem, hat⟩
  -- What stands to the left of an access is used before it, so both uses are found.
  obtain ⟨first, husefirst⟩ := hknown <| chained_comesToUse hforest hstops fun st hdepth => by
    refine Setting.accessUse_comesToUse_left hlast hkind ?_ (Setting.accessUse_comesToUse_self hfirst)
    rw [hdepth]
    decide
  obtain ⟨last, huselast⟩ := hknown <| chained_comesToUse hforest hstops fun st _ =>
    Setting.accessUse_comesToUse_self hlast
  obtain ⟨-, -, -, hordered⟩ := accesses_ordered hu
  have hpair := hordered 9 6 last first huselast husefirst hspine
  exact ⟨u, first, last, hu, hspine, husefirst, huselast, hpair⟩

end AttributedUnit

end

open Attribution

namespace AttributedUnit

namespace Visit

/-- The access that is met. -/
def access? : Visit → Option NameUse
  | .access use => some use
  | _ => none

/-- The variable that is met. -/
def declared? : Visit → Option Variable
  | .variable v => some v
  | _ => none

end Visit

variable {source : String} {u : AttributedUnit}

theorem filterMap_access?_visitsAt (u : AttributedUnit) (id : NodeId) :
    (u.visitsAt id).filterMap Visit.access? = (u.access? id).toList := by
  unfold visitsAt
  have hvariables (vs : List Variable) : (vs.map Visit.variable).filterMap Visit.access? = [] := by
    simp [List.filterMap_map, Visit.access?, Function.comp_def]
  rw [List.filterMap_append, List.filterMap_append, hvariables]
  cases u.access? id <;> split <;> rfl

theorem filterMap_declared?_visitsAt (u : AttributedUnit) (id : NodeId) :
    (u.visitsAt id).filterMap Visit.declared? = u.declared.filter fun v => v.node = id := by
  unfold visitsAt
  have hvariables (vs : List Variable) : (vs.map Visit.variable).filterMap Visit.declared? = vs := by
    simp [List.filterMap_map, Visit.declared?, Function.comp_def]
  rw [List.filterMap_append, List.filterMap_append, hvariables]
  cases u.access? id <;> split <;> simp [Visit.declared?, List.filterMap_cons]

/-- What is found at nodes depends on the order of the nodes only in its own order. -/
theorem perm_filterMap {α β : Type} {g : α → Option β} {l l' : List α} (hl : l.Nodup) (hl' : l'.Nodup)
    (h : ∀ a b, g a = some b → (a ∈ l ↔ a ∈ l')) : (l.filterMap g).Perm (l'.filterMap g) := by
  have hfound (l : List α) : (l.filter fun a => (g a).isSome).filterMap g = l.filterMap g := by
    rw [List.filterMap_filter]
    refine List.filterMap_congr fun a _ => ?_
    cases g a <;> rfl
  rw [← hfound l, ← hfound l']
  refine List.Perm.filterMap g ?_
  rw [List.perm_ext_iff_of_nodup (hl.filter _) (hl'.filter _)]
  intro a
  rw [List.mem_filter, List.mem_filter]
  refine and_congr_left fun hsome => ?_
  obtain ⟨b, hb⟩ := Option.isSome_iff_exists.mp hsome
  exact h a b hb

/-- Things that are at different nodes are told apart by them, so that going through the nodes comes to
each of the things once. -/
theorem flatMap_filter_perm {β : Type} (node : β → NodeId) {l : List NodeId} (hl : l.Nodup)
    (bs : List β) :
    (l.flatMap fun id => bs.filter fun b => node b = id).Perm (bs.filter fun b => node b ∈ l) := by
  induction l with
  | nil => simp
  | cons id l ih =>
    obtain ⟨hid, hl⟩ := List.nodup_cons.mp hl
    have hsplit := List.filter_append_perm (fun b => node b = id)
      (bs.filter fun b => node b ∈ id :: l)
    -- The elements at the first node, and those at the others.
    have hhere : (bs.filter fun b => node b ∈ id :: l).filter (fun b => node b = id) =
        bs.filter fun b => node b = id := by
      rw [List.filter_filter]
      refine List.filter_congr fun b _ => ?_
      by_cases hb : node b = id <;> simp [hb]
    have hthere : (bs.filter fun b => node b ∈ id :: l).filter (fun b => !(decide (node b = id))) =
        bs.filter fun b => node b ∈ l := by
      rw [List.filter_filter]
      refine List.filter_congr fun b _ => ?_
      by_cases hb : node b = id
      · simp [hb, hid]
      · simp [hb]
    rw [hhere, hthere] at hsplit
    rw [List.flatMap_cons]
    exact ((ih hl).append_left _).trans hsplit

/-- The walk through a file comes to its nodes in the order of the tree, and meets at each what there is
to meet before it goes on. -/
theorem WellFormed.visits_eq (hu : u.WellFormed source) :
    u.visits = (u.forest.preorder u.root).flatMap u.visitsAt := by
  have hmet (ids : List NodeId) (met : Array Visit) :
      (ids.foldl u.visiting.meet met).toList = met.toList ++ ids.flatMap u.visitsAt := by
    induction ids generalizing met with
    | nil => simp
    | cons id ids ih =>
      rw [List.foldl_cons, ih, visiting, Array.toList_appendList, List.flatMap_cons, List.append_assoc]
  rw [visits, hu.linked.run_eq_foldl (fun _ _ => rfl) hu.root_lt, hmet, List.nil_append]

theorem WellFormed.visits_accesses (hu : u.WellFormed source) :
    (u.visits.filterMap Visit.access?).Perm u.accesses := by
  rw [hu.visits_eq]
  simp only [List.filterMap_flatMap, filterMap_access?_visitsAt]
  rw [← List.filterMap_eq_flatMap_toList]
  refine perm_filterMap (hu.linked.preorder_nodup hu.root_lt)
    (hu.accessOrder_perm.nodup_iff.mpr Std.HashMap.nodup_keys) fun id use huse => ?_
  rw [hu.linked.mem_preorder hu.root_lt, hu.accessOrder_perm.mem_iff, mem_keys_iff]
  exact ⟨fun _ => ⟨use, huse⟩, fun _ => (hu.access id use huse).2.1⟩

theorem WellFormed.visits_declared (hu : u.WellFormed source) :
    (u.visits.filterMap Visit.declared?).Perm u.declared := by
  rw [hu.visits_eq]
  simp only [List.filterMap_flatMap, filterMap_declared?_visitsAt]
  refine (flatMap_filter_perm Variable.node (hu.linked.preorder_nodup hu.root_lt) u.declared).trans ?_
  have hall : ∀ v ∈ u.declared, v.node ∈ u.forest.preorder u.root := fun v hv =>
    (hu.linked.mem_preorder hu.root_lt).mpr (hu.declared v hv)
  rw [List.filter_eq_self.mpr fun v hv => decide_eq_true (hall v hv)]

/-- A walk through a file comes to each node that can be reached once, before the nodes beneath it, and
to siblings in the order of the source; and what is met on it is each access and each variable once. -/
structure Covered (u : AttributedUnit) : Prop where
  visits : u.visits = (u.forest.preorder u.root).flatMap u.visitsAt
  nodup : (u.forest.preorder u.root).Nodup
  reached : ∀ id, id ∈ u.forest.preorder u.root ↔ u.forest.Reaches u.root id
  before_beneath : ∀ x y, u.forest.Reaches u.root x → u.forest.Beneath y x →
    [x, y].Sublist (u.forest.preorder u.root)
  siblings : ∀ p, u.forest.Reaches u.root p →
    (u.forest.children (some p)).toList.Sublist (u.forest.preorder u.root)
  inSource : (u.forest.preorder u.root).Pairwise fun x y =>
    u.forest.Beneath y x ∨ (u.forest.span (some x)).stop ≤ (u.forest.span (some y)).start
  accesses : (u.visits.filterMap Visit.access?).Perm u.accesses
  accessReached : ∀ id use, u.access? id = some use → use ∈ u.accesses ∧ u.forest.Reaches u.root id
  declared : (u.visits.filterMap Visit.declared?).Perm u.declared
  declaredReached : ∀ v ∈ u.declared, u.forest.Reaches u.root v.node

/-- All that is known of a file is met when it is visited, each thing once. -/
theorem visits_covered (hu : u.OfSource source) : u.Covered := by
  have hwell := hu.wellFormed
  have hreaches {id : NodeId} : u.forest.Reaches u.root id ↔ u.forest.Inside u.root id :=
    hwell.linked.reaches_iff_inside
  exact {
    visits := hwell.visits_eq
    nodup := hwell.linked.preorder_nodup hwell.root_lt
    reached := fun id => (hwell.linked.mem_preorder hwell.root_lt).trans hreaches.symm
    before_beneath := fun x y hx hy => hwell.linked.before_of_beneath (hreaches.mp hx) hy
    siblings := fun p hp => hwell.linked.children_sublist (hreaches.mp hp)
    inSource := hwell.placed.preorder_pairwise hwell.linked hwell.root_lt
    accesses := hwell.visits_accesses
    accessReached := by
      intro id use huse
      refine ⟨List.mem_filterMap.mpr ⟨id, ?_, huse⟩, hreaches.mpr (hwell.access id use huse).2.1⟩
      exact hwell.accessOrder_perm.mem_iff.mpr (mem_keys_iff.mpr ⟨use, huse⟩)
    declared := hwell.visits_declared
    declaredReached := fun v hv => hreaches.mpr (hwell.declared v hv) }

/-- An annotation that no type follows is left behind and not visited, and what is known is met all the
same. -/
theorem visits_covered_dropped : ∃ (u : AttributedUnit) (use : NameUse),
    u.OfSource "val f: @A\nval g = this.b" ∧ 6 < u.forest.size ∧ ¬u.forest.Reaches u.root 6 ∧
      u.access? 15 = some use ∧ use ∈ u.visits.filterMap Visit.access? ∧ u.Covered := by
  obtain ⟨u, h⟩ := exists_attributed "a.kt" "val f: @A\nval g = this.b"
  obtain ⟨hforest, hroot⟩ := tree_of_attributeUnit h
  have hu : u.OfSource "val f: @A\nval g = this.b" := .attributed h
  have hcovered := visits_covered hu
  have hfree : u.forest.size = 19 ∧ u.root = 18 ∧ u.forest.parent? (some 6) = none := by
    rw [hforest, hroot]
    decide +kernel
  obtain ⟨hsize, hlast, hfree⟩ := hfree
  have hleft : ¬u.forest.Reaches u.root 6 := by
    rw [hu.wellFormed.linked.reaches_iff_inside, hlast]
    intro hin
    obtain he | ⟨p, hp, -⟩ := Relation.ReflTransGen.cases_head hin
    · exact absurd he (by decide)
    · exact nomatch hfree.symm.trans hp
  obtain ⟨use, huse⟩ := exists_useAt? h .access 15 (by decide +kernel)
  obtain ⟨hknown, -⟩ := hcovered.accessReached 15 use huse
  exact ⟨u, use, hu, hsize ▸ (by decide), hleft, huse, hcovered.accesses.mem_iff.mpr hknown, hcovered⟩

end AttributedUnit

end KotlinTree
