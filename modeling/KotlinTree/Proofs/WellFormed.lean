import KotlinTree.Proofs.Grammar.Names
import KotlinTree.Proofs.Grammar.Placement
import KotlinTree.Proofs.Grammar.Unit

/-!
A parse makes a well-formed ordered forest, whatever its source is.
-/

namespace KotlinTree

namespace Forest

/-- An ordered forest over a source. Children come before their parent, in order and one after
another in the source, and know it as their parent; a node lies between places of the source, from
its first child to its last; and what it knows as its parts is properly below it. A node, its links
and its parts are one record, so there is nothing else that could be out of step. -/
structure WellFormed (source : String) (f : Forest) : Prop where
  children_ordered : ∀ i : NodeId, (f.children (some i)).toList.Pairwise (· < ·)
  children_before : ∀ i : NodeId, ∀ c ∈ f.children (some i), c < i
  child_parent : ∀ i : NodeId, ∀ c ∈ f.children (some i), f.parent? (some c) = some i
  parent_child : ∀ c i : NodeId, f.parent? (some c) = some i → c ∈ f.children (some i)
  child_unique : ∀ i j c : NodeId, c ∈ f.children (some i) → c ∈ f.children (some j) → i = j
  siblings_apart : ∀ i : NodeId, (f.children (some i)).toList.Pairwise fun c d =>
    (f.span (some c)).stop ≤ (f.span (some d)).start
  starts_with_first : ∀ i c : NodeId, (f.children (some i))[0]? = some c →
    (f.span (some i)).start = (f.span (some c)).start
  stops_with_last : ∀ i c : NodeId, (f.children (some i)).back? = some c →
    (f.span (some i)).stop = (f.span (some c)).stop
  span_forward : ∀ i < f.size, (f.span (some i)).start ≤ (f.span (some i)).stop
  span_within : ∀ i < f.size, (f.span (some i)).stop ≤ source.utf8ByteSize
  span_places : ∀ i < f.size, Text.IsPlace source (f.span (some i)).start ∧
    Text.IsPlace source (f.span (some i)).stop
  parts_below : ∀ i : NodeId, ∀ id ∈ (f.data (some i)).parts, f.Beneath id i

/-- A forest over a source whose links and places are sound, and whose leaves have names in its table. -/
structure Sound (source : String) (f : Forest) : Prop where
  linked : f.Linked
  placed : f.Placed source
  named : f.Named

/-- What holds of the children of every node holds when no node is there. -/
theorem children_cases {f : Forest} {P : NodeId → Array NodeId → Prop} (h₀ : ∀ i, P i #[])
    (h : ∀ (i : NodeId) (n : Node), f.nodes[i]? = some n → P i n.children) (i : NodeId) :
    P i (f.children (some i)) := by
  cases hn : f.nodes[i]? with
  | none =>
    have he : f.children (some i) = #[] := by simp [children, node?, hn]
    rw [he]
    exact h₀ i
  | some n =>
    rw [children_of_getElem? hn]
    exact h i n hn

/-- Sound links and places make a forest well-formed. -/
theorem wellFormed_of_linked_placed {source : String} {f : Forest} (hl : f.Linked)
    (hp : f.Placed source) : f.WellFormed source := by
  have hnone {Q : NodeId → Prop} : ∀ c ∈ (#[] : Array NodeId), Q c := by
    intro c hc
    exact absurd hc (Array.not_mem_empty c)
  have hchild : ∀ i : NodeId, ∀ c ∈ f.children (some i), f.parent? (some c) = some i := by
    intro i
    refine children_cases (P := fun i cs => ∀ c ∈ cs, f.parent? (some c) = some i) ?_ ?_ i
    · exact fun _ => hnone
    · exact fun i n hn => (hl i n hn).linked
  have hspan (i : NodeId) (hi : i < f.size) :
      ∃ n, f.span (some i) = n.span ∧ f.PlacedAt source n := by
    obtain ⟨n, hn⟩ := exists_getElem? hi
    exact ⟨n, span_of_getElem? hn, hp i n hn⟩
  -- Each field is read off the nodes: links say what stands below what, and places where.
  exact {
    children_ordered := by
      intro i
      refine children_cases (P := fun _ cs => cs.toList.Pairwise (· < ·)) ?_ ?_ i
      · exact fun _ => List.Pairwise.nil
      · exact fun i n hn => (hl i n hn).ordered
    children_before := by
      intro i
      refine children_cases (P := fun i cs => ∀ c ∈ cs, c < i) ?_ ?_ i
      · exact fun _ => hnone
      · exact fun i n hn => (hl i n hn).below
    child_parent := hchild
    parent_child := by
      intro c i hc
      obtain ⟨n, hn, hpar⟩ := exists_of_isChild hc
      exact (hl c n hn).owned i hpar
    child_unique := by
      intro i j c hi hj
      exact Option.some.inj ((hchild i c hi).symm.trans (hchild j c hj))
    siblings_apart := by
      intro i
      refine children_cases (P := fun _ cs => cs.toList.Pairwise fun c d =>
        (f.span (some c)).stop ≤ (f.span (some d)).start) ?_ ?_ i
      · exact fun _ => List.Pairwise.nil
      · exact fun i n hn => (hp i n hn).apart
    starts_with_first := by
      intro i
      refine children_cases (P := fun i cs => ∀ c, cs[0]? = some c →
        (f.span (some i)).start = (f.span (some c)).start) ?_ ?_ i
      · intro i c hc
        cases hc
      · intro i n hn
        rw [span_of_getElem? hn]
        exact (hp i n hn).first
    stops_with_last := by
      intro i
      refine children_cases (P := fun i cs => ∀ c, cs.back? = some c →
        (f.span (some i)).stop = (f.span (some c)).stop) ?_ ?_ i
      · intro i c hc
        cases hc
      · intro i n hn
        rw [span_of_getElem? hn]
        exact (hp i n hn).last
    span_forward := by
      intro i hi
      obtain ⟨n, hs, hn⟩ := hspan i hi
      exact hs ▸ hn.forward
    span_within := by
      intro i hi
      obtain ⟨n, hs, hn⟩ := hspan i hi
      exact hs ▸ hn.stop_place.le_size
    span_places := by
      intro i hi
      obtain ⟨n, hs, hn⟩ := hspan i hi
      exact hs ▸ ⟨hn.start_place, hn.stop_place⟩
    parts_below := fun i id hid => hl.beneath_of_mem_parts hid }

end Forest

namespace ParsedUnit
open Grammar

/-- All links, places and names of a parse are sound. -/
theorem ofSource_sound (fileName source : String) :
    (ofSource fileName source).forest.Sound source := by
  obtain ⟨s, q, hb, -, hforest, -⟩ := ofSource_builds fileName source
  have ha := ahead_ofSource fileName source
  have hempty := forest_ofSource fileName source
  have hlinked : (State.ofSource fileName source).forest.Linked := hempty ▸ Forest.linked_empty
  have hplaced : (State.ofSource fileName source).forest.Placed source := by
    rw [hempty]
    intro i n hn
    cases hn
  have hnamed := ofSource_named fileName source
  rw [← hforest] at hnamed ⊢
  exact ⟨(hb.grown hlinked).linked, (hb.lies hlinked ha hplaced).placed, hnamed⟩

/-- Every source text, however malformed, is parsed into a well-formed forest. -/
theorem ofSource_wellFormed (fileName source : String) :
    (ofSource fileName source).forest.WellFormed source := by
  have hsound := ofSource_sound fileName source
  exact Forest.wellFormed_of_linked_placed hsound.linked hsound.placed

end ParsedUnit

end KotlinTree
