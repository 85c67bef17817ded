import Mathlib.Data.List.Sort
import KotlinTree.Proofs.Grammar.Text
import KotlinTree.Proofs.Grammar.Unit

/-!
A parse loses no text: its leaves say the source, and what the tree does not print is exactly what
annotations without a type have left behind.
-/

namespace KotlinTree

namespace Forest

/-- A node without a parent. -/
def IsTop (f : Forest) (i : NodeId) : Prop := i < f.size ∧ f.parent? (some i) = none

section
variable {f : Forest} {i o o' : NodeId}

theorem IsTop.not_isChild {p : NodeId} (h : f.IsTop o) : ¬ f.IsChild o p := by
  intro hc
  unfold IsChild at hc
  rw [h.2] at hc
  cases hc

/-- A node lies in the tree of one node without a parent. -/
theorem IsTop.unique (h : f.IsTop o) (h' : f.IsTop o') (hw : f.Within i o) (hw' : f.Within i o') :
    o = o' := by
  have hright : Relator.RightUnique f.IsChild := by
    intro c p q hp hq
    exact Option.some.inj (hp.symm.trans hq)
  rcases hw.total_of_right_unique hright hw' with hoo | hoo
  · rcases hoo.cases_head with he | ⟨c, hc, -⟩
    · exact he
    · exact absurd hc h.not_isChild
  · rcases hoo.cases_head with he | ⟨c, hc, -⟩
    · exact he.symm
    · exact absurd hc h'.not_isChild

/-- Going up from child to parent comes to an end. -/
theorem Linked.exists_top (hf : f.Linked) (hi : i < f.size) : ∃ o, f.IsTop o ∧ f.Within i o := by
  -- A parent comes after its child, so fewer nodes come after it.
  generalize hk : f.size - i = k
  induction k using Nat.strongRecOn generalizing i with
  | ind k ih =>
    obtain ⟨n, hn⟩ := exists_getElem? hi
    cases hp : n.parent with
    | none => exact ⟨i, ⟨hi, (parent?_of_getElem? hn).trans hp⟩, .refl⟩
    | some p =>
      have hchild : f.IsChild i p := (parent?_of_getElem? hn).trans hp
      have hlt : (i : Nat) < p := hf.lt_of_isChild hchild
      obtain ⟨m, hm, -⟩ := hf.exists_parent hchild
      have hps := lt_size_of_getElem? hm
      obtain ⟨o, ho, hw⟩ := ih (f.size - p) (hk ▸ Nat.sub_lt_sub_left hi hlt) hps rfl
      exact ⟨o, ho, hw.head hchild⟩

/-- What a choice of nodes leaves out has a text, unless it says as much as all of them. -/
theorem written_filter (f : Forest) (p : NodeId → Bool) (ids : List NodeId)
    (h : f.written (ids.filter p) = f.written ids) : ∀ i ∈ ids, p i = false → f.written [i] = "" := by
  -- A choice of nodes never says more, so nothing can make up for a text that is left out.
  have hle (ids : List NodeId) :
      (f.written (ids.filter p)).utf8ByteSize ≤ (f.written ids).utf8ByteSize := by
    induction ids with
    | nil => exact le_rfl
    | cons i ids ih =>
      rw [← List.singleton_append, List.filter_append, written_append, written_append,
        String.utf8ByteSize_append, String.utf8ByteSize_append]
      refine Nat.add_le_add ?_ ih
      cases hp : p i <;> simp [hp]
  induction ids with
  | nil => exact fun i hi => absurd hi List.not_mem_nil
  | cons j ids ih =>
    have hrest := hle ids
    rw [← List.singleton_append, List.filter_append, written_append, written_append] at h
    have hsize := congrArg String.utf8ByteSize h
    rw [String.utf8ByteSize_append, String.utf8ByteSize_append] at hsize
    cases hp : p j with
    | true =>
      have hj : [j].filter p = [j] := by simp [hp]
      rw [hj] at h
      have htail := (String.append_right_inj _).mp h
      intro i hi hpi
      rcases List.mem_cons.mp hi with rfl | hi
      · rw [hp] at hpi
        cases hpi
      · exact ih htail i hi hpi
    | false =>
      have hj : [j].filter p = [] := by simp [hp]
      rw [hj, written_nil] at h hsize
      have hempty : f.written [j] = "" := by
        rw [← String.utf8ByteSize_eq_zero_iff]
        have hz : "".utf8ByteSize = 0 := rfl
        omega
      rw [hempty, String.empty_append, String.empty_append] at h
      intro i hi hpi
      rcases List.mem_cons.mp hi with rfl | hi
      · exact hempty
      · exact ih h i hi hpi

end

end Forest

namespace ParsedUnit
open Grammar

/-- What a parse has made: its leaves say the source, its tree is a walk over nodes in the order of
their making, and other trees were left behind with a text and the sign of an annotation. -/
structure Made (source : String) (f : Forest) (root : NodeId) (members : List NodeId) : Prop where
  linked : f.Linked
  text : f.text = source
  root_top : f.IsTop root
  walk : f.postorder root = members
  sorted : members.Pairwise (· < ·)
  mem_iff : ∀ i, i ∈ members ↔ i < f.size ∧ f.Within i root
  orphan : ∀ o, f.IsTop o → o ≠ root →
    HasText f o ∧ ∃ t ∈ Token.ofSource source, t.kind = .atSign

theorem ofSource_made (fileName source : String) :
    ∃ members, Made source (ofSource fileName source).forest (ofSource fileName source).root
      members := by
  obtain ⟨s, q, hb, hq, hforest, stop, hstop⟩ := ofSource_builds fileName source
  have ha := ahead_ofSource fileName source
  have hempty := forest_ofSource fileName source
  have hlinked : (State.ofSource fileName source).forest.Linked := hempty ▸ Forest.linked_empty
  have hg := hb.grown hlinked
  have hself := List.mem_singleton_self q
  have hrange := hg.root_range hself
  rw [← hq, ← hforest]
  refine ⟨q.members, hg.linked, ?_, ⟨hrange.2, hg.free q hself⟩, hg.walk q hself, ?_, ?_, ?_⟩
  · -- Nothing is ahead at the end, and the whole source is ahead at the start.
    have htext := hb.text hlinked
    have hbefore : (State.ofSource fileName source).pending = source := by
      rw [State.pending, tokens_ofSource]
      exact (Token.ofSource_cuts source).written_eq
    have hafter : s.pending = "" := by
      simp [State.pending, hstop, String.join_cons, Token.endAt, Token.written]
    rw [hbefore, hafter, String.append_empty, hempty] at htext
    exact htext
  · have hs := hg.sorted
    rwa [List.flatMap_singleton] at hs
  · intro i
    constructor
    · intro hi
      exact ⟨(hg.range i (mem_members_of_mem hself hi)).2, (hg.mem_members_iff hself).mp hi⟩
    · intro hi
      exact (hg.mem_members_iff hself).mpr hi.2
  · intro o ho hne
    obtain ⟨n, hn⟩ := Forest.exists_getElem? ho.1
    have hfree := ho.2
    rw [Forest.parent?_of_getElem? hn] at hfree
    have hfrom : (State.ofSource fileName source).forest.size ≤ o := by
      rw [hempty]
      exact Nat.zero_le o
    have hsigns : ∀ t ∈ (State.ofSource fileName source).tokens, t.kind = .atSign →
        t ∈ Token.ofSource source := fun t ht _ => tokens_ofSource fileName source ▸ ht
    obtain ⟨p, hp, rfl⟩ | hleft := hb.orphan hlinked ha hsigns hfrom hn hfree
    · exact absurd (congrArg Piece.root (List.mem_singleton.mp hp)) hne
    · exact hleft

section
variable {source : String} {f : Forest} {root : NodeId} {members : List NodeId}

/-- The nodes of the tree are those below no other node without a parent. -/
theorem Made.mem_iff_top (h : Made source f root members) {i : NodeId} (hi : i < f.size) :
    i ∈ members ↔ ∀ o, f.IsTop o → f.Within i o → o = root := by
  rw [h.mem_iff]
  constructor
  · intro hm o ho hw
    exact ho.unique h.root_top hw hm.2
  · intro hall
    obtain ⟨o, ho, hw⟩ := h.linked.exists_top hi
    exact ⟨hi, hall o ho hw ▸ hw⟩

theorem Made.print_eq (h : Made source f root members) : f.print (some root) = f.written members := by
  rw [h.linked.print_some h.root_top.1, ← h.walk]
  apply Forest.written_preorder
  intro j _ n hn
  exact ⟨(h.linked j n hn).below, (h.linked j n hn).leaf⟩

open Classical in
theorem Made.members_eq_filter (h : Made source f root members) :
    members = (List.range f.size).filter fun i => ∀ o, f.IsTop o → f.Within i o → o = root := by
  have hrange : ((List.range f.size).filter fun i =>
      ∀ o, f.IsTop o → f.Within i o → o = root).Pairwise (· < ·) :=
    List.pairwise_lt_range.filter _
  refine h.sorted.eq_of_mem_iff hrange ?_
  intro i
  rw [List.mem_filter, List.mem_range, decide_eq_true_iff]
  constructor
  · intro hm
    have hi := ((h.mem_iff i).mp hm).1
    exact ⟨hi, (h.mem_iff_top hi).mp hm⟩
  · rintro ⟨hi, hall⟩
    exact (h.mem_iff_top hi).mpr hall

/-- All is printed only if nothing has been left behind, since what is left behind has a text. -/
theorem Made.print_eq_source_iff (h : Made source f root members) :
    f.print (some root) = source ↔ ∀ i, f.IsTop i ↔ i = root := by
  classical
  rw [h.print_eq]
  constructor
  · intro hp i
    refine ⟨?_, fun he => he ▸ h.root_top⟩
    intro hi
    by_contra hne
    obtain ⟨⟨k, n, l, hn, hl, hw, hki⟩, -⟩ := h.orphan i hi hne
    -- The leaf below the other node has a text, and is not printed.
    rw [h.members_eq_filter, ← h.text] at hp
    have hk := Forest.lt_size_of_getElem? hn
    have hout : decide (∀ o, f.IsTop o → f.Within k o → o = root) = false := by
      refine decide_eq_false ?_
      intro hall
      exact hne (hall i hi hki)
    have hempty := Forest.written_filter f _ _ hp k (List.mem_range.mpr hk) hout
    rw [Forest.written_singleton, Forest.leaf?_of_getElem? hn, hl] at hempty
    exact hw hempty
  · intro hall
    rw [h.members_eq_filter, ← h.text, Forest.text]
    congr 1
    refine List.filter_eq_self.mpr ?_
    intro i _
    exact decide_eq_true fun o ho _ => (hall o).mp ho

end

open Classical in
/-- The leaves of a parse say the whole source in the order of their making. The tree prints all of
it exactly when its root is the only node without a parent, and else all but what the leaves below
the other such nodes say. -/
theorem text_and_print_ofSource (fileName source : String) :
    (ofSource fileName source).forest.text = source ∧
      ((ofSource fileName source).print = source ↔
        ∀ i, (ofSource fileName source).forest.IsTop i ↔ i = (ofSource fileName source).root) ∧
      (ofSource fileName source).print =
        (ofSource fileName source).forest.written
          ((List.range (ofSource fileName source).forest.size).filter fun i =>
            ∀ o, (ofSource fileName source).forest.IsTop o →
              (ofSource fileName source).forest.Within i o →
                o = (ofSource fileName source).root) := by
  obtain ⟨members, h⟩ := ofSource_made fileName source
  refine ⟨h.text, h.print_eq_source_iff, ?_⟩
  exact h.print_eq.trans (congrArg _ h.members_eq_filter)

/-- Without the sign of an annotation nothing is left behind, however malformed the source is. -/
theorem print_ofSource (fileName source : String)
    (h : ∀ t ∈ Token.ofSource source, t.kind ≠ .atSign) :
    (ofSource fileName source).print = source := by
  obtain ⟨members, hm⟩ := ofSource_made fileName source
  refine hm.print_eq_source_iff.mpr fun i => ⟨?_, fun he => he ▸ hm.root_top⟩
  intro hi
  by_contra hne
  obtain ⟨-, t, ht, hk⟩ := hm.orphan i hi hne
  exact h t ht hk

theorem print_ofSource_unclosed : (ofSource "a.kt" "fun f([ )").print = "fun f([ )" :=
  print_ofSource "a.kt" "fun f([ )" (by decide +kernel)

end ParsedUnit

end KotlinTree
