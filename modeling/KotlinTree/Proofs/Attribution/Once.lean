import KotlinTree.Proofs.Attribution.Composed
import KotlinTree.Proofs.Syntax.Span
import KotlinTree.Proofs.Syntax.Tree
import KotlinTree.Proofs.WellFormed
import Mathlib.Data.List.Nodup

/-!
Programs of attribution that go through some trees once: no two names are used at one node, no two
failures are reported at one place, and all of this is in the trees. Trees that lie apart can be gone
through one after another.
-/

namespace KotlinTree

namespace Forest

/-- Where a node begins, and how long it is. -/
def place (f : Forest) (id : NodeId) : Nat × Nat := ((f.span (some id)).start, (f.span (some id)).size)

/-- Nodes that lie over different stretches are at different places, if they lie over something. -/
theorem place_ne {f : Forest} {x y : NodeId} (hx : f.Filled x) (hy : f.Filled y)
    (h : f.span (some x) ≠ f.span (some y)) : f.place x ≠ f.place y := by
  unfold Filled at hx hy
  unfold place
  generalize f.span (some x) = a at hx h ⊢
  generalize f.span (some y) = b at hy h ⊢
  obtain ⟨start, stop⟩ := a
  obtain ⟨start', stop'⟩ := b
  simp only [Span.Filled] at hx hy
  simp only [ne_eq, Span.mk.injEq] at h
  simp only [Span.size, ne_eq, Prod.mk.injEq]
  omega

end Forest

namespace Attribution

/-- What is to be found once: the nodes at which names are used, and the places of failures. -/
structure Marks where
  uses : List NodeId := []
  failures : List (Nat × Nat) := []

namespace Marks

instance : Append Marks := ⟨fun a b => ⟨a.uses ++ b.uses, a.failures ++ b.failures⟩⟩

theorem append_def (a b : Marks) : a ++ b = ⟨a.uses ++ b.uses, a.failures ++ b.failures⟩ := rfl

theorem append_nothing (a : Marks) : a ++ ({} : Marks) = a := by
  rw [append_def, List.append_nil, List.append_nil]

theorem append_assoc (a b c : Marks) : a ++ b ++ c = a ++ (b ++ c) := by
  simp only [append_def, List.append_assoc]

/-- Nothing is there twice, and all of it is in some trees. A failure is at a node that lies over
something. A name that is used at an access is not used by itself. -/
structure OnceIn (m : Marks) (f : Forest) (tops : List NodeId) : Prop where
  uses_nodup : m.uses.Nodup
  failures_nodup : m.failures.Nodup
  uses_inside : ∀ x ∈ m.uses, ∃ top ∈ tops, f.Inside top x
  failures_inside : ∀ at_ ∈ m.failures, ∃ x, f.place x = at_ ∧ f.Filled x ∧ ∃ top ∈ tops, f.Inside top x
  names_unused : ∀ x ∈ m.uses, ∀ left name : NodeId, f.link? x = some (left, name) →
    f.Inside x name → name ∉ m.uses

variable {f : Forest} {a b : Marks} {tops tops' rs ts : List NodeId}

/-- Where nothing is found, nothing is found twice. -/
theorem onceIn_nothing (f : Forest) (tops : List NodeId) : ({} : Marks).OnceIn f tops where
  uses_nodup := List.nodup_nil
  failures_nodup := List.nodup_nil
  uses_inside _ h := absurd h List.not_mem_nil
  failures_inside _ h := absurd h List.not_mem_nil
  names_unused _ h := absurd h List.not_mem_nil

/-- What is found once below some nodes is found once below nodes that hold them. -/
theorem OnceIn.mono (h : a.OnceIn f tops) (hin : ∀ top ∈ tops, ∃ top' ∈ tops', f.Inside top' top) :
    a.OnceIn f tops' where
  uses_nodup := h.uses_nodup
  failures_nodup := h.failures_nodup
  uses_inside x hx := by
    obtain ⟨top, htop, hx⟩ := h.uses_inside x hx
    obtain ⟨top', htop', htop⟩ := hin top htop
    exact ⟨top', htop', htop.trans hx⟩
  failures_inside at_ hat := by
    obtain ⟨x, hplace, hfilled, top, htop, hx⟩ := h.failures_inside at_ hat
    obtain ⟨top', htop', htop⟩ := hin top htop
    exact ⟨x, hplace, hfilled, top', htop', htop.trans hx⟩
  names_unused := h.names_unused

/-- What is in one group of trees is told from what is in another, if their trees lie apart. -/
theorem OnceIn.append (ha : a.OnceIn f rs) (hb : b.OnceIn f ts)
    (hapart : ∀ r ∈ rs, ∀ t ∈ ts, f.Apart r t) : (a ++ b).OnceIn f (rs ++ ts) where
  uses_nodup := by
    refine ha.uses_nodup.append hb.uses_nodup fun x hxa hxb => ?_
    obtain ⟨r, hr, hxr⟩ := ha.uses_inside x hxa
    obtain ⟨t, ht, hxt⟩ := hb.uses_inside x hxb
    exact (hapart r hr t ht).trees x hxr hxt
  failures_nodup := by
    refine ha.failures_nodup.append hb.failures_nodup fun at_ hata hatb => ?_
    obtain ⟨x, hx, hfx, r, hr, hxr⟩ := ha.failures_inside at_ hata
    obtain ⟨y, hy, hfy, t, ht, hyt⟩ := hb.failures_inside at_ hatb
    -- Nodes in trees apart begin at different places, as soon as they lie over something.
    have hstart := (hapart r hr t ht).start_ne hxr hyt hfx hfy
    exact hstart (congrArg Prod.fst (hx.trans hy.symm))
  uses_inside x hx := by
    rcases List.mem_append.mp hx with hx | hx
    · obtain ⟨r, hr, hxr⟩ := ha.uses_inside x hx
      exact ⟨r, List.mem_append_left ts hr, hxr⟩
    · obtain ⟨t, ht, hxt⟩ := hb.uses_inside x hx
      exact ⟨t, List.mem_append_right rs ht, hxt⟩
  failures_inside at_ hat := by
    rcases List.mem_append.mp hat with hat | hat
    · obtain ⟨x, hplace, hfilled, r, hr, hx⟩ := ha.failures_inside at_ hat
      exact ⟨x, hplace, hfilled, r, List.mem_append_left ts hr, hx⟩
    · obtain ⟨x, hplace, hfilled, t, ht, hx⟩ := hb.failures_inside at_ hat
      exact ⟨x, hplace, hfilled, t, List.mem_append_right rs ht, hx⟩
  names_unused x hx left name hlink hin hused := by
    -- The name is in the tree that its access is in.
    rcases List.mem_append.mp hx with hx | hx <;> rcases List.mem_append.mp hused with hused | hused
    · exact ha.names_unused x hx left name hlink hin hused
    · obtain ⟨r, hr, hxr⟩ := ha.uses_inside x hx
      obtain ⟨t, ht, hnamet⟩ := hb.uses_inside name hused
      exact (hapart r hr t ht).trees name (hxr.trans hin) hnamet
    · obtain ⟨t, ht, hxt⟩ := hb.uses_inside x hx
      obtain ⟨r, hr, hnamer⟩ := ha.uses_inside name hused
      exact (hapart r hr t ht).trees name hnamer (hxt.trans hin)
    · exact hb.names_unused x hx left name hlink hin hused

/-- The name of a node is used at it, and is missing at a part of it, after what goes through trees
beneath the node and beside that part. -/
theorem OnceIn.add (hf : f.Linked) (ha : a.OnceIn f rs) {id : NodeId} (hrs : ∀ r ∈ rs, f.Beneath r id)
    {missing : Option NodeId}
    (hmissing : ∀ t ∈ missing, f.Filled t ∧ f.Inside id t ∧ ∀ r ∈ rs, f.Apart r t)
    (hname : ∀ left name : NodeId, f.link? id = some (left, name) → ∀ r ∈ rs, f.Apart r name) :
    (a ++ { uses := [id], failures := missing.toList.map f.place }).OnceIn f [id] := by
  have hin (r : NodeId) (hr : r ∈ rs) : f.Inside id r := (hrs r hr).to_reflTransGen
  constructor
  · -- The node is above all that has been used so far.
    refine ha.uses_nodup.append (List.nodup_singleton id) fun x hx hid => ?_
    obtain ⟨r, hr, hxr⟩ := ha.uses_inside x hx
    rw [List.mem_singleton.mp hid] at hxr
    exact hf.not_inside_of_lt (hf.lt_of_beneath (hrs r hr)) hxr
  · refine ha.failures_nodup.append ?_ fun at_ hat hmiss => ?_
    · cases missing with
      | none => exact List.nodup_nil
      | some t => exact List.nodup_singleton _
    · obtain ⟨x, hx, hfx, r, hr, hxr⟩ := ha.failures_inside at_ hat
      obtain ⟨t, ht, hplace⟩ := List.mem_map.mp hmiss
      obtain ⟨hft, -, hapart⟩ := hmissing t (Option.mem_toList.mp ht)
      have hstart := (hapart r hr).start_ne hxr (f.inside_self t) hfx hft
      exact hstart (congrArg Prod.fst (hx.trans hplace.symm))
  · intro x hx
    refine ⟨id, List.mem_singleton_self id, ?_⟩
    rcases List.mem_append.mp hx with hx | hx
    · obtain ⟨r, hr, hxr⟩ := ha.uses_inside x hx
      exact (hin r hr).trans hxr
    · rw [List.mem_singleton.mp hx]
      exact f.inside_self id
  · intro at_ hat
    rcases List.mem_append.mp hat with hat | hat
    · obtain ⟨x, hplace, hfilled, r, hr, hx⟩ := ha.failures_inside at_ hat
      exact ⟨x, hplace, hfilled, id, List.mem_singleton_self id, (hin r hr).trans hx⟩
    · obtain ⟨t, ht, hplace⟩ := List.mem_map.mp hat
      obtain ⟨hfilled, ht, -⟩ := hmissing t (Option.mem_toList.mp ht)
      exact ⟨t, hplace, hfilled, id, List.mem_singleton_self id, ht⟩
  · intro x hx left name hlink hin' hused
    rcases List.mem_append.mp hx with hx | hx <;> rcases List.mem_append.mp hused with hused | hused
    · exact ha.names_unused x hx left name hlink hin' hused
    · obtain ⟨r, hr, hxr⟩ := ha.uses_inside x hx
      rw [List.mem_singleton.mp hused] at hin'
      exact hf.not_inside_of_lt (hf.lt_of_beneath (hrs r hr)) (hxr.trans hin')
    · rw [List.mem_singleton.mp hx] at hlink
      obtain ⟨r, hr, hnamer⟩ := ha.uses_inside name hused
      exact (hname left name hlink r hr).trees name hnamer (f.inside_self name)
    · rw [List.mem_singleton.mp hx] at hlink
      rw [List.mem_singleton.mp hused] at hlink
      exact absurd (hf.lt_of_beneath (hf.beneath_of_link? hlink)) (lt_irrefl id)

end Marks

/-- The marks of what has been found out. -/
def Findings.marks (φ : Findings) : Marks :=
  { uses := φ.uses.toList.map (·.2.node)
    failures := φ.diagnostics.toList.map fun d => (d.start, d.length) }

/-- A failure is reported where its node is. -/
theorem Failure.place_diagnostic (failure : Failure) (file : String) (span : Span) :
    ((failure.diagnostic file span).start, (failure.diagnostic file span).length) =
      (span.start, span.size) := by
  unfold diagnostic Diagnostic.ofFinding Diagnostic.ofCode
  split <;> rfl

/-- A program goes through trees once, if these lie apart. -/
def Once (s : Setting) (tops : List NodeId) {α : Type} (p : Attributing α) : Prop :=
  tops.Pairwise s.forest.Apart → ∀ st : State, ∃ m : Marks,
    (Id.run (p.run st)).2.marks = st.marks ++ m ∧ m.OnceIn s.forest tops

namespace Once

section
variable {s : Setting} {tops rs ts : List NodeId} {id e : NodeId} {α β : Type}

/-- A step that leaves the marks as they are finds nothing. -/
theorem of_unmarked {p : Attributing α} (h : ∀ st, (Id.run (p.run st)).2.marks = st.marks) :
    Once s tops p := fun _ st =>
  ⟨{}, (h st).trans (Marks.append_nothing _).symm, Marks.onceIn_nothing _ _⟩

protected theorem pure (a : α) : Once s tops (pure a) := of_unmarked fun _ => rfl

protected theorem get : Once s tops get := of_unmarked fun _ => rfl

protected theorem recordType (id : NodeId) (t : Ty) : Once s tops (recordType id t) :=
  of_unmarked fun _ => rfl

protected theorem recordVariable (v : Variable) : Once s tops (recordVariable v) :=
  of_unmarked fun _ => rfl

protected theorem learn (owner name : String) (t : Ty) : Once s tops (learn owner name t) :=
  of_unmarked fun _ => rfl

protected theorem declare (f : LocalScope → LocalScope) : Once s tops (declare f) :=
  of_unmarked fun st => by
    rw [declare_state]
    split <;> rfl

protected theorem stopped : Once s tops s.stopped :=
  of_unmarked fun st => by
    rw [stopped_state]
    split <;> rfl

protected theorem pushScope (scope : LocalScope) : Once s tops (pushScope scope) :=
  of_unmarked fun _ => rfl

protected theorem popScope : Once s tops popScope := of_unmarked fun _ => rfl

/-- A failure is marked where it is reported. -/
theorem marks_report (id : NodeId) (failure : Failure) (st : State) :
    (Id.run ((s.report (some id) failure).run st)).2.marks =
      st.marks ++ { failures := [s.forest.place id] } := by
  have hplace := failure.place_diagnostic s.unit.fileName (s.forest.span (some id))
  simp [Setting.report, Findings.marks, Marks.append_def, Forest.place, hplace]

/-- A failure is reported at its node, which is in the file. -/
protected theorem report (hid : s.forest.Filled id) (failure : Failure) :
    Once s [id] (s.report (some id) failure) := by
  intro _ st
  refine ⟨_, marks_report id failure st, ?_⟩
  exact { Marks.onceIn_nothing s.forest [id] with
    failures_nodup := List.nodup_singleton _
    failures_inside := fun at_ hat => by
      rw [List.mem_singleton] at hat
      exact ⟨id, hat.symm, hid, id, List.mem_singleton_self id, s.forest.inside_self id⟩ }

/-- Trees that lie apart are gone through one after another. -/
protected theorem bind {p : Attributing α} {f : α → Attributing β} (hp : Once s rs p)
    (hf : ∀ a, Once s ts (f a)) : Once s (rs ++ ts) (p >>= f) := by
  intro hapart st
  obtain ⟨hrs, hts, hcross⟩ := List.pairwise_append.mp hapart
  obtain ⟨a, hsa, ha⟩ := hp hrs st
  obtain ⟨b, hsb, hb⟩ := hf (Id.run (p.run st)).1 hts (Id.run (p.run st)).2
  refine ⟨a ++ b, ?_, ha.append hb hcross⟩
  rw [← Marks.append_assoc, ← hsa]
  exact hsb

/-- Nothing is marked after what goes through trees. -/
theorem bind_first {p : Attributing α} {f : α → Attributing β} (hp : Once s tops p)
    (hf : ∀ a, Once s [] (f a)) : Once s tops (p >>= f) := by
  have h := hp.bind hf
  rwa [List.append_nil] at h

/-- Nothing is marked before it. -/
theorem bind_second {p : Attributing α} {f : α → Attributing β} (hp : Once s [] p)
    (hf : ∀ a, Once s tops (f a)) : Once s tops (p >>= f) := hp.bind hf

/-- What a program yields need not be of use. -/
theorem discard {p : Attributing α} (hp : Once s tops p) : Once s tops (do let _ ← p) :=
  hp.bind_first fun _ => .pure _

/-- What is yielded does not matter to what has been found. -/
theorem map {p : Attributing α} (f : α → β) (hp : Once s tops p) : Once s tops (f <$> p) := by
  rw [map_eq_pure_bind]
  exact hp.bind_first fun a => .pure (f a)

/-- Trees that are gone through one by one, with some of them passed over. -/
theorem filtered {q : NodeId → Bool} {f : NodeId → Attributing Unit} {ids : List NodeId}
    (hf : ∀ x ∈ ids, Once s ([x].filter q) (f x)) : Once s (ids.filter q) (ids.forM f) := by
  induction ids with
  | nil => exact .pure _
  | cons id ids ih =>
    have hrest := ih fun x hx => hf x (List.mem_cons_of_mem _ hx)
    have hall := (hf id List.mem_cons_self).bind fun _ => hrest
    rwa [← List.filter_append] at hall

/-- A program for each of some nodes finds what it does below them. -/
theorem each {f : NodeId → Attributing Unit} {ids : List NodeId} (hf : ∀ x ∈ ids, Once s [x] (f x)) :
    Once s ids (ids.forM f) := by
  have hall : Once s (ids.filter fun _ => true) (ids.forM f) := .filtered hf
  rwa [List.filter_true] at hall

/-- The same where the results are collected. -/
theorem mapM {f : NodeId → Attributing β} {ids : List NodeId} (hf : ∀ x ∈ ids, Once s [x] (f x)) :
    Once s ids (ids.mapM f) := by
  induction ids with
  | nil =>
    rw [List.mapM_nil]
    exact .pure _
  | cons id ids ih =>
    rw [List.mapM_cons]
    have hrest := ih fun x hx => hf x (List.mem_cons_of_mem _ hx)
    exact (hf id List.mem_cons_self).bind fun _ => hrest.bind_first fun _ => .pure _

/-- A walk that is told to stop leaves out the trees that are left. -/
theorem through {step : α → NodeId → Attributing α} {ids : List NodeId}
    (hstep : ∀ a, ∀ id ∈ ids, Once s [id] (step a id)) (a : α) :
    Once s ids (s.through step a ids) := by
  induction ids generalizing a with
  | nil => exact .pure a
  | cons id ids ih =>
    rw [Setting.through]
    refine Once.stopped.bind_second fun isStopped => ?_
    cases isStopped
    · have hrest := ih fun a id hid => hstep a id (List.mem_cons_of_mem _ hid)
      exact (hstep a id List.mem_cons_self).bind hrest
    · exact .pure a

/-- What goes through some trees goes through more. -/
theorem mono {p : Attributing α} (hp : Once s rs p) (h : rs.Subperm ts) : Once s ts p := by
  intro hapart st
  -- Lying apart has no direction, so that the order of the trees does not count.
  obtain ⟨found, hperm, hsub⟩ := h
  obtain ⟨m, hst, hm⟩ := hp ((hperm.pairwise_iff fun h => h.symm).mp (hapart.sublist hsub)) st
  refine ⟨m, hst, hm.mono fun top htop => ⟨top, ?_, s.forest.inside_self top⟩⟩
  exact hsub.subset (hperm.mem_iff.mpr htop)

/-- Trees that lie apart in one tree are gone through with it. -/
theorem inside {p : Attributing α} (hp : Once s rs p) (hapart : rs.Pairwise s.forest.Apart)
    (hin : ∀ r ∈ rs, s.forest.Inside id r) : Once s [id] p := by
  intro _ st
  obtain ⟨m, hst, hm⟩ := hp hapart st
  exact ⟨m, hst, hm.mono fun r hr => ⟨id, List.mem_singleton_self id, hin r hr⟩⟩

/-- What is found below a part of a node is found below the node. -/
theorem widen {p : Attributing α} (hp : Once s [e] p) (he : s.forest.Inside id e) :
    Once s [id] p :=
  hp.inside (List.pairwise_singleton _ e) fun _ hr => List.mem_singleton.mp hr ▸ he

/-- What may be missing is found below a node that holds it if it is there. -/
theorem of_option {o : Option NodeId} {p : Attributing α} (hp : Once s o.toList p)
    (ho : ∀ x ∈ o, s.forest.Inside id x) : Once s [id] p := by
  cases o with
  | none => exact hp.mono List.nil_subperm
  | some x => exact hp.widen (ho x rfl)

/-- What is found below several children is found below their parent. -/
theorem of_children {source : String} {p : Attributing α} (hp : Once s rs p)
    (hf : s.forest.Sound source) (hnodup : rs.Nodup)
    (hin : ∀ r ∈ rs, r ∈ s.forest.children (some id)) : Once s [id] p := by
  refine hp.inside ?_ fun r hr => hf.linked.inside_of_mem_children (hin r hr)
  exact hnodup.imp_of_mem fun ha hb hab =>
    hf.placed.apart_of_children hf.linked (hin _ ha) (hin _ hb) hab

/-- Parts that are children are different children. -/
theorem of_direct {source : String} {d : NodeData} {p : Attributing α} (hp : Once s rs p)
    (hf : s.forest.Sound source) (hd : s.forest.data (some id) = d) (hrs : rs.Subperm d.direct) :
    Once s [id] p := by
  have hdirect : Once s d.direct p := hp.mono hrs
  exact hdirect.of_children hf (hf.linked.direct_nodup hd) fun r hr =>
    hf.linked.mem_children_of_mem_direct hd hr

/-- What differs from a program only around it goes through the same trees. -/
theorem of_inner {p : Attributing α} {q : Attributing β} (hp : Once s tops p)
    (h : ∀ st, ∃ st' : State, st'.marks = st.marks ∧
      (Id.run (q.run st)).2.marks = (Id.run (p.run st')).2.marks) : Once s tops q := by
  intro hapart st
  obtain ⟨st', hstart, hend⟩ := h st
  obtain ⟨m, hst, hm⟩ := hp hapart st'
  exact ⟨m, by rw [hend, hst, hstart], hm⟩

theorem inScope {p : Attributing α} (scope : LocalScope) (hp : Once s tops p) :
    Once s tops (inScope p scope) :=
  hp.of_inner fun st => ⟨{ st with scopes := scope :: st.scopes }, rfl, rfl⟩

theorem inFrame {p : Attributing α} (frame : Option Frame) (hp : Once s tops p) :
    Once s tops (inFrame frame p) := by
  cases frame with
  | none => exact hp
  | some frame => exact hp.of_inner fun st => ⟨{ st with frames := frame :: st.frames }, rfl, rfl⟩

theorem inClass {p : Attributing α} (name : Option String) (hp : Once s tops p) :
    Once s tops (inClass name p) :=
  hp.of_inner fun st =>
    ⟨{ st with enclosing := st.enclosing ++ name.toList }, rfl, by cases name <;> rfl⟩

theorem withTypeParameters {p : Attributing α} (names : List String) (hp : Once s tops p) :
    Once s tops (withTypeParameters names p) :=
  hp.of_inner fun st => ⟨{ st with typeParameters := st.typeParameters ++ names }, rfl, rfl⟩

/-- Nothing is marked too deep. -/
theorem deeper {p : Attributing α} (otherwise : α) (hp : Once s tops p) :
    Once s tops (deeper otherwise p) := by
  intro hapart st
  rw [deeper_state]
  split
  · exact ⟨{}, (Marks.append_nothing _).symm, Marks.onceIn_nothing _ _⟩
  · exact hp hapart { st with depth := st.depth + 1 }

end

end Once

end Attribution

end KotlinTree
