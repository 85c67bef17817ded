import KotlinTree.Proofs.Attribution.Note
import KotlinTree.Proofs.Attribution.Reading
import KotlinTree.Proofs.Attribution.Standing

/-!
What has been learned of members stands in what has been found out: it is the type of a declaration that
leaves it to be found out. Programs that go through different trees one after another leave it so, as
long as nothing was known of a tree before.
-/

namespace KotlinTree

/-- Two trees have no node in common. -/
def Forest.Disjoint (f : Forest) (a b : NodeId) : Prop := ∀ x, f.Inside a x → ¬ f.Inside b x

namespace Attribution

/-- What has been found out about a declaration gives a type to its member: the variable that a property
declares, or the body of a function. -/
inductive Findings.Gives (φ : Findings) (f : Forest) : NodeId → Ty → Prop where
  | property {id : NodeId} {d : PropertyDeclaration} {v : Variable} :
    f.data (some id) = .property d → (φ.about id).declared.getLast? = some v → φ.Gives f id v.type
  | function {id value : NodeId} {d : FunctionDeclaration} {t : Ty} :
    f.data (some id) = .function d → d.body = some value →
      (φ.about value).types.getLast? = some t → φ.Gives f id t

namespace Setting

/-- A type of a member is unknown, or a declaration that leaves it to be found out gives it. -/
def Told (s : Setting) (root : NodeId) (φ : Findings) (owner name : String) (t : Ty) : Prop :=
  t = .unknown ∨ ∃ id, s.Infers root owner name id ∧ φ.Gives s.forest id t

/-- What is used as a field or a method with an owner has the type of the member, or where that is
unknown one that a declaration of this owner and name gives. -/
def Faithful (s : Setting) (root : NodeId) (φ : Findings) (use : NameUse) : Prop :=
  use.target.symbol = .field ∨ use.target.symbol = .method →
    ∀ owner, use.target.owner = some owner → ∃ m, s.IsUseOf use m ∧
      (m.type ≠ .unknown → use.target.declared = m.type) ∧
        (m.type = .unknown → s.Told root φ m.owner m.name use.target.declared)

/-- What has been learned and what has been used is told by what has been found out. -/
structure Settled (s : Setting) (root : NodeId) (st : State) : Prop where
  inferred : ∀ owner name t, st.inferred[(owner, name)]? = some t →
    s.Told root st.toFindings owner name t
  uses : ∀ entry ∈ st.uses, s.Faithful root st.toFindings entry.2

/-- Nothing is known of the declarations in a tree that leave a type to be found out. -/
def Untouched (s : Setting) (root : NodeId) (φ : Findings) (top : NodeId) : Prop :=
  ∀ owner name x, s.Infers root owner name x → s.forest.Inside top x →
    ∀ y, s.forest.Inside x y → φ.about y = {}

/-- What is known of the declarations that leave a type to be found out is left as it is. -/
def Spares (s : Setting) (root : NodeId) (φ φ' : Findings) : Prop :=
  ∀ owner name x, s.Infers root owner name x → (∃ y, s.forest.Inside x y ∧ φ.about y ≠ {}) →
    ∀ z, s.forest.Inside x z → φ'.about z = φ.about z

end Setting

/-- A node in one of some trees. -/
def Setting.InsideAny (s : Setting) (tops : List NodeId) (x : NodeId) : Prop :=
  ∃ top ∈ tops, s.forest.Inside top x

/-- A program is about some trees, and if these have no node in common and nothing is known of them, it
leaves what has been learned told by what has been found out. -/
structure Settles (s : Setting) (root : NodeId) (tops : List NodeId) {α : Type}
    (p : Attributing α) : Prop where
  outside : ∀ x, ¬ s.InsideAny tops x → ∀ st : State,
    (Id.run (p.run st)).2.toFindings.about x = st.toFindings.about x
  settled : tops.Pairwise s.forest.Disjoint → ∀ st : State, s.Settled root st →
    (∀ top ∈ tops, s.Untouched root st.toFindings top) → s.Settled root (Id.run (p.run st)).2

/-- What a composed program is not about is left as it is, whether the program is stopped or not. -/
theorem Composed.about_eq {s : Setting} {P : NodeId → Prop} {α : Type} {p : Attributing α}
    (hp : Composed s P p) {x : NodeId} (hx : ¬ P x) (st : State) :
    (Id.run (p.run st)).2.toFindings.about x = st.toFindings.about x := by
  have hne {id : NodeId} (hid : P id) : id ≠ x := fun h => hx (h ▸ hid)
  refine hp.keeps (I := fun φ _ => φ.about x = st.toFindings.about x) (fun φ _ id t hid h => ?_)
    (fun _ _ _ _ _ _ _ h => h) (fun φ _ v hv h => ?_) (fun _ _ _ h => h) (fun _ _ h => h) st rfl
  · rw [← h]
    simp [Findings.about, hne hid]
  · rw [← h]
    simp [Findings.about, hne hv]

section
variable {s : Setting} {root id : NodeId} {owner name : String} {t : Ty} {φ φ' : Findings}
  {st st' : State} {tops : List NodeId} {α β : Type}

namespace Findings.Gives

theorem congr (h : φ.Gives s.forest id t) (hf : s.forest.Linked)
    (hsame : ∀ z, s.forest.Inside id z → φ'.about z = φ.about z) : φ'.Gives s.forest id t := by
  cases h with
  | property hd hlast => exact .property hd (hsame id (s.forest.inside_self id) ▸ hlast)
  | function hd hbody hlast =>
    refine .function hd hbody ?_
    rw [hsame _ (hf.inside_of_mem_parts hd (by simp [NodeData.parts, hbody]))]
    exact hlast

/-- Something is known of a declaration that gives a type. -/
theorem exists_about_ne (h : φ.Gives s.forest id t) (hf : s.forest.Linked) :
    ∃ y, s.forest.Inside id y ∧ φ.about y ≠ {} := by
  cases h with
  | property hd hlast =>
    refine ⟨id, s.forest.inside_self id, fun h => ?_⟩
    rw [h] at hlast
    cases hlast
  | function hd hbody hlast =>
    rename_i value _
    refine ⟨value, hf.inside_of_mem_parts hd (by simp [NodeData.parts, hbody]), fun h => ?_⟩
    rw [h] at hlast
    cases hlast

end Findings.Gives

namespace Setting

theorem Told.mono (h : s.Told root φ owner name t) (hf : s.forest.Linked)
    (hspares : s.Spares root φ φ') : s.Told root φ' owner name t := by
  rcases h with rfl | ⟨id, hid, hgives⟩
  · exact .inl rfl
  · exact .inr ⟨id, hid, hgives.congr hf (hspares _ _ id hid (hgives.exists_about_ne hf))⟩

theorem Faithful.mono {use : NameUse} (h : s.Faithful root φ use) (hf : s.forest.Linked)
    (hspares : s.Spares root φ φ') : s.Faithful root φ' use := by
  intro hsymbol owner howner
  obtain ⟨m, huse, hknown, hunknown⟩ := h hsymbol owner howner
  exact ⟨m, huse, hknown, fun hm => (hunknown hm).mono hf hspares⟩

/-- A member of unknown type that is used has the type that has been learned of it. -/
theorem Reflects.faithful {use : NameUse} (h : s.Reflects st.inferred use) (hst : s.Settled root st) :
    s.Faithful root st.toFindings use := by
  intro hsymbol owner howner
  obtain ⟨m, huse, hdeclared⟩ := h hsymbol owner howner
  refine ⟨m, huse, fun hknown => ?_, fun hunknown => ?_⟩
  · -- Nothing else is looked up where the member has a type.
    rw [hdeclared, knownType, if_neg]
    cases hm : m.type <;> simp_all [Ty.isUnknown]
  · -- It has been looked up among what has been learned.
    rw [hdeclared, knownType, hunknown, Ty.isUnknown, if_pos rfl]
    cases hlearned : st.inferred[(m.owner, m.name)]? with
    | none => exact .inl rfl
    | some t => exact hst.inferred _ _ _ hlearned

/-- What is about a tree of which nothing is known, and which is no part of what leaves a type to be found
out, spares the declarations elsewhere. -/
theorem spares_of_outside {top : NodeId} (htop : s.Outermost root top)
    (houtside : ∀ x, ¬ s.forest.Inside top x → φ'.about x = φ.about x)
    (huntouched : s.Untouched root φ top) : s.Spares root φ φ' := by
  intro owner name x hx ⟨y, hy, hne⟩ z hz
  have hapart : ¬ s.forest.Inside top x := fun hin => hne (huntouched owner name x hx hin y hy)
  refine houtside z fun hin => ?_
  -- Of two trees with a common node, one is in the other.
  rcases Forest.inside_total hz hin with hinner | houter
  · exact hapart hinner
  · rw [htop owner name x hx houter] at hapart
    exact hapart (s.forest.inside_self top)

theorem Settled.of_reads (h : s.Settled root st) (hf : s.forest.Linked) (hr : s.Reads st st')
    (hspares : s.Spares root st.toFindings st'.toFindings) : s.Settled root st' where
  inferred owner name t ht := (h.inferred owner name t (hr.inferred ▸ ht)).mono hf hspares
  uses entry hentry := by
    rcases hr.uses entry hentry with hbefore | hnew
    · exact (h.uses entry hbefore).mono hf hspares
    · exact (hnew.faithful h).mono hf hspares

end Setting

/-- A program about one tree that learns nothing. -/
theorem Reading.settles {top : NodeId} {p : Attributing α} (hr : Reading s p) (hf : s.forest.Linked)
    (hp : Composed s (s.forest.Inside top) p) (htop : s.Outermost root top) :
    Settles s root [top] p where
  outside _ hx := hp.about_eq fun hin => hx ⟨top, List.mem_singleton_self top, hin⟩
  settled _ st hst huntouched := by
    have hspares := Setting.spares_of_outside htop (fun _ hx => hp.about_eq hx st)
      (huntouched top (List.mem_singleton_self top))
    exact hst.of_reads hf (hr st) hspares

namespace Settles

/-- A step that finds out nothing. -/
theorem of_same {p : Attributing α} (h : ∀ st, (Id.run (p.run st)).2.inferred = st.inferred ∧
    (Id.run (p.run st)).2.toFindings = st.toFindings) : Settles s root tops p where
  outside x _ st := congrArg (Findings.about · x) (h st).2
  settled _ st hst _ := by
    obtain ⟨hinferred, hfindings⟩ := h st
    constructor
    · rw [hinferred, hfindings]
      exact hst.inferred
    · rw [hfindings]
      exact hst.uses

protected theorem pure (a : α) : Settles s root tops (pure a) :=
  of_same fun _ => ⟨rfl, rfl⟩

/-- Trees without a common node are gone through one after another. -/
protected theorem bind {rs ts : List NodeId} {p : Attributing α} {f : α → Attributing β}
    (hp : Settles s root rs p) (hf : ∀ a, Settles s root ts (f a)) :
    Settles s root (rs ++ ts) (p >>= f) where
  outside x hx st := by
    have hrs : ¬ s.InsideAny rs x := fun ⟨top, htop, h⟩ =>
      hx ⟨top, List.mem_append_left ts htop, h⟩
    have hts : ¬ s.InsideAny ts x := fun ⟨top, htop, h⟩ =>
      hx ⟨top, List.mem_append_right rs htop, h⟩
    exact ((hf _).outside x hts _).trans (hp.outside x hrs st)
  settled hapart st hst huntouched := by
    obtain ⟨hrs, hts, hcross⟩ := List.pairwise_append.mp hapart
    have hmid := hp.settled hrs st hst fun top htop => huntouched top (List.mem_append_left ts htop)
    refine (hf _).settled hts _ hmid fun top htop owner name x hx hin y hy => ?_
    -- The first program is not about the trees of the second.
    have hother : ¬ s.InsideAny rs y := fun ⟨other, hother, hy'⟩ =>
      hcross other hother top htop y hy' (hin.trans hy)
    exact (hp.outside y hother st).trans
      (huntouched top (List.mem_append_right rs htop) owner name x hx hin y hy)

/-- Nothing is found out after what goes through trees. -/
theorem bind_first {p : Attributing α} {f : α → Attributing β} (hp : Settles s root tops p)
    (hf : ∀ a, Settles s root [] (f a)) : Settles s root tops (p >>= f) := by
  have h := hp.bind hf
  rwa [List.append_nil] at h

/-- Nothing is found out before it. -/
theorem bind_second {p : Attributing α} {f : α → Attributing β} (hp : Settles s root [] p)
    (hf : ∀ a, Settles s root tops (f a)) : Settles s root tops (p >>= f) := hp.bind hf

theorem discard {p : Attributing α} (hp : Settles s root tops p) :
    Settles s root tops (do let _ ← p) :=
  hp.bind_first fun _ => .pure _

protected theorem stopped : Settles s root tops s.stopped := by
  refine of_same fun st => ?_
  rw [stopped_state]
  split <;> exact ⟨rfl, rfl⟩

/-- A walk that is told to stop leaves out the trees that are left. -/
theorem through {step : α → NodeId → Attributing α} {ids : List NodeId}
    (hstep : ∀ a, ∀ id ∈ ids, Settles s root [id] (step a id)) (a : α) :
    Settles s root ids (s.through step a ids) := by
  induction ids generalizing a with
  | nil => exact .pure a
  | cons id ids ih =>
    rw [Setting.through]
    refine Settles.stopped.bind_second fun isStopped => ?_
    cases isStopped
    · have hrest := ih fun a id hid => hstep a id (List.mem_cons_of_mem _ hid)
      exact (hstep a id List.mem_cons_self).bind hrest
    · exact .pure a

theorem mapM {f : NodeId → Attributing β} {ids : List NodeId}
    (hf : ∀ x ∈ ids, Settles s root [x] (f x)) : Settles s root ids (ids.mapM f) := by
  induction ids with
  | nil =>
    rw [List.mapM_nil]
    exact .pure _
  | cons id ids ih =>
    rw [List.mapM_cons]
    have hrest := ih fun x hx => hf x (List.mem_cons_of_mem _ hx)
    exact (hf id List.mem_cons_self).bind fun _ => hrest.bind_first fun _ => .pure _

/-- Parts of a node are different children of it. -/
theorem of_direct {d : NodeData} {p : Attributing α} (hp : Settles s root d.direct p)
    (hf : s.forest.Linked) (hd : s.forest.data (some id) = d) : Settles s root [id] p := by
  have hin (r : NodeId) (hr : r ∈ d.direct) : s.forest.Inside id r :=
    hf.inside_of_mem_children (hf.mem_children_of_mem_direct hd hr)
  have hdisjoint : d.direct.Pairwise s.forest.Disjoint :=
    (hf.direct_nodup hd).imp_of_mem fun ha hb hab _ => hf.not_inside_other hd ha hb hab
  constructor
  · refine fun x hx => hp.outside x fun ⟨r, hr, h⟩ => hx ?_
    exact ⟨id, List.mem_singleton_self id, (hin r hr).trans h⟩
  · refine fun _ st hst huntouched => hp.settled hdisjoint st hst fun r hr owner name x hx hrx => ?_
    exact huntouched id (List.mem_singleton_self id) owner name x hx ((hin r hr).trans hrx)

/-- What differs from a program only around it goes through the same trees. -/
theorem of_inner {p : Attributing α} {q : Attributing β} (hp : Settles s root tops p)
    (h : ∀ st, ∃ st' : State, (st'.inferred = st.inferred ∧ st'.toFindings = st.toFindings) ∧
      (Id.run (q.run st)).2.inferred = (Id.run (p.run st')).2.inferred ∧
      (Id.run (q.run st)).2.toFindings = (Id.run (p.run st')).2.toFindings) :
    Settles s root tops q where
  outside x hx st := by
    obtain ⟨st', ⟨-, hfindings⟩, -, hfindings'⟩ := h st
    rw [hfindings', hp.outside x hx st', hfindings]
  settled hapart st hst huntouched := by
    obtain ⟨st', ⟨hinferred, hfindings⟩, hinferred', hfindings'⟩ := h st
    -- What is entered has learned and found as much as before.
    have hstart : s.Settled root st' := by
      constructor
      · rw [hinferred, hfindings]
        exact hst.inferred
      · rw [hfindings]
        exact hst.uses
    obtain ⟨hinner, huses⟩ := hp.settled hapart st' hstart (hfindings ▸ huntouched)
    constructor
    · rw [hinferred', hfindings']
      exact hinner
    · rw [hfindings']
      exact huses

theorem inScope {p : Attributing α} (scope : LocalScope) (hp : Settles s root tops p) :
    Settles s root tops (inScope p scope) :=
  hp.of_inner fun st =>
    ⟨{ st with scopes := scope :: st.scopes }, ⟨rfl, rfl⟩, rfl, rfl⟩

theorem inFrame {p : Attributing α} (frame : Frame) (hp : Settles s root tops p) :
    Settles s root tops (inFrame (some frame) p) :=
  hp.of_inner fun st =>
    ⟨{ st with frames := frame :: st.frames }, ⟨rfl, rfl⟩, rfl, rfl⟩

theorem inClass {p : Attributing α} (name : Option String) (hp : Settles s root tops p) :
    Settles s root tops (inClass name p) :=
  hp.of_inner fun st => by
    refine ⟨{ st with enclosing := st.enclosing ++ name.toList }, ⟨rfl, rfl⟩, ?_⟩
    cases name <;> exact ⟨rfl, rfl⟩

theorem withTypeParameters {p : Attributing α} (names : List String) (hp : Settles s root tops p) :
    Settles s root tops (withTypeParameters names p) :=
  hp.of_inner fun st =>
    ⟨{ st with typeParameters := st.typeParameters ++ names }, ⟨rfl, rfl⟩, rfl, rfl⟩

end Settles

end

end Attribution

end KotlinTree
