import KotlinTree.Attribution.State
import KotlinTree.Proofs.Binding.Property

/-!
The declarations of a file that stand at its top level or in the body of a bound class, and those of them
that leave the type of their member to be found out. Nothing stands inside a declaration but inside a
class.
-/

namespace KotlinTree

/-- A function or a secondary constructor. -/
def Forest.IsFunction (f : Forest) (id : NodeId) : Prop :=
  f.kind? (some id) = some (.node .functionDeclaration) ∨
    f.kind? (some id) = some (.node .secondaryConstructor)

namespace Attribution

/-- The classes that a setting has names for are those that are bound in a file. -/
structure Setting.Suits (s : Setting) (root : NodeId) : Prop where
  linked : s.forest.Linked
  isBound : ∀ {id : NodeId} {owner : String}, s.unit.classNames.lookup id = some owner →
    ∃ c, s.forest.IsBound s.unit.scope.package root id owner c
  lookup_eq : ∀ {id : NodeId} {owner : String} {c : ClassDeclaration},
    s.forest.IsBound s.unit.scope.package root id owner c →
      s.unit.classNames.lookup id = some owner

/-- What stands at the top level of a file belongs to the class that the file is compiled into, and what
stands in the body of a bound class belongs to this class. -/
inductive Setting.StandsIn (s : Setting) (root : NodeId) : String → NodeId → Prop where
  | topLevel {id : NodeId} :
    id ∈ s.forest.topLevelDeclarations root → s.StandsIn root s.unit.facade id
  | member {around id : NodeId} {owner : String} {c : ClassDeclaration} :
    s.forest.IsBound s.unit.scope.package root around owner c →
      id ∈ s.forest.classMembers c.body → s.StandsIn root owner id

/-- A declaration leaves the type of the member that it declares to be found out: a property without a
written type, or a function that is an expression and says nothing of what it returns. -/
inductive Setting.Infers (s : Setting) (root : NodeId) (owner : String) : String → NodeId → Prop where
  | property {id name : NodeId} {d : PropertyDeclaration} :
    s.StandsIn root owner id → s.forest.IsProperty id d name → d.typeRef = none →
      s.Infers root owner (s.forest.nameText (some name)) id
  | function {id : NodeId} {d : FunctionDeclaration} :
    s.StandsIn root owner id → s.forest.IsFunction id → s.forest.data (some id) = .function d →
      d.returnType = none → d.isExpressionBody → s.Infers root owner (s.forest.nameText d.name) id

/-- No declaration inside a node leaves a type to be found out. -/
def Setting.Bare (s : Setting) (root id : NodeId) : Prop :=
  ∀ owner name x, s.Infers root owner name x → ¬ s.forest.Inside id x

/-- A node is part of nothing that leaves a type to be found out, unless it does so itself. -/
def Setting.Outermost (s : Setting) (root id : NodeId) : Prop :=
  ∀ owner name x, s.Infers root owner name x → s.forest.Inside x id → x = id

namespace Setting

variable {s : Setting} {root a b id x : NodeId} {owner name : String} {c : ClassDeclaration}

theorem Infers.standsIn (h : s.Infers root owner name x) : s.StandsIn root owner x := by
  cases h <;> assumption

/-- It is neither a class nor the body of one. -/
theorem Infers.data_ne (h : s.Infers root owner name x) :
    (∀ c, s.forest.data (some x) ≠ .classDeclaration c) ∧
      ∀ members, s.forest.data (some x) ≠ .classBody members := by
  cases h with
  | property _ hd _ => simp [hd.data]
  | function _ _ hd _ _ => simp [hd]

theorem Bare.inside (h : s.Bare root id) (hx : s.forest.Inside id x) : s.Bare root x :=
  fun owner name y hy hin => h owner name y hy (hx.trans hin)

theorem Bare.part (h : s.Bare root id) (hf : s.forest.Linked) {d : NodeData}
    (hd : s.forest.data (some id) = d) (hx : x ∈ d.parts) : s.Bare root x :=
  h.inside (hf.inside_of_mem_parts hd hx)

/-- What a declaration that stands somewhere is inside of: itself, the file, a class with the member that
the declaration is in, or the body of a class. -/
inductive Encloses (s : Setting) (root : NodeId) (x : NodeId) : NodeId → Prop where
  | self : s.Encloses root x x
  | file {a : NodeId} : s.forest.Inside a root → s.Encloses root x a
  | classOf {a m : NodeId} {owner : String} {c : ClassDeclaration} :
    s.forest.IsBound s.unit.scope.package root a owner c → m ∈ s.forest.classMembers c.body →
      s.forest.Inside m x → s.Encloses root x a
  | body {a : NodeId} {members : Array NodeId} :
    s.forest.data (some a) = .classBody members → s.Encloses root x a

theorem encloses_topLevel (hf : s.forest.Linked) (hx : x ∈ s.forest.topLevelDeclarations root)
    (h : s.forest.Inside a x) : s.Encloses root x a := by
  rcases Relation.ReflTransGen.cases_head h with rfl | ⟨parent, hparent, hin⟩
  · exact .self
  · cases Option.some.inj (hparent.symm.trans (hf.isChild_of_topLevel hx))
    exact .file hin

/-- From a member to what is above its class. -/
theorem encloses_member (hf : s.forest.Linked)
    (hb : s.forest.IsBound s.unit.scope.package root b owner c)
    (hx : x ∈ s.forest.classMembers c.body)
    (hclass : ∀ {a}, s.forest.Inside a b → s.Encloses root b a) (h : s.forest.Inside a x) :
    s.Encloses root x a := by
  obtain ⟨body, members, hbody, hd, hmem⟩ := Forest.exists_body_of_mem_classMembers hx
  -- The way up goes from the member to the body of its class, and from there to the class.
  rcases Relation.ReflTransGen.cases_head h with rfl | ⟨parent, hparent, hin⟩
  · exact .self
  cases Option.some.inj (hparent.symm.trans (hf.isChild_of_member hd hmem))
  rcases Relation.ReflTransGen.cases_head hin with rfl | ⟨around, haround, hin⟩
  · exact .body hd
  cases Option.some.inj (haround.symm.trans (hf.isChild_of_body hb.data_eq hbody))
  cases hclass hin with
  | self => exact .classOf hb hx (s.forest.inside_self x)
  | file hroot => exact .file hroot
  | classOf ho hm hinner =>
    have hmember := hf.inside_of_mem_classMembers hb.data_eq hx
    exact .classOf ho hm (hinner.trans hmember)
  | body hd => exact .body hd

theorem encloses_of_isBound (hf : s.forest.Linked)
    (h : s.forest.IsBound s.unit.scope.package root x owner c) (hin : s.forest.Inside a x) :
    s.Encloses root x a := by
  -- By the classes around: each is a declaration of the file or a member of the next one.
  induction h generalizing a with
  | topLevel hid _ _ => exact encloses_topLevel hf hid hin
  | nested hb hm _ _ ih => exact encloses_member hf hb hm ih hin

theorem StandsIn.encloses (hf : s.forest.Linked) (h : s.StandsIn root owner x)
    (hin : s.forest.Inside a x) : s.Encloses root x a := by
  cases h with
  | topLevel hid => exact encloses_topLevel hf hid hin
  | member hb hm => exact encloses_member hf hb hm (encloses_of_isBound hf hb) hin

theorem lt_of_isBound (hf : s.forest.Linked)
    (h : s.forest.IsBound s.unit.scope.package root x owner c) : x < root := by
  induction h with
  | topLevel hid _ _ => exact hf.lt_of_isChild (hf.isChild_of_topLevel hid)
  | nested hb hm _ _ ih => exact (hf.lt_of_mem_classMembers hb.data_eq hm).trans ih

theorem StandsIn.lt (hf : s.forest.Linked) (h : s.StandsIn root owner x) : x < root := by
  cases h with
  | topLevel hid => exact hf.lt_of_isChild (hf.isChild_of_topLevel hid)
  | member hb hm => exact (hf.lt_of_mem_classMembers hb.data_eq hm).trans (lt_of_isBound hf hb)

/-- Nothing stands inside it but itself. -/
theorem Infers.eq_of_inside (h : s.Infers root owner name x) (hf : s.forest.Linked) {other : String}
    (hs : s.StandsIn root other a) (hin : s.forest.Inside x a) : a = x := by
  obtain ⟨hclass, hbody⟩ := h.data_ne
  cases hs.encloses hf hin with
  | self => rfl
  | file hroot => exact absurd (hf.le_of_inside hroot) (Nat.not_le_of_lt (h.standsIn.lt hf))
  | classOf hb _ _ => exact absurd hb.data_eq (hclass _)
  | body hd => exact absurd hd (hbody _)

theorem StandsIn.outermost (h : s.StandsIn root owner x) (hf : s.forest.Linked) :
    s.Outermost root x :=
  fun _ _ _ hy hin => (hy.eq_of_inside hf h hin).symm

end Setting

end Attribution

end KotlinTree
