import KotlinTree.Attribution.Unit
import KotlinTree.Proofs.Attribution.Initializer
import KotlinTree.Proofs.Binding.Property

/-!
From a part of a class to the whole file: what attribution finds out about a node in a member or in
the constructor of a class is what it finds out about it in the file.
-/

namespace KotlinTree.Attribution

variable {s : Setting} {rec : Tasks} {used : List (Place × NameUse)} {c : Surroundings} {x : NodeId}
  {l : About}

namespace Setting

section
variable {id : NodeId} {d : ClassDeclaration}

/-- What surrounds the parts of a class with a name. -/
def inside (s : Setting) (c : Surroundings) (d : ClassDeclaration) (name : String) : Surroundings :=
  { c with toTypeContext :=
      c.toTypeContext.inside name (s.forest.typeParameterNames d.typeParameters) }

theorem supertypes_other (h : rec.Composed s) (hf : s.forest.Linked)
    (hx : ∀ y ∈ d.supertypes, ¬ s.forest.Inside y x) :
    Notes used c x {} (d.supertypes.toList.mapM (s.supertype rec)) := by
  have hall : Composed s (fun z => ∃ y ∈ d.supertypes, s.forest.Inside y z)
      (d.supertypes.toList.mapM (s.supertype rec)) := .mapM fun y hy =>
    (supertype_composed h hf y).mono fun _ hz => ⟨y, Array.mem_toList_iff.mp hy, hz⟩
  exact hall.notes (fun ⟨y, hy, hz⟩ => hx y hy hz) c

theorem members_other (h : rec.Composed s) (hf : s.forest.Linked)
    (hx : ∀ b ∈ d.body, ¬ s.forest.Inside b x) (owner : Owner) (scope : LocalScope) :
    Notes used c x {} (s.members rec owner scope (s.forest.classMembers d.body)) := by
  cases hb : d.body with
  | none => exact .pure _
  | some b =>
    have hin : ∀ y ∈ s.forest.classMembers (some b), s.forest.Inside b y := by
      intro y hy
      obtain ⟨b', members, hb', hd, hy⟩ := Forest.exists_body_of_mem_classMembers hy
      cases hb'
      exact hf.inside_of_mem_parts hd (by simpa [NodeData.parts] using hy)
    exact (members_composed h owner scope hin).notes (hx b hb) c

/-- Of the members of a class, only the one that the node is in has something to say. -/
theorem members_notes (h : rec.Composed s) (hf : s.forest.Linked) {body member : NodeId}
    {members : Array NodeId} (hbody : s.forest.data (some body) = .classBody members)
    (hmember : member ∈ members) (hx : s.forest.Inside member x) (owner : Owner)
    (scope : LocalScope) (hnotes : Notes used c x l (rec.declaration owner member)) :
    Notes used c x l (s.members rec owner scope members) := by
  refine Notes.through_one (Array.mem_toList_iff.mpr hmember) (hf.direct_nodup hbody) ?_ ?_ ()
  · intro y hy hne _
    have hother := hf.not_inside_other hbody (Array.mem_toList_iff.mpr hmember) hy hne.symm hx
    have hnone : Notes used c x {} (rec.declaration owner y) :=
      (h (.declaration owner y)).notes hother c
    split
    · exact .inScope _ hnone
    · exact .inScope _ hnone
    · exact hnone
  · intro _
    split
    · exact .inScope _ hnotes
    · exact .inScope _ hnotes
    · exact hnotes

/-- Among the parameters of a constructor, too. -/
theorem parameters_notes (h : rec.Composed s) (hf : s.forest.Linked) {primary id : NodeId}
    {parameters : Array NodeId}
    (hps : s.forest.data (some primary) = .primaryConstructor parameters) (hid : id ∈ parameters)
    (hx : s.forest.Inside id x) (property : Option Owner)
    (hnotes : Notes used c x l (s.parameter rec property id)) :
    Notes used c x l (s.parameters rec property parameters) := by
  refine .forM_one (Array.mem_toList_iff.mpr hid) (hf.direct_nodup hps) (fun y hy hne => ?_) ?_
  · have hother := hf.not_inside_other hps (Array.mem_toList_iff.mpr hid) hy hne.symm hx
    exact (parameter_composed h hf property y).discard.notes hother c
  · exact hnotes.bind_first fun _ => .pure _

theorem constructor_other (h : rec.Composed s) (hf : s.forest.Linked)
    (hx : ∀ y ∈ d.primaryConstructor, ¬ s.forest.Inside y x) {parameters : Array NodeId}
    (hps : s.forest.data d.primaryConstructor = .primaryConstructor parameters)
    (property : Option Owner) : Notes used c x {} (s.parameters rec property parameters) := by
  cases hp : d.primaryConstructor with
  | none => simp [hp, Forest.data, Forest.node?] at hps
  | some primary =>
    rw [hp] at hps
    have hin : ∀ y ∈ parameters, s.forest.Inside primary y := fun y hy =>
      hf.inside_of_mem_parts hps (by simpa [NodeData.parts] using hy)
    exact (parameters_composed h hf property hin).notes (hx primary hp) c

/-- What is found out in the primary constructor of a class. -/
theorem classUse_notes_constructor (h : rec.Composed s) (hf : s.forest.Linked)
    (hd : s.forest.data (some id) = .classDeclaration d) {name : String}
    (hname : s.unit.classNames.lookup id = some name) {primary : NodeId}
    (hp : d.primaryConstructor = some primary) {parameters : Array NodeId}
    (hps : s.forest.data (some primary) = .primaryConstructor parameters)
    (hx : s.forest.Inside primary x)
    (hnotes : Notes used (s.inside c d name) x l (s.parameters rec (some (.named name)) parameters)) :
    Notes used c x l (s.classUse rec id) := by
  have hparts : (NodeData.classDeclaration d).direct =
      [] ++ primary :: (d.supertypes.toList ++ d.body.toList) := by simp [NodeData.direct, hp]
  -- What stands beside the constructor says nothing of what is inside it.
  have hsupertypes : ∀ y ∈ d.supertypes, ¬ s.forest.Inside y x := fun y hy =>
    hf.not_inside_beside hd hparts hx (by simp [hy])
  have hbody : ∀ y ∈ d.body, ¬ s.forest.Inside y x := fun y hy =>
    hf.not_inside_beside hd hparts hx (by simp_all)
  unfold classUse
  rw [hd]
  dsimp only
  rw [hname, hp, hps]
  refine .withTypeParameters (.inClass ?_)
  have hrest (scope : LocalScope) (frame : Frame) (value : Ty) : Notes used (s.inside c d name) x {} (do
      inFrame (some frame) (s.members rec (.named name) scope (s.forest.classMembers d.body))
      return value) :=
    (Notes.inFrame _ (members_other h hf hbody _ scope)).bind_first fun _ => .pure _
  exact (Notes.bind_collect hnotes (fun _ => supertypes_other h hf hsupertypes)
    fun _ scope => hrest scope _ _).congr (by simp)

/-- What is found out in a member of a class. -/
theorem classUse_notes_member (h : rec.Composed s) (hf : s.forest.Linked)
    (hd : s.forest.data (some id) = .classDeclaration d) {name : String}
    (hname : s.unit.classNames.lookup id = some name) {member : NodeId}
    (hm : member ∈ s.forest.classMembers d.body) (hx : s.forest.Inside member x)
    (hnotes : Notes used (s.inside c d name) x l (rec.declaration (.named name) member)) :
    Notes used c x l (s.classUse rec id) := by
  obtain ⟨body, members, hb, hbody, hmember⟩ := Forest.exists_body_of_mem_classMembers hm
  have hxbody : s.forest.Inside body x :=
    (hf.inside_of_mem_parts hbody (by simpa [NodeData.parts] using hmember)).trans hx
  have hparts : (NodeData.classDeclaration d).direct =
      (d.primaryConstructor.toList ++ d.supertypes.toList) ++ body :: [] := by
    simp [NodeData.direct, hb]
  -- The member lies in the body, so supertypes and constructor, which stand beside it, say nothing of
  -- it.
  have hsupertypes : ∀ y ∈ d.supertypes, ¬ s.forest.Inside y x := fun y hy =>
    hf.not_inside_beside hd hparts hxbody (by simp [hy])
  have hconstructor : ∀ y ∈ d.primaryConstructor, ¬ s.forest.Inside y x := fun y hy =>
    hf.not_inside_beside hd hparts hxbody (by simp_all)
  have hlist : s.forest.classMembers d.body = members := by
    rw [hb, Forest.classMembers, hbody]
  have hrest (scope : LocalScope) (frame : Frame) (value : Ty) : Notes used (s.inside c d name) x l (do
      inFrame (some frame) (s.members rec (.named name) scope (s.forest.classMembers d.body))
      return value) := by
    rw [hlist]
    have hmembers := members_notes h hf hbody hmember hx (.named name) scope hnotes
    exact (Notes.inFrame _ hmembers).bind_first fun _ => .pure _
  unfold classUse
  rw [hd]
  dsimp only
  rw [hname]
  refine .withTypeParameters (.inClass ?_)
  split
  · rename_i parameters hps
    have hparameters : Notes used (s.inside c d name) x {}
        (s.parameters rec (some (.named name)) parameters) := constructor_other h hf hconstructor hps _
    exact (Notes.bind_collect hparameters (fun _ => supertypes_other h hf hsupertypes)
      fun _ scope => hrest scope _ _).congr (by simp)
  · exact ((supertypes_other h hf hsupertypes).collect
      fun _ scope => hrest scope _ _).congr (by simp)

end

theorem declaration_notes {owner : Owner} {id : NodeId} (hclass : s.forest.IsClass id)
    (hnotes : Notes used c x l (s.classUse rec id)) : Notes used c x l (s.declaration rec owner id) := by
  unfold declaration
  rcases hclass with hk | hk <;> rw [hk] <;> exact hnotes.bind_first fun _ => .pure _

/-- What is found out in a declaration of a file is found out in the file, except for names, which
imports speak of too. -/
theorem file_notes (hf : s.forest.Linked) {root id : NodeId}
    (hid : id ∈ s.forest.topLevelDeclarations root) (hx : s.forest.Inside id x)
    (hname : ¬ s.forest.IsName x)
    (hnotes : Notes used c x l (s.declaration (s.tasks s.forest.size) (.named s.unit.facade) id)) :
    Notes used c x l (s.file root) := by
  obtain ⟨parts, hd, hid⟩ := Forest.exists_of_mem_topLevelDeclarations hid
  rw [← Array.mem_toList_iff] at hid
  -- Imports stand among the declarations, so that it is their nodes and not their trees that differ.
  have himports : Composed s s.forest.IsName
      (s.through (fun _ id => s.importUse id) () parts.imports.toList) :=
    .through (fun _ y _ => importUse_names y) ()
  have hdeclarations : Notes used c x l (s.through (fun _ id =>
      s.declaration (s.tasks s.forest.size) (.named s.unit.facade) id) ()
        parts.declarations.toList) := by
    have hdirect {y : NodeId} (hy : y ∈ parts.declarations.toList) :
        y ∈ (NodeData.sourceFile parts).direct := List.mem_append_right _ hy
    refine .through_one hid (List.nodup_append.mp (hf.direct_nodup hd)).2.1
      (fun y hy hne _ => ?_) (fun _ => hnotes) ()
    have hother := hf.not_inside_other hd (hdirect hid) (hdirect hy) hne.symm hx
    exact (declaration_composed (tasks_composed hf _) hf _ y).notes hother c
  unfold file
  rw [hd]
  refine (himports.notes hname c).bind_second fun _ => ?_
  refine hdeclarations.bind_first fun _ => ?_
  exact Notes.stopped.bind_first fun _ => .pure _

/-- From a class to its file, by the classes around it. The nesting bound is above the place of the
class, and it goes down by one from a class to a member, whose place is below. -/
theorem file_notes_class (hf : s.forest.Linked) {package name : String} {root id : NodeId}
    {d : ClassDeclaration} {outer : TypeContext}
    (hb : s.forest.Surrounds package root id name d outer)
    (hnames : ∀ {id name d}, s.forest.IsBound package root id name d →
      s.unit.classNames.lookup id = some name)
    (hx : s.forest.Inside id x) (hname : ¬ s.forest.IsName x)
    (hnotes : ∀ n, id ≤ n →
      Notes used { toTypeContext := outer } x l (s.classUse (s.tasks n) id)) :
    Notes used {} x l (s.file root) := by
  -- The induction is on the classes around, from the outermost to the one in question.
  induction hb with
  | @topLevel id simple d hid hclass hd hs =>
    have hlt : id < s.forest.size := by
      obtain ⟨n, hn, -⟩ := Forest.exists_of_isChild (hf.isChild_of_topLevel hid)
      exact Forest.lt_size_of_getElem? hn
    exact file_notes hf hid hx hname (declaration_notes hclass (hnotes _ hlt.le))
  | @nested around id name simple o d outer hb hm hclass hd hs ih =>
    have hin := hf.inside_of_mem_classMembers hb.isBound.data_eq hm
    have hlt := hf.lt_of_mem_classMembers hb.isBound.data_eq hm
    refine ih (hin.trans hx) fun n hn => ?_
    obtain ⟨k, rfl⟩ := Nat.exists_eq_add_of_lt (lt_of_lt_of_le hlt hn)
    refine classUse_notes_member (tasks_composed hf _) hf hb.isBound.data_eq (hnames hb.isBound)
      hm hx ?_
    exact declaration_notes hclass (hnotes (id + k) (Nat.le_add_right id k))

section
variable {package name : String} {root : NodeId} {p : DeclaredProperty}

/-- A property is attributed once, in the surroundings of its class. -/
theorem file_notes_property (hf : s.forest.Linked)
    (hnames : ∀ {id name d}, s.forest.IsBound package root id name d →
      s.unit.classNames.lookup id = some name)
    (hp : s.forest.DeclaresProperty package s.unit.facade root p) {name : NodeId}
    {d : PropertyDeclaration} (hd : s.forest.IsProperty p.node d name)
    (hx : s.forest.Inside p.node x) (hname : ¬ s.forest.IsName x)
    (hnotes : ∀ n c, p.node ≤ n → c.depth = 0 →
      (c.withTypeParameters (s.forest.propertyTypeParameters p.node)).toTypeContext = p.all →
        Notes used c x l (s.property (s.tasks n) (.named p.owner) p.node)) :
    Notes used {} x l (s.file root) := by
  -- The property is attributed in its own surroundings, whatever stands around it.
  have hproperty (n : Nat) (c : Surroundings) (hn : p.node ≤ n) (hc : c.depth = 0)
      (hall : (c.withTypeParameters (s.forest.propertyTypeParameters p.node)).toTypeContext =
        p.all) : Notes used c x l (s.declaration (s.tasks n) (.named p.owner) p.node) := by
    unfold declaration
    rw [hd.kind]
    exact hnotes n c hn hc hall
  -- At the top, the file comes to the property; as a member, the class does, with fuel left for it.
  cases hp with
  | @topLevel id _ _ hid _ =>
    have hlt : id < s.forest.size := by
      obtain ⟨n, hn, -⟩ := Forest.exists_of_isChild (hf.isChild_of_topLevel hid)
      exact Forest.lt_size_of_getElem? hn
    exact file_notes hf hid hx hname (hproperty _ {} hlt.le rfl rfl)
  | @member around id _ owner o outer _ hb hm _ _ =>
    have hin := hf.inside_of_mem_classMembers hb.isBound.data_eq hm
    have hlt := hf.lt_of_mem_classMembers hb.isBound.data_eq hm
    refine file_notes_class hf hb hnames (hin.trans hx) hname fun n hn => ?_
    obtain ⟨k, rfl⟩ := Nat.exists_eq_add_of_lt (lt_of_lt_of_le hlt hn)
    exact classUse_notes_member (tasks_composed hf _) hf hb.isBound.data_eq (hnames hb.isBound) hm hx
      (hproperty (id + k) _ (Nat.le_add_right id k) rfl rfl)
  | parameter _ _ _ _ hparameter _ _ => cases hd.data.symm.trans hparameter

/-- The written type of a property is found out once, by all names that are in scope. -/
theorem file_notes_typeRef (hf : s.forest.Linked)
    (hnames : ∀ {id name d}, s.forest.IsBound package root id name d →
      s.unit.classNames.lookup id = some name)
    (hp : s.forest.DeclaresProperty package s.unit.facade root p) {ref : NodeId}
    (hr : p.typeRef = some ref) (href : s.forest.isTypeReference ref) :
    Notes used {} ref { types := [s.typeIn p.all ref] } (s.file root) := by
  -- A type reference is no name, so only what attributes types says something of it.
  have hname : ¬ s.forest.IsName ref := by
    have hkind : s.forest.kind? (some ref) = some (.node .typeReference) := of_decide_eq_true href
    obtain ⟨reference, hdata⟩ := hf.exists_typeReference hkind
    rintro (hk | ⟨access, hd⟩)
    · exact nomatch hk.symm.trans hkind
    · exact nomatch hd.symm.trans hdata
  have hdeclared {d : PropertyDeclaration} {name : NodeId}
      (hd : s.forest.IsProperty p.node d name) (hr : d.typeRef = some ref) :
      Notes used {} ref { types := [s.typeIn p.all ref] } (s.file root) := by
    have hin : s.forest.Inside p.node ref :=
      hf.inside_of_mem_parts hd.data (by simp [NodeData.parts, hr])
    refine file_notes_property hf hnames hp hd hin hname fun n c _ _ hall => ?_
    rw [← hall]
    exact property_notes_type (tasks_composed hf n) hf hd.data hd.name hr href
  -- Properties are alike at the top and in classes; a parameter's type is inside its class's
  -- constructor.
  cases hp with
  | topLevel _ hd => exact hdeclared hd hr
  | member _ _ hd _ => exact hdeclared hd hr
  | @parameter around primary id name owner o outer parameters d hb hprimary hps hid hd _ _ =>
    have hin : s.forest.Inside primary ref := by
      have hparameter : s.forest.Inside primary id :=
        hf.inside_of_mem_parts hps (by simpa [NodeData.parts] using hid)
      exact hparameter.trans (hf.inside_of_mem_parts hd (by simp_all [NodeData.parts]))
    have hclass : s.forest.Inside around primary :=
      hf.inside_of_mem_parts hb.isBound.data_eq (by simp [NodeData.parts, hprimary])
    refine file_notes_class hf hb hnames (hclass.trans hin) hname fun n _ => ?_
    have hrec := tasks_composed hf n
    refine classUse_notes_constructor hrec hf hb.isBound.data_eq (hnames hb.isBound) hprimary hps
      hin ?_
    exact parameters_notes hrec hf hps hid (hf.inside_of_mem_parts hd (by simp_all [NodeData.parts])) _
      (parameter_notes hrec hf _ hd hr href)

/-- The variable of a property without a written type is found out once, with the type of its
initializer, which nothing is around that nests expressions. -/
theorem file_notes_variable (hf : s.forest.Linked)
    (hnames : ∀ {id name d}, s.forest.IsBound package root id name d →
      s.unit.classNames.lookup id = some name)
    (hp : s.forest.DeclaresProperty package s.unit.facade root p) (hr : p.typeRef = none)
    {value : NodeId} (hv : p.initializer = some value) {t : Ty}
    (ht : ∀ n c, value < n → c.depth = 0 → Returns used c ((s.tasks n).typeOf (some value)) t) :
    Notes used {} p.node { declared := [{ name := p.name, type := t, owner := some p.owner,
                                          kind := .property, node := p.node }] } (s.file root) := by
  obtain ⟨d, name, hd, hname, hwritten, hinitial⟩ := hp.exists_isProperty hv
  rw [hr] at hwritten
  rw [hv] at hinitial
  -- The property itself is no name.
  have hnotname : ¬ s.forest.IsName p.node := by
    rintro (hk | ⟨access, hdata⟩)
    · exact nomatch hk.symm.trans hd.kind
    · exact nomatch hdata.symm.trans hd.data
  have hchild : value < p.node :=
    hf.lt_of_mem_parts (by simp [hd.data, NodeData.parts, hinitial])
  refine file_notes_property hf hnames hp hd (s.forest.inside_self _) hnotname
    fun n c hn hc _ => ?_
  rw [hname]
  refine property_notes_variable (tasks_composed hf n) hf hd.data hd.name hwritten ?_
  rw [hinitial]
  exact ht n _ (lt_of_lt_of_le hchild hn) hc

end

end Setting

end KotlinTree.Attribution
