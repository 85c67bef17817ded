import KotlinTree.Proofs.Types.Declared
import KotlinTree.Proofs.Types.Local

/-!
Members that are added: classes stay the ones that are declared, and no member is lost. Environments that
are put together step by step. Main statements: the members of files that can be found are the ones that
have been declared, in their order, and the package of each of them is declared.
-/

namespace KotlinTree.Environment

/-- One environment has the classes of another one, and at least its members. -/
structure Grows (before after : Environment) : Prop where
  hasClass : ∀ name, after.hasClass name = before.hasClass name
  members : ∀ name info, before.classInfo? name = some info →
    ∃ info', after.classInfo? name = some info' ∧ info.members ⊆ info'.members
  topLevel : ∀ package name, before.topLevel package name ⊆ after.topLevel package name
  extensions : ∀ name, before.extensions.getD name [] ⊆ after.extensions.getD name []

section
variable {env mid after : Environment}

theorem Grows.refl (env : Environment) : env.Grows env where
  hasClass _ := rfl
  members _ info hi := ⟨info, hi, List.Subset.refl _⟩
  topLevel _ _ := List.Subset.refl _
  extensions _ := List.Subset.refl _

theorem Grows.trans (h : env.Grows mid) (h' : mid.Grows after) : env.Grows after where
  hasClass name := (h'.hasClass name).trans (h.hasClass name)
  members name info hi := by
    obtain ⟨info', hi', hsub⟩ := h.members name info hi
    obtain ⟨info'', hi'', hsub'⟩ := h'.members name info' hi'
    exact ⟨info'', hi'', List.Subset.trans hsub hsub'⟩
  topLevel package name := List.Subset.trans (h.topLevel package name) (h'.topLevel package name)
  extensions name := List.Subset.trans (h.extensions name) (h'.extensions name)

/-- A class has a member. -/
def HasMember (env : Environment) (m : Member) : Prop :=
  ∃ info, env.classInfo? m.owner = some info ∧ m ∈ info.members

/-- A file has a member, which is found by the package of the file, or by its name alone if it is an
extension. -/
def HasTopLevel (env : Environment) (package : String) (m : Member) : Prop :=
  if m.receiver.isSome then m ∈ env.extensions.getD m.name [] else m ∈ env.topLevel package m.name

theorem Grows.hasMember (h : env.Grows after) {m : Member} (hm : env.HasMember m) :
    after.HasMember m := by
  obtain ⟨info, hi, hmem⟩ := hm
  obtain ⟨info', hi', hsub⟩ := h.members _ info hi
  exact ⟨info', hi', hsub hmem⟩

theorem Grows.hasTopLevel (h : env.Grows after) {package : String} {m : Member}
    (hm : env.HasTopLevel package m) : after.HasTopLevel package m := by
  unfold HasTopLevel at hm ⊢
  split
  · rename_i hr
    rw [if_pos hr] at hm
    exact h.extensions _ hm
  · rename_i hr
    rw [if_neg hr] at hm
    exact h.topLevel _ _ hm

theorem addMember_grows {owner : String} {m : Member} (h : env.addMember owner m = .ok after) :
    env.Grows after ∧ ∃ info, after.classInfo? owner = some info ∧ m ∈ info.members := by
  unfold addMember at h
  split at h
  · rename_i info hi
    cases h
    have hput := env.puts_insert owner (info.addMember m)
    refine ⟨⟨fun name => ?_, fun name before hb => ?_, fun _ _ => List.Subset.refl _,
      fun _ => List.Subset.refl _⟩, info.addMember m, (hput owner).trans (if_pos rfl), ?_⟩
    · simp only [Environment.hasClass, Std.HashMap.contains_insert, beq_iff_eq, Bool.or_eq_right_iff_imp]
      rintro rfl
      rw [← Std.HashMap.isSome_getElem?_eq_contains, hi, Option.isSome_some]
    · rw [hput name]
      split
      · rename_i hname
        subst hname
        cases hb.symm.trans hi
        exact ⟨_, rfl, List.subset_append_left _ _⟩
      · exact ⟨before, hb, List.Subset.refl _⟩
    · exact List.mem_append_right _ (List.mem_singleton_self m)
  · cases h

theorem addTopLevel_grows (env : Environment) (package : String) (m : Member) (origin : Origin) :
    env.Grows (env.addTopLevel package m origin) ∧
      (env.addTopLevel package m origin).HasTopLevel package m := by
  have hclass (name : String) : (env.addTopLevel package m origin).hasClass name =
      env.hasClass name := by
    have hinfo := env.classInfo?_addTopLevel package m origin name
    simp only [classInfo?] at hinfo
    simp only [hasClass, ← Std.HashMap.isSome_getElem?_eq_contains, hinfo]
  -- The package is added first, and changes nothing of members.
  have hexisting : (env.addPackage package).topLevels = env.topLevels ∧
      (env.addPackage package).extensions = env.extensions := by
    unfold addPackage
    split <;> exact ⟨rfl, rfl⟩
  obtain ⟨htops, hexts⟩ := hexisting
  refine ⟨⟨hclass, fun name info hi => ?_, fun package' name => ?_, fun name => ?_⟩, ?_⟩
  · exact ⟨info, (env.classInfo?_addTopLevel package m origin name).trans hi, List.Subset.refl _⟩
  · unfold addTopLevel topLevel
    dsimp only
    rw [htops, hexts]
    split
    · exact List.Subset.refl _
    · dsimp only
      rw [Std.HashMap.getD_insert]
      split
      · rename_i hkey
        rw [beq_iff_eq.mp hkey]
        exact List.subset_append_left _ _
      · exact List.Subset.refl _
  · unfold addTopLevel
    dsimp only
    rw [htops, hexts]
    split
    · dsimp only
      rw [Std.HashMap.getD_insert]
      split
      · rename_i hkey
        rw [beq_iff_eq.mp hkey]
        exact List.subset_append_left _ _
      · exact List.Subset.refl _
    · exact List.Subset.refl _
  · unfold HasTopLevel addTopLevel topLevel
    dsimp only
    split <;> simp

/-- Of many additions, each is made in an environment that has the same classes, and its outcome
stays. -/
theorem foldlM_grows {α : Type} {step : Environment → α → Except EnvironmentError Environment}
    {xs : List α} (hstep : ∀ x ∈ xs, ∀ e e', step e x = .ok e' → e.Grows e')
    (h : xs.foldlM step env = .ok after) : env.Grows after ∧
      ∀ x ∈ xs, ∃ e e', env.Grows e ∧ step e x = .ok e' ∧ e'.Grows after := by
  induction xs generalizing env with
  | nil =>
    cases h
    exact ⟨.refl _, fun x hx => absurd hx List.not_mem_nil⟩
  | cons x xs ih =>
    rw [List.foldlM_cons] at h
    cases hx : step env x with
    | error e =>
      rw [hx] at h
      cases h
    | ok next =>
      rw [hx] at h
      have hfirst := hstep x List.mem_cons_self env next hx
      obtain ⟨hgrows, hall⟩ := ih (fun y hy => hstep y (List.mem_cons_of_mem _ hy)) h
      refine ⟨hfirst.trans hgrows, fun y hy => ?_⟩
      -- The step is the first one, or one of those after it.
      rcases List.mem_cons.mp hy with rfl | hy
      · exact ⟨_, next, .refl _, hx, hgrows⟩
      · obtain ⟨e, e', he, hy, he'⟩ := hall y hy
        exact ⟨e, e', hfirst.trans he, hy, he'⟩

end

/-- An environment that has been put together by declarations, among them certain members of files in
packages, in order. A class may have been changed in any way. -/
inductive Assembled : Environment → List (String × Member) → Prop
  | empty : Assembled {} []
  | package {env : Environment} {ds : List (String × Member)} (name : String)
      (h : Assembled env ds) : Assembled (env.addPackage name) ds
  | classAdded {env : Environment} {ds : List (String × Member)} (info : ClassInfo)
      (h : Assembled env ds) : Assembled (env.addClass info).1 ds
  | classChanged {env : Environment} {ds : List (String × Member)} (name : String)
      (f : ClassInfo → ClassInfo) (h : Assembled env ds) : Assembled (env.modifyClass name f) ds
  | member {env after : Environment} {ds : List (String × Member)} {owner : String} {m : Member}
      (hadd : env.addMember owner m = .ok after) (h : Assembled env ds) : Assembled after ds
  | fileMember {env : Environment} {ds : List (String × Member)} (package : String) (m : Member)
      (origin : Origin) (h : Assembled env ds) :
      Assembled (env.addTopLevel package m origin) (ds ++ [(package, m)])

variable {env after : Environment} {ds : List (String × Member)} {package name : String} {m : Member}

/-- A step that declares no member of a file. -/
structure LeavesFiles (before after : Environment) : Prop where
  topLevels : after.topLevels = before.topLevels
  packages : ∀ name, before.hasPackage name → after.hasPackage name

theorem leavesFiles_addPackage (env : Environment) (package : String) :
    env.LeavesFiles (env.addPackage package) where
  topLevels := by
    obtain ⟨packages, heq⟩ := env.exists_addPackage_eq package
    rw [heq]
  packages name h := hasPackage_addPackage.mpr (.inl h)

theorem leavesFiles_addClass (env : Environment) (info : ClassInfo) :
    env.LeavesFiles (env.addClass info).1 := by
  have hpackage := env.leavesFiles_addPackage info.package
  unfold addClass
  dsimp only
  split
  · exact ⟨hpackage.topLevels, hpackage.packages⟩
  · split
    · exact hpackage
    · exact ⟨hpackage.topLevels, hpackage.packages⟩

theorem leavesFiles_modifyClass (env : Environment) (name : String) (f : ClassInfo → ClassInfo) :
    env.LeavesFiles (env.modifyClass name f) := by
  unfold modifyClass
  split
  · exact ⟨rfl, fun _ h => h⟩
  · exact ⟨rfl, fun _ h => h⟩

theorem leavesFiles_addMember {owner : String} (h : env.addMember owner m = .ok after) :
    env.LeavesFiles after := by
  unfold addMember at h
  split at h
  · cases h
    exact ⟨rfl, fun _ h => h⟩
  · cases h

/-- A member of a file comes last among those of its package and name, if it is no extension. -/
theorem topLevel_addTopLevel (env : Environment) (package : String) (m : Member) (origin : Origin)
    (package' name : String) :
    (env.addTopLevel package m origin).topLevel package' name = env.topLevel package' name ++
      if package = package' ∧ m.name = name ∧ m.receiver.isNone then [m] else [] := by
  have htops := (env.leavesFiles_addPackage package).topLevels
  unfold addTopLevel
  dsimp only
  cases hr : m.receiver with
  | some receiver =>
    unfold topLevel
    rw [if_pos Option.isSome_some, htops]
    simp
  | none =>
    unfold topLevel
    rw [if_neg (by simp), htops, getD_insert_append]
    simp [Prod.ext_iff, eq_comm]

theorem LeavesFiles.topLevel (h : env.LeavesFiles after) (package name : String) :
    after.topLevel package name = env.topLevel package name := by
  unfold Environment.topLevel
  rw [h.topLevels]

theorem LeavesFiles.declaresPackage (h : env.LeavesFiles after) (hd : env.DeclaresPackage package) :
    after.DeclaresPackage package := fun front hne hfront => h.packages front (hd front hne hfront)

/-- The members of a file that can be found are those that have been declared and are no extensions,
in their order. -/
theorem Assembled.topLevel_eq (h : env.Assembled ds) (package name : String) :
    env.topLevel package name =
      (ds.filter fun d => d.1 = package && d.2.name = name && d.2.receiver.isNone).map Prod.snd := by
  induction h with
  | empty => simp [Environment.topLevel]
  | package name _ ih => rw [(leavesFiles_addPackage _ _).topLevel, ih]
  | classAdded info _ ih => rw [(leavesFiles_addClass _ _).topLevel, ih]
  | classChanged name f _ ih => rw [(leavesFiles_modifyClass _ _ _).topLevel, ih]
  | member hadd _ ih => rw [(leavesFiles_addMember hadd).topLevel, ih]
  | fileMember package m origin _ ih =>
    rw [topLevel_addTopLevel, ih, List.filter_append, List.map_append]
    congr 1
    simp only [List.filter_cons, List.filter_nil, Bool.and_eq_true, decide_eq_true_eq, and_assoc]
    split <;> rfl

/-- The package of whatever a file declares is declared. -/
theorem Assembled.declaresPackage (h : env.Assembled ds) (hm : (package, m) ∈ ds) :
    env.DeclaresPackage package := by
  induction h with
  | empty => exact absurd hm List.not_mem_nil
  | package name _ ih => exact (leavesFiles_addPackage _ _).declaresPackage (ih hm)
  | classAdded info _ ih => exact (leavesFiles_addClass _ _).declaresPackage (ih hm)
  | classChanged name f _ ih => exact (leavesFiles_modifyClass _ _ _).declaresPackage (ih hm)
  | member hadd _ ih => exact (leavesFiles_addMember hadd).declaresPackage (ih hm)
  | @fileMember env ds package' m' origin _ ih =>
    intro front hne hfront
    rw [hasPackage_addTopLevel]
    rcases List.mem_append.mp hm with hold | hnew
    · exact hasPackage_addPackage.mpr (.inl (ih hold front hne hfront))
    · obtain ⟨rfl, -⟩ := Prod.mk.inj (List.mem_singleton.mp hnew)
      exact env.declaresPackage_addPackage _ front hne hfront

end KotlinTree.Environment
