import KotlinTree.Proofs.Types.Consistent
import KotlinTree.Proofs.Types.Declared
import KotlinTree.Types.Builtins

/-!
What stubs declare goes together, and so do the builtins, which are a stub themselves: no two built-in
classes conflict, and what they extend is built in as well. With classes and functions only their
packages are declared.
-/

namespace KotlinTree.Builtins
open Environment

/-- The built-in classes with their companions. -/
def infos : List ClassInfo := stub.classes.flatMap (·.classInfos .library)

def declared : List (String × ClassKind) := infos.map fun info => (info.name, info.kind)

def names : List String := declared.map Prod.fst

theorem supertypes_mem_names : ∀ info ∈ infos, ∀ t ∈ info.supertypes, t ∈ names := by
  decide +kernel

theorem kinds_unique : ∀ a ∈ declared, ∀ b ∈ declared, a.1 = b.1 → a.2 = b.2 := by
  decide +kernel

theorem anyName_mem_names : Ty.anyName ∈ names := by
  decide +kernel

theorem declares_empty (known : List String) : ({} : Environment).Declares [] known := by
  have hnone (name : String) : ({} : Environment).classInfo? name = none :=
    Std.HashMap.getElem?_empty
  constructor
  · intro name kind
    rw [kindOf?, hnone]
    simp
  · intro name info hi
    rw [hnone] at hi
    cases hi

/-- The builtins are declared: no two of their classes conflict. -/
theorem addStub_stub : ({} : Environment).addStub stub = (environment, none) ∧
    environment.Declares declared names := by
  have hconflict (name : String) (first second : ClassKind) :
      ¬ Conflict [] declared name first second := fun h =>
    h.ne (kinds_unique _ h.first_mem _ h.second_mem rfl)
  obtain ⟨after, ha, hd⟩ := (declares_empty names).addStub stub infos rfl
    supertypes_mem_names hconflict
  have henv : environment = after := by rw [environment, ha]
  rw [List.nil_append] at hd
  rw [henv]
  exact ⟨ha, hd⟩

/-- What is built in is exactly what the stub says. -/
theorem environment_declares : environment.Declares declared names := addStub_stub.2

end KotlinTree.Builtins

namespace KotlinTree

namespace Environment

variable {env after : Environment}

theorem addClasses_append {infos more : List ClassInfo}
    (h : env.addClasses (infos ++ more) = (after, none)) :
    ∃ mid, env.addClasses infos = (mid, none) ∧ mid.addClasses more = (after, none) := by
  induction infos generalizing env with
  | nil => exact ⟨env, rfl, h⟩
  | cons info infos ih =>
    rw [List.cons_append, addClasses] at h
    cases hadd : env.addClass info with
    | mk next e =>
      rw [hadd] at h
      cases e with
      | none =>
        rw [addClasses, hadd]
        exact ih h
      | some e => cases h

theorem addClasses_singleton {info : ClassInfo} (h : env.addClasses [info] = (after, none)) :
    env.addClass info = (after, none) := by
  rw [addClasses] at h
  cases hadd : env.addClass info with
  | mk next e =>
    rw [hadd] at h
    cases e with
    | none => exact h
    | some e => cases h

/-- A class of a stub comes after its companion, which it names. -/
theorem Consistent.addClassStub (h : env.Consistent) (stub : ClassStub) (origin : StubOrigin)
    (ha : env.addClasses (stub.classInfos origin) = (after, none)) : after.Consistent := by
  have hmembers (stubs : List MemberStub) (owner : String) :
      ∀ m ∈ stubs.map (·.member owner), m.owner = owner ∧ m.isSynthetic = false := by
    intro m hm
    obtain ⟨stub, -, rfl⟩ := List.mem_map.mp hm
    exact ⟨rfl, rfl⟩
  unfold ClassStub.classInfos at ha
  obtain ⟨mid, hcompanion, hclass⟩ := addClasses_append ha
  have hclass := addClasses_singleton hclass
  -- A companion is added before its class, which then may have it.
  cases hc : stub.companion with
  | none =>
    rw [hc] at hcompanion hclass
    cases hcompanion
    refine (h.addClass ⟨fun m hm => (hmembers _ _ m hm).1, fun m hm => (hmembers _ _ m hm).2,
      fun c hc => ?_⟩ hclass).1
    cases hc
  | some companion =>
    rw [hc] at hcompanion hclass
    obtain ⟨hmid, -, hkind⟩ := h.addClass ⟨fun m hm => (hmembers _ _ m hm).1,
      fun m hm => (hmembers _ _ m hm).2, fun c hc => absurd hc (Option.some_ne_none c).symm⟩
      (addClasses_singleton hcompanion)
    refine (hmid.addClass ⟨fun m hm => (hmembers _ _ m hm).1, fun m hm => (hmembers _ _ m hm).2,
      fun c hc => ?_⟩ hclass).1
    cases hc
    exact hkind

theorem Consistent.addFunctionStubs (h : env.Consistent) (functions : List FunctionStub)
    (origin : Origin) : (functions.foldl (fun env f =>
      env.addTopLevel (packageOf f.facade) f.member origin) env).Consistent := by
  induction functions generalizing env with
  | nil => exact h
  | cons f functions ih => exact ih (h.addTopLevel _ rfl origin).1

theorem Consistent.addStub (h : env.Consistent) {stub : StubFile}
    (ha : env.addStub stub = (after, none)) : after.Consistent := by
  have hclasses (stubs : List ClassStub) (origin : StubOrigin) (env mid : Environment)
      (h : env.Consistent)
      (ha : env.addClasses (stubs.flatMap (·.classInfos origin)) = (mid, none)) :
      mid.Consistent := by
    induction stubs generalizing env with
    | nil =>
      cases ha
      exact h
    | cons stub stubs ih =>
      obtain ⟨next, hfirst, hrest⟩ := addClasses_append ha
      exact ih next (h.addClassStub stub origin hfirst) hrest
  unfold Environment.addStub at ha
  dsimp only at ha
  split at ha
  · cases ha
  · rename_i mid hmid
    cases ha
    exact (hclasses _ _ _ _ h hmid).addFunctionStubs _ _

theorem consistent_empty : ({} : Environment).Consistent := by
  have hnone (name : String) (info : ClassInfo) :
      ({} : Environment).classInfo? name ≠ some info := by
    intro h
    have hempty : ({} : Environment).classInfo? name = none := Std.HashMap.getElem?_empty
    rw [hempty] at h
    cases h
  have htop (package name : String) : ({} : Environment).topLevel package name = [] :=
    Std.HashMap.getD_empty
  have hext (name : String) : ({} : Environment).extensions.getD name [] = [] :=
    Std.HashMap.getD_empty
  refine ⟨fun n i hi => absurd hi (hnone n i), fun n i hi => absurd hi (hnone n i),
    fun p n m hm => ?_, fun p n hne => absurd (htop p n) hne, fun n m hm => ?_⟩
  · rw [htop] at hm
    exact absurd hm List.not_mem_nil
  · rw [hext] at hm
    exact absurd hm List.not_mem_nil

theorem hasPackage_addClasses {infos : List ClassInfo}
    (h : env.addClasses infos = (after, none)) (name : String) : after.hasPackage name ↔
      env.hasPackage name ∨
        ∃ package ∈ infos.map ClassInfo.package, package ≠ "" ∧ IsDottedFront name package := by
  induction infos generalizing env with
  | nil =>
    cases h
    simp
  | cons info infos ih =>
    rw [← List.singleton_append] at h
    obtain ⟨mid, hfirst, hrest⟩ := addClasses_append h
    have hmid := hasPackage_addClass env info name
    rw [addClasses_singleton hfirst, hasPackage_addPackage] at hmid
    rw [ih hrest, hmid, List.map_cons, or_assoc]
    simp only [List.mem_cons, or_and_right, exists_or, exists_eq_left]

theorem hasPackage_addFunctionStubs (env : Environment) (functions : List FunctionStub)
    (origin : Origin) (name : String) : (functions.foldl (fun env f =>
      env.addTopLevel (packageOf f.facade) f.member origin) env).hasPackage name ↔
        env.hasPackage name ∨ ∃ package ∈ functions.map fun f => packageOf f.facade,
          package ≠ "" ∧ IsDottedFront name package := by
  induction functions generalizing env with
  | nil => simp
  | cons f functions ih =>
    rw [List.foldl_cons, ih, hasPackage_addTopLevel, hasPackage_addPackage, List.map_cons, or_assoc]
    simp only [List.mem_cons, or_and_right, exists_or, exists_eq_left]

/-- The packages of the classes and functions of a stub. -/
def stubPackages (stub : StubFile) : List String :=
  stub.classes.map (fun c => packageOf c.name) ++ stub.functions.map fun f => packageOf f.facade

theorem package_of_mem_classInfos {stub : ClassStub} {origin : StubOrigin} {info : ClassInfo}
    (h : info ∈ stub.classInfos origin) : info.package = packageOf stub.name := by
  unfold ClassStub.classInfos at h
  rcases List.mem_append.mp h with h | h
  · obtain ⟨companion, -, rfl⟩ := List.mem_map.mp h
    rfl
  · rw [List.mem_singleton.mp h]

/-- A stub declares no packages but its own and those around them. -/
theorem hasPackage_addStub {stub : StubFile} (h : env.addStub stub = (after, none))
    (name : String) (hname : after.hasPackage name) : env.hasPackage name ∨
      ∃ package ∈ stubPackages stub, package ≠ "" ∧ IsDottedFront name package := by
  unfold addStub at h
  dsimp only at h
  split at h
  · cases h
  · rename_i mid hmid
    cases h
    rw [hasPackage_addFunctionStubs, hasPackage_addClasses hmid, or_assoc] at hname
    refine hname.imp_right ?_
    rintro (⟨package, hpackage, hfront⟩ | ⟨package, hpackage, hfront⟩)
    · obtain ⟨info, hinfo, rfl⟩ := List.mem_map.mp hpackage
      obtain ⟨c, hc, hinfo⟩ := List.mem_flatMap.mp hinfo
      refine ⟨info.package, List.mem_append_left _ ?_, hfront⟩
      exact List.mem_map.mpr ⟨c, hc, (package_of_mem_classInfos hinfo).symm⟩
    · exact ⟨package, List.mem_append_right _ hpackage, hfront⟩

end Environment

theorem Builtins.environment_consistent : environment.Consistent :=
  Environment.consistent_empty.addStub Builtins.addStub_stub.1

end KotlinTree
