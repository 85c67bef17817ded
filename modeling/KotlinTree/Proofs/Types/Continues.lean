import KotlinTree.Proofs.Types.Assembled
import KotlinTree.Proofs.Types.Consistent

/-!
Declarations one after another, and what they leave as it was. Main statement: whatever is declared,
what was there before stays and stands first, and so does where a class or a file comes from, as long as
nothing of the same name is declared with another origin.
-/

namespace KotlinTree

/-- What can be declared. -/
inductive Declaration where
  | package (name : String)
  | ofClass (info : ClassInfo)
  | member (owner : String) (m : Member)
  | topLevel (package : String) (m : Member) (origin : Origin)

/-- Where a declaration says that a class or file comes from. -/
def Declaration.origin? (name : String) : Declaration → Option Origin
  | .package _ => none
  | .ofClass info => if info.name = name then some info.origin else none
  | .member _ _ => none
  | .topLevel _ m origin => if m.owner = name then some origin else none

/-- A class is still the one that it was, perhaps with more members and supertypes. -/
structure ClassInfo.Continues (before after : ClassInfo) : Prop where
  name : after.name = before.name
  kind : after.kind = before.kind
  package : after.package = before.package
  origin : after.origin = before.origin
  companion : ∀ c, before.companion = some c → after.companion = some c
  supertypes : before.supertypes <+: after.supertypes
  membersNamed : ∀ name, before.membersNamed name <+: after.membersNamed name

namespace Environment

def declare (env : Environment) : Declaration → Except EnvironmentError Environment
  | .package name => .ok (env.addPackage name)
  | .ofClass info =>
    match env.addClass info with
    | (after, none) => .ok after
    | (_, some e) => .error e
  | .member owner m => env.addMember owner m
  | .topLevel package m origin => .ok (env.addTopLevel package m origin)

def declareAll (env : Environment) (ds : List Declaration) : Except EnvironmentError Environment :=
  ds.foldlM declare env

/-- All that was declared before is still there, before what has been declared since. -/
structure Continues (before after : Environment) : Prop where
  classes : ∀ name info, before.classInfo? name = some info →
    ∃ info', after.classInfo? name = some info' ∧ info.Continues info'
  topLevel : ∀ package name, before.topLevel package name <+: after.topLevel package name
  extensions : ∀ name, before.extensions.getD name [] <+: after.extensions.getD name []
  packages : ∀ name, before.hasPackage name → after.hasPackage name

end Environment

namespace ClassInfo

variable {info info' : ClassInfo}

theorem Continues.refl (info : ClassInfo) : info.Continues info :=
  ⟨rfl, rfl, rfl, rfl, fun _ hc => hc, List.prefix_refl _, fun _ => List.prefix_refl _⟩

theorem Continues.trans {info'' : ClassInfo} (h : info.Continues info')
    (h' : info'.Continues info'') : info.Continues info'' where
  name := h'.name.trans h.name
  kind := h'.kind.trans h.kind
  package := h'.package.trans h.package
  origin := h'.origin.trans h.origin
  companion c hc := h'.companion c (h.companion c hc)
  supertypes := h.supertypes.trans h'.supertypes
  membersNamed name := (h.membersNamed name).trans (h'.membersNamed name)

theorem membersNamed_prefix (h : info.members <+: info'.members) (name : String) :
    info.membersNamed name <+: info'.membersNamed name :=
  h.filter _

/-- Names that are not there yet are added at the end. -/
theorem prefix_foldl_add (added all : List String) :
    all <+: added.foldl (fun all name => if all.contains name then all else all ++ [name]) all := by
  induction added generalizing all with
  | nil => exact List.prefix_refl all
  | cons name added ih =>
    refine List.IsPrefix.trans ?_ (ih _)
    dsimp only
    split
    · exact List.prefix_refl all
    · exact List.prefix_append all [name]

theorem continues_addMember (info : ClassInfo) (m : Member) : info.Continues (info.addMember m) :=
  ⟨rfl, rfl, rfl, rfl, fun _ hc => hc, List.prefix_refl _,
    membersNamed_prefix (List.prefix_append info.members [m])⟩

/-- A second declaration of a class only adds to the first. -/
theorem continues_merge (first second : ClassInfo) : first.Continues (first.merge second) where
  name := rfl
  kind := rfl
  package := rfl
  origin := rfl
  companion _ hc := Option.or_eq_some_iff.mpr (.inl hc)
  supertypes := prefix_foldl_add second.supertypes first.supertypes
  membersNamed := membersNamed_prefix (List.prefix_append first.members second.groupedMembers)

end ClassInfo

namespace Environment

variable {env mid after : Environment} {name : String} {info : ClassInfo}

theorem Continues.refl (env : Environment) : env.Continues env :=
  ⟨fun _ info hi => ⟨info, hi, .refl info⟩, fun _ _ => List.prefix_refl _,
    fun _ => List.prefix_refl _, fun _ h => h⟩

theorem Continues.trans (h : env.Continues mid) (h' : mid.Continues after) :
    env.Continues after where
  classes name info hi := by
    obtain ⟨info', hi', hfirst⟩ := h.classes name info hi
    obtain ⟨info'', hi'', hsecond⟩ := h'.classes name info' hi'
    exact ⟨info'', hi'', hfirst.trans hsecond⟩
  topLevel package name := (h.topLevel package name).trans (h'.topLevel package name)
  extensions name := (h.extensions name).trans (h'.extensions name)
  packages name hp := h'.packages name (h.packages name hp)

theorem Continues.hasClass (h : env.Continues after) (hc : env.hasClass name) :
    after.hasClass name := by
  rw [← isSome_classInfo?] at hc ⊢
  obtain ⟨info, hi⟩ := Option.isSome_iff_exists.mp hc
  obtain ⟨info', hi', -⟩ := h.classes name info hi
  rw [hi', Option.isSome_some]

/-- One class is put in, which continues the one that may have been there. -/
theorem Redefines.continues (h : env.Redefines after name info)
    (hc : ∀ first, env.classInfo? name = some first → first.Continues info) :
    env.Continues after where
  classes n first hfirst := by
    rw [h.puts n]
    split
    · rename_i hn
      subst hn
      exact ⟨info, rfl, hc first hfirst⟩
    · exact ⟨first, hfirst, .refl first⟩
  topLevel package n := by
    have hsame : after.topLevel package n = env.topLevel package n := by
      rw [Environment.topLevel, h.topLevels, Environment.topLevel]
    exact hsame ▸ List.prefix_refl _
  extensions n := h.extensions ▸ List.prefix_refl _
  packages := h.packages

theorem continues_addPackage (env : Environment) (package : String) :
    env.Continues (env.addPackage package) where
  classes n info hi := ⟨info, (env.classInfo?_addPackage package n).trans hi, .refl info⟩
  topLevel p n := (env.leavesFiles_addPackage package).topLevel p n ▸ List.prefix_refl _
  extensions n := by
    obtain ⟨packages, heq⟩ := env.exists_addPackage_eq package
    exact heq ▸ List.prefix_refl _
  packages n hp := hasPackage_addPackage.mpr (.inl hp)

/-- A member of a file comes last among the extensions of its name, if it is one. -/
theorem extensions_addTopLevel (env : Environment) (package : String) (m : Member) (origin : Origin)
    (name : String) : (env.addTopLevel package m origin).extensions.getD name [] =
      env.extensions.getD name [] ++ if m.name = name ∧ m.receiver.isSome then [m] else [] := by
  obtain ⟨packages, heq⟩ := env.exists_addPackage_eq package
  unfold addTopLevel
  rw [heq]
  dsimp only
  cases hr : m.receiver with
  | some receiver =>
    rw [if_pos Option.isSome_some, getD_insert_append]
    simp [eq_comm]
  | none =>
    rw [if_neg (by simp)]
    simp

theorem continues_addTopLevel (env : Environment) (package : String) (m : Member)
    (origin : Origin) : env.Continues (env.addTopLevel package m origin) where
  classes n info hi := ⟨info, (env.classInfo?_addTopLevel package m origin n).trans hi, .refl info⟩
  topLevel p n := topLevel_addTopLevel env package m origin p n ▸ List.prefix_append _ _
  extensions n := extensions_addTopLevel env package m origin n ▸ List.prefix_append _ _
  packages n hp := by
    rw [hasPackage_addTopLevel]
    exact hasPackage_addPackage.mpr (.inl hp)

theorem continues_addMember {m : Member} (h : env.addMember name m = .ok after) :
    env.Continues after := by
  obtain ⟨first, hfirst, hd⟩ := redefines_addMember h
  refine hd.continues fun info hi => ?_
  cases hfirst.symm.trans hi
  exact first.continues_addMember m

theorem continues_addClass (h : env.addClass info = (after, none)) : env.Continues after := by
  obtain ⟨-, result, hd, ⟨hnone, -⟩ | ⟨first, hfirst, rfl⟩⟩ := redefines_addClass h
  · refine hd.continues fun first hfirst => ?_
    rw [hnone] at hfirst
    cases hfirst
  · refine hd.continues fun i hi => ?_
    cases hfirst.symm.trans hi
    exact first.continues_merge info

theorem declare_ofClass (h : env.declare (.ofClass info) = .ok after) :
    env.addClass info = (after, none) := by
  simp only [declare] at h
  split at h
  · rename_i heq
    cases h
    exact heq
  · cases h

theorem continues_declare {d : Declaration} (h : env.declare d = .ok after) :
    env.Continues after := by
  cases d with
  | package name =>
    cases h
    exact continues_addPackage env name
  | ofClass info => exact continues_addClass (declare_ofClass h)
  | member owner m => exact continues_addMember h
  | topLevel package m origin =>
    cases h
    exact continues_addTopLevel env package m origin

theorem ownerOrigin?_of_some (h : env.classInfo? name = some info) :
    env.ownerOrigin? name = some info.origin := by
  rw [ownerOrigin?, h, Option.map_some, Option.some_or]

theorem ownerOrigin?_of_none (h : env.classInfo? name = none) :
    env.ownerOrigin? name = env.facades[name]? := by
  rw [ownerOrigin?, h, Option.map_none, Option.none_or]

/-- The origin of a class is looked up before that of a file of its name. -/
theorem Continues.ownerOrigin? (h : env.Continues after) (hc : env.hasClass name) :
    after.ownerOrigin? name = env.ownerOrigin? name := by
  obtain ⟨info, hi⟩ := Option.isSome_iff_exists.mp (isSome_classInfo?.mpr hc)
  obtain ⟨info', hi', hcont⟩ := h.classes name info hi
  rw [ownerOrigin?_of_some hi', ownerOrigin?_of_some hi, hcont.origin]

theorem facades_addTopLevel (env : Environment) (package : String) (m : Member) (origin : Origin)
    (name : String) : (env.addTopLevel package m origin).facades[name]? =
      if m.owner = name then some origin else env.facades[name]? := by
  obtain ⟨packages, heq⟩ := env.exists_addPackage_eq package
  unfold addTopLevel
  rw [heq]
  dsimp only
  split <;> simp only [Std.HashMap.getElem?_insert, beq_iff_eq]

/-- Where no class is, each declaration says anew where what it declares comes from. -/
theorem ownerOrigin?_declare {d : Declaration} (h : env.declare d = .ok after)
    (hname : env.hasClass name = false) :
    after.ownerOrigin? name = (d.origin? name).or (env.ownerOrigin? name) := by
  have hnone : env.classInfo? name = none := by
    rw [← Option.not_isSome_iff_eq_none, isSome_classInfo?, hname]
    exact Bool.false_ne_true
  -- Only a class of that name and a facade can tell where the name comes from.
  cases d with
  | package p =>
    cases h
    obtain ⟨packages, heq⟩ := env.exists_addPackage_eq p
    rw [heq]
    rfl
  | ofClass info =>
    obtain ⟨-, result, hd, hresult⟩ := redefines_addClass (declare_ofClass h)
    by_cases hn : info.name = name
    · subst hn
      rcases hresult with ⟨-, rfl⟩ | ⟨first, hfirst, -⟩
      · rw [ownerOrigin?_of_some ((hd.puts _).trans (if_pos rfl)), Declaration.origin?, if_pos rfl,
          Option.some_or]
      · rw [hnone] at hfirst
        cases hfirst
    · have hafter : after.classInfo? name = none := by
        rw [hd.puts, if_neg (Ne.symm hn), hnone]
      rw [ownerOrigin?_of_none hafter, ownerOrigin?_of_none hnone, hd.facades, Declaration.origin?,
        if_neg hn, Option.none_or]
  | member owner m =>
    obtain ⟨first, hfirst, hd⟩ := redefines_addMember h
    have hn : name ≠ owner := by
      rintro rfl
      rw [hnone] at hfirst
      cases hfirst
    have hafter : after.classInfo? name = none := by rw [hd.puts, if_neg hn, hnone]
    rw [ownerOrigin?_of_none hafter, ownerOrigin?_of_none hnone, hd.facades, Declaration.origin?,
      Option.none_or]
  | topLevel package m origin =>
    cases h
    have hafter := (env.classInfo?_addTopLevel package m origin name).trans hnone
    rw [ownerOrigin?_of_none hafter, ownerOrigin?_of_none hnone, facades_addTopLevel,
      Declaration.origin?]
    split
    · rfl
    · rw [Option.none_or]

theorem declareAll_cons {d : Declaration} {ds : List Declaration}
    (h : env.declareAll (d :: ds) = .ok after) :
    ∃ mid, env.declare d = .ok mid ∧ mid.declareAll ds = .ok after := by
  unfold declareAll at h
  rw [List.foldlM_cons] at h
  exact exists_of_bind_eq_ok h

theorem continues_declareAll {ds : List Declaration} (h : env.declareAll ds = .ok after) :
    env.Continues after := by
  induction ds generalizing env with
  | nil =>
    cases h
    exact .refl _
  | cons d ds ih =>
    obtain ⟨mid, hd, hrest⟩ := declareAll_cons h
    exact (continues_declare hd).trans (ih hrest)

/-- A name keeps its origin if it is that of a class, or if all that is declared of this name has the
same origin. -/
theorem ownerOrigin?_declareAll {ds : List Declaration} (h : env.declareAll ds = .ok after)
    (hkeep : env.hasClass name ∨
      ∀ d ∈ ds, ∀ origin, d.origin? name = some origin → env.ownerOrigin? name = some origin) :
    after.ownerOrigin? name = env.ownerOrigin? name := by
  induction ds generalizing env with
  | nil =>
    cases h
    rfl
  | cons d ds ih =>
    obtain ⟨mid, hd, hrest⟩ := declareAll_cons h
    have hcont := continues_declare hd
    -- A class keeps its origin; for any other name, what is declared agrees with what was known.
    by_cases hclass : env.hasClass name
    · rw [ih hrest (.inl (hcont.hasClass hclass)), hcont.ownerOrigin? hclass]
    · have hsame := hkeep.resolve_left hclass
      have hmid : mid.ownerOrigin? name = env.ownerOrigin? name := by
        rw [ownerOrigin?_declare hd (Bool.eq_false_iff.mpr hclass)]
        cases horigin : d.origin? name with
        | none => exact Option.none_or
        | some origin =>
          rw [hsame d List.mem_cons_self origin horigin, Option.some_or]
      rw [ih hrest (.inr fun d' hd' origin ho => ?_), hmid]
      rw [hmid]
      exact hsame d' (List.mem_cons_of_mem d hd') origin ho

theorem nullabilityOf_congr {m : Member}
    (h : after.ownerOrigin? m.owner = env.ownerOrigin? m.owner) :
    after.nullabilityOf m = env.nullabilityOf m := by
  unfold nullabilityOf
  rw [h]

theorem isPlatform_congr (h : after.ownerOrigin? name = env.ownerOrigin? name) :
    after.isPlatform (.of name) = env.isPlatform (.of name) := by
  change decide (after.ownerOrigin? name = some .platform) =
    decide (env.ownerOrigin? name = some .platform)
  rw [h]

/-- Whatever is declared without an error, what was there stays and stands first. A class stays where
it comes from; so does any other name, if no class and no member of a file is declared under it with
another origin. What is known about a member then stays known. -/
theorem declareAll_continues (env after : Environment) (ds : List Declaration)
    (h : env.declareAll ds = .ok after) :
    env.Continues after ∧ ∀ name,
      (env.hasClass name ∨
        ∀ d ∈ ds, ∀ origin, d.origin? name = some origin → env.ownerOrigin? name = some origin) →
      after.ownerOrigin? name = env.ownerOrigin? name ∧
        ∀ m : Member, m.owner = name →
          after.nullabilityOf m = env.nullabilityOf m ∧
          after.isPlatform (.of m.owner) = env.isPlatform (.of m.owner) := by
  refine ⟨continues_declareAll h, fun name hkeep => ?_⟩
  have horigin := ownerOrigin?_declareAll h hkeep
  refine ⟨horigin, fun m hm => ?_⟩
  subst hm
  exact ⟨nullabilityOf_congr horigin, isPlatform_congr horigin⟩

/-- A platform file stays one when a class is declared and when another of its members is. -/
theorem declareAll_continues_file :
    let m : Member := { name := "f", kind := .method, type := .of "a.B", owner := "a.UtilKt" }
    let b : ClassInfo := { name := "a.B", package := "a", kind := .interface, origin := .source }
    let env := ({} : Environment).addTopLevel "a" m .platform
    let ds := [Declaration.ofClass b, .topLevel "a" { m with name := "g" } .platform]
    ∃ after, env.declareAll ds = .ok after ∧ env.Continues after ∧
      after.nullabilityOf m = .unknown := by
  intro m b env ds
  -- No class is declared, so the origin of the facade is that of its members.
  have hclass (name : String) : env.classInfo? name = none :=
    (classInfo?_addTopLevel {} "a" m .platform name).trans Std.HashMap.getElem?_empty
  have horigin : env.ownerOrigin? "a.UtilKt" = some .platform := by
    rw [ownerOrigin?_of_none (hclass _), facades_addTopLevel, if_pos rfl]
  have hrun : ∃ after, env.declareAll ds = .ok after := by
    rcases env.addClass_cases b with ⟨-, after, hadd, -⟩ | ⟨first, hfirst, -⟩
    · refine ⟨after.addTopLevel "a" { m with name := "g" } .platform, ?_⟩
      simp only [ds, declareAll, List.foldlM_cons, List.foldlM_nil, declare, hadd]
      rfl
    · rw [hclass] at hfirst
      cases hfirst
  obtain ⟨after, hafter⟩ := hrun
  obtain ⟨hcont, hkeep⟩ := declareAll_continues env after ds hafter
  have hsame : ∀ d ∈ ds, ∀ origin, d.origin? "a.UtilKt" = some origin →
      env.ownerOrigin? "a.UtilKt" = some origin := by
    simp [ds, b, m, Declaration.origin?, horigin]
  obtain ⟨-, hmember⟩ := hkeep "a.UtilKt" (.inr hsame)
  refine ⟨after, hafter, hcont, ?_⟩
  rw [(hmember m rfl).1, nullabilityOf, show m.owner = "a.UtilKt" from rfl, horigin]
  rfl

end Environment

end KotlinTree
