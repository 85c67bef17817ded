import KotlinTree.Proofs.Types.Declared
import KotlinTree.Proofs.Types.Package

/-!
Environments in which what is declared goes together: classes with their members, companions and
packages, files with theirs. Main statement: whatever is declared after something consistent, the
whole stays consistent.
-/

namespace KotlinTree

/-- What is grouped by name are the members, none other. -/
theorem ClassInfo.mem_of_mem_groupedMembers {info : ClassInfo} {m : Member}
    (h : m ∈ info.groupedMembers) : m ∈ info.members := by
  obtain ⟨name, -, hm⟩ := List.mem_flatMap.mp h
  exact (List.mem_filter.mp hm).1

namespace Environment

/-- When more is declared, kinds of classes, packages and owners stay known. -/
structure Retains (before after : Environment) : Prop where
  kinds : ∀ name kind, before.kindOf? name = some kind → after.kindOf? name = some kind
  packages : ∀ name, before.hasPackage name → after.hasPackage name
  owners : ∀ owner, (before.ownerOrigin? owner).isSome → (after.ownerOrigin? owner).isSome

/-- A class goes together with what else is declared. -/
structure ClassFits (env : Environment) (name : String) (info : ClassInfo) : Prop where
  name_eq : info.name = name
  owner : ∀ m ∈ info.members, m.owner = name
  /-- No accessor is stored, only getters that it can stand for. -/
  isDeclared : ∀ m ∈ info.members, m.isSynthetic = false
  companion : ∀ c, info.companion = some c → env.kindOf? c = some .companionObject
  package : env.DeclaresPackage info.package

/-- A member of a file goes together with what else is declared. -/
structure FileMemberFits (env : Environment) (name : String) (m : Member) : Prop where
  name_eq : m.name = name
  isDeclared : m.isSynthetic = false
  owner : (env.ownerOrigin? m.owner).isSome

/-- All that is declared goes together. -/
structure Consistent (env : Environment) : Prop where
  ordered : ∀ name info, env.classInfo? name = some info → name ∈ env.order.toList
  classes : ∀ name info, env.classInfo? name = some info → env.ClassFits name info
  topLevel : ∀ package name, ∀ m ∈ env.topLevel package name, env.FileMemberFits name m
  package : ∀ package name, env.topLevel package name ≠ [] → env.DeclaresPackage package
  extensions : ∀ name, ∀ m ∈ env.extensions.getD name [], env.FileMemberFits name m

/-- An environment has one class more than another one, or another definition of a class that is
there, and perhaps more packages. -/
structure Redefines (before after : Environment) (name : String) (info : ClassInfo) : Prop where
  puts : before.Puts after info name
  kind : ∀ first, before.classInfo? name = some first → first.kind = info.kind
  packages : ∀ package, before.hasPackage package → after.hasPackage package
  order : ∀ n ∈ before.order.toList, n ∈ after.order.toList
  ordered : before.classInfo? name = none → name ∈ after.order.toList
  topLevels : after.topLevels = before.topLevels
  extensions : after.extensions = before.extensions
  facades : after.facades = before.facades

section
variable {env mid after : Environment} {name : String} {info : ClassInfo} {m : Member}

theorem Retains.refl (env : Environment) : env.Retains env where
  kinds _ _ h := h
  packages _ h := h
  owners _ h := h

theorem Retains.trans (h : env.Retains mid) (h' : mid.Retains after) : env.Retains after where
  kinds name kind hk := h'.kinds name kind (h.kinds name kind hk)
  packages name hp := h'.packages name (h.packages name hp)
  owners owner ho := h'.owners owner (h.owners owner ho)

theorem DeclaresPackage.mono {package : String} (h : env.DeclaresPackage package)
    (hr : env.Retains after) : after.DeclaresPackage package :=
  fun front hne hfront => hr.packages front (h front hne hfront)

theorem ClassFits.mono (h : env.ClassFits name info) (hr : env.Retains after) :
    after.ClassFits name info where
  name_eq := h.name_eq
  owner := h.owner
  isDeclared := h.isDeclared
  companion c hc := hr.kinds c _ (h.companion c hc)
  package := h.package.mono hr

theorem FileMemberFits.mono (h : env.FileMemberFits name m) (hr : env.Retains after) :
    after.FileMemberFits name m where
  name_eq := h.name_eq
  isDeclared := h.isDeclared
  owner := hr.owners _ h.owner

theorem ownerOrigin?_isSome {owner : String} : (env.ownerOrigin? owner).isSome ↔
    (env.classInfo? owner).isSome ∨ env.facades[owner]?.isSome := by
  rw [ownerOrigin?, Option.isSome_or, Option.isSome_map, Bool.or_eq_true]

theorem isSome_classInfo? : (env.classInfo? name).isSome ↔ env.hasClass name := by
  unfold classInfo? hasClass
  rw [← Std.HashMap.isSome_getElem?_eq_contains]

theorem Redefines.kindOf? (h : env.Redefines after name info) (n : String) :
    after.kindOf? n = if n = name then some info.kind else env.kindOf? n := by
  rw [Environment.kindOf?, h.puts n]
  split
  · rfl
  · rfl

theorem Redefines.retains (h : env.Redefines after name info) : env.Retains after where
  kinds n kind hk := by
    rw [h.kindOf? n]
    split
    · rename_i hn
      subst hn
      obtain ⟨first, hfirst, rfl⟩ := Option.map_eq_some_iff.mp hk
      rw [h.kind first hfirst]
    · exact hk
  packages := h.packages
  owners owner ho := by
    rw [ownerOrigin?_isSome, h.puts owner, h.facades]
    rcases ownerOrigin?_isSome.mp ho with hclass | hfacade
    · left
      split
      · rfl
      · exact hclass
    · exact .inr hfacade

/-- An environment stays consistent when a class that fits is put in. -/
theorem Consistent.redefines (h : env.Consistent) (hd : env.Redefines after name info)
    (hfits : after.ClassFits name info) : after.Consistent where
  -- Members stay as they were; the class that is redefined is the one to look at.
  ordered n i hi := by
    rw [hd.puts n] at hi
    split at hi
    · rename_i hn
      subst hn
      cases hc : env.classInfo? n with
      | none => exact hd.ordered hc
      | some first => exact hd.order n (h.ordered n first hc)
    · exact hd.order n (h.ordered n i hi)
  classes n i hi := by
    rw [hd.puts n] at hi
    split at hi
    · rename_i hn
      cases hi
      exact hn ▸ hfits
    · exact (h.classes n i hi).mono hd.retains
  topLevel package n m hm := by
    unfold Environment.topLevel at hm
    rw [hd.topLevels] at hm
    exact (h.topLevel package n m hm).mono hd.retains
  package package n hne := by
    unfold Environment.topLevel at hne
    rw [hd.topLevels] at hne
    exact (h.package package n hne).mono hd.retains
  extensions n m hm := by
    rw [hd.extensions] at hm
    exact (h.extensions n m hm).mono hd.retains

theorem redefines_modifyClass {f : ClassInfo → ClassInfo} {first : ClassInfo}
    (hc : env.classInfo? name = some first) (hf : (f first).kind = first.kind) :
    env.Redefines (env.modifyClass name f) name (f first) := by
  have hputs := modifyClass_of_some hc f
  have hsome := hc
  unfold classInfo? at hc
  have heq : env.modifyClass name f = { env with classes := env.classes.insert name (f first) } := by
    unfold modifyClass
    rw [hc]
  refine ⟨hputs, fun i hi => ?_, ?_, ?_, ?_, ?_, ?_, ?_⟩
  · cases hsome.symm.trans hi
    exact hf.symm
  · rw [heq]
    exact fun _ h => h
  · rw [heq]
    exact fun _ h => h
  · intro hnone
    rw [hsome] at hnone
    cases hnone
  all_goals rw [heq]

theorem redefines_addMember (h : env.addMember name m = .ok after) :
    ∃ first, env.classInfo? name = some first ∧ env.Redefines after name (first.addMember m) := by
  cases hc : env.classInfo? name with
  | none =>
    unfold addMember at h
    unfold classInfo? at hc
    rw [hc] at h
    cases h
  | some first =>
    have hmodify : after = env.modifyClass name (·.addMember m) := by
      unfold addMember at h
      unfold classInfo? at hc
      unfold modifyClass
      rw [hc] at h ⊢
      exact (Except.ok.inj h).symm
    rw [hmodify]
    exact ⟨first, rfl, redefines_modifyClass hc rfl⟩

/-- A class that is declared is put in, alone or merged into its first declaration. -/
theorem redefines_addClass (h : env.addClass info = (after, none)) :
    after.DeclaresPackage info.package ∧ ∃ result, env.Redefines after info.name result ∧
      ((env.classInfo? info.name = none ∧ result = info) ∨
        ∃ first, env.classInfo? info.name = some first ∧ result = first.merge info) := by
  have hsame (n : String) := env.classInfo?_addPackage info.package n
  have hpackages : ∀ package, env.hasPackage package →
      (env.addPackage info.package).hasPackage package := fun _ hp =>
    hasPackage_addPackage.mpr (.inl hp)
  -- The package is added first, and changes nothing of classes.
  have hrest : (env.addPackage info.package).topLevels = env.topLevels ∧
      (env.addPackage info.package).extensions = env.extensions ∧
      (env.addPackage info.package).facades = env.facades ∧
      (env.addPackage info.package).order = env.order := by
    obtain ⟨packages, heq⟩ := env.exists_addPackage_eq info.package
    rw [heq]
    exact ⟨rfl, rfl, rfl, rfl⟩
  obtain ⟨htops, hexts, hfacades, horder⟩ := hrest
  have hputs (i : ClassInfo) (env' : Environment)
      (hp : (env.addPackage info.package).Puts env' i info.name) : env.Puts env' i info.name := by
    intro n
    rw [hp n, hsame]
  have hdeclares := declaresPackage_addPackage env info.package
  unfold addClass at h
  dsimp only at h
  -- The class is new, or another part of one that is known and of the same kind.
  cases hc : env.classInfo? info.name with
  | none =>
    have hnone := hsame info.name
    rw [hc, classInfo?] at hnone
    rw [hnone] at h
    obtain ⟨rfl, -⟩ := Prod.mk.inj h
    refine ⟨hdeclares, info, ⟨hputs _ _ (puts_insert _ _ _), ?_, hpackages, ?_, ?_, htops, hexts,
      hfacades⟩, .inl ⟨rfl, rfl⟩⟩
    · intro first hfirst
      rw [hc] at hfirst
      cases hfirst
    · intro n hn
      dsimp only
      rw [horder, Array.toList_push]
      exact List.mem_append_left _ hn
    · intro _
      dsimp only
      rw [Array.toList_push]
      exact List.mem_append_right _ (List.mem_singleton_self _)
  | some first =>
    have hsome := hsame info.name
    rw [hc, classInfo?] at hsome
    rw [hsome] at h
    dsimp only at h
    split at h
    · cases h
    · rename_i hkind
      obtain ⟨rfl, -⟩ := Prod.mk.inj h
      refine ⟨hdeclares, first.merge info, ⟨hputs _ _ (puts_insert _ _ _), ?_, hpackages, ?_, ?_,
        htops, hexts, hfacades⟩, .inr ⟨first, rfl, rfl⟩⟩
      · intro i hi
        cases hc.symm.trans hi
        rfl
      · intro n hn
        dsimp only
        rwa [horder]
      · intro hnone
        rw [hc] at hnone
        cases hnone

theorem retains_addPackage (env : Environment) (package : String) :
    env.Retains (env.addPackage package) where
  kinds name kind hk := by rwa [kindOf?, classInfo?_addPackage]
  packages _ hp := hasPackage_addPackage.mpr (.inl hp)
  owners owner ho := by
    obtain ⟨packages, heq⟩ := env.exists_addPackage_eq package
    rw [heq]
    exact ho

theorem Consistent.addPackage (h : env.Consistent) (package : String) :
    (env.addPackage package).Consistent := by
  have hr := retains_addPackage env package
  obtain ⟨packages, heq⟩ := env.exists_addPackage_eq package
  rw [heq] at hr ⊢
  exact ⟨h.ordered, fun n i hi => (h.classes n i hi).mono hr,
    fun p n m hm => (h.topLevel p n m hm).mono hr, fun p n hne => (h.package p n hne).mono hr,
    fun n m hm => (h.extensions n m hm).mono hr⟩

/-- A class that fits with what is declared before it. -/
structure Brings (env : Environment) (info : ClassInfo) : Prop where
  owner : ∀ m ∈ info.members, m.owner = info.name
  isDeclared : ∀ m ∈ info.members, m.isSynthetic = false
  companion : ∀ c, info.companion = some c → env.kindOf? c = some .companionObject

theorem Consistent.addClass (h : env.Consistent) (hb : env.Brings info)
    (ha : env.addClass info = (after, none)) :
    after.Consistent ∧ env.Retains after ∧ after.kindOf? info.name = some info.kind := by
  obtain ⟨hpackage, result, hd, hresult⟩ := redefines_addClass ha
  have hr := hd.retains
  have hkind : after.kindOf? info.name = some result.kind := by rw [hd.kindOf?, if_pos rfl]
  rcases hresult with ⟨-, rfl⟩ | ⟨first, hfirst, rfl⟩
  · exact ⟨h.redefines hd ⟨rfl, hb.owner, hb.isDeclared,
      fun c hc => hr.kinds c _ (hb.companion c hc), hpackage⟩, hr, hkind⟩
  · have hfits := (h.classes _ _ hfirst).mono hr
    refine ⟨h.redefines hd ⟨hfits.name_eq, ?_, ?_, ?_, hfits.package⟩, hr, ?_⟩
    · intro m hm
      rcases List.mem_append.mp hm with hm | hm
      · exact hfits.owner m hm
      · exact hb.owner m (ClassInfo.mem_of_mem_groupedMembers hm)
    · intro m hm
      rcases List.mem_append.mp hm with hm | hm
      · exact hfits.isDeclared m hm
      · exact hb.isDeclared m (ClassInfo.mem_of_mem_groupedMembers hm)
    · intro c hc
      rcases Option.or_eq_some_iff.mp hc with hc | ⟨-, hc⟩
      · exact hfits.companion c hc
      · exact hr.kinds c _ (hb.companion c hc)
    · -- Had the kinds been different, the class would not have been added.
      rcases env.addClass_cases info with ⟨hnone, -⟩ | ⟨i, hi, ⟨-, e, he⟩ | ⟨heq, -⟩⟩
      · rw [hfirst] at hnone
        cases hnone
      · rw [he] at ha
        cases ha
      · cases hfirst.symm.trans hi
        rw [hkind, ClassInfo.merge_kind, heq]

/-- A class that is there is changed, but not its name, its kind, its package and its members. -/
theorem Consistent.modifyClass (h : env.Consistent) (name : String) (f : ClassInfo → ClassInfo)
    (hname : ∀ info, (f info).name = info.name) (hkind : ∀ info, (f info).kind = info.kind)
    (hpackage : ∀ info, (f info).package = info.package)
    (hmembers : ∀ info, (f info).members = info.members)
    (hcompanion : ∀ info c, (f info).companion = some c →
      info.companion = some c ∨ env.kindOf? c = some .companionObject) :
    (env.modifyClass name f).Consistent ∧ env.Retains (env.modifyClass name f) := by
  cases hc : env.classInfo? name with
  | none =>
    rw [modifyClass_of_none hc f]
    exact ⟨h, .refl env⟩
  -- Nothing but modifiers of the class changes, so what fitted still fits.
  | some first =>
    have hd := redefines_modifyClass hc (hkind first)
    have hr := hd.retains
    have hfits := (h.classes name first hc).mono hr
    refine ⟨h.redefines hd ⟨?_, ?_, ?_, ?_, ?_⟩, hr⟩
    · rw [hname, hfits.name_eq]
    · rw [hmembers]
      exact hfits.owner
    · rw [hmembers]
      exact hfits.isDeclared
    · intro c hc
      rcases hcompanion first c hc with hc | hc
      · exact hfits.companion c hc
      · exact hr.kinds c _ hc
    · rw [hpackage]
      exact hfits.package

theorem Consistent.addMember (h : env.Consistent) (hm : m.isSynthetic = false)
    (ha : env.addMember m.owner m = .ok after) : after.Consistent ∧ env.Retains after := by
  obtain ⟨first, hfirst, hd⟩ := redefines_addMember ha
  have hr := hd.retains
  have hfits := (h.classes _ first hfirst).mono hr
  refine ⟨h.redefines hd ⟨hfits.name_eq, ?_, ?_, hfits.companion, hfits.package⟩, hr⟩
  · intro m' hm'
    rcases List.mem_append.mp hm' with hm' | hm'
    · exact hfits.owner m' hm'
    · rw [List.mem_singleton.mp hm']
  · intro m' hm'
    rcases List.mem_append.mp hm' with hm' | hm'
    · exact hfits.isDeclared m' hm'
    · rw [List.mem_singleton.mp hm', hm]

/-- A member of a list under some key is one that was there, or the new one under its own key. -/
theorem mem_insert_append {κ : Type} [BEq κ] [Hashable κ] [LawfulBEq κ] [LawfulHashable κ]
    {lists : Std.HashMap κ (List Member)} {key key' : κ} {m' : Member}
    (h : m' ∈ (lists.insert key (lists.getD key [] ++ [m])).getD key' []) :
    m' ∈ lists.getD key' [] ∨ (key' = key ∧ m' = m) := by
  rw [Std.HashMap.getD_insert] at h
  split at h
  · rename_i hkey
    rw [beq_iff_eq] at hkey
    subst hkey
    rcases List.mem_append.mp h with h | h
    · exact .inl h
    · exact .inr ⟨rfl, List.mem_singleton.mp h⟩
  · exact .inl h

/-- Where the members of a file come from is noted. -/
theorem Consistent.noteFacade (h : env.Consistent) (owner : String) (origin : Origin) :
    let after := { env with facades := env.facades.insert owner origin }
    after.Consistent ∧ env.Retains after ∧ (after.ownerOrigin? owner).isSome := by
  intro after
  have hr : env.Retains after := by
    refine ⟨fun _ _ hk => hk, fun _ hp => hp, fun o ho => ?_⟩
    rw [ownerOrigin?_isSome] at ho ⊢
    refine ho.imp_right fun hfacade => ?_
    change (env.facades.insert owner origin)[o]?.isSome
    rw [Std.HashMap.getElem?_insert]
    split
    · rfl
    · exact hfacade
  refine ⟨⟨h.ordered, fun n i hi => (h.classes n i hi).mono hr,
    fun p n m hm => (h.topLevel p n m hm).mono hr, fun p n hne => (h.package p n hne).mono hr,
    fun n m hm => (h.extensions n m hm).mono hr⟩, hr, ownerOrigin?_isSome.mpr (.inr ?_)⟩
  change (env.facades.insert owner origin)[owner]?.isSome
  rw [Std.HashMap.getElem?_insert_self]
  rfl

theorem Consistent.noteExtension (h : env.Consistent) (hm : env.FileMemberFits m.name m) :
    let lists := env.extensions.insert m.name (env.extensions.getD m.name [] ++ [m])
    let after := { env with extensions := lists }
    after.Consistent ∧ env.Retains after := by
  intro lists after
  have hr : env.Retains after := ⟨fun _ _ hk => hk, fun _ hp => hp, fun _ ho => ho⟩
  refine ⟨⟨h.ordered, fun n i hi => (h.classes n i hi).mono hr,
    fun p n m hm => (h.topLevel p n m hm).mono hr, fun p n hne => (h.package p n hne).mono hr,
    fun n m' hm' => ?_⟩, hr⟩
  rcases mem_insert_append hm' with hm' | ⟨rfl, rfl⟩
  · exact (h.extensions n m' hm').mono hr
  · exact hm.mono hr

theorem Consistent.noteTopLevel (h : env.Consistent) (hm : env.FileMemberFits m.name m)
    {package : String} (hp : env.DeclaresPackage package) :
    let key := (package, m.name)
    let lists := env.topLevels.insert key (env.topLevels.getD key [] ++ [m])
    let after := { env with topLevels := lists }
    after.Consistent ∧ env.Retains after := by
  intro key lists after
  have hr : env.Retains after := ⟨fun _ _ hk => hk, fun _ hp => hp, fun _ ho => ho⟩
  refine ⟨⟨h.ordered, fun n i hi => (h.classes n i hi).mono hr, fun p n m' hm' => ?_,
    fun p n hne => ?_, fun n m hm => (h.extensions n m hm).mono hr⟩, hr⟩
  · rcases mem_insert_append hm' with hm' | ⟨hkey, rfl⟩
    · exact (h.topLevel p n m' hm').mono hr
    · obtain ⟨-, rfl⟩ := Prod.mk.inj hkey
      exact hm.mono hr
  · obtain ⟨m', hm'⟩ := List.exists_mem_of_ne_nil _ hne
    rcases mem_insert_append hm' with hm' | ⟨hkey, -⟩
    · exact (h.package p n (List.ne_nil_of_mem hm')).mono hr
    · obtain ⟨rfl, -⟩ := Prod.mk.inj hkey
      exact hp.mono hr

/-- First the package and the owner become known, then the member is noted. -/
theorem Consistent.addTopLevel (h : env.Consistent) (package : String) (hm : m.isSynthetic = false)
    (origin : Origin) : (env.addTopLevel package m origin).Consistent ∧
      env.Retains (env.addTopLevel package m origin) := by
  have hpackage := declaresPackage_addPackage env package
  have hr := retains_addPackage env package
  obtain ⟨hfacade, hr', howner⟩ := (h.addPackage package).noteFacade m.owner origin
  have hfits : FileMemberFits _ m.name m := ⟨rfl, hm, howner⟩
  unfold Environment.addTopLevel
  dsimp only
  split
  · obtain ⟨hc, hlast⟩ := hfacade.noteExtension hfits
    exact ⟨hc, (hr.trans hr').trans hlast⟩
  · obtain ⟨hc, hlast⟩ := hfacade.noteTopLevel hfits (hpackage.mono hr')
    exact ⟨hc, (hr.trans hr').trans hlast⟩

end

end Environment

end KotlinTree
