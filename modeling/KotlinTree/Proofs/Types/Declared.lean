import KotlinTree.Types.Stub

/-!
Which classes an environment declares, what declaring more of them comes to, and when nothing is
missing at the end.
-/

namespace KotlinTree

/-- What comes of two steps comes of the second after the first. -/
theorem exists_of_bind_eq_ok {ε α β : Type} {r : Except ε α} {f : α → Except ε β} {b : β}
    (h : r >>= f = .ok b) : ∃ a, r = .ok a ∧ f a = .ok b := by
  cases r with
  | error e => cases h
  | ok a => exact ⟨a, rfl, h⟩

namespace Environment

/-- The kind with which a class is declared. -/
def kindOf? (env : Environment) (name : String) : Option ClassKind :=
  (env.classInfo? name).map ClassInfo.kind

/-- The classes of an environment are those of a list, and what they extend is among some names. -/
structure Declares (env : Environment) (ds : List (String × ClassKind)) (known : List String) :
    Prop where
  kinds : ∀ name kind, env.kindOf? name = some kind ↔ (name, kind) ∈ ds
  supertypes : ∀ name info, env.classInfo? name = some info → ∀ t ∈ info.supertypes, t ∈ known

/-- One of some new declarations has the name of another one, or of one that was there before, and
is of another kind. -/
structure Conflict (ds new : List (String × ClassKind)) (name : String)
    (first second : ClassKind) : Prop where
  first_mem : (name, first) ∈ ds ++ new
  second_mem : (name, second) ∈ new
  ne : first ≠ second

/-- What declaring more classes comes to: all are declared, or one of them conflicts. -/
def Outcome (known : List String) (ds new : List (String × ClassKind)) :
    Except EnvironmentError Environment → Prop
  | .ok env => env.Declares (ds ++ new) known
  | .error e => ∃ name first second,
    e = .conflictingClassKind name first second ∧ Conflict ds new name first second

/-- A package is declared beside all else. -/
theorem exists_addPackage_eq (env : Environment) (package : String) :
    ∃ packages, env.addPackage package = { env with packages } := by
  unfold addPackage
  split
  · exact ⟨env.packages, rfl⟩
  · exact ⟨_, rfl⟩

theorem classInfo?_addPackage (env : Environment) (package name : String) :
    (env.addPackage package).classInfo? name = env.classInfo? name := by
  unfold addPackage
  split <;> rfl

theorem classInfo?_addTopLevel (env : Environment) (package : String) (m : Member)
    (origin : Origin) (name : String) :
    (env.addTopLevel package m origin).classInfo? name = env.classInfo? name := by
  rw [← classInfo?_addPackage env package]
  unfold addTopLevel
  dsimp only
  split <;> rfl

/-- Two environments have the same classes, but for one that is put in. -/
def Puts (before after : Environment) (info : ClassInfo) (name : String) : Prop :=
  ∀ n, after.classInfo? n = if n = name then some info else before.classInfo? n

theorem puts_insert (env : Environment) (name : String) (info : ClassInfo) :
    env.Puts { env with classes := env.classes.insert name info } info name := by
  intro n
  simp only [classInfo?, Std.HashMap.getElem?_insert, beq_iff_eq]
  by_cases h : n = name
  · rw [if_pos h, if_pos h.symm]
  · rw [if_neg h, if_neg (Ne.symm h)]

theorem modifyClass_of_some {env : Environment} {name : String} {info : ClassInfo}
    (h : env.classInfo? name = some info) (f : ClassInfo → ClassInfo) :
    env.Puts (env.modifyClass name f) (f info) name := by
  unfold classInfo? at h
  unfold modifyClass
  rw [h]
  exact env.puts_insert name (f info)

theorem modifyClass_of_none {env : Environment} {name : String}
    (h : env.classInfo? name = none) (f : ClassInfo → ClassInfo) : env.modifyClass name f = env := by
  unfold classInfo? at h
  unfold modifyClass
  rw [h]

theorem addMember_of_some {env : Environment} {owner : String} {info : ClassInfo}
    (h : env.classInfo? owner = some info) (m : Member) :
    ∃ after, env.addMember owner m = .ok after ∧ env.Puts after (info.addMember m) owner := by
  unfold classInfo? at h
  unfold addMember
  rw [h]
  exact ⟨_, rfl, env.puts_insert owner (info.addMember m)⟩

/-- A class is declared for the first time, or conflicts, or adds to its first declaration. -/
theorem addClass_cases (env : Environment) (info : ClassInfo) :
    (env.classInfo? info.name = none ∧
      ∃ after, env.addClass info = (after, none) ∧ env.Puts after info info.name) ∨
    ∃ first, env.classInfo? info.name = some first ∧
      ((first.kind ≠ info.kind ∧ ∃ after, env.addClass info =
          (after, some (.conflictingClassKind info.name first.kind info.kind))) ∨
        (first.kind = info.kind ∧ ∃ after, env.addClass info = (after, none) ∧
          env.Puts after (first.merge info) info.name)) := by
  have hsame (n : String) := env.classInfo?_addPackage info.package n
  have hputs (i : ClassInfo) (after : Environment)
      (h : (env.addPackage info.package).Puts after i info.name) : env.Puts after i info.name := by
    intro n
    rw [h n, hsame]
  unfold addClass
  dsimp only
  -- The class is new, or its kind is compared with the one that is known.
  cases hc : env.classInfo? info.name with
  | none =>
    rw [← hsame, classInfo?] at hc
    rw [hc]
    exact .inl ⟨rfl, _, rfl, hputs _ _ ((env.addPackage info.package).puts_insert _ _)⟩
  | some first =>
    rw [← hsame, classInfo?] at hc
    rw [hc]
    refine .inr ⟨first, rfl, ?_⟩
    by_cases hk : first.kind = info.kind
    · simp only [hk, ne_eq, not_true_eq_false, if_false]
      exact .inr ⟨trivial, _, rfl, hputs _ _ ((env.addPackage info.package).puts_insert _ _)⟩
    · simp only [ne_eq, hk, not_false_eq_true, if_true]
      exact .inl ⟨trivial, _, rfl⟩

end Environment

namespace ClassInfo

@[simp] theorem merge_kind (first second : ClassInfo) : (first.merge second).kind = first.kind := rfl

/-- Names are added once each, and nothing else is. -/
theorem mem_of_mem_foldl_add {added all : List String} {t : String}
    (h : t ∈ added.foldl (fun all name => if all.contains name then all else all ++ [name]) all) :
    t ∈ all ∨ t ∈ added := by
  induction added generalizing all with
  | nil => exact .inl h
  | cons name added ih =>
    rcases ih h with hall | hadded
    · dsimp only at hall
      split at hall
      · exact .inl hall
      · rcases List.mem_append.mp hall with hall | hname
        · exact .inl hall
        · exact .inr (List.mem_cons.mpr (.inl (List.mem_singleton.mp hname)))
    · exact .inr (List.mem_cons_of_mem name hadded)

theorem mem_merge_supertypes {first second : ClassInfo} {t : String}
    (h : t ∈ (first.merge second).supertypes) : t ∈ first.supertypes ∨ t ∈ second.supertypes :=
  mem_of_mem_foldl_add h

end ClassInfo

namespace Environment

section
variable {env after : Environment} {ds new : List (String × ClassKind)} {known : List String}
  {info : ClassInfo} {name : String}

theorem Declares.hasClass_iff (h : env.Declares ds known) (name : String) :
    env.hasClass name ↔ name ∈ ds.map Prod.fst := by
  have hkind : (∃ kind, env.kindOf? name = some kind) ↔ env.hasClass name := by
    unfold kindOf? classInfo? hasClass
    rw [← Std.HashMap.isSome_getElem?_eq_contains]
    cases env.classes[name]? with
    | none => simp
    | some info => simp
  rw [← hkind, List.mem_map]
  constructor
  · rintro ⟨kind, hk⟩
    exact ⟨(name, kind), (h.kinds name kind).mp hk, rfl⟩
  · rintro ⟨⟨n, kind⟩, hmem, rfl⟩
    exact ⟨kind, (h.kinds n kind).mpr hmem⟩

theorem Declares.exists_info {kind : ClassKind} (h : env.Declares ds known)
    (hd : (name, kind) ∈ ds) : ∃ info, env.classInfo? name = some info ∧ info.kind = kind := by
  have hk := (h.kinds name kind).mpr hd
  unfold kindOf? at hk
  rwa [Option.map_eq_some_iff] at hk

theorem Declares.mem_of_info (h : env.Declares ds known) (hi : env.classInfo? name = some info) :
    (name, info.kind) ∈ ds := by
  rw [← h.kinds, kindOf?, hi, Option.map_some]

/-- Declarations that stand side by side in an environment are of one kind for each name. -/
theorem Declares.unique {k l : ClassKind} (h : env.Declares ds known) (hk : (name, k) ∈ ds)
    (hl : (name, l) ∈ ds) : k = l := by
  rw [← h.kinds] at hk hl
  exact Option.some.inj (hk.symm.trans hl)

theorem Declares.mono {known' : List String} (h : env.Declares ds known) (hs : known ⊆ known') :
    env.Declares ds known' where
  kinds := h.kinds
  supertypes n i hi t ht := hs (h.supertypes n i hi t ht)

theorem Declares.of_classInfo? (h : env.Declares ds known)
    (he : ∀ n, after.classInfo? n = env.classInfo? n) : after.Declares ds known where
  kinds n k := by
    rw [← h.kinds, kindOf?, kindOf?, he]
  supertypes n i hi := h.supertypes n i (he n ▸ hi)

/-- A class is put in whose kind is the one under which it may be there already. -/
theorem Declares.puts (h : env.Declares ds known) (hp : env.Puts after info name)
    (hk : ∀ kind, (name, kind) ∈ ds → kind = info.kind) (hs : ∀ t ∈ info.supertypes, t ∈ known) :
    after.Declares (ds ++ [(name, info.kind)]) known where
  kinds n k := by
    rw [List.mem_append, List.mem_singleton, Prod.mk.injEq, kindOf?, hp n]
    -- Of the class itself, only one kind has been declared; others keep theirs.
    by_cases hn : n = name
    · subst hn
      rw [if_pos rfl, Option.map_some, Option.some.injEq]
      constructor
      · rintro rfl
        exact .inr ⟨rfl, rfl⟩
      · rintro (hd | ⟨-, rfl⟩)
        · exact (hk k hd).symm
        · rfl
    · rw [if_neg hn, ← kindOf?, h.kinds]
      constructor
      · exact .inl
      · rintro (hd | ⟨rfl, -⟩)
        · exact hd
        · exact absurd rfl hn
  supertypes n i hi := by
    rw [hp n] at hi
    split at hi
    · cases hi
      exact hs
    · exact h.supertypes n i hi

/-- A class that is there is changed, but stays of its kind. -/
theorem Declares.changes {before : ClassInfo} (h : env.Declares ds known)
    (hb : env.classInfo? name = some before) (hp : env.Puts after info name)
    (hk : info.kind = before.kind) (hs : ∀ t ∈ info.supertypes, t ∈ known) :
    after.Declares ds known := by
  have hmem := h.mem_of_info hb
  have hput := h.puts hp (fun kind hd => (h.unique hd hmem).trans hk.symm) hs
  refine ⟨?_, hput.supertypes⟩
  intro n k
  rw [hput.kinds, List.mem_append, List.mem_singleton, hk]
  constructor
  · rintro (hd | hd)
    · exact hd
    · exact hd ▸ hmem
  · exact .inl

/-- As `changes`, where the class need not be there. -/
theorem Declares.modifyClass (h : env.Declares ds known) (name : String)
    (f : ClassInfo → ClassInfo) (hk : ∀ info, (f info).kind = info.kind)
    (hs : ∀ info, env.classInfo? name = some info → ∀ t ∈ (f info).supertypes, t ∈ known) :
    (env.modifyClass name f).Declares ds known := by
  cases hc : env.classInfo? name with
  | none => rwa [modifyClass_of_none hc f]
  | some info => exact h.changes hc (modifyClass_of_some hc f) (hk info) (hs info hc)

/-- A class either conflicts with what is declared, or is declared besides. -/
theorem Declares.addClass (h : env.Declares ds known) (info : ClassInfo)
    (hs : ∀ t ∈ info.supertypes, t ∈ known) :
    (∃ after, env.addClass info = (after, none) ∧
      after.Declares (ds ++ [(info.name, info.kind)]) known) ∨
    ∃ after first, env.addClass info =
        (after, some (.conflictingClassKind info.name first info.kind)) ∧
      Conflict ds [(info.name, info.kind)] info.name first info.kind := by
  rcases env.addClass_cases info with ⟨hnone, after, ha, hp⟩ | ⟨first, hf, hne | ⟨heq, after, ha, hp⟩⟩
  · refine .inl ⟨after, ha, h.puts hp ?_ hs⟩
    intro kind hd
    obtain ⟨i, hi, -⟩ := h.exists_info hd
    rw [hnone] at hi
    cases hi
  · obtain ⟨hne, after, ha⟩ := hne
    exact .inr ⟨after, first.kind, ha,
      List.mem_append_left _ (h.mem_of_info hf), List.mem_singleton_self _, hne⟩
  · refine .inl ⟨after, ha, ?_⟩
    have hmem := h.mem_of_info hf
    have hput := h.puts hp (fun kind hd => h.unique hd hmem) fun t ht =>
      (ClassInfo.mem_merge_supertypes ht).elim (h.supertypes _ _ hf t) (hs t)
    rwa [ClassInfo.merge_kind, heq] at hput

theorem Conflict.append_left {first second : ClassKind} {more : List (String × ClassKind)}
    (h : Conflict ds new name first second) : Conflict ds (new ++ more) name first second where
  first_mem := by
    rw [← List.append_assoc]
    exact List.mem_append_left more h.first_mem
  second_mem := List.mem_append_left more h.second_mem
  ne := h.ne

theorem Conflict.append_right {first second : ClassKind} {more : List (String × ClassKind)}
    (h : Conflict (ds ++ new) more name first second) :
    Conflict ds (new ++ more) name first second where
  first_mem := by
    rw [← List.append_assoc]
    exact h.first_mem
  second_mem := List.mem_append_right new h.second_mem
  ne := h.ne

/-- Declarations one after another, each with the classes that it declares. -/
theorem outcome_foldlM {α : Type} {step : Environment → α → Except EnvironmentError Environment}
    (declared : α → List (String × ClassKind)) {xs : List α} (h : env.Declares ds known)
    (hstep : ∀ env' ds', ds ⊆ ds' → env'.Declares ds' known → ∀ x ∈ xs,
      Outcome known ds' (declared x) (step env' x)) :
    Outcome known ds (xs.flatMap declared) (xs.foldlM step env) := by
  -- A conflict stays one whatever is declared around it.
  induction xs generalizing env ds with
  | nil => exact ((List.append_nil ds).symm ▸ h : env.Declares (ds ++ []) known)
  | cons x xs ih =>
    have hx := hstep env ds (List.Subset.refl ds) h x List.mem_cons_self
    rw [List.foldlM_cons, List.flatMap_cons]
    cases hs : step env x with
    | error e =>
      rw [hs] at hx
      obtain ⟨name, first, second, he, hc⟩ := hx
      exact ⟨name, first, second, he, hc.append_left⟩
    | ok next =>
      rw [hs] at hx
      have hrest : Outcome known (ds ++ declared x) (xs.flatMap declared) (xs.foldlM step next) :=
        ih hx fun env' ds' hsub hd y hy =>
          hstep env' ds' (List.Subset.trans (List.subset_append_left ds (declared x)) hsub) hd y
            (List.mem_cons_of_mem x hy)
      change Outcome known ds (declared x ++ xs.flatMap declared) (xs.foldlM step next)
      cases hr : xs.foldlM step next with
      | error e =>
        rw [hr] at hrest
        obtain ⟨name, first, second, he, hc⟩ := hrest
        exact ⟨name, first, second, he, hc.append_right⟩
      | ok last =>
        rw [hr] at hrest
        unfold Outcome at hrest ⊢
        rwa [List.append_assoc] at hrest

/-- As `outcome_foldlM`, where no step declares classes. -/
theorem outcome_foldlM_nil {α : Type} {step : Environment → α → Except EnvironmentError Environment}
    {xs : List α} (h : env.Declares ds known)
    (hstep : ∀ env' ds', ds ⊆ ds' → env'.Declares ds' known → ∀ x ∈ xs,
      Outcome known ds' [] (step env' x)) :
    Outcome known ds [] (xs.foldlM step env) := by
  have hnil : xs.flatMap (fun _ => ([] : List (String × ClassKind))) = [] :=
    List.flatMap_eq_nil_iff.mpr fun _ _ => rfl
  exact hnil ▸ outcome_foldlM (fun _ => []) h hstep

theorem Declares.outcome_nil (h : env.Declares ds known) : Outcome known ds [] (.ok env) := by
  unfold Outcome
  rwa [List.append_nil]

/-- What declares no classes does not fail. -/
theorem Outcome.of_nil {r : Except EnvironmentError Environment} (h : Outcome known ds [] r) :
    ∃ after, r = .ok after ∧ after.Declares ds known := by
  cases r with
  | error e =>
    obtain ⟨name, first, second, -, hc⟩ := h
    exact absurd hc.second_mem List.not_mem_nil
  | ok after =>
    unfold Outcome at h
    rw [List.append_nil] at h
    exact ⟨after, rfl, h⟩

/-- Classes of which no two conflict are all declared. -/
theorem Declares.addClasses {infos : List ClassInfo} (h : env.Declares ds known)
    (hs : ∀ info ∈ infos, ∀ t ∈ info.supertypes, t ∈ known)
    (hc : ∀ name first second,
      ¬ Conflict ds (infos.map fun info => (info.name, info.kind)) name first second) :
    ∃ after, env.addClasses infos = (after, none) ∧
      after.Declares (ds ++ infos.map fun info => (info.name, info.kind)) known := by
  induction infos generalizing env ds with
  | nil => exact ⟨env, rfl, (List.append_nil ds).symm ▸ h⟩
  | cons info infos ih =>
    rcases h.addClass info (hs info List.mem_cons_self) with
      ⟨next, ha, hn⟩ | ⟨next, first, -, hconf⟩
    · obtain ⟨after, hafter, hd⟩ := ih hn (fun i hi => hs i (List.mem_cons_of_mem info hi))
        fun name first second hconf => hc name first second hconf.append_right
      rw [List.append_assoc] at hd
      refine ⟨after, ?_, hd⟩
      rw [Environment.addClasses, ha]
      exact hafter
    · exact absurd hconf.append_left (hc _ _ _)

/-- A stub is declared if no two classes conflict. -/
theorem Declares.addStub (h : env.Declares ds known) (stub : StubFile) (infos : List ClassInfo)
    (hinfos : stub.classes.flatMap (·.classInfos (stub.origin.getD .platform)) = infos)
    (hs : ∀ info ∈ infos, ∀ t ∈ info.supertypes, t ∈ known)
    (hc : ∀ name first second,
      ¬ Conflict ds (infos.map fun info => (info.name, info.kind)) name first second) :
    ∃ after, env.addStub stub = (after, none) ∧
      after.Declares (ds ++ infos.map fun info => (info.name, info.kind)) known := by
  obtain ⟨mid, ha, hd⟩ := h.addClasses hs hc
  have hfunctions (env : Environment) (ds : List (String × ClassKind)) (origin : Origin)
      (fs : List FunctionStub) (h : env.Declares ds known) : (fs.foldl (fun env f =>
        env.addTopLevel (packageOf f.facade) f.member origin) env).Declares ds known := by
    induction fs generalizing env with
    | nil => exact h
    | cons f fs ih => exact ih _ (h.of_classInfo? fun n => env.classInfo?_addTopLevel _ _ _ n)
  unfold Environment.addStub
  dsimp only
  rw [hinfos, ha]
  exact ⟨_, rfl, hfunctions _ _ _ _ hd⟩

/-- Freezing changes nothing. -/
theorem eq_of_freeze {frozen : Environment} (h : env.freeze = .ok frozen) : env = frozen := by
  unfold Environment.freeze at h
  split at h
  · cases h
  · exact Except.ok.inj h

/-- Nothing is missing from a frozen environment, and nothing else keeps it from being frozen. -/
theorem freeze_eq_ok_iff : (∃ frozen, env.freeze = .ok frozen) ↔
    ∀ n ∈ env.order.toList, ∀ info, env.classInfo? n = some info →
      ∀ t ∈ info.supertypes, env.hasClass t := by
  unfold freeze incompleteness?
  cases hi : env.order.toList.findSome? fun n => env.classes[n]?.bind env.missingSupertype? with
  | none =>
    rw [List.findSome?_eq_none_iff] at hi
    -- What is not missing anywhere is declared, and the first that is missing would not be.
    refine ⟨fun _ n hn info hinfo t ht => ?_, fun _ => ⟨env, rfl⟩⟩
    have hnone := hi n hn
    unfold classInfo? at hinfo
    rw [hinfo, Option.bind_some, missingSupertype?, Option.map_eq_none_iff, List.find?_eq_none]
      at hnone
    simpa [hasClass] using hnone t ht
  | some e =>
    refine ⟨fun ⟨frozen, hf⟩ => (nomatch hf), fun hall => ?_⟩
    obtain ⟨n, hn, hmissing⟩ := List.exists_of_findSome?_eq_some hi
    obtain ⟨info, hinfo, hmissing⟩ := Option.bind_eq_some_iff.mp hmissing
    obtain ⟨t, ht, -⟩ := Option.map_eq_some_iff.mp hmissing
    have hmem := List.mem_of_find?_eq_some ht
    have hlacks := List.find?_some ht
    have hhas := hall n hn info hinfo t hmem
    unfold hasClass at hhas
    rw [hhas] at hlacks
    cases hlacks

/-- Nothing is missing where every class extends only what is declared. -/
theorem Declares.freeze (h : env.Declares ds known) (hk : known ⊆ ds.map Prod.fst) :
    env.freeze = .ok env := by
  obtain ⟨frozen, hf⟩ := freeze_eq_ok_iff.mpr fun n _ info hi t ht =>
    (h.hasClass_iff t).mpr (hk (h.supertypes n info hi t ht))
  rwa [← eq_of_freeze hf] at hf

end

end Environment

end KotlinTree
