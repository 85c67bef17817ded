import KotlinTree.Proofs.Types.Declared
import KotlinTree.Proofs.Types.Package

/-!
Steps that declare something about certain classes only. Main statement: such steps can be taken in any
order, if no two that differ are about the same class.
-/

namespace KotlinTree.Environment

/-- Two environments know the same about a name of a class. -/
structure SameAt (env other : Environment) (name : String) : Prop where
  info : env.classInfo? name = other.classInfo? name
  order : name ∈ env.order.toList ↔ name ∈ other.order.toList

/-- What is declared besides classes, all of it in files. -/
structure Additions where
  packages : String → Prop
  topLevels : String × String → List Member
  extensions : String → List Member
  facades : List String

/-- One environment has, besides what another one has, exactly some additions. -/
structure Adds (before after : Environment) (a : Additions) : Prop where
  packages : ∀ name, after.hasPackage name ↔ before.hasPackage name ∨ a.packages name
  topLevels : ∀ key,
    after.topLevels.getD key [] = before.topLevels.getD key [] ++ a.topLevels key
  extensions : ∀ name,
    after.extensions.getD name [] = before.extensions.getD name [] ++ a.extensions name
  facades : ∀ owner : String,
    after.facades[owner]? = if owner ∈ a.facades then some .source else before.facades[owner]?

/-- A step is about classes of some names only: what becomes of them depends on nothing else, and what
it adds besides does not depend on anything. -/
structure Local (names : String → Prop)
    (step : Environment → Except EnvironmentError Environment) : Prop where
  same : ∀ env other after, (∀ n, names n → env.SameAt other n) → step env = .ok after →
    ∃ after', step other = .ok after' ∧ ∀ n, names n → after.SameAt after' n
  frame : ∀ env after, step env = .ok after → ∀ n, ¬ names n → after.SameAt env n
  adds : ∃ a, ∀ env after, step env = .ok after → env.Adds after a

/-- Two environments know the same, but for the order in which it was declared. -/
structure Alike (env other : Environment) : Prop where
  classes : ∀ n, env.SameAt other n
  packages : ∀ name, env.hasPackage name ↔ other.hasPackage name
  topLevels : ∀ key, (env.topLevels.getD key []).Perm (other.topLevels.getD key [])
  extensions : ∀ name, (env.extensions.getD name []).Perm (other.extensions.getD name [])
  facades : ∀ owner : String, env.facades[owner]? = other.facades[owner]?

/-- Both fail, or both come to what is alike. -/
def AlikeResults : Except EnvironmentError Environment → Except EnvironmentError Environment → Prop
  | .ok env, .ok other => env.Alike other
  | .error _, .error _ => True
  | _, _ => False

section
variable {env other mid after : Environment} {name : String}

theorem SameAt.refl (env : Environment) (name : String) : env.SameAt env name := ⟨rfl, Iff.rfl⟩

theorem SameAt.symm (h : env.SameAt other name) : other.SameAt env name :=
  ⟨h.info.symm, h.order.symm⟩

theorem SameAt.trans (h : env.SameAt mid name) (h' : mid.SameAt after name) :
    env.SameAt after name :=
  ⟨h.info.trans h'.info, h.order.trans h'.order⟩

theorem Alike.refl (env : Environment) : env.Alike env where
  classes n := .refl env n
  packages _ := Iff.rfl
  topLevels _ := .refl _
  extensions _ := .refl _
  facades _ := rfl

theorem Alike.trans (h : env.Alike mid) (h' : mid.Alike after) : env.Alike after where
  classes n := (h.classes n).trans (h'.classes n)
  packages name := (h.packages name).trans (h'.packages name)
  topLevels key := (h.topLevels key).trans (h'.topLevels key)
  extensions name := (h.extensions name).trans (h'.extensions name)
  facades owner := (h.facades owner).trans (h'.facades owner)

theorem AlikeResults.trans {r s t : Except EnvironmentError Environment} (h : AlikeResults r s)
    (h' : AlikeResults s t) : AlikeResults r t := by
  match r, s, t, h, h' with
  | .ok _, .ok _, .ok _, h, h' => exact Alike.trans h h'
  | .error _, .error _, .error _, _, _ => trivial

def Additions.none : Additions where
  packages _ := False
  topLevels _ := []
  extensions _ := []
  facades := []

/-- Some additions after others. -/
def Additions.append (a b : Additions) : Additions where
  packages name := a.packages name ∨ b.packages name
  topLevels key := a.topLevels key ++ b.topLevels key
  extensions name := a.extensions name ++ b.extensions name
  facades := a.facades ++ b.facades

/-- Nothing is added where packages, members, extensions and facades stay as they are. -/
theorem adds_none (hpackages : ∀ name, after.hasPackage name ↔ env.hasPackage name)
    (htops : after.topLevels = env.topLevels) (hexts : after.extensions = env.extensions)
    (hfacades : after.facades = env.facades) : env.Adds after .none where
  packages name := by rw [hpackages, Additions.none, or_false]
  topLevels key := by rw [htops, Additions.none, List.append_nil]
  extensions name := by rw [hexts, Additions.none, List.append_nil]
  facades owner := by rw [hfacades, Additions.none, if_neg List.not_mem_nil]

/-- What is added by two steps is what each of them adds. -/
theorem Adds.trans {a b : Additions} (h : env.Adds mid a) (h' : mid.Adds after b) :
    env.Adds after (a.append b) where
  packages name := by rw [h'.packages, h.packages, Additions.append, or_assoc]
  topLevels key := by rw [h'.topLevels, h.topLevels, Additions.append, List.append_assoc]
  extensions name := by rw [h'.extensions, h.extensions, Additions.append, List.append_assoc]
  facades owner := by
    rw [h'.facades, h.facades, Additions.append]
    simp only [List.mem_append]
    by_cases ha : owner ∈ a.facades
    · simp [ha]
    · simp [ha]

/-- Additions to what is alike make it alike. -/
theorem Alike.of_adds {a : Additions} {env' after' : Environment} (h : env.Alike env')
    (hclasses : ∀ n, after.SameAt after' n) (ha : env.Adds after a) (ha' : env'.Adds after' a) :
    after.Alike after' where
  classes := hclasses
  packages name := by rw [ha.packages, ha'.packages, h.packages]
  topLevels key := by
    rw [ha.topLevels, ha'.topLevels]
    exact (h.topLevels key).append_right _
  extensions name := by
    rw [ha.extensions, ha'.extensions]
    exact (h.extensions name).append_right _
  facades owner := by rw [ha.facades, ha'.facades, h.facades]

/-- It does not matter which of two additions is made first. -/
theorem Adds.swap {a b : Additions} (hclasses : ∀ n, after.SameAt other n)
    (h : env.Adds after (a.append b)) (h' : env.Adds other (b.append a)) : after.Alike other where
  classes := hclasses
  packages name := by
    rw [h.packages, h'.packages]
    exact or_congr_right or_comm
  topLevels key := by
    rw [h.topLevels, h'.topLevels]
    exact List.perm_append_comm.append_left _
  extensions name := by
    rw [h.extensions, h'.extensions]
    exact List.perm_append_comm.append_left _
  facades owner := by
    rw [h.facades, h'.facades, Additions.append, Additions.append]
    simp only [List.mem_append, or_comm (a := owner ∈ a.facades)]

end

section
variable {names more : String → Prop}
  {f g : Environment → Except EnvironmentError Environment}

/-- What depends on classes of some names depends on them among more. -/
theorem Local.mono (h : Local names f) (hsub : ∀ n, names n → more n) : Local more f where
  same env other after hsame hf := by
    obtain ⟨after', hf', hafter⟩ := h.same env other after (fun n hn => hsame n (hsub n hn)) hf
    refine ⟨after', hf', fun n hn => ?_⟩
    by_cases hin : names n
    · exact hafter n hin
    · exact ((h.frame env after hf n hin).trans (hsame n hn)).trans
        (h.frame other after' hf' n hin).symm
  frame env after hf n hn := h.frame env after hf n fun hin => hn (hsub n hin)
  adds := h.adds

/-- To leave all as it is changes nothing elsewhere. -/
theorem local_ok (names : String → Prop) : Local names .ok where
  same env other after hsame hf := by
    cases hf
    exact ⟨other, rfl, hsame⟩
  frame env after hf n _ := by
    cases hf
    exact .refl env n
  adds := ⟨.none, fun env after hf => by
    cases hf
    exact adds_none (fun _ => Iff.rfl) rfl rfl rfl⟩

/-- Two steps that each change one thing change nothing elsewhere. -/
theorem Local.bind (hf : Local names f) (hg : Local names g) :
    Local names fun env => f env >>= g where
  same env other after hsame h := by
    obtain ⟨mid, hmid, hafter⟩ := exists_of_bind_eq_ok h
    obtain ⟨mid', hmid', hsame⟩ := hf.same env other mid hsame hmid
    obtain ⟨after', hafter', hsame⟩ := hg.same mid mid' after hsame hafter
    exact ⟨after', by rw [hmid']; exact hafter', hsame⟩
  frame env after h n hn := by
    obtain ⟨mid, hmid, hafter⟩ := exists_of_bind_eq_ok h
    exact (hg.frame mid after hafter n hn).trans (hf.frame env mid hmid n hn)
  adds := by
    obtain ⟨a, ha⟩ := hf.adds
    obtain ⟨b, hb⟩ := hg.adds
    refine ⟨a.append b, fun env after h => ?_⟩
    obtain ⟨mid, hmid, hafter⟩ := exists_of_bind_eq_ok h
    exact (ha env mid hmid).trans (hb mid after hafter)

/-- Steps that are taken one after the other change nothing elsewhere. -/
theorem Local.foldlM {α : Type} {step : Environment → α → Except EnvironmentError Environment}
    {xs : List α} (h : ∀ x ∈ xs, Local names (step · x)) : Local names (xs.foldlM step) := by
  induction xs with
  | nil => exact local_ok names
  | cons x xs ih =>
    exact (h x List.mem_cons_self).bind (ih fun y hy => h y (List.mem_cons_of_mem _ hy))

/-- From what is alike, a step comes to what is alike. -/
theorem Local.congr (h : Local names f) {env other : Environment} (he : env.Alike other) :
    AlikeResults (f env) (f other) := by
  obtain ⟨a, ha⟩ := h.adds
  cases hf : f env with
  | ok after =>
    obtain ⟨after', hf', hsame⟩ := h.same env other after (fun n _ => he.classes n) hf
    rw [hf']
    refine he.of_adds (fun n => ?_) (ha env after hf) (ha other after' hf')
    by_cases hn : names n
    · exact hsame n hn
    · exact ((h.frame env after hf n hn).trans (he.classes n)).trans
        (h.frame other after' hf' n hn).symm
  | error e =>
    cases hf' : f other with
    | ok after' =>
      obtain ⟨after, hafter, -⟩ := h.same other env after' (fun n _ => (he.classes n).symm) hf'
      rw [hf] at hafter
      cases hafter
    | error e' => trivial

/-- A step that succeeds leaves it to another one, about other classes, whether that succeeds. -/
theorem Local.ok_iff (hf : Local names f) (hg : Local more g)
    (hdisjoint : ∀ n, names n → ¬ more n) {env mid : Environment} (hmid : f env = .ok mid) :
    (∃ after, g mid = .ok after) ↔ ∃ after, g env = .ok after := by
  have hsame (n : String) (hn : more n) : mid.SameAt env n :=
    hf.frame env mid hmid n fun hin => hdisjoint n hin hn
  constructor
  · rintro ⟨after, ha⟩
    obtain ⟨after', ha', -⟩ := hg.same mid env after hsame ha
    exact ⟨after', ha'⟩
  · rintro ⟨after, ha⟩
    obtain ⟨after', ha', -⟩ := hg.same env mid after (fun n hn => (hsame n hn).symm) ha
    exact ⟨after', ha'⟩

/-- The classes that a step is about are the same whether another one is taken before or after it. -/
theorem Local.sameAt_swap (hf : Local names f) (hg : Local more g)
    (hdisjoint : ∀ n, names n → ¬ more n) {env mid mid' after after' : Environment}
    (hmid : f env = .ok mid) (hafter : g mid = .ok after) (hmid' : g env = .ok mid')
    (hafter' : f mid' = .ok after') {n : String} (hn : names n) : after.SameAt after' n := by
  obtain ⟨last, hlast, hsame⟩ := hf.same env mid' mid
    (fun n hn => (hg.frame env mid' hmid' n (hdisjoint n hn)).symm) hmid
  cases hlast.symm.trans hafter'
  exact (hg.frame mid after hafter n (hdisjoint n hn)).trans (hsame n hn)

/-- Two steps about different classes can be taken in any order. -/
theorem Local.swap (hf : Local names f) (hg : Local more g) (hdisjoint : ∀ n, names n → ¬ more n)
    (env : Environment) : AlikeResults (f env >>= g) (g env >>= f) := by
  have hdisjoint' (n : String) (hn : more n) : ¬ names n := fun hin => hdisjoint n hin hn
  cases hfirst : f env with
  | error e =>
    -- Then it fails after the other step as well.
    cases hsecond : g env with
    | error e' => trivial
    | ok mid =>
      cases hlast : f mid with
      | error e' =>
        change AlikeResults (.error e) (f mid)
        rw [hlast]
        trivial
      | ok after =>
        obtain ⟨after', ha⟩ := (hg.ok_iff hf hdisjoint' hsecond).mp ⟨after, hlast⟩
        rw [hfirst] at ha
        cases ha
  | ok mid =>
    cases hsecond : g env with
    | error e =>
      cases hlast : g mid with
      | error e' =>
        change AlikeResults (g mid) (.error e)
        rw [hlast]
        trivial
      | ok after =>
        obtain ⟨after', ha⟩ := (hf.ok_iff hg hdisjoint hfirst).mp ⟨after, hlast⟩
        rw [hsecond] at ha
        cases ha
    | ok mid' =>
      obtain ⟨after, hafter⟩ := (hf.ok_iff hg hdisjoint hfirst).mpr ⟨mid', hsecond⟩
      obtain ⟨after', hafter'⟩ := (hg.ok_iff hf hdisjoint' hsecond).mpr ⟨mid, hfirst⟩
      change AlikeResults (g mid) (f mid')
      rw [hafter, hafter']
      obtain ⟨a, ha⟩ := hf.adds
      obtain ⟨b, hb⟩ := hg.adds
      refine Adds.swap (fun n => ?_) ((ha env mid hfirst).trans (hb mid after hafter))
        ((hb env mid' hsecond).trans (ha mid' after' hafter'))
      by_cases hn : names n
      · exact hf.sameAt_swap hg hdisjoint hfirst hafter hsecond hafter' hn
      by_cases hm : more n
      · exact (hg.sameAt_swap hf hdisjoint' hsecond hafter' hfirst hafter hm).symm
      · exact ((hg.frame mid after hafter n hm).trans (hf.frame env mid hfirst n hn)).trans
          ((hf.frame mid' after' hafter' n hn).trans (hg.frame env mid' hsecond n hm)).symm

/-- Outcomes that are alike stay so after a local step. -/
theorem AlikeResults.bind {r s : Except EnvironmentError Environment} (h : AlikeResults r s)
    (hf : Local names f) : AlikeResults (r >>= f) (s >>= f) := by
  match r, s, h with
  | .ok _, .ok _, h => exact hf.congr h
  | .error _, .error _, _ => trivial

theorem AlikeResults.refl (r : Except EnvironmentError Environment) : AlikeResults r r := by
  cases r with
  | error e => trivial
  | ok env => exact Alike.refl env

end

/-- Steps can be taken in any order, if no two that differ are about the same class. -/
theorem alikeResults_foldlM {α : Type}
    {step : Environment → α → Except EnvironmentError Environment} {names : α → String → Prop}
    {xs ys : List α} (hperm : xs.Perm ys) (hlocal : ∀ x ∈ xs, Local (names x) (step · x))
    (hdisjoint : ∀ x ∈ xs, ∀ y ∈ xs, x ≠ y → ∀ n, names x n → ¬ names y n)
    {env other : Environment} (he : env.Alike other) :
    AlikeResults (xs.foldlM step env) (ys.foldlM step other) := by
  have hall (xs : List α) (h : ∀ x ∈ xs, Local (names x) (step · x)) :
      Local (fun _ => True) (xs.foldlM step) :=
    Local.foldlM fun x hx => (h x hx).mono fun _ _ => trivial
  -- The induction is on the permutation; only the exchange of two neighbours needs that they are about
  -- different names.
  induction hperm generalizing env other with
  | nil => exact he
  | cons x _ ih =>
    rename_i l l'
    have hx : AlikeResults (step env x) (step other x) := (hlocal x List.mem_cons_self).congr he
    rw [List.foldlM_cons, List.foldlM_cons]
    cases hs : step env x with
    | error e =>
      cases hs' : step other x with
      | error e' => trivial
      | ok next =>
        rw [hs, hs'] at hx
        exact hx.elim
    | ok next =>
      cases hs' : step other x with
      | error e' =>
        rw [hs, hs'] at hx
        exact hx.elim
      | ok next' =>
        rw [hs, hs'] at hx
        exact ih (fun y hy => hlocal y (List.mem_cons_of_mem _ hy))
          (fun y hy z hz => hdisjoint y (List.mem_cons_of_mem _ hy) z (List.mem_cons_of_mem _ hz)) hx
  | swap x y l =>
    have hy := hlocal y List.mem_cons_self
    have hx := hlocal x (List.mem_cons_of_mem _ List.mem_cons_self)
    have hrest := hall l fun z hz => hlocal z (List.mem_cons_of_mem _ (List.mem_cons_of_mem _ hz))
    have hswap : AlikeResults (step env y >>= (step · x)) (step env x >>= (step · y)) := by
      by_cases hxy : y = x
      · rw [hxy]
        exact .refl _
      · exact hy.swap hx (hdisjoint y List.mem_cons_self x
          (List.mem_cons_of_mem _ List.mem_cons_self) hxy) env
    have hpair := ((hx.mono fun _ _ => trivial).bind (hy.mono fun _ _ => trivial)).congr he
    have hall := (hswap.trans hpair).bind hrest
    rwa [bind_assoc, bind_assoc] at hall
  | trans hfirst _ ih ih' =>
    refine (ih hlocal hdisjoint (Alike.refl env)).trans (ih' ?_ ?_ he)
    · exact fun x hx => hlocal x (hfirst.mem_iff.mpr hx)
    · exact fun x hx y hy => hdisjoint x (hfirst.mem_iff.mpr hx) y (hfirst.mem_iff.mpr hy)

/-- A step puts in one class, or changes it, by what is known about it: `outcome` is what is known
afterwards, if the step succeeds. A class that was not there is noted in the order. -/
def IsAbout (name : String) (outcome : Option ClassInfo → Option (Option ClassInfo)) (a : Additions)
    (step : Environment → Except EnvironmentError Environment) : Prop :=
  ∀ env, match outcome (env.classInfo? name) with
    | none => ∃ e, step env = .error e
    | some info => ∃ after, step env = .ok after ∧
      (∀ n, after.classInfo? n = if n = name then info else env.classInfo? n) ∧
      (∀ n, n ∈ after.order.toList ↔
        n ∈ env.order.toList ∨ (n = name ∧ env.classInfo? name = none ∧ info.isSome)) ∧
      env.Adds after a

/-- A step about one class changes that class only. -/
theorem IsAbout.local {name : String} {outcome : Option ClassInfo → Option (Option ClassInfo)}
    {a : Additions} {step : Environment → Except EnvironmentError Environment}
    (h : IsAbout name outcome a step) : Local (· = name) step := by
  -- A step that succeeds has an outcome, which depends on what the class was.
  have hok (env after : Environment) (hs : step env = .ok after) :
      ∃ info, outcome (env.classInfo? name) = some info ∧
        (∀ n, after.classInfo? n = if n = name then info else env.classInfo? n) ∧
        (∀ n, n ∈ after.order.toList ↔
          n ∈ env.order.toList ∨ (n = name ∧ env.classInfo? name = none ∧ info.isSome)) ∧
        env.Adds after a := by
    have henv := h env
    cases hoc : outcome (env.classInfo? name) with
    | none =>
      rw [hoc] at henv
      obtain ⟨e, he⟩ := henv
      rw [hs] at he
      cases he
    | some info =>
      rw [hoc] at henv
      obtain ⟨after', hs', hrest⟩ := henv
      cases hs.symm.trans hs'
      exact ⟨info, rfl, hrest⟩
  refine ⟨fun env other after hsame hs => ?_, fun env after hs n hn => ?_, a, fun env after hs => ?_⟩
  · obtain ⟨info, hoc, hclasses, horder, -⟩ := hok env after hs
    have hat := hsame name rfl
    have hother := h other
    rw [← hat.info, hoc] at hother
    obtain ⟨after', hs', hclasses', horder', -⟩ := hother
    refine ⟨after', hs', ?_⟩
    rintro n rfl
    refine ⟨by rw [hclasses, hclasses', if_pos rfl, if_pos rfl], ?_⟩
    rw [horder, horder', hat.order]
  · obtain ⟨info, -, hclasses, horder, -⟩ := hok env after hs
    refine ⟨by rw [hclasses, if_neg hn], ?_⟩
    rw [horder, or_iff_left fun hname => hn hname.1]
  · obtain ⟨info, -, -, -, hadds⟩ := hok env after hs
    exact hadds

section
variable {env : Environment}

/-- Declares a class, if it does not conflict. -/
def addClassStep (info : ClassInfo) (env : Environment) : Except EnvironmentError Environment :=
  match env.addClass info with
  | (env, none) => .ok env
  | (_, some e) => .error e

def Additions.package (package : String) : Additions :=
  { Additions.none with packages := fun name => package ≠ "" ∧ IsDottedFront name package }

/-- A package is added where nothing but packages changes. -/
theorem adds_package {after : Environment} {package : String}
    (hpackages : after.packages = (env.addPackage package).packages)
    (htops : after.topLevels = env.topLevels) (hexts : after.extensions = env.extensions)
    (hfacades : after.facades = env.facades) : env.Adds after (.package package) where
  packages name := by
    unfold hasPackage
    rw [hpackages]
    exact hasPackage_addPackage
  topLevels key := by rw [htops, Additions.package, Additions.none, List.append_nil]
  extensions name := by rw [hexts, Additions.package, Additions.none, List.append_nil]
  facades owner := by rw [hfacades, Additions.package, Additions.none, if_neg List.not_mem_nil]

/-- A package changes no class. -/
theorem local_addPackage (names : String → Prop) (package : String) :
    Local names fun env => .ok (env.addPackage package) where
  same env other after hsame h := by
    obtain ⟨packages, heq⟩ := env.exists_addPackage_eq package
    obtain ⟨packages', heq'⟩ := other.exists_addPackage_eq package
    cases h
    refine ⟨_, rfl, fun n hn => ?_⟩
    rw [heq, heq']
    exact ⟨(hsame n hn).info, (hsame n hn).order⟩
  frame env after h n _ := by
    obtain ⟨packages, heq⟩ := env.exists_addPackage_eq package
    cases h
    rw [heq]
    exact ⟨rfl, Iff.rfl⟩
  adds := by
    refine ⟨.package package, fun env after h => ?_⟩
    obtain ⟨packages, heq⟩ := env.exists_addPackage_eq package
    cases h
    refine adds_package rfl ?_ ?_ ?_ <;> rw [heq]

/-- A class that is added is put in, or merged with the one that is there if that is of its kind. -/
theorem isAbout_addClassStep (info : ClassInfo) :
    IsAbout info.name
      (fun
        | none => some (some info)
        | some first => if first.kind ≠ info.kind then none else some (some (first.merge info)))
      (.package info.package) (addClassStep info) := by
  intro env
  obtain ⟨packages, heq⟩ := env.exists_addPackage_eq info.package
  unfold addClassStep addClass
  have hpackages : packages = (env.addPackage info.package).packages := by rw [heq]
  rw [heq]
  dsimp only
  -- The class is new, another part of one, or of another kind than the one that is known.
  cases hc : env.classInfo? info.name with
  | none =>
    rw [classInfo?] at hc
    rw [hc]
    refine ⟨_, rfl, env.puts_insert info.name info, fun n => ?_, adds_package hpackages rfl rfl rfl⟩
    simp [Array.toList_push]
  | some first =>
    rw [classInfo?] at hc
    rw [hc]
    by_cases hk : first.kind = info.kind
    · simp only [hk, ne_eq, not_true_eq_false, if_false]
      refine ⟨_, rfl, env.puts_insert info.name _, fun n => ?_, adds_package hpackages rfl rfl rfl⟩
      simp
    · simp only [hk, ne_eq, not_false_eq_true, if_true]
      exact ⟨_, rfl⟩

/-- A class that is added changes no other class. -/
theorem local_addClassStep (info : ClassInfo) : Local (· = info.name) (addClassStep info) :=
  (isAbout_addClassStep info).local

/-- A class that is changed changes no other class. -/
theorem local_modifyClass (name : String) (f : ClassInfo → ClassInfo) :
    Local (· = name) fun env => .ok (env.modifyClass name f) := by
  -- A class that is not known stays so.
  have habout : IsAbout name (fun info => some (info.map f)) .none
      fun env => .ok (env.modifyClass name f) := by
    intro env
    cases hc : env.classInfo? name with
    | none =>
      refine ⟨_, rfl, fun n => ?_, fun n => ?_, ?_⟩
      all_goals rw [modifyClass_of_none hc]
      · split
        · rename_i hn
          rw [hn, hc, Option.map_none]
        · rfl
      · simp
      · exact adds_none (fun _ => Iff.rfl) rfl rfl rfl
    | some info =>
      refine ⟨_, rfl, modifyClass_of_some hc f, fun n => ?_, ?_⟩
      all_goals
        rw [classInfo?] at hc
        unfold modifyClass
        rw [hc]
      · simp
      · exact adds_none (fun _ => Iff.rfl) rfl rfl rfl
  exact habout.local

/-- A member changes its own class only. -/
theorem local_addMember (m : Member) : Local (· = m.owner) fun env => env.addMember m.owner m := by
  have habout : IsAbout m.owner (fun info => info.map fun info => some (info.addMember m)) .none
      fun env => env.addMember m.owner m := by
    intro env
    cases hc : env.classInfo? m.owner with
    | none =>
      have herror : env.addMember m.owner m = .error (.unknownOwner m.owner m.name) := by
        rw [classInfo?] at hc
        rw [addMember, hc]
      exact ⟨_, herror⟩
    | some info =>
      have hok : env.addMember m.owner m =
          .ok { env with classes := env.classes.insert m.owner (info.addMember m) } := by
        rw [classInfo?] at hc
        rw [addMember, hc]
      refine ⟨_, hok, env.puts_insert m.owner _, fun n => ?_,
        adds_none (fun _ => Iff.rfl) rfl rfl rfl⟩
      simp
  exact habout.local

/-- What a member of a file in a package adds. -/
def Additions.member (package : String) (m : Member) : Additions where
  packages name := package ≠ "" ∧ IsDottedFront name package
  topLevels key := if m.receiver.isNone ∧ key = (package, m.name) then [m] else []
  extensions name := if m.receiver.isSome ∧ name = m.name then [m] else []
  facades := [m.owner]

/-- A member that is noted under its key is at the end of the list there. -/
theorem getD_insert_append {κ : Type} [BEq κ] [Hashable κ] [LawfulBEq κ] [LawfulHashable κ]
    [DecidableEq κ] (lists : Std.HashMap κ (List Member)) (key key' : κ) (m : Member) :
    (lists.insert key (lists.getD key [] ++ [m])).getD key' [] =
      lists.getD key' [] ++ if key' = key then [m] else [] := by
  rw [Std.HashMap.getD_insert]
  by_cases hkey : key = key'
  · subst hkey
    simp
  · rw [if_neg (by simpa using hkey), if_neg (Ne.symm hkey), List.append_nil]

/-- A member at the top of a package adds the package, itself by its name and the facade that owns it.
-/
theorem adds_member (env : Environment) (package : String) (m : Member) :
    env.Adds (env.addTopLevel package m .source) (.member package m) := by
  obtain ⟨packages, heq⟩ := env.exists_addPackage_eq package
  have hpackages (name : String) : packages.contains name ↔
      env.hasPackage name ∨ (package ≠ "" ∧ IsDottedFront name package) := by
    rw [← hasPackage_addPackage, heq]
    rfl
  have hfacades (owner : String) : (env.facades.insert m.owner .source)[owner]? =
      if owner ∈ [m.owner] then some .source else env.facades[owner]? := by
    rw [Std.HashMap.getElem?_insert]
    simp [eq_comm (a := m.owner)]
  unfold addTopLevel
  rw [heq]
  dsimp only
  -- An extension is kept by its name, any other member by its package and name.
  cases hr : m.receiver.isSome with
  | true =>
    have hnone : m.receiver.isNone = false := by rw [← Option.not_isSome, hr]; rfl
    rw [if_pos rfl]
    refine ⟨hpackages, fun key => ?_, fun name => ?_, hfacades⟩
    · simp [Additions.member, hnone]
    · simpa [Additions.member, hr] using getD_insert_append env.extensions m.name name m
  | false =>
    have hnone : m.receiver.isNone = true := by rw [← Option.not_isSome, hr]; rfl
    rw [if_neg Bool.false_ne_true]
    refine ⟨hpackages, fun key => ?_, fun name => ?_, hfacades⟩
    · simpa [Additions.member, hnone] using getD_insert_append env.topLevels (package, m.name) key m
    · simp [Additions.member, hr]

/-- At the top of a package, a member changes no class. -/
theorem sameAt_addTopLevel (env : Environment) (package : String) (m : Member) (n : String) :
    (env.addTopLevel package m .source).SameAt env n := by
  obtain ⟨packages, heq⟩ := env.exists_addPackage_eq package
  unfold addTopLevel
  rw [heq]
  dsimp only
  split <;> exact ⟨rfl, Iff.rfl⟩

theorem local_addTopLevel (names : String → Prop) (package : String) (m : Member) :
    Local names fun env => .ok (env.addTopLevel package m .source) where
  same env other after hsame h := by
    cases h
    refine ⟨_, rfl, fun n hn => ?_⟩
    exact ((env.sameAt_addTopLevel package m n).trans (hsame n hn)).trans
      (other.sameAt_addTopLevel package m n).symm
  frame env after h n _ := by
    cases h
    exact env.sameAt_addTopLevel package m n
  adds := by
    refine ⟨.member package m, fun env after h => ?_⟩
    cases h
    exact env.adds_member package m

end

end KotlinTree.Environment
