import KotlinTree.Proofs.Binding.Order
import KotlinTree.Proofs.Project.Run

/-!
Sources in another order. Main statement: when no two of them declare a class of the same name, binding
succeeds for all orders or for none, and the environments answer alike.
-/

namespace KotlinTree

namespace Environment

/-- Two environments answer alike, but for the order of overloads. -/
structure AnswersAlike (env other : Environment) : Prop where
  classInfo : ∀ name, env.classInfo? name = other.classInfo? name
  supertypes : ∀ name, env.supertypes name = other.supertypes name
  companion : ∀ t, env.companionOf? t = other.companionOf? t
  package : ∀ name, env.hasPackage name = other.hasPackage name
  topLevel : ∀ package name, (env.topLevel package name).Perm (other.topLevel package name)
  extensions : ∀ receiver name,
    (env.extensionsOf receiver name).Perm (other.extensionsOf receiver name)

section
variable {env other : Environment}

theorem supertypes_congr (h : ∀ n, env.classInfo? n = other.classInfo? n) (name : String) :
    env.supertypes name = other.supertypes name := by
  unfold supertypes
  rw [h]

/-- A walk depends on the declared supertypes only. -/
theorem walkFrom_congr (h : ∀ n, env.supertypes n = other.supertypes n) (start : String)
    (found queue : List String) :
    env.walkFrom start found queue = other.walkFrom start found queue := by
  fun_induction env.walkFrom start found queue with
  | case1 found => rw [walkFrom]
  | case2 found name rest hlimit => rw [walkFrom, if_pos hlimit]
  | case3 found name rest hlimit hfound ih => rw [walkFrom, if_neg hlimit, if_pos hfound, ih]
  | case4 found name rest hlimit hfound ih =>
    rw [walkFrom.eq_2, if_neg hlimit, if_neg hfound, ← h, ih]

theorem isSubtype_congr (h : ∀ n, env.supertypes n = other.supertypes n) (sub sup : Ty) :
    env.isSubtype sub sup = other.isSubtype sub sup := by
  have hwalk (name : String) : env.supertypeWalk name = other.supertypeWalk name := by
    unfold supertypeWalk
    rw [h, walkFrom_congr h]
  unfold isSubtype isSubclass
  simp only [hwalk]

theorem Alike.answersAlike (h : env.Alike other) : env.AnswersAlike other := by
  have hinfo (n : String) : env.classInfo? n = other.classInfo? n := (h.classes n).info
  have hsupertypes := supertypes_congr hinfo
  refine ⟨hinfo, hsupertypes, fun t => ?_, fun name => ?_, fun package name => ?_,
    fun receiver name => ?_⟩
  · unfold companionOf? classOf?
    rw [funext hinfo]
  · exact Bool.eq_iff_iff.mpr (h.packages name)
  · exact h.topLevels (package, name)
  · unfold extensionsOf
    simp only [isSubtype_congr hsupertypes]
    exact (h.extensions name).filter _

/-- Both are frozen, or neither is. -/
theorem Alike.freeze (h : env.Alike other) :
    (∃ e e', env.freeze = .error e ∧ other.freeze = .error e') ∨
      (env.freeze = .ok env ∧ other.freeze = .ok other) := by
  have hiff : (∃ frozen, env.freeze = .ok frozen) ↔ ∃ frozen, other.freeze = .ok frozen := by
    rw [freeze_eq_ok_iff, freeze_eq_ok_iff]
    simp only [(h.classes _).order, (h.classes _).info, h.hasClass_eq]
  cases hf : env.freeze with
  | ok frozen =>
    obtain ⟨frozen', hf'⟩ := hiff.mp ⟨frozen, hf⟩
    rw [eq_of_freeze hf, hf', eq_of_freeze hf']
    exact .inr ⟨rfl, rfl⟩
  | error e =>
    cases hf' : other.freeze with
    | ok frozen' =>
      obtain ⟨frozen, hfrozen⟩ := hiff.mpr ⟨frozen', hf'⟩
      rw [hf] at hfrozen
      cases hfrozen
    | error e' => exact .inl ⟨e, e', rfl, rfl⟩

end

end Environment

open Environment

/-- A source as it is bound. -/
def SourceText.boundUnit (defaultImports : List String) (source : SourceText) : BoundUnit :=
  (Binding.File.ofParsed defaultImports source.parsed).boundUnit

theorem bindUnits_eq (env : Environment) (sources : List SourceText) (defaultImports : List String) :
    bindUnits env (sources.map SourceText.parsed) defaultImports =
      (Binding.bindFiles env (sources.map fun source =>
        Binding.File.ofParsed defaultImports source.parsed) >>= fun after =>
          .ok (after, sources.map (SourceText.boundUnit defaultImports))) := by
  unfold bindUnits Binding.bindFiles
  rw [List.map_map, bind_assoc]
  simp only [List.map_map]
  rfl

/-- When no two different sources declare a class of the same name, the order of the sources does not
matter to binding: it fails alike, or yields the same for each source, and environments that are both
incomplete, or answer alike. -/
theorem bindUnits_perm (env : Environment) {sources sources' : List SourceText}
    (defaultImports : List String) (hperm : sources.Perm sources')
    (hdistinct : ∀ a ∈ sources, ∀ b ∈ sources, a ≠ b → ∀ name kind kind',
      a.Declares name kind → ¬ b.Declares name kind') :
    (∃ e e', bindUnits env (sources.map SourceText.parsed) defaultImports = .error e ∧
      bindUnits env (sources'.map SourceText.parsed) defaultImports = .error e') ∨
    ∃ after after',
      bindUnits env (sources.map SourceText.parsed) defaultImports =
        .ok (after, sources.map (SourceText.boundUnit defaultImports)) ∧
      bindUnits env (sources'.map SourceText.parsed) defaultImports =
        .ok (after', sources'.map (SourceText.boundUnit defaultImports)) ∧
      ((∃ e e', after.freeze = .error e ∧ after'.freeze = .error e') ∨
        ∃ frozen frozen', after.freeze = .ok frozen ∧ after'.freeze = .ok frozen' ∧
          frozen.AnswersAlike frozen') := by
  -- What files name are the classes that their sources declare.
  let ofSource (source : SourceText) := Binding.File.ofParsed defaultImports source.parsed
  have hnames (source : SourceText) (name : String) (h : (ofSource source).Names name) :
      ∃ kind, source.Declares name kind := by
    obtain ⟨site, hsite, rfl⟩ := h
    exact ⟨site.kind, (mem_declared_ofParsed (parsed_linked source) defaultImports _ _).mp
      (List.mem_map.mpr ⟨site, hsite, rfl⟩)⟩
  have halike := Binding.alikeResults_bindFiles (hperm.map ofSource)
    (fun file hfile => by
      obtain ⟨source, -, rfl⟩ := List.mem_map.mp hfile
      exact Binding.File.nested_ofParsed defaultImports source.parsed)
    (fun a ha b hb hne name hname hname' => by
      obtain ⟨source, hs, rfl⟩ := List.mem_map.mp ha
      obtain ⟨source', hs', rfl⟩ := List.mem_map.mp hb
      obtain ⟨kind, hd⟩ := hnames source name hname
      obtain ⟨kind', hd'⟩ := hnames source' name hname'
      exact hdistinct source hs source' hs' (fun h => hne (congrArg ofSource h)) name kind kind' hd hd')
    env
  -- Both runs fail, or neither does.
  rw [bindUnits_eq, bindUnits_eq]
  cases hr : Binding.bindFiles env (sources.map ofSource) with
  | error e =>
    cases hr' : Binding.bindFiles env (sources'.map ofSource) with
    | error e' => exact .inl ⟨e, e', rfl, rfl⟩
    | ok after' =>
      rw [hr, hr'] at halike
      exact halike.elim
  | ok after =>
    cases hr' : Binding.bindFiles env (sources'.map ofSource) with
    | error e' =>
      rw [hr, hr'] at halike
      exact halike.elim
    | ok after' =>
      rw [hr, hr'] at halike
      have halike : after.Alike after' := halike
      refine .inr ⟨after, after', rfl, rfl, halike.freeze.imp_right ?_⟩
      rintro ⟨hf, hf'⟩
      exact ⟨after, after', hf, hf', halike.answersAlike⟩

/-- Two overloads in two files. -/
theorem bindUnits_perm_overloads :
    let first : SourceText := ⟨"A.kt", "fun f() = 1"⟩
    let second : SourceText := ⟨"B.kt", "fun f(n: kotlin.Int) = n"⟩
    [first, second].Perm [second, first] ∧
    (∀ a ∈ [first, second], ∀ b ∈ [first, second], a ≠ b → ∀ name kind kind',
      a.Declares name kind → ¬ b.Declares name kind') ∧
    ∃ after after',
      bindUnits Builtins.environment [first.parsed, second.parsed] [] =
        .ok (after, [first.boundUnit [], second.boundUnit []]) ∧
      bindUnits Builtins.environment [second.parsed, first.parsed] [] =
        .ok (after', [second.boundUnit [], first.boundUnit []]) ∧
      after.AnswersAlike after' := by
  intro first second
  have hperm : [first, second].Perm [second, first] := .swap _ _ _
  -- Neither source declares a class, so there is nothing that could be declared twice.
  have hnil : declaredClasses [first.parsed, second.parsed] [] = [] := by decide +kernel
  have hdistinct : ∀ a ∈ [first, second], ∀ b ∈ [first, second], a ≠ b → ∀ name kind kind',
      a.Declares name kind → ¬ b.Declares name kind' := by
    intro a ha b _ _ name kind kind' hd _
    have hmem := (mem_declaredClasses [first, second] [] name kind).mpr ⟨a, ha, hd⟩
    rw [show [first, second].map SourceText.parsed = [first.parsed, second.parsed] from rfl, hnil]
      at hmem
    exact List.not_mem_nil hmem
  refine ⟨hperm, hdistinct, ?_⟩
  rcases bindUnits_cases Builtins.environment_declares Builtins.anyName_mem_names
    [first.parsed, second.parsed] [] with ⟨bound, hbind, hd⟩ | ⟨name, kind, kind', -, hconf⟩
  · have hfreeze := hd.freeze (List.Subset.refl _)
    rcases bindUnits_perm Builtins.environment [] hperm hdistinct with
      ⟨e, e', he, -⟩ | ⟨after, after', ha, ha', hrest⟩
    · rw [show [first, second].map SourceText.parsed = [first.parsed, second.parsed] from rfl,
        hbind] at he
      cases he
    · rw [show [first, second].map SourceText.parsed = [first.parsed, second.parsed] from rfl,
        hbind] at ha
      cases ha
      refine ⟨bound, after', hbind, ha', ?_⟩
      rcases hrest with ⟨e, e', he, -⟩ | ⟨frozen, frozen', hf, hf', hanswers⟩
      · rw [hfreeze] at he
        cases he
      · rwa [← eq_of_freeze hf, ← eq_of_freeze hf'] at hanswers
  · rw [hnil] at hconf
    exact absurd hconf.second_mem List.not_mem_nil

end KotlinTree
