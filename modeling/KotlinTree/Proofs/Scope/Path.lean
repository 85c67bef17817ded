import Mathlib.Data.List.Infix
import KotlinTree.Proofs.Text.Parts
import KotlinTree.Scope.File
import KotlinTree.Types.Environment

/-!
What a written name resolves to is a class. Where a path of names leads to: from a class to those
nested in it, and from a package, name after name, through other packages to a class. The longest
package of a path is not always the one that the names lead through, since a class on the way ends
the packages.
-/

namespace KotlinTree

variable {isClass : String → Bool} {name path : String}

theorem isClass_of_qualifiedToClass? (h : qualifiedToClass? path isClass = some name) :
    isClass name := by
  unfold qualifiedToClass? at h
  exact List.find?_some h

namespace FileScope

variable {scope : FileScope} {segments enclosing : List String}

theorem isClass_of_resolveSimple? {simple : String}
    (h : scope.resolveSimple? simple enclosing isClass = some name) : isClass name := by
  unfold resolveSimple? at h
  dsimp only at h
  rw [Option.or_eq_some_iff, Option.or_eq_some_iff] at h
  rcases h with hnested | ⟨-, himported | ⟨-, hfound⟩⟩
  · exact List.find?_some hnested
  · rw [Option.bind_eq_some_iff] at himported
    obtain ⟨path, -, hpath⟩ := himported
    exact isClass_of_qualifiedToClass? hpath
  · exact List.find?_some hfound

theorem isClass_of_nestedClass? {outer : String} (houter : isClass outer)
    (h : nestedClass? isClass outer segments = some name) : isClass name := by
  induction segments generalizing outer with
  | nil =>
    rw [nestedClass?, Option.some.injEq] at h
    exact h ▸ houter
  | cons segment rest ih =>
    rw [nestedClass?] at h
    split at h
    · rename_i hnested
      exact ih hnested h
    · cases h

theorem isClass_of_resolveClass? (h : scope.resolveClass? segments enclosing isClass = some name) :
    isClass name := by
  cases segments with
  | nil => cases h
  | cons first rest =>
    rw [resolveClass?] at h
    cases hs : scope.resolveSimple? first enclosing isClass with
    | some outer =>
      rw [hs] at h
      exact isClass_of_nestedClass? (isClass_of_resolveSimple? hs) h
    | none =>
      rw [hs] at h
      dsimp only at h
      split at h
      · cases h
      · exact isClass_of_qualifiedToClass? h

@[simp] theorem name?_classType (name : String) (isNullable : Bool) :
    (classType name isNullable).name? = some name := by
  unfold classType
  split
  · rename_i hname
    rw [hname, Ty.name?]
  · rfl

/-- The name of a written type is that of a class; a type parameter has the name of the root. -/
theorem isClass_or_any_of_resolveType {f : Forest} {id : Option NodeId} {context : TypeContext}
    (h : (scope.resolveType f id context isClass).name? = some name) :
    isClass name ∨ name = Ty.anyName := by
  unfold resolveType at h
  split at h
  · split at h
    · cases h
    · rename_i segments _
      split at h
      · rw [Ty.name?, Option.some.injEq] at h
        exact .inr h.symm
      · cases hr : scope.resolveClass? segments context.enclosing isClass with
        | none =>
          rw [hr] at h
          cases h
        | some found =>
          rw [hr, Option.map_some, Option.getD_some, name?_classType, Option.some.injEq] at h
          exact .inl (h ▸ isClass_of_resolveClass? hr)
  · cases h

end FileScope

/-- The class that names lead to from another one, each nested in the one before. -/
def nestedName (outer : String) (names : List String) : String :=
  names.foldl (fun name nested => name ++ "$" ++ nested) outer

/-- What holds of the beginnings of a list that are not empty, by its first member. -/
theorem forall_prefix_cons {α : Type} {p : List α → Prop} {a : α} {l : List α} :
    (∀ front, front <+: a :: l → front ≠ [] → p front) ↔
      p [a] ∧ ∀ front, front <+: l → front ≠ [] → p (a :: front) := by
  constructor
  · intro h
    refine ⟨h [a] (List.cons_prefix_cons.mpr ⟨rfl, List.nil_prefix⟩) (by simp), ?_⟩
    exact fun front hfront _ => h _ (List.cons_prefix_cons.mpr ⟨rfl, hfront⟩) (by simp)
  · rintro ⟨hone, hmore⟩ front hfront hne
    rcases List.prefix_cons_iff.mp hfront with rfl | ⟨tail, rfl, htail⟩
    · exact absurd rfl hne
    · by_cases hnil : tail = []
      · rwa [hnil]
      · exact hmore tail htail hnil

theorem forall_prefix_iff {α : Type} {p : List α → Prop} {l : List α} :
    (∀ front, front <+: l → p front) ↔ p [] ∧ ∀ front, front <+: l → front ≠ [] → p front := by
  constructor
  · exact fun h => ⟨h [] List.nil_prefix, fun front hfront _ => h front hfront⟩
  · rintro ⟨hnil, hmore⟩ front hfront
    by_cases hne : front = []
    · rwa [hne]
    · exact hmore front hfront hne

/-- The ways to split a list at a member, by whether it is the first. -/
theorem exists_split_cons {α : Type} {p : List α → α → List α → Prop} {a : α} {l : List α} :
    (∃ front b back, a :: l = front ++ b :: back ∧ p front b back) ↔
      p [] a l ∨ ∃ front b back, l = front ++ b :: back ∧ p (a :: front) b back := by
  constructor
  · rintro ⟨front, b, back, hl, h⟩
    cases front with
    | nil =>
      obtain ⟨rfl, rfl⟩ := List.cons_eq_cons.mp hl
      exact .inl h
    | cons head front =>
      obtain ⟨rfl, rfl⟩ := List.cons_eq_cons.mp hl
      exact .inr ⟨front, b, back, rfl, h⟩
  · rintro (h | ⟨front, b, back, rfl, h⟩)
    · exact ⟨[], a, l, rfl, h⟩
    · exact ⟨a :: front, b, back, rfl, h⟩

/-- Names lead from a class to another when each of them is a class inside the one before. -/
theorem FileScope.nestedClass?_eq_some_iff {isClass : String → Bool} {outer c : String}
    {names : List String} :
    nestedClass? isClass outer names = some c ↔
      nestedName outer names = c ∧
        ∀ front, front <+: names → front ≠ [] → isClass (nestedName outer front) := by
  induction names generalizing outer with
  | nil => simp [nestedClass?, nestedName, List.prefix_nil]
  | cons name names ih =>
    have hstep (tail : List String) :
        nestedName outer (name :: tail) = nestedName (outer ++ "$" ++ name) tail := rfl
    simp only [nestedClass?, forall_prefix_cons, hstep]
    split
    · rename_i hname
      rw [ih]
      exact and_congr_right fun _ => (and_iff_right hname).symm
    · rename_i hname
      exact ⟨by simp, fun h => absurd h.2.1 hname⟩

/-- A class that is imported by a name is in scope by that name. -/
theorem FileScope.resolveSimple?_ne_none_of_import {scope : FileScope} {name c : String}
    {enclosing : List String} {isClass : String → Bool}
    (h : (scope.importPath? name).bind (qualifiedToClass? · isClass) = some c) :
    scope.resolveSimple? name enclosing isClass ≠ none := by
  rw [resolveSimple?, h, Option.some_or]
  simp

theorem inPackage_dotted {front : List String} (hfront : dotted front ≠ "") (name : String) :
    inPackage (dotted front) name = dotted (front ++ [name]) := by
  have hne : front ≠ [] := by
    rintro rfl
    exact hfront rfl
  rw [inPackage, if_neg hfront, dotted, dotted,
    String.intercalate_append_of_ne_nil hne (List.cons_ne_nil _ _), String.intercalate_singleton]

theorem dotted_concat_ne_empty {front : List String} (hfront : dotted front ≠ "") (name : String) :
    dotted (front ++ [name]) ≠ "" := by
  rw [← inPackage_dotted hfront, inPackage, if_neg hfront]
  intro h
  have hlength := congrArg String.length h
  simp only [String.length_append, String.length_empty] at hlength
  have hdot : ".".length = 1 := rfl
  omega

/-- A dotted name that starts with a name that is not empty is not empty. -/
theorem dotted_ne_empty {first : String} (hfirst : first ≠ "") (rest : List String) :
    dotted (first :: rest) ≠ "" := by
  induction rest using List.reverseRecOn with
  | nil => rwa [dotted_singleton]
  | append_singleton front name ih => exact dotted_concat_ne_empty ih name

/-- The name that names make one after the other, each in the package before it. -/
def innerName (package : String) (names : List String) : String := names.foldl inPackage package

theorem innerName_dotted {front : List String} (hfront : dotted front ≠ "") (names : List String) :
    innerName (dotted front) names = dotted (front ++ names) := by
  induction names generalizing front with
  | nil => rw [innerName, List.foldl_nil, List.append_nil]
  | cons name names ih =>
    calc innerName (dotted front) (name :: names)
        = innerName (dotted (front ++ [name])) names := by rw [← inPackage_dotted hfront]; rfl
      _ = dotted (front ++ [name] ++ names) := ih (dotted_concat_ne_empty hfront name)
      _ = dotted (front ++ name :: names) := by rw [List.append_assoc, List.singleton_append]

/-- From the root on the names are those with points between them, if the first is not empty. -/
theorem innerName_root {first : String} (hfirst : first ≠ "") (rest : List String) :
    innerName "" (first :: rest) = dotted (first :: rest) := by
  have hone : dotted [first] ≠ "" := by rwa [dotted_singleton]
  have h := innerName_dotted hone rest
  rwa [dotted_singleton] at h

namespace Environment

/-- The class that names lead to from a package, from left to right. At each name a class comes
before a package, and inside a class there are classes only. -/
def packageClass? (env : Environment) : String → List String → Option String
  | _, [] => none
  | package, name :: rest =>
    let full := inPackage package name
    if env.hasClass full then FileScope.nestedClass? env.hasClass full rest
    else if env.hasPackage full then env.packageClass? full rest
    else none

/-- A path leads through packages to a class and on to one nested in it. All of them are declared,
and no class has the name of a package on the way. A package of a single name is found by that name
only when no class is, so that nothing is asked of it here. -/
structure LeadsThrough (env : Environment) (packages : List String) (outer : String)
    (nested : List String) : Prop where
  named : packages ≠ []
  declared : ∀ front, front <+: packages → front ≠ [] → env.hasPackage (dotted front)
  unshadowed : ∀ front, front <+: packages → 2 ≤ front.length → env.hasClass (dotted front) = false
  classes : ∀ front, front <+: nested →
    env.hasClass (nestedName (dotted (packages ++ [outer])) front)

variable {env : Environment}

theorem packageClass?_cons {package name c : String} {rest : List String} :
    env.packageClass? package (name :: rest) = some c ↔
      (env.hasClass (inPackage package name) = true ∧
        FileScope.nestedClass? env.hasClass (inPackage package name) rest = some c) ∨
      ((env.hasClass (inPackage package name) = false ∧
          env.hasPackage (inPackage package name) = true) ∧
        env.packageClass? (inPackage package name) rest = some c) := by
  rw [packageClass?]
  cases env.hasClass (inPackage package name) <;>
    cases env.hasPackage (inPackage package name) <;> simp

/-- The packages that are passed through on the way from one of them, which grow along the names. -/
theorem packageClass?_eq_some_iff {package c : String} {names : List String} :
    env.packageClass? package names = some c ↔
      ∃ more outer nested, names = more ++ outer :: nested ∧
        nestedName (innerName package (more ++ [outer])) nested = c ∧
        (∀ part, part <+: more → part ≠ [] →
          env.hasClass (innerName package part) = false ∧
            env.hasPackage (innerName package part)) ∧
        ∀ part, part <+: nested →
          env.hasClass (nestedName (innerName package (more ++ [outer])) part) := by
  induction names generalizing package with
  | nil => simp [packageClass?]
  | cons name rest ih =>
    rw [packageClass?_cons, ih, exists_split_cons, FileScope.nestedClass?_eq_some_iff]
    refine or_congr ?_ ?_
    · -- The name is a class: the packages end here.
      constructor
      · rintro ⟨hclass, hc, hnested⟩
        exact ⟨hc, fun part hpart hne => absurd (List.prefix_nil.mp hpart) hne,
          forall_prefix_iff.mpr ⟨hclass, hnested⟩⟩
      · rintro ⟨hc, -, hclasses⟩
        obtain ⟨hclass, hnested⟩ := forall_prefix_iff.mp hclasses
        exact ⟨hclass, hc, hnested⟩
    · -- It is a package only, one more to pass through.
      simp only [forall_prefix_cons, List.cons_append]
      constructor
      · rintro ⟨hname, more, outer, nested, hrest, hc, hmore, hnested⟩
        exact ⟨more, outer, nested, hrest, hc, ⟨hname, hmore⟩, hnested⟩
      · rintro ⟨more, outer, nested, hrest, hc, ⟨hname, hmore⟩, hnested⟩
        exact ⟨hname, more, outer, nested, hrest, hc, hmore, hnested⟩

/-- The same from a package of some name. -/
theorem packageClass?_dotted_eq_some_iff {front names : List String} {c : String}
    (hfront : dotted front ≠ "") :
    env.packageClass? (dotted front) names = some c ↔
      ∃ more outer nested, names = more ++ outer :: nested ∧
        nestedName (dotted (front ++ more ++ [outer])) nested = c ∧
        (∀ part, part <+: more → part ≠ [] →
          env.hasClass (dotted (front ++ part)) = false ∧ env.hasPackage (dotted (front ++ part))) ∧
        ∀ part, part <+: nested →
          env.hasClass (nestedName (dotted (front ++ more ++ [outer])) part) := by
  simp only [packageClass?_eq_some_iff, innerName_dotted hfront, List.append_assoc]

/-- Names lead from the package of the first of them to a class exactly when the path can be split
so that it leads through packages. -/
theorem packageClass?_eq_some_iff_leadsThrough {first : String} {rest : List String} {c : String}
    (hfirst : first ≠ "") :
    (env.hasPackage first = true ∧ env.packageClass? first rest = some c) ↔
      ∃ packages outer nested, first :: rest = packages ++ outer :: nested ∧
        nestedName (dotted (packages ++ [outer])) nested = c ∧
        env.LeadsThrough packages outer nested := by
  have hdotted : dotted [first] ≠ "" := by rwa [dotted_singleton]
  have hiff := @packageClass?_dotted_eq_some_iff env [first] rest c hdotted
  rw [dotted_singleton] at hiff
  rw [hiff, exists_split_cons]
  -- A path through packages begins with the first name as one, and goes on in the packages below it.
  constructor
  · rintro ⟨hpackage, more, outer, nested, hrest, hc, hmore, hclasses⟩
    refine .inr ⟨more, outer, nested, hrest, hc, List.cons_ne_nil _ _, ?_, ?_, hclasses⟩
    · rw [forall_prefix_cons, dotted_singleton]
      exact ⟨hpackage, fun part hpart hne => (hmore part hpart hne).2⟩
    · intro part hpart hlength
      rcases List.prefix_cons_iff.mp hpart with rfl | ⟨tail, rfl, htail⟩
      · simp at hlength
      · have hne : tail ≠ [] := by
          rintro rfl
          simp at hlength
        exact (hmore tail htail hne).1
  · rintro (⟨-, h⟩ | ⟨more, outer, nested, hrest, hc, h⟩)
    · exact absurd rfl h.named
    · obtain ⟨hpackage, hmore⟩ := forall_prefix_cons.mp h.declared
      rw [dotted_singleton] at hpackage
      refine ⟨hpackage, more, outer, nested, hrest, hc, fun part hpart hne => ?_, h.classes⟩
      have hlength : 2 ≤ (first :: part).length :=
        Nat.succ_le_succ (List.length_pos_iff.mpr hne)
      exact ⟨h.unshadowed _ (List.cons_prefix_cons.mpr ⟨rfl, hpart⟩) hlength, hmore part hpart hne⟩

end Environment

end KotlinTree
