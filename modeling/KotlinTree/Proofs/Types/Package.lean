import KotlinTree.Proofs.Text.Parts
import KotlinTree.Types.Environment

/-!
Packages and those around them. Main statement: with a package, each text before a point of its name
is declared as a package too, and nothing else is.
-/

namespace KotlinTree

/-- All of a dotted name, or what is before one of its points. -/
def IsDottedFront (front name : String) : Prop := front = name ∨ ∃ back, name = front ++ "." ++ back

/-- What is before a point is put together from the first of the parts. -/
theorem isDottedFront_iff {front name : String} : IsDottedFront front name ↔
    ∃ parts, parts <+: Text.parts (· = '.') name ∧ parts ≠ [] ∧ dotted parts = front := by
  constructor
  · rintro (rfl | ⟨back, rfl⟩)
    · exact ⟨_, List.prefix_refl _, Text.parts_ne_nil front, dotted_parts front⟩
    · refine ⟨Text.parts (· = '.') front, ?_, Text.parts_ne_nil front, dotted_parts front⟩
      rw [Text.parts_append]
      exact List.prefix_append _ _
  · rintro ⟨parts, ⟨rest, hparts⟩, hne, rfl⟩
    have hname : name = dotted (parts ++ rest) := by rw [hparts, dotted_parts]
    by_cases hrest : rest = []
    · left
      rw [hname, hrest, List.append_nil]
    · right
      exact ⟨dotted rest, by rw [hname, dotted_append hne hrest]⟩

theorem isDottedFront_dotted {part names : List String} (h : part <+: names) (hne : part ≠ []) :
    IsDottedFront (dotted part) (dotted names) := by
  obtain ⟨back, rfl⟩ := h
  by_cases hback : back = []
  · left
    rw [hback, List.append_nil]
  · exact .inr ⟨dotted back, dotted_append hne hback⟩

namespace Environment

/-- A package and those around it are declared. A package without a name needs no declaration. -/
def DeclaresPackage (env : Environment) (package : String) : Prop :=
  ∀ front, front ≠ "" → IsDottedFront front package → env.hasPackage front

/-- The beginnings of a list that are not empty, by its first member. -/
theorem exists_prefix_cons {α : Type} {p : List α → Prop} {a : α} {l : List α} :
    (∃ front, front <+: a :: l ∧ front ≠ [] ∧ p front) ↔
      p [a] ∨ ∃ front, front <+: l ∧ front ≠ [] ∧ p (a :: front) := by
  constructor
  · rintro ⟨front, hfront, hne, h⟩
    rcases List.prefix_cons_iff.mp hfront with rfl | ⟨tail, rfl, htail⟩
    · exact absurd rfl hne
    · by_cases hnil : tail = []
      · exact .inl (hnil ▸ h)
      · exact .inr ⟨tail, htail, hnil, h⟩
  · rintro (h | ⟨front, hfront, -, h⟩)
    · exact ⟨[a], List.cons_prefix_cons.mpr ⟨rfl, List.nil_prefix⟩, List.cons_ne_nil _ _, h⟩
    · exact ⟨a :: front, List.cons_prefix_cons.mpr ⟨rfl, hfront⟩, List.cons_ne_nil _ _, h⟩

/-- The last name that has been found is put together from all parts that have been gone through. -/
theorem mem_foldl_enclosingNames (name : String) (rest done names : List String)
    (hdone : done ≠ []) :
    name ∈ (rest.foldl (fun (names, before) part =>
      let next := match before with
        | none => part
        | some outer => outer ++ "." ++ part
      (names ++ [next], some next)) (names, some (dotted done))).1 ↔
    name ∈ names ∨ ∃ front, front <+: rest ∧ front ≠ [] ∧ dotted (done ++ front) = name := by
  induction rest generalizing done names with
  | nil => simp [List.prefix_nil]
  | cons part rest ih =>
    have hnext : dotted done ++ "." ++ part = dotted (done ++ [part]) := by
      rw [dotted_append hdone (List.cons_ne_nil _ _), dotted_singleton]
    rw [List.foldl_cons]
    dsimp only
    rw [hnext, ih (done ++ [part]) _ (by simp), List.mem_append, List.mem_singleton, or_assoc,
      exists_prefix_cons]
    simp only [List.append_assoc, List.singleton_append, eq_comm (a := name)]

theorem mem_enclosingNames {parts : List String} {name : String} :
    name ∈ enclosingNames parts ↔ ∃ front, front <+: parts ∧ front ≠ [] ∧ dotted front = name := by
  cases parts with
  | nil => simp [enclosingNames, List.prefix_nil]
  | cons part rest =>
    have hfirst := mem_foldl_enclosingNames name rest [part] [part] (List.cons_ne_nil _ _)
    rw [List.mem_singleton, dotted_singleton] at hfirst
    rw [exists_prefix_cons, dotted_singleton, eq_comm (a := part)]
    unfold enclosingNames
    rw [List.foldl_cons]
    exact hfirst

theorem contains_foldl_insert (names : List String) (all : Std.HashSet String) (name : String) :
    (names.foldl (·.insert ·) all).contains name ↔ all.contains name ∨ name ∈ names := by
  induction names generalizing all with
  | nil => simp
  | cons first names ih =>
    rw [List.foldl_cons, ih, Std.HashSet.contains_insert, Bool.or_eq_true, beq_iff_eq, List.mem_cons,
      or_assoc, or_left_comm, eq_comm (a := first)]

theorem hasPackage_addPackage {env : Environment} {package name : String} :
    (env.addPackage package).hasPackage name ↔
      env.hasPackage name ∨ (package ≠ "" ∧ IsDottedFront name package) := by
  unfold addPackage
  split
  · rename_i hempty
    simp [hempty]
  · rename_i hname
    unfold hasPackage
    rw [contains_foldl_insert, mem_enclosingNames, isDottedFront_iff]
    exact or_congr_right (and_iff_right hname).symm

theorem declaresPackage_addPackage (env : Environment) (package : String) :
    (env.addPackage package).DeclaresPackage package := by
  intro front hne hfront
  rw [hasPackage_addPackage]
  refine .inr ⟨?_, hfront⟩
  rintro rfl
  -- Nothing is before a point of an empty name.
  rcases hfront with rfl | ⟨back, hback⟩
  · exact hne rfl
  · have hlength := congrArg String.length hback
    simp only [String.length_append, String.length_empty] at hlength
    have hpoint : ".".length = 1 := rfl
    omega

/-- With a class its package is declared, also where the class conflicts. -/
theorem hasPackage_addClass (env : Environment) (info : ClassInfo) (name : String) :
    (env.addClass info).1.hasPackage name ↔ (env.addPackage info.package).hasPackage name := by
  unfold addClass
  dsimp only
  split
  · exact Iff.rfl
  · split <;> exact Iff.rfl

theorem hasPackage_addTopLevel (env : Environment) (package : String) (m : Member)
    (origin : Origin) (name : String) :
    (env.addTopLevel package m origin).hasPackage name ↔ (env.addPackage package).hasPackage name := by
  unfold addTopLevel
  dsimp only
  split <;> exact Iff.rfl

end Environment

end KotlinTree
