import Mathlib.Data.List.Nodup
import Mathlib.Data.List.Perm.Subperm
import Mathlib.Logic.Relation
import KotlinTree.Types.Subtyping

/-!
What is above a class by the supertypes that classes declare, in cyclic hierarchies too. Main statement:
where no class has more above it than a walk looks at, being a subtype is a preorder on classes, and
comes to being below.
-/

namespace KotlinTree

namespace Environment

/-- One class leads to another by one declared supertype after another. -/
def Above (env : Environment) (sub sup : String) : Prop :=
  Relation.TransGen (fun a b => b ∈ env.supertypes a) sub sup

/-- No class has more other classes above it than a walk looks at, and above the roots there is nothing
but the first of them. -/
structure Rooted (env : Environment) : Prop where
  few : ∀ sub, ∃ all : List String, all.length ≤ maxSupertypes ∧
    ∀ sup, env.Above sub sup → sup ≠ sub → sup ∈ all
  any : env.supertypes Ty.anyName = []
  object : ∀ sup ∈ env.supertypes Ty.javaObjectName, sup = Ty.anyName

/-- Where a walk stands: it has found different classes above the one that it starts from, and what
these declare as supertypes has been found or is yet to be looked at. -/
structure Searched (env : Environment) (start : String) (found queue : List String) : Prop where
  nodup : found.Nodup
  start_notMem : start ∉ found
  found_above : ∀ t ∈ found, env.Above start t
  queue_above : ∀ t ∈ queue, env.Above start t
  closed : ∀ sub ∈ start :: found, ∀ t ∈ env.supertypes sub, t ∈ start :: found ∨ t ∈ queue

section
variable {env : Environment} {start name sub sup : String} {found queue rest : List String}

theorem above_of_mem_supertypes (h : sup ∈ env.supertypes sub) : env.Above sub sup :=
  Relation.TransGen.single h

/-- Of what lies above a class, nothing is outside a list that its own and all supertypes are in. -/
theorem mem_of_above {all : List String} (hall : ∀ sub, ∀ t ∈ env.supertypes sub, t ∈ all)
    (h : env.Above sub sup) : sup ∈ all := by
  obtain ⟨last, -, hlast⟩ := Relation.TransGen.tail'_iff.mp h
  exact hall last sup hlast

namespace Searched

theorem start_walk (env : Environment) (start : String) :
    env.Searched start [] (env.supertypes start) where
  nodup := List.nodup_nil
  start_notMem := List.not_mem_nil
  found_above _ h := absurd h List.not_mem_nil
  queue_above _ h := above_of_mem_supertypes h
  closed sub hsub t ht := by
    rw [List.mem_singleton] at hsub
    exact .inr (hsub ▸ ht)

/-- A class that is known is passed over. -/
theorem pass (h : env.Searched start found (name :: rest)) (hname : name = start ∨ name ∈ found) :
    env.Searched start found rest where
  nodup := h.nodup
  start_notMem := h.start_notMem
  found_above := h.found_above
  queue_above t ht := h.queue_above t (List.mem_cons_of_mem _ ht)
  closed sub hsub t ht := by
    rcases h.closed sub hsub t ht with hfound | hqueue
    · exact .inl hfound
    · rcases List.mem_cons.mp hqueue with rfl | hrest
      · exact .inl (List.mem_cons.mpr hname)
      · exact .inr hrest

/-- Another class is found, and its supertypes are looked at later. -/
theorem find (h : env.Searched start found (name :: rest)) (hname : ¬ (name = start ∨ name ∈ found)) :
    env.Searched start (name :: found) (rest ++ env.supertypes name) := by
  have habove : env.Above start name := h.queue_above name List.mem_cons_self
  obtain ⟨hstart, hfound⟩ := not_or.mp hname
  exact {
    nodup := List.nodup_cons.mpr ⟨hfound, h.nodup⟩
    start_notMem := fun hmem => (List.mem_cons.mp hmem).elim (fun he => hstart he.symm) h.start_notMem
    found_above := List.forall_mem_cons.mpr ⟨habove, h.found_above⟩
    queue_above := by
      intro t ht
      rcases List.mem_append.mp ht with hrest | hnext
      · exact h.queue_above t (List.mem_cons_of_mem _ hrest)
      · exact habove.tail hnext
    -- What was above a name that is known is found or waits; what is above the new one waits.
    closed := by
      have hknown (t : String) (ht : t ∈ start :: found) : t ∈ start :: name :: found :=
        (List.mem_cons.mp ht).elim (fun he => he ▸ List.mem_cons_self) fun hmem =>
          List.mem_cons_of_mem _ (List.mem_cons_of_mem _ hmem)
      intro sub hsub t ht
      by_cases hsame : sub = name
      · exact .inr (List.mem_append_right _ (hsame ▸ ht))
      · have hbefore : sub ∈ start :: found := by
          simpa [hsame] using hsub
        rcases h.closed sub hbefore t ht with hfound | hqueue
        · exact .inl (hknown t hfound)
        · rcases List.mem_cons.mp hqueue with rfl | hrest
          · exact .inl (List.mem_cons_of_mem _ List.mem_cons_self)
          · exact .inr (List.mem_append_left _ hrest) }

/-- When nothing is left to look at, all that is above has been found. -/
theorem mem_of_above (h : env.Searched start found []) (habove : env.Above start sup)
    (hne : sup ≠ start) : sup ∈ found := by
  have hclosed : sup ∈ start :: found := by
    induction habove with
    | single hstep => exact (h.closed start List.mem_cons_self _ hstep).resolve_right List.not_mem_nil
    | @tail mid last _ hstep ih =>
      by_cases hmid : mid = start
      · exact (h.closed start List.mem_cons_self _ (hmid ▸ hstep)).resolve_right List.not_mem_nil
      · exact (h.closed mid (ih hmid) _ hstep).resolve_right List.not_mem_nil
  exact (List.mem_cons.mp hclosed).resolve_left hne

/-- When as much has been found as there is, all of it has been found. -/
theorem mem_of_length_le (h : env.Searched start found queue) {all : List String}
    (hall : ∀ sup, env.Above start sup → sup ≠ start → sup ∈ all) (hlength : all.length ≤ found.length)
    (habove : env.Above start sup) (hne : sup ≠ start) : sup ∈ found := by
  have hsub : found ⊆ all := fun t ht =>
    hall t (h.found_above t ht) fun he => h.start_notMem (he ▸ ht)
  have hperm : found.Perm all := (h.nodup.subperm hsub).perm_of_length_le hlength
  exact hperm.mem_iff.mpr (hall sup habove hne)

end Searched

theorem above_of_mem_walkFrom (hs : env.Searched start found queue)
    (h : sup ∈ env.walkFrom start found queue) : env.Above start sup := by
  fun_induction env.walkFrom start found queue with
  | case1 found => exact hs.found_above sup (List.mem_reverse.mp h)
  | case2 found name rest _ => exact hs.found_above sup (List.mem_reverse.mp h)
  | case3 found name rest _ hname ih => exact ih (hs.pass hname) h
  | case4 found name rest _ hname ih => exact ih (hs.find hname) h

/-- A walk misses nothing, if there is not more above its start than it looks at. -/
theorem mem_walkFrom_of_above {all : List String} (hlength : all.length ≤ maxSupertypes)
    (hall : ∀ sup, env.Above start sup → sup ≠ start → sup ∈ all)
    (hs : env.Searched start found queue) (habove : env.Above start sup) (hne : sup ≠ start) :
    sup ∈ env.walkFrom start found queue := by
  fun_induction env.walkFrom start found queue with
  | case1 found => exact List.mem_reverse.mpr (hs.mem_of_above habove hne)
  | case2 found name rest hfull =>
    exact List.mem_reverse.mpr (hs.mem_of_length_le hall (Nat.le_trans hlength hfull) habove hne)
  | case3 found name rest _ hname ih => exact ih (hs.pass hname)
  | case4 found name rest _ hname ih => exact ih (hs.find hname)

theorem Rooted.mem_supertypeWalk_iff (h : env.Rooted) (hne : sup ≠ sub) :
    sup ∈ env.supertypeWalk sub ↔ env.Above sub sup := by
  obtain ⟨all, hlength, hall⟩ := h.few sub
  have hstart := Searched.start_walk env sub
  constructor
  · exact above_of_mem_walkFrom hstart
  · exact fun habove => mem_walkFrom_of_above hlength hall hstart habove hne

theorem isSubtype_of_iff : env.isSubtype (.of sub) (.of sup) ↔
    sup = sub ∨ sup = Ty.anyName ∨ sup = Ty.javaObjectName ∨ sup ∈ env.supertypeWalk sub := by
  change env.isSubclass sub sup = true ↔ _
  simp only [isSubclass, Bool.or_eq_true, decide_eq_true_eq, List.contains_iff_mem, or_assoc,
    eq_comm (a := sub)]

theorem Rooted.isSubtype_iff_above (h : env.Rooted) : env.isSubtype (.of sub) (.of sup) ↔
    sup = sub ∨ sup = Ty.anyName ∨ sup = Ty.javaObjectName ∨ env.Above sub sup := by
  rw [isSubtype_of_iff]
  by_cases hne : sup = sub
  · exact iff_of_true (.inl hne) (.inl hne)
  · rw [h.mem_supertypeWalk_iff hne]

/-- Where all supertypes are the first root, nothing else is above. -/
theorem Rooted.eq_any_of_above (h : env.Rooted) (hsub : ∀ t ∈ env.supertypes sub, t = Ty.anyName)
    (habove : env.Above sub sup) : sup = Ty.anyName := by
  obtain ⟨next, hnext, hrest⟩ := Relation.TransGen.head'_iff.mp habove
  obtain rfl := hsub next hnext
  -- Nothing is above the first root, so that the way ends there.
  rcases Relation.ReflTransGen.cases_head hrest with heq | ⟨further, hfurther, -⟩
  · exact heq.symm
  · rw [h.any] at hfurther
    exact absurd hfurther List.not_mem_nil

theorem Rooted.isSubtype_trans (h : env.Rooted) {low mid high : String}
    (hlow : env.isSubtype (.of low) (.of mid)) (hhigh : env.isSubtype (.of mid) (.of high)) :
    env.isSubtype (.of low) (.of high) := by
  rw [h.isSubtype_iff_above] at hlow hhigh ⊢
  rcases hhigh with rfl | hany | hobject | hhigh
  · exact hlow
  · exact .inr (.inl hany)
  · exact .inr (.inr (.inl hobject))
  · rcases hlow with rfl | hany | hobject | hlow
    · exact .inr (.inr (.inr hhigh))
    · have hnone : ∀ t ∈ env.supertypes mid, t = Ty.anyName := by simp [hany, h.any]
      exact .inr (.inl (h.eq_any_of_above hnone hhigh))
    · exact .inr (.inl (h.eq_any_of_above (hobject ▸ h.object) hhigh))
    · exact .inr (.inr (.inr (hlow.trans hhigh)))

end

/-- Being a subtype is a preorder on classes that are not nullable: a class is below itself, below the
roots, and below what its supertypes lead to, cycles among them or not. -/
theorem isSubtype_preorder {env : Environment} (h : env.Rooted) :
    (∀ name, env.isSubtype (.of name) (.of name)) ∧
      (∀ low mid high, env.isSubtype (.of low) (.of mid) → env.isSubtype (.of mid) (.of high) →
        env.isSubtype (.of low) (.of high)) ∧
      ∀ sub sup, env.isSubtype (.of sub) (.of sup) ↔
        sup = sub ∨ sup = Ty.anyName ∨ sup = Ty.javaObjectName ∨ env.Above sub sup :=
  ⟨fun _ => isSubtype_of_iff.mpr (.inl rfl), fun _ _ _ => h.isSubtype_trans,
    fun _ _ => h.isSubtype_iff_above⟩

/-- Two classes that declare each other as supertypes, one of them an interface too. -/
def cyclic : Environment where
  classes := [("A", ["B"]), ("B", ["A", "I"]), ("I", []), (Ty.javaObjectName, []), (Ty.anyName, [])].foldl
    (fun classes (name, supertypes) => classes.insert name
      { name, package := "", kind := .interface, origin := .source, supertypes }) ∅

theorem cyclic_supertypes (name : String) : cyclic.supertypes name =
    if name = "A" then ["B"] else if name = "B" then ["A", "I"]
    else if name = "I" ∨ name = Ty.javaObjectName then [Ty.anyName] else [] := by
  simp only [supertypes, classInfo?, cyclic, List.foldl_cons, List.foldl_nil, Std.HashMap.getElem?_insert,
    Std.HashMap.getElem?_empty]
  grind [Ty.anyName, Ty.javaObjectName]

theorem cyclic_rooted : cyclic.Rooted where
  few sub := by
    refine ⟨["A", "B", "I", Ty.anyName], by decide, fun sup habove _ => ?_⟩
    refine mem_of_above (fun sub t ht => ?_) habove
    rw [cyclic_supertypes] at ht
    grind
  any := by rw [cyclic_supertypes]; decide
  object sup h := by
    rw [cyclic_supertypes] at h
    exact List.mem_singleton.mp h

/-- In the cycle each class is below the other, and below what only the other declares. -/
theorem isSubtype_preorder_cyclic : cyclic.Rooted ∧ cyclic.isSubtype (.of "A") (.of "A") ∧
    cyclic.isSubtype (.of "B") (.of "A") ∧ cyclic.isSubtype (.of "A") (.of "I") ∧
    ¬ cyclic.isSubtype (.of "I") (.of "A") := by
  obtain ⟨hrefl, htrans, hiff⟩ := isSubtype_preorder cyclic_rooted
  have hstep {sub sup : String} (h : sup ∈ cyclic.supertypes sub) :
      cyclic.isSubtype (.of sub) (.of sup) :=
    (hiff sub sup).mpr (.inr (.inr (.inr (above_of_mem_supertypes h))))
  have hab : cyclic.isSubtype (.of "A") (.of "B") := hstep (by rw [cyclic_supertypes]; decide)
  have hba : cyclic.isSubtype (.of "B") (.of "A") := hstep (by rw [cyclic_supertypes]; decide)
  have hbi : cyclic.isSubtype (.of "B") (.of "I") := hstep (by rw [cyclic_supertypes]; decide)
  refine ⟨cyclic_rooted, hrefl "A", hba, htrans _ _ _ hab hbi, ?_⟩
  have honly : ∀ t ∈ cyclic.supertypes "I", t = Ty.anyName := by
    rw [cyclic_supertypes]
    decide
  have hnot : ¬ cyclic.Above "I" "A" := fun habove =>
    absurd (cyclic_rooted.eq_any_of_above honly habove) (by decide)
  rw [hiff]
  exact not_or.mpr ⟨by decide, not_or.mpr ⟨by decide, not_or.mpr ⟨by decide, hnot⟩⟩⟩

end Environment

end KotlinTree
