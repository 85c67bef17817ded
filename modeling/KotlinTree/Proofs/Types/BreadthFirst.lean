import Mathlib.Data.Set.Card
import KotlinTree.Proofs.Types.Subtyping

/-!
The order of a walk to what is above a class. Main statement: a walk comes to the classes above its start
by their distance, those of one distance by the first way that leads to them, and it leaves one out only
when it has come to as many as it looks at.
-/

namespace KotlinTree

/-- What a list adds to names that are known, each where it is first. -/
def fresh (known : List String) : List String → List String
  | [] => []
  | a :: names => if a ∈ known then fresh known names else a :: fresh (a :: known) names

section
variable {known known' names more : List String} {a c : String} {g : String → List String}

/-- A name that is known already is passed over. -/
theorem fresh_cons_of_mem (h : a ∈ known) : fresh known (a :: names) = fresh known names := if_pos h

/-- A name that is not known is kept, and known from then on. -/
theorem fresh_cons_of_notMem (h : a ∉ known) :
    fresh known (a :: names) = a :: fresh (a :: known) names := if_neg h

/-- What is kept is among the names and not known before. -/
theorem mem_fresh : c ∈ fresh known names ↔ c ∈ names ∧ c ∉ known := by
  fun_induction fresh known names <;> grind

/-- Only which names are known matters, not their order. -/
theorem fresh_congr (h : ∀ c, c ∈ known ↔ c ∈ known') (names : List String) :
    fresh known names = fresh known' names := by
  induction names generalizing known known' with
  | nil => rfl
  | cons a names ih =>
    by_cases ha : a ∈ known
    · rw [fresh_cons_of_mem ha, fresh_cons_of_mem ((h a).mp ha), ih h]
    · rw [fresh_cons_of_notMem ha, fresh_cons_of_notMem (mt (h a).mpr ha)]
      exact congrArg (a :: ·) (ih fun c => by simp only [List.mem_cons, h c])

/-- Of two lists, the second is gone through when the first is known. -/
theorem fresh_append : fresh known (names ++ more) =
    fresh known names ++ fresh (fresh known names ++ known) more := by
  induction names generalizing known with
  | nil => rfl
  | cons a names ih =>
    by_cases ha : a ∈ known
    · rw [List.cons_append, fresh_cons_of_mem ha, fresh_cons_of_mem ha, ih]
    · rw [List.cons_append, fresh_cons_of_notMem ha, fresh_cons_of_notMem ha, ih, List.cons_append]
      refine congrArg (a :: fresh (a :: known) names ++ ·) (fresh_congr (fun c => ?_) more)
      simp only [List.mem_append, List.mem_cons, or_left_comm, or_assoc]

/-- What is kept is kept once. -/
theorem nodup_fresh (known names : List String) : (fresh known names).Nodup := by
  fun_induction fresh known names with
  | case1 known => exact List.nodup_nil
  | case2 known a names ha ih => exact ih
  | case3 known a names ha ih =>
    exact List.nodup_cons.mpr ⟨fun h => (mem_fresh.mp h).2 List.mem_cons_self, ih⟩

/-- What is added stands in the order of its first occurrences. -/
theorem pairwise_idxOf_fresh (known names : List String) :
    (fresh known names).Pairwise fun c d => names.idxOf c < names.idxOf d := by
  -- Names that are not the first of the list stand one further in it.
  have hnext {known names : List String} {a : String} (ha : a ∈ known)
      (ih : (fresh known names).Pairwise fun c d => names.idxOf c < names.idxOf d) :
      (fresh known names).Pairwise fun c d => (a :: names).idxOf c < (a :: names).idxOf d := by
    refine ih.imp_of_mem fun hc hd hlt => ?_
    have hne {c : String} (hc : c ∈ fresh known names) : a ≠ c := fun he =>
      (mem_fresh.mp hc).2 (he ▸ ha)
    rw [List.idxOf_cons_ne _ (hne hc), List.idxOf_cons_ne _ (hne hd)]
    exact Nat.succ_lt_succ hlt
  fun_induction fresh known names with
  | case1 known => exact List.Pairwise.nil
  | case2 known a names ha ih => exact hnext ha ih
  | case3 known a names ha ih =>
    refine List.pairwise_cons.mpr ⟨fun c hc => ?_, hnext List.mem_cons_self ih⟩
    have hne : a ≠ c := fun he => (mem_fresh.mp hc).2 (he ▸ List.mem_cons_self)
    rw [List.idxOf_cons_self, List.idxOf_cons_ne _ hne]
    exact Nat.succ_pos _

/-- Where what the known names lead to is known, only names that are added lead to more. -/
theorem fresh_flatMap (h : ∀ a ∈ known, ∀ c ∈ g a, c ∈ known') :
    fresh known' (names.flatMap g) = fresh known' ((fresh known names).flatMap g) := by
  induction names generalizing known known' with
  | nil => rfl
  | cons a names ih =>
    by_cases ha : a ∈ known
    · have hnone : fresh known' (g a) = [] := List.eq_nil_iff_forall_not_mem.mpr fun c hc =>
        (mem_fresh.mp hc).2 (h a ha c (mem_fresh.mp hc).1)
      rw [List.flatMap_cons, fresh_append, hnone, fresh_cons_of_mem ha]
      exact ih h
    · rw [List.flatMap_cons, fresh_cons_of_notMem ha, List.flatMap_cons, fresh_append, fresh_append]
      refine congrArg (fresh known' (g a) ++ ·) (ih fun b hb c hc => ?_)
      rw [List.mem_append, mem_fresh]
      rcases List.mem_cons.mp hb with rfl | hb
      · exact (Classical.em (c ∈ known')).elim .inr fun hknown => .inl ⟨hc, hknown⟩
      · exact .inr (h b hb c hc)

end

namespace Environment

/-- Where the ways of `n` steps lead to that begin at a class, in the order in which supertypes are
declared. -/
def ways (env : Environment) (start : String) : Nat → List String
  | 0 => [start]
  | n + 1 => (env.ways start n).flatMap env.supertypes

/-- The shortest way to a class has `n` steps. -/
def IsAt (env : Environment) (start name : String) (n : Nat) : Prop :=
  name ∈ env.ways start n ∧ ∀ m < n, name ∉ env.ways start m

/-- What is above a class, the class itself apart. -/
def othersAbove (env : Environment) (start : String) : Set String :=
  {sup | env.Above start sup ∧ sup ≠ start}

/-- The classes that ways of fewer than `n` steps lead to, each where it is met first. -/
def met (env : Environment) (start : String) (n : Nat) : List String :=
  fresh [] ((List.range n).flatMap (env.ways start))

/-- The classes at a distance in the order in which they are met first. -/
def layer (env : Environment) (start : String) (n : Nat) : List String :=
  fresh (env.met start n) (env.ways start n)

/-- The next `n` layers after classes that are known, of which the last lead to some names. -/
def beyond (env : Environment) (known names : List String) : Nat → List String
  | 0 => []
  | n + 1 =>
    let added := fresh known names
    added ++ env.beyond (added ++ known) (added.flatMap env.supertypes) n

/-- A list of what is above a class, each once and never the class itself, by the distance and at one
distance by the first way that leads there; all of it where there is not more than a walk looks at, and
otherwise as much as that from the beginning. -/
structure BreadthFirst (env : Environment) (start : String) (walk : List String) : Prop where
  nodup : walk.Nodup
  start_notMem : start ∉ walk
  mem_othersAbove : ∀ c ∈ walk, c ∈ env.othersAbove start
  exists_isAt : ∀ c ∈ env.othersAbove start, ∃ n, env.IsAt start c n
  byDistance : walk.Pairwise fun c d => ∀ i j, env.IsAt start c i → env.IsAt start d j →
    i ≤ j ∧ (i = j → (env.ways start i).idxOf c < (env.ways start i).idxOf d)
  eq_take_met : ∀ n, maxSupertypes ≤ n → walk = (env.met start (n + 1)).tail.take maxSupertypes
  finite : (env.othersAbove start).Finite
  mem_iff : (env.othersAbove start).ncard ≤ maxSupertypes →
    ∀ c, c ∈ walk ↔ c ∈ env.othersAbove start
  length_eq : maxSupertypes < (env.othersAbove start).ncard → walk.length = maxSupertypes

section
variable {env : Environment} {start name sup c d : String} {found queue rest known names : List String}
  {m n : Nat}

/-- One step further, a way ends at a supertype of where it ended before. -/
theorem mem_ways_succ : sup ∈ env.ways start (n + 1) ↔
    ∃ last ∈ env.ways start n, sup ∈ env.supertypes last :=
  List.mem_flatMap

/-- What is above a class is where ways of one or more steps lead to. -/
theorem above_iff_exists_mem_ways : env.Above start sup ↔ ∃ n, sup ∈ env.ways start (n + 1) := by
  constructor
  · intro h
    induction h with
    | single h => exact ⟨0, mem_ways_succ.mpr ⟨start, List.mem_singleton_self start, h⟩⟩
    | tail _ h ih =>
      obtain ⟨n, hn⟩ := ih
      exact ⟨n + 1, mem_ways_succ.mpr ⟨_, hn, h⟩⟩
  · rintro ⟨n, hn⟩
    induction n generalizing sup with
    | zero =>
      obtain ⟨last, hlast, hsup⟩ := mem_ways_succ.mp hn
      exact above_of_mem_supertypes (List.mem_singleton.mp hlast ▸ hsup)
    | succ n ih =>
      obtain ⟨last, hlast, hsup⟩ := mem_ways_succ.mp hn
      exact (ih hlast).tail hsup

/-- A class has been met if a way of fewer steps leads to it. -/
theorem mem_met : c ∈ env.met start n ↔ ∃ m < n, c ∈ env.ways start m := by
  simp [met, mem_fresh]

/-- With each layer, more classes have been met. -/
theorem met_succ (env : Environment) (start : String) (n : Nat) :
    env.met start (n + 1) = env.met start n ++ env.layer start n := by
  rw [met, List.range_succ, List.flatMap_append, fresh_append, List.flatMap_singleton]
  exact congrArg (env.met start n ++ ·) (fresh_congr (fun c => by simp [met]) _)

/-- The layers are the classes at each distance. -/
theorem isAt_iff_mem_layer : env.IsAt start c n ↔ c ∈ env.layer start n := by
  simp [IsAt, layer, mem_fresh, mem_met]

/-- A class is at one distance only. -/
theorem IsAt.eq (hm : env.IsAt start name m) (hn : env.IsAt start name n) : m = n := by
  rcases Nat.lt_trichotomy m n with hlt | heq | hlt
  · exact absurd hm.1 (hn.2 m hlt)
  · exact heq
  · exact absurd hn.1 (hm.2 n hlt)

/-- What is met has been met by distance, at one distance by the first way. -/
theorem pairwise_met (env : Environment) (start : String) (n : Nat) :
    (env.met start n).Pairwise fun c d => ∀ i j, env.IsAt start c i → env.IsAt start d j →
      i ≤ j ∧ (i = j → (env.ways start i).idxOf c < (env.ways start i).idxOf d) := by
  induction n with
  | zero => exact List.Pairwise.nil
  | succ n ih =>
    rw [met_succ]
    refine List.pairwise_append.mpr ⟨ih, ?_, fun c hc d hd i j hi hj => ?_⟩
    · refine (pairwise_idxOf_fresh _ _).imp_of_mem fun hc hd hlt i j hi hj => ?_
      obtain rfl := hi.eq (isAt_iff_mem_layer.mpr hc)
      obtain rfl := hj.eq (isAt_iff_mem_layer.mpr hd)
      exact ⟨Nat.le_refl _, fun _ => hlt⟩
    · obtain rfl := hj.eq (isAt_iff_mem_layer.mpr hd)
      obtain ⟨m, hm, hcm⟩ := mem_met.mp hc
      have hlt : i < j := Nat.lt_of_not_le fun hle => hi.2 m (Nat.lt_of_lt_of_le hm hle) hcm
      exact ⟨hlt.le, fun he => absurd he hlt.ne⟩

/-- Each layer is what the one before declares and what has not been met. -/
theorem layer_succ (env : Environment) (start : String) (n : Nat) : env.layer start (n + 1) =
    fresh (env.met start (n + 1)) ((env.layer start n).flatMap env.supertypes) := by
  refine fresh_flatMap fun a ha c hc => ?_
  obtain ⟨m, hm, ham⟩ := mem_met.mp ha
  exact mem_met.mpr ⟨m + 1, Nat.succ_lt_succ hm, mem_ways_succ.mpr ⟨a, ham, hc⟩⟩

/-- Only which classes are known matters for what lies beyond them. -/
theorem beyond_congr (h : ∀ c, c ∈ known ↔ c ∈ rest) (names : List String) (n : Nat) :
    env.beyond known names n = env.beyond rest names n := by
  induction n generalizing known rest names with
  | zero => rfl
  | succ n ih =>
    rw [beyond, beyond, fresh_congr h]
    exact congrArg (fresh rest names ++ ·) (ih (fun c => by simp only [List.mem_append, h c]) _)

/-- Nothing lies beyond where there is nothing left. -/
theorem beyond_nil (known : List String) (n : Nat) : env.beyond known [] n = [] := by
  induction n generalizing known with
  | zero => rfl
  | succ n ih => exact ih known

/-- What is met up to a distance and what lies beyond it are all that is met further on. -/
theorem met_append_beyond (env : Environment) (start : String) (m n : Nat) :
    env.met start (m + 1) ++
        env.beyond (env.met start (m + 1)) ((env.layer start m).flatMap env.supertypes) n =
      env.met start (m + 1 + n) := by
  induction n generalizing m with
  | zero => exact List.append_nil _
  | succ n ih =>
    rw [beyond, ← layer_succ, ← List.append_assoc, ← met_succ]
    have hknown (c : String) : c ∈ env.layer start (m + 1) ++ env.met start (m + 1) ↔
        c ∈ env.met start (m + 2) := by
      rw [met_succ env start (m + 1), List.mem_append, List.mem_append, or_comm]
    rw [beyond_congr hknown, ih (m + 1)]
    exact congrArg (env.met start) (by omega)

/-- All that is met is the start and what lies beyond it. -/
theorem met_eq_cons_beyond (env : Environment) (start : String) (n : Nat) :
    env.met start (n + 1) = start :: env.beyond [start] (env.supertypes start) n := by
  have hone : env.met start 1 = [start] := rfl
  have hlayer : env.layer start 0 = [start] := rfl
  have h := met_append_beyond env start 0 n
  rw [hone, hlayer, List.flatMap_singleton, Nat.add_comm] at h
  exact h.symm

/-- A walk ends where nothing waits. -/
theorem walkFrom_nil : env.walkFrom start found [] = found.reverse := by
  rw [walkFrom]

/-- A walk ends where enough has been found. -/
theorem walkFrom_of_full (h : maxSupertypes ≤ found.length) :
    env.walkFrom start found queue = found.reverse := by
  cases queue with
  | nil => exact walkFrom_nil
  | cons name rest => rw [walkFrom, if_pos h]

/-- A class that is known is passed over. -/
theorem walkFrom_cons_of_known (h : name = start ∨ name ∈ found) :
    env.walkFrom start found (name :: rest) = env.walkFrom start found rest := by
  by_cases hfull : maxSupertypes ≤ found.length
  · rw [walkFrom_of_full hfull, walkFrom_of_full hfull]
  · rw [walkFrom, if_neg hfull, if_pos h]

/-- A class that is new is found, and its supertypes wait at the end. -/
theorem walkFrom_cons_of_new (hfull : ¬ maxSupertypes ≤ found.length)
    (h : ¬ (name = start ∨ name ∈ found)) : env.walkFrom start found (name :: rest) =
      env.walkFrom start (name :: found) (rest ++ env.supertypes name) := by
  rw [walkFrom, if_neg hfull, if_neg h]

/-- Where enough has been found, more is left out. -/
theorem take_reverse_append (hlength : found.length ≤ maxSupertypes)
    (hfull : maxSupertypes ≤ found.length) :
    (found.reverse ++ rest).take maxSupertypes = found.reverse :=
  List.take_left' (by rw [List.length_reverse]; exact Nat.le_antisymm hlength hfull)

/-- A walk comes to a whole layer before it looks further, unless it has come to enough before. -/
theorem walkFrom_layer (hlength : found.length ≤ maxSupertypes) :
    env.walkFrom start found (queue ++ rest) =
      if maxSupertypes ≤ found.length + (fresh (start :: found) queue).length then
        (found.reverse ++ fresh (start :: found) queue).take maxSupertypes
      else env.walkFrom start ((fresh (start :: found) queue).reverse ++ found)
        (rest ++ (fresh (start :: found) queue).flatMap env.supertypes) := by
  -- The induction is on the queue: a name is known, or there is no room for it, or it is found.
  induction queue generalizing found rest with
  | nil =>
    split
    next hfull => rw [walkFrom_of_full hfull, take_reverse_append hlength hfull]
    next => simp [fresh]
  | cons a queue ih =>
    by_cases ha : a ∈ start :: found
    · rw [List.cons_append, walkFrom_cons_of_known (List.mem_cons.mp ha), fresh_cons_of_mem ha]
      exact ih hlength
    by_cases hfull : maxSupertypes ≤ found.length
    · rw [walkFrom_of_full hfull, take_reverse_append hlength hfull, if_pos (by omega)]
    · have hnext : (a :: found).length ≤ maxSupertypes := Nat.lt_of_not_le hfull
      have hknown (c : String) : c ∈ a :: start :: found ↔ c ∈ start :: a :: found := by
        simp only [List.mem_cons, or_left_comm]
      rw [List.cons_append, walkFrom_cons_of_new hfull (mt List.mem_cons.mpr ha), List.append_assoc,
        ih hnext, fresh_cons_of_notMem ha, fresh_congr hknown]
      simp only [List.length_cons, List.reverse_cons, List.append_assoc, List.cons_append,
        List.nil_append, List.flatMap_cons, Nat.add_assoc, Nat.add_comm 1]

/-- A walk looks at as much as it may of the layers beyond what it has found. -/
theorem walkFrom_eq_take_beyond (hlength : found.length ≤ maxSupertypes)
    (hn : maxSupertypes ≤ found.length + n) : env.walkFrom start found queue =
      (found.reverse ++ env.beyond (start :: found) queue n).take maxSupertypes := by
  induction n generalizing found queue with
  | zero => rw [walkFrom_of_full hn, take_reverse_append hlength hn]
  | succ n ih =>
    rw [← List.append_nil queue, walkFrom_layer hlength, List.append_nil, List.nil_append, beyond,
      ← List.append_assoc]
    generalize hadded : fresh (start :: found) queue = added
    split
    next hfull =>
      refine (List.take_append_of_le_length ?_).symm
      rwa [List.length_append, List.length_reverse]
    next hmore =>
      cases added with
      | nil =>
        -- Where a layer adds nothing, no further one does.
        simp only [List.reverse_nil, List.nil_append, List.append_nil, List.flatMap_nil, beyond_nil]
        rw [walkFrom_nil, List.take_of_length_le (by rwa [List.length_reverse])]
      | cons a added =>
        have hknown (c : String) : c ∈ start :: ((a :: added).reverse ++ found) ↔
            c ∈ a :: added ++ start :: found := by
          simp only [List.mem_cons, List.mem_append, List.mem_reverse, or_left_comm]
        rw [ih, beyond_congr hknown]
        · simp only [List.reverse_append, List.reverse_reverse]
        · simp at hmore ⊢
          omega
        · simp at hn ⊢
          omega

/-- A walk is as much as it may look at of what is met in ways of some length. -/
theorem supertypeWalk_eq_take_met (hn : maxSupertypes ≤ n) :
    env.supertypeWalk start = (env.met start (n + 1)).tail.take maxSupertypes := by
  rw [met_eq_cons_beyond, List.tail_cons]
  exact walkFrom_eq_take_beyond (Nat.zero_le _) (by rwa [List.length_nil, Nat.zero_add])

/-- A walk finds classes in the order in which they are met. -/
theorem supertypeWalk_sublist_met (hn : maxSupertypes ≤ n) :
    (env.supertypeWalk start).Sublist (env.met start (n + 1)).tail :=
  supertypeWalk_eq_take_met hn ▸ List.take_sublist _ _

/-- The start is not met again. -/
theorem notMem_tail_met (env : Environment) (start : String) (n : Nat) :
    start ∉ (env.met start (n + 1)).tail := by
  have hnodup : (env.met start (n + 1)).Nodup := nodup_fresh _ _
  rw [met_eq_cons_beyond] at hnodup ⊢
  exact (List.nodup_cons.mp hnodup).1

/-- Besides the start, all classes to which a way leads are met. -/
theorem mem_tail_met : c ∈ (env.met start (n + 1)).tail ↔
    c ≠ start ∧ ∃ m < n, c ∈ env.ways start (m + 1) := by
  have hcons : c ∈ env.met start (n + 1) ↔ c = start ∨ c ∈ (env.met start (n + 1)).tail := by
    rw [met_eq_cons_beyond, List.mem_cons, List.tail_cons]
  rw [mem_met] at hcons
  constructor
  · intro h
    have hne : c ≠ start := fun he => notMem_tail_met env start n (he ▸ h)
    obtain ⟨_ | m, hm, hc⟩ := hcons.mpr (.inr h)
    · exact absurd (List.mem_singleton.mp hc) hne
    · exact ⟨hne, m, Nat.lt_of_succ_lt_succ hm, hc⟩
  · rintro ⟨hne, m, hm, hc⟩
    exact (hcons.mp ⟨m + 1, Nat.succ_lt_succ hm, hc⟩).resolve_left hne

/-- No class is found twice. -/
theorem supertypeWalk_nodup (env : Environment) (start : String) : (env.supertypeWalk start).Nodup :=
  (nodup_fresh _ _).sublist ((supertypeWalk_sublist_met (Nat.le_refl _)).trans (List.tail_sublist _))

/-- A walk does not find its start. -/
theorem notMem_supertypeWalk (env : Environment) (start : String) : start ∉ env.supertypeWalk start :=
  fun h => notMem_tail_met env start _ ((supertypeWalk_sublist_met (Nat.le_refl _)).mem h)

/-- What a walk finds is another class above its start. -/
theorem mem_othersAbove_of_mem_supertypeWalk (h : c ∈ env.supertypeWalk start) :
    c ∈ env.othersAbove start := by
  obtain ⟨hne, m, -, hm⟩ := mem_tail_met.mp ((supertypeWalk_sublist_met (Nat.le_refl _)).mem h)
  exact ⟨above_iff_exists_mem_ways.mpr ⟨m, hm⟩, hne⟩

/-- A walk that stops before it has looked at as much as it may has come to all. -/
theorem mem_supertypeWalk_of_length_lt (hlength : (env.supertypeWalk start).length < maxSupertypes)
    (h : c ∈ env.othersAbove start) : c ∈ env.supertypeWalk start := by
  obtain ⟨m, hm⟩ := above_iff_exists_mem_ways.mp h.1
  have heq : env.supertypeWalk start =
      (env.met start (maxSupertypes + (m + 1) + 1)).tail.take maxSupertypes :=
    supertypeWalk_eq_take_met (Nat.le_add_right _ _)
  rw [heq, List.length_take, min_lt_iff, or_iff_right (Nat.lt_irrefl _)] at hlength
  rw [heq, List.take_of_length_le hlength.le]
  exact mem_tail_met.mpr ⟨h.2, m, by omega, hm⟩

/-- A class above another is at some distance. -/
theorem exists_isAt (h : env.Above start c) : ∃ n, env.IsAt start c n := by
  obtain ⟨n, hn⟩ := above_iff_exists_mem_ways.mp h
  have hsome : ∃ n, c ∈ env.ways start n := ⟨n + 1, hn⟩
  classical exact ⟨Nat.find hsome, Nat.find_spec hsome, fun m hm => Nat.find_min hsome hm⟩

/-- A class with supertypes is declared. -/
theorem mem_classes_of_mem_supertypes (h : sup ∈ env.supertypes name) : name ∈ env.classes := by
  rw [supertypes, classInfo?] at h
  by_contra hnone
  rw [Std.HashMap.getElem?_eq_none hnone] at h
  exact List.not_mem_nil h

/-- Where supertypes are from one list, so is what is above a class. -/
theorem othersAbove_subset {all : List String} (hall : ∀ sub, ∀ t ∈ env.supertypes sub, t ∈ all) :
    env.othersAbove start ⊆ {c | c ∈ all} := fun _ hc => mem_of_above hall hc.1

/-- There are finitely many classes above another. -/
theorem othersAbove_finite (env : Environment) (start : String) : (env.othersAbove start).Finite :=
  (env.classes.keys.flatMap env.supertypes).finite_toSet.subset (othersAbove_subset fun sub _ ht =>
    List.mem_flatMap.mpr ⟨sub, Std.HashMap.mem_keys.mpr (mem_classes_of_mem_supertypes ht), ht⟩)

/-- There are no more of them than there are supertypes in all. -/
theorem ncard_othersAbove_le {all : List String} (hall : ∀ sub, ∀ t ∈ env.supertypes sub, t ∈ all) :
    (env.othersAbove start).ncard ≤ all.length := by
  refine (Set.ncard_le_ncard (othersAbove_subset hall) all.finite_toSet).trans ?_
  rw [← List.coe_toFinset, Set.ncard_coe_finset]
  exact all.toFinset_card_le

/-- A walk finds no more than its limit. -/
theorem length_supertypeWalk_le (env : Environment) (start : String) :
    (env.supertypeWalk start).length ≤ maxSupertypes := by
  rw [supertypeWalk_eq_take_met (Nat.le_refl _), List.length_take]
  exact Nat.min_le_left _ _

/-- A walk finds as many classes as it is long. -/
theorem ncard_supertypeWalk (env : Environment) (start : String) :
    {c | c ∈ env.supertypeWalk start}.ncard = (env.supertypeWalk start).length := by
  rw [← List.coe_toFinset, Set.ncard_coe_finset,
    List.toFinset_card_of_nodup (supertypeWalk_nodup env start)]

/-- Where there is not more above a class than a walk looks at, a walk comes to all of it. -/
theorem mem_supertypeWalk_iff_of_ncard_le (hcard : (env.othersAbove start).ncard ≤ maxSupertypes) :
    c ∈ env.supertypeWalk start ↔ c ∈ env.othersAbove start := by
  refine ⟨mem_othersAbove_of_mem_supertypeWalk, fun h => ?_⟩
  by_cases hlength : (env.supertypeWalk start).length < maxSupertypes
  · exact mem_supertypeWalk_of_length_lt hlength h
  · have heq : {c | c ∈ env.supertypeWalk start} = env.othersAbove start := by
      refine Set.eq_of_subset_of_ncard_le (fun c => mem_othersAbove_of_mem_supertypeWalk) ?_
        (othersAbove_finite env start)
      rw [ncard_supertypeWalk]
      exact hcard.trans (Nat.le_of_not_lt hlength)
    exact (Set.ext_iff.mp heq c).mpr h

/-- Where there is more above a class, a walk comes to as much as it looks at. -/
theorem length_supertypeWalk_eq (hcard : maxSupertypes < (env.othersAbove start).ncard) :
    (env.supertypeWalk start).length = maxSupertypes := by
  refine Nat.le_antisymm (length_supertypeWalk_le env start) (Nat.le_of_not_lt fun hlength => ?_)
  have heq : {c | c ∈ env.supertypeWalk start} = env.othersAbove start := Set.ext fun c =>
    ⟨mem_othersAbove_of_mem_supertypeWalk, mem_supertypeWalk_of_length_lt hlength⟩
  rw [← heq, ncard_supertypeWalk] at hcard
  exact Nat.lt_asymm hlength hcard

/-- A walk comes to nearer classes first, at one distance to those that an earlier way leads to. -/
theorem supertypeWalk_pairwise (env : Environment) (start : String) :
    (env.supertypeWalk start).Pairwise fun c d => ∀ i j, env.IsAt start c i → env.IsAt start d j →
      i ≤ j ∧ (i = j → (env.ways start i).idxOf c < (env.ways start i).idxOf d) :=
  (pairwise_met env start _).sublist
    ((supertypeWalk_sublist_met (Nat.le_refl _)).trans (List.tail_sublist _))

end

/-- What is above a class is found breadth first, for all hierarchies. -/
theorem supertypesAbove_breadthFirst (env : Environment) (name : String) (nullability : Nullability) :
    env.BreadthFirst name (env.supertypesAbove (.named name nullability)) where
  nodup := supertypeWalk_nodup env name
  start_notMem := notMem_supertypeWalk env name
  mem_othersAbove _ hc := mem_othersAbove_of_mem_supertypeWalk hc
  exists_isAt _ hc := exists_isAt hc.1
  byDistance := supertypeWalk_pairwise env name
  eq_take_met _ hn := supertypeWalk_eq_take_met hn
  finite := othersAbove_finite env name
  mem_iff hcard _ := mem_supertypeWalk_iff_of_ncard_le hcard
  length_eq := length_supertypeWalk_eq

end Environment

end KotlinTree
