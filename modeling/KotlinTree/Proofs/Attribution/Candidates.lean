import KotlinTree.Proofs.Attribution.Offer

/-!
The members that can be meant on a type, and which of them is chosen. Main statement: where the classes of
a type declare a member for their values, no member of the companion is chosen, but for a call whose
arguments none of them and no extension takes.
-/

namespace KotlinTree.Attribution

/-- A class of a type, or one above it, declares a member of a name for its values. -/
def Declares (env : Environment) (t : Ty) (name : String) (p : Purpose) : Prop :=
  ∃ owner ∈ receiverChain env t, ∃ m ∈ env.membersNamed (.of owner) name,
    m.isStatic = false ∧ p.fits m = true

/-- The members of a name on the companion of a type's class. -/
def companionMembers (env : Environment) (t : Ty) (name : String) (p : Purpose) : List Member :=
  (env.companionOf? t).toList.flatMap (declaredMembers env · name p)

/-- What is chosen among candidates for a call: one of them, if there are any, and one that takes the
arguments if any of them does. -/
def Decides (candidates : List Member) (count : Nat) : Option Member → Prop
  | some m => m ∈ candidates ∧ ((∃ c ∈ candidates, c.acceptsArity count) → m.acceptsArity count)
  | none => candidates = []

namespace Setting

/-- Nothing that a type or an extension has takes the arguments of a call, and the companion has the
name. -/
def TurnsToCompanion (s : Setting) (t : Ty) (name : String) (p : Purpose) : Prop :=
  ∃ count, p = .call count ∧
    (∀ m ∈ declaredMembers s.env t name p ++ s.extensions t name p, ¬m.acceptsArity count) ∧
      companionMembers s.env t name p ≠ []

end Setting

theorem decides_overload? (candidates : List Member) (count : Nat) :
    Decides candidates count (overload? candidates count) := by
  unfold overload?
  cases hfind : candidates.find? (·.acceptsArity count) with
  | some m =>
    have haccepts : m.acceptsArity count := (List.find?_eq_some_iff_append.mp hfind).1
    exact ⟨List.mem_of_find?_eq_some hfind, fun _ => haccepts⟩
  | none =>
    rw [Option.none_or]
    cases candidates with
    | nil => rfl
    | cons m rest =>
      refine ⟨List.mem_cons_self, ?_⟩
      rintro ⟨c, hc, haccepts⟩
      exact absurd haccepts (List.find?_eq_none.mp hfind c hc)

/-- Of what is not to be called, one is chosen whenever there is any. -/
theorem Purpose.exists_select? {p : Purpose} {members : List Member}
    (hcall : ¬∃ count, p = .call count) (hne : members ≠ []) : ∃ m, p.select? members = some m := by
  obtain ⟨first, rest, rfl⟩ := List.exists_cons_of_ne_nil hne
  cases p with
  | call count => exact absurd ⟨count, rfl⟩ hcall
  | value => exact ⟨first, rfl⟩
  | any =>
    unfold Purpose.select?
    cases (first :: rest).find? Member.isField with
    | none => exact ⟨first, rfl⟩
    | some m => exact ⟨m, rfl⟩

section
variable {env : Environment} {t : Ty} {name : String} {p : Purpose}

theorem companionMember?_eq (env : Environment) (t : Ty) (name : String) (p : Purpose) :
    companionMember? env t name p = p.selectLoosely? (companionMembers env t name p) := by
  unfold companionMember? companionMembers
  cases env.companionOf? t with
  | none => cases p <;> rfl
  | some companion => simp

/-- An interface that declares a property for its values is not passed over. -/
theorem isPassedOver_eq_false {owner : String} {m : Member}
    (hm : m ∈ env.membersNamed (.of owner) name) (hfits : p.fits m) :
    isPassedOver env p owner = false := by
  obtain ⟨_, info, howner, hinfo, hmem⟩ := Environment.exists_of_mem_membersNamed hm
  cases howner
  unfold isPassedOver
  cases p with
  | call count => rfl
  | any => rfl
  | value =>
    have hfields : info.hasFields = true :=
      List.any_eq_true.mpr ⟨m, (List.mem_filter.mp hmem).1, hfits⟩
    simp [hinfo, hfields]

theorem declaredMembers_ne_nil_iff : declaredMembers env t name p ≠ [] ↔ Declares env t name p := by
  constructor
  · intro hne
    obtain ⟨m, hm⟩ := List.exists_mem_of_ne_nil _ hne
    obtain ⟨owner, howner, hm⟩ := List.mem_flatMap.mp hm
    obtain ⟨hm, hown⟩ := List.mem_filter.mp hm
    rw [Bool.and_eq_true, Bool.not_eq_true'] at hown
    exact ⟨owner, (List.mem_filter.mp howner).1, m, hm, hown.1, hown.2⟩
  · rintro ⟨owner, howner, m, hm, hstatic, hfits⟩
    refine List.ne_nil_of_mem (a := m) (List.mem_flatMap.mpr ⟨owner, ?_, ?_⟩)
    · exact List.mem_filter.mpr ⟨howner, by rw [isPassedOver_eq_false hm hfits]; rfl⟩
    · exact List.mem_filter.mpr ⟨hm, by rw [hstatic, hfits]; rfl⟩

/-- Of an unknown type nothing is declared. -/
theorem Declares.isUnknown (h : Declares env t name p) : t.isUnknown = false := by
  obtain ⟨owner, howner, -⟩ := h
  cases t with
  | unknown => exact absurd howner List.not_mem_nil
  | nothing _ => rfl
  | named _ _ => rfl

end

namespace Setting

variable {s : Setting} {st : State} {t : Ty} {name : String} {p : Purpose} {count : Nat}

/-- A call is first for what takes its arguments, on the type or as an extension. -/
theorem instanceMember?_call (h : t.isUnknown = false) :
    s.instanceMember? t name (.call count) =
      let near := declaredMembers s.env t name (.call count) ++ s.extensions t name (.call count)
      (near.find? (·.acceptsArity count)).or
        ((overload? (companionMembers s.env t name (.call count)) count).or
          (overload? near count)) := by
  unfold instanceMember?
  rw [h, if_neg Bool.false_ne_true, companionMember?_eq]
  dsimp only
  rw [List.find?_append, Option.or_assoc]
  rfl

/-- What is called where the classes of a type declare methods of the name. -/
theorem callMember_of_declared (hne : declaredMembers s.env t name (.call count) ≠ [])
    (hknown : t.isUnknown = false) :
    ∃ m, s.instanceMember? t name (.call count) = some m ∧
      (s.TurnsToCompanion t name (.call count) ∧
          companionMember? s.env t name (.call count) = some m ∨
        ¬s.TurnsToCompanion t name (.call count) ∧
          (m ∈ declaredMembers s.env t name (.call count) ∨
            m ∈ s.extensions t name (.call count) ∧ m.acceptsArity count ∧
              ∀ d ∈ declaredMembers s.env t name (.call count), ¬d.acceptsArity count)) := by
  rw [instanceMember?_call hknown, companionMember?_eq]
  set declared := declaredMembers s.env t name (.call count)
  set extensions := s.extensions t name (.call count)
  dsimp only
  cases hnear : (declared ++ extensions).find? (·.acceptsArity count) with
  | some m =>
    have hmem := List.mem_of_find?_eq_some hnear
    have haccepts : m.acceptsArity count := (List.find?_eq_some_iff_append.mp hnear).1
    refine ⟨m, rfl, .inr ⟨?_, ?_⟩⟩
    · rintro ⟨_, hp, hnone, -⟩
      cases hp
      exact hnone m hmem haccepts
    · cases hdeclared : declared.find? (·.acceptsArity count) with
      | some d =>
        rw [List.find?_append, hdeclared, Option.some_or] at hnear
        cases hnear
        exact .inl (List.mem_of_find?_eq_some hdeclared)
      | none =>
        have hnone := List.find?_eq_none.mp hdeclared
        rcases List.mem_append.mp hmem with hm | hm
        · exact absurd haccepts (hnone m hm)
        · exact .inr ⟨hm, haccepts, hnone⟩
  | none =>
    have hnone := List.find?_eq_none.mp hnear
    rw [Option.none_or]
    have hchosen := decides_overload? (companionMembers s.env t name (.call count)) count
    cases hcompanion : overload? (companionMembers s.env t name (.call count)) count with
    | some m =>
      rw [hcompanion] at hchosen
      exact ⟨m, rfl, .inl ⟨⟨count, rfl, hnone, List.ne_nil_of_mem hchosen.1⟩, hcompanion⟩⟩
    | none =>
      rw [hcompanion] at hchosen
      -- With nothing on the companion either, the first that is declared is called after all.
      obtain ⟨first, rest, hdeclared⟩ := List.exists_cons_of_ne_nil hne
      refine ⟨first, ?_, .inr ⟨?_, .inl (hdeclared ▸ List.mem_cons_self)⟩⟩
      · rw [Option.none_or, overload?, hnear, Option.none_or, hdeclared]
        rfl
      · rintro ⟨_, hp, -, hsome⟩
        cases hp
        exact hsome hchosen

/-- Where the classes of a type declare a member, it is a member of theirs, or an extension that takes the
arguments where none of theirs does. Only a call whose arguments none of these takes can go to the
companion. -/
theorem instanceMember?_of_declares (h : Declares s.env t name p) :
    ∃ m, s.instanceMember? t name p = some m ∧
      (s.TurnsToCompanion t name p ∧ companionMember? s.env t name p = some m ∨
        ¬s.TurnsToCompanion t name p ∧
          (m ∈ declaredMembers s.env t name p ∨
            m ∈ s.extensions t name p ∧ ∃ count, p = .call count ∧ m.acceptsArity count ∧
              ∀ d ∈ declaredMembers s.env t name p, ¬d.acceptsArity count)) := by
  have hne := declaredMembers_ne_nil_iff.mpr h
  by_cases hcall : ∃ count, p = .call count
  · obtain ⟨count, rfl⟩ := hcall
    obtain ⟨m, hm, hcases⟩ := callMember_of_declared hne h.isUnknown
    refine ⟨m, hm, hcases.imp_right fun ⟨hturn, hfrom⟩ => ⟨hturn, hfrom.imp_right ?_⟩⟩
    exact fun ⟨hextension, haccepts⟩ => ⟨hextension, count, rfl, haccepts⟩
  · -- What is not called is the first that is declared, or the first property.
    have hturn : ¬s.TurnsToCompanion t name p := fun ⟨count, hp, _⟩ => hcall ⟨count, hp⟩
    obtain ⟨m, hm⟩ := Purpose.exists_select? hcall hne
    refine ⟨m, ?_, .inr ⟨hturn, .inl (Purpose.mem_of_select? hm)⟩⟩
    unfold instanceMember?
    rw [h.isUnknown, if_neg Bool.false_ne_true]
    dsimp only
    rw [hm, Option.some_or]

/-- A class with a method `f` that has so many parameters. -/
def declaring (name : String) (parameters : List Ty) (companion : Option String) : ClassInfo where
  name := name
  package := ""
  kind := .plainClass
  origin := .source
  members := [{ name := "f", kind := .method, type := .unknown, owner := name, parameters }]
  companion := companion

/-- A class `A` that declares `f` for one argument, and its companion that declares it for two. -/
def competing : Setting where
  forest := {}
  env := {
    classes := (Std.HashMap.emptyWithCapacity.insert "A"
        (declaring "A" [.unknown] (some "A$Companion"))).insert "A$Companion"
        (declaring "A$Companion" [.unknown, .unknown] none) }
  unit := { fileName := "a.kt", scope := {}, facade := "AKt", classNames := [] }

theorem competing_classOf? (owner : String) :
    competing.env.classOf? (.of owner) =
      if owner = "A$Companion" then some (declaring "A$Companion" [.unknown, .unknown] none)
      else if owner = "A" then some (declaring "A" [.unknown] (some "A$Companion")) else none := by
  have hname : (Ty.of owner).name? = some owner := rfl
  simp only [Environment.classOf?, hname, Option.bind_some, Environment.classInfo?, competing,
    Std.HashMap.getElem?_insert, beq_iff_eq, Std.HashMap.getElem?_emptyWithCapacity]
  grind

/-- Neither method can be called without arguments, and it is not the one of the class that is called. -/
theorem competing_instanceMember? :
    Declares competing.env (.of "A") "f" (.call 0) ∧
      ∃ m, competing.instanceMember? (.of "A") "f" (.call 0) = some m ∧
        companionMember? competing.env (.of "A") "f" (.call 0) = some m := by
  -- The class and its companion each declare the function.
  have hdeclares (owner : String) (h : owner = "A" ∨ owner = "A$Companion") :
      Declares competing.env (.of owner) "f" (.call 0) := by
    refine ⟨owner, List.mem_cons_self, ?_⟩
    rw [Environment.membersNamed, competing_classOf?]
    rcases h with rfl | rfl <;> exact ⟨_, List.mem_cons_self, rfl, rfl⟩
  -- No overload of the class takes the arguments, and the companion has one of that name.
  have hturn : competing.TurnsToCompanion (.of "A") "f" (.call 0) := by
    refine ⟨0, rfl, ?_, ?_⟩
    · intro m hm
      have hextensions : competing.extensions (.of "A") "f" (.call 0) = [] := by
        simp [extensions, Environment.extensionsOf, competing]
      rw [hextensions, List.append_nil] at hm
      obtain ⟨owner, -, hm⟩ := List.mem_flatMap.mp hm
      have hmethod := (List.mem_filter.mp hm).1
      rw [Environment.membersNamed, competing_classOf?] at hmethod
      grind [declaring, ClassInfo.membersNamed, Member.acceptsArity]
    · have hcompanion : competing.env.companionOf? (.of "A") = some (.of "A$Companion") := by
        rw [Environment.companionOf?, competing_classOf?]
        rfl
      rw [companionMembers, hcompanion]
      simpa using declaredMembers_ne_nil_iff.mpr (hdeclares "A$Companion" (.inr rfl))
  obtain ⟨m, hm, ⟨-, hcompanion⟩ | ⟨hnot, -⟩⟩ :=
    instanceMember?_of_declares (hdeclares "A" (.inl rfl))
  · exact ⟨hdeclares "A" (.inl rfl), m, hm, hcompanion⟩
  · exact absurd hturn hnot

end Setting

end KotlinTree.Attribution
