import KotlinTree.Proofs.Binding.Property
import KotlinTree.Proofs.Binding.Unit
import KotlinTree.Proofs.Types.Consistent
import KotlinTree.Proofs.Types.Local

/-!
Binding files in another order. Main statement: when no two files declare a class of the same name,
binding them comes to the same in every order.
-/

namespace KotlinTree

/-- Steps that are the same as others wherever something holds, which they keep. -/
theorem foldlM_congr {ε α β : Type} {p : β → Prop} {step step' : β → α → Except ε β} {xs : List α}
    {b : β} (hstep : ∀ x ∈ xs, ∀ b, p b → step b x = step' b x)
    (hkeep : ∀ x ∈ xs, ∀ b b', p b → step b x = .ok b' → p b') (hp : p b) :
    xs.foldlM step b = xs.foldlM step' b := by
  induction xs generalizing b with
  | nil => rfl
  | cons x xs ih =>
    rw [List.foldlM_cons, List.foldlM_cons, ← hstep x List.mem_cons_self b hp]
    cases hx : step b x with
    | error e => rfl
    | ok next =>
      exact ih (fun y hy => hstep y (List.mem_cons_of_mem _ hy))
        (fun y hy => hkeep y (List.mem_cons_of_mem _ hy))
        (hkeep x List.mem_cons_self b next hp hx)

namespace Environment

theorem hasClass_modifyClass (env : Environment) (name : String) (f : ClassInfo → ClassInfo) :
    (env.modifyClass name f).hasClass = env.hasClass := by
  funext n
  rw [Bool.eq_iff_iff, ← isSome_classInfo?, ← isSome_classInfo?]
  cases hc : env.classInfo? name with
  | none => rw [modifyClass_of_none hc]
  | some info =>
    rw [modifyClass_of_some hc f n]
    split
    · rename_i hn
      rw [hn, hc]
      rfl
    · rfl

theorem Alike.hasClass_eq {env other : Environment} (h : env.Alike other) :
    env.hasClass = other.hasClass := by
  funext n
  rw [Bool.eq_iff_iff, ← isSome_classInfo?, ← isSome_classInfo?, (h.classes n).info]

end Environment

namespace Binding
open Environment

variable {file : File} {base env : Environment}

/-- A file declares a class of a name. -/
def File.Names (file : File) (name : String) : Prop := ∃ site ∈ file.sites, site.name = name

/-- The classes around one that a file declares are declared by the file as well. -/
def File.Nested (file : File) : Prop :=
  ∀ site ∈ file.sites, ∀ outer ∈ site.enclosing, file.Names outer

theorem File.nested_ofParsed (defaultImports : List String) (u : ParsedUnit) :
    (File.ofParsed defaultImports u).Nested :=
  fun _ hsite _ houter => Forest.exists_site_of_mem_enclosing hsite houter

/-- A class is added, and then told to the class that it is the companion of. -/
theorem declareSite_eq (package : String) (site : ClassSite) (env : Environment) :
    declareSite package env site =
      addClassStep { name := site.name, package, kind := site.kind, origin := .source } env >>=
        fun env => match site.kind, site.enclosing.getLast? with
          | .companionObject, some outer =>
            .ok (env.modifyClass outer fun info => { info with companion := some site.name })
          | _, _ => .ok env := by
  unfold declareSite addClassStep
  split
  · rename_i h
    rw [h]
    rfl
  · rename_i h
    rw [h]
    rfl

theorem local_declareSite {names : String → Prop} {site : ClassSite} (package : String)
    (hsite : names site.name) (houter : ∀ outer ∈ site.enclosing, names outer) :
    Local names (declareSite package · site) := by
  rw [funext (declareSite_eq package site)]
  apply Local.bind
  · exact (local_addClassStep _).mono fun n hn => hn ▸ hsite
  · split
    · rename_i outer _ hlast
      refine (local_modifyClass outer _).mono fun n hn => ?_
      exact hn ▸ houter outer (List.mem_of_getLast? hlast)
    · exact local_ok names

theorem local_declareClasses (hnested : file.Nested) : Local file.Names (declareClasses · file) := by
  have hsites : Local file.Names (file.sites.foldlM (declareSite file.scope.package)) :=
    Local.foldlM fun site hsite =>
      local_declareSite file.scope.package ⟨site, hsite, rfl⟩ (hnested site hsite)
  exact (local_addPackage file.Names file.scope.package).bind hsites

/-- As `resolveSite`, with the classes of another environment in scope. -/
def resolveSiteBy (base : Environment) (file : File) (env : Environment) (site : ClassSite) :
    Environment :=
  let add (all : List String) (name : String) : List String :=
    if all.contains name then all else all ++ [name]
  env.modifyClass site.name fun info =>
    { info with supertypes := (supertypesOf base file site).foldl add info.supertypes }

def resolveSupertypesBy (base : Environment) (env : Environment) (file : File) :
    Except EnvironmentError Environment :=
  file.sites.foldlM (fun env site => .ok (resolveSiteBy base file env site)) env

theorem supertypesOf_congr (h : env.hasClass = base.hasClass) (file : File) (site : ClassSite) :
    supertypesOf env file site = supertypesOf base file site := by
  have hone : supertypeOf? env file site = supertypeOf? base file site := by
    funext entry
    unfold supertypeOf?
    rw [h]
  unfold supertypesOf
  rw [hone]

theorem resolveSite_eq (h : env.hasClass = base.hasClass) (file : File) (site : ClassSite) :
    resolveSite file env site = resolveSiteBy base file env site := by
  unfold resolveSite resolveSiteBy
  rw [supertypesOf_congr h]

theorem local_resolveSupertypesBy (base : Environment) (file : File) :
    Local file.Names (resolveSupertypesBy base · file) := by
  apply Local.foldlM
  intro site hsite
  exact (local_modifyClass site.name _).mono fun n hn => ⟨site, hsite, hn.symm⟩

/-- Which classes there are does not change while supertypes are noted. -/
theorem resolveSupertypes_eq (files : List File) (h : env.hasClass = base.hasClass) :
    Except.ok (files.foldl resolveSupertypes env) = files.foldlM (resolveSupertypesBy base) env ∧
      (files.foldl resolveSupertypes env).hasClass = base.hasClass := by
  have hsites (file : File) (sites : List ClassSite) (env : Environment)
      (h : env.hasClass = base.hasClass) :
      sites.foldlM (fun env site =>
        (.ok (resolveSiteBy base file env site) : Except EnvironmentError Environment)) env =
          .ok (sites.foldl (resolveSite file) env) ∧
      (sites.foldl (resolveSite file) env).hasClass = base.hasClass := by
    induction sites generalizing env with
    | nil => exact ⟨rfl, h⟩
    | cons site sites ih =>
      rw [List.foldl_cons, List.foldlM_cons, ← resolveSite_eq h]
      exact ih _ ((hasClass_modifyClass _ _ _).trans h)
  induction files generalizing env with
  | nil => exact ⟨rfl, h⟩
  | cons file files ih =>
    obtain ⟨hfirst, hclass⟩ := hsites file file.sites env h
    rw [List.foldl_cons, List.foldlM_cons, resolveSupertypesBy, hfirst]
    exact ih hclass

/-- As `declareMembers`, with signatures that are read from elsewhere. -/
def declareMembersBy (source : SignatureSource) (file : File) (env : Environment) (id : NodeId) :
    Except EnvironmentError Environment :=
  match file.parsed.forest.kind? (some id) with
  | some (.node .classDeclaration) | some (.node .objectDeclaration) =>
    (source.classMembers file.classNames [] id).foldlM (fun env m => env.addMember m.owner m) env
  | some (.node .propertyDeclaration) | some (.node .functionDeclaration) =>
    match source.member? file.facade {} id with
    | some m => .ok (env.addTopLevel file.scope.package m .source)
    | none => .ok env
  | _ => .ok env

def declareFileMembersBy (base : Environment) (env : Environment) (file : File) :
    Except EnvironmentError Environment :=
  (file.parsed.forest.topLevelDeclarations file.parsed.root).toList.foldlM
    (declareMembersBy (file.signatures base) file) env

theorem declareMembers_eq (h : env.hasClass = base.hasClass) (file : File) (id : NodeId) :
    declareMembers file env id = declareMembersBy (file.signatures base) file env id := by
  have hsource : file.signatures env = file.signatures base := by
    unfold File.signatures
    rw [h]
  rw [← hsource]
  rfl

theorem local_declareMembersBy (source : SignatureSource) (file : File) (id : NodeId) :
    Local file.Names (declareMembersBy source file · id) := by
  -- Members of classes are about the file's own classes, those at the top about none.
  have hclass : Local file.Names ((source.classMembers file.classNames [] id).foldlM
      fun env m => env.addMember m.owner m) := by
    apply Local.foldlM
    intro m hm
    obtain ⟨node, hnode⟩ := SignatureSource.owner_of_mem_classMembers hm
    obtain ⟨site, hsite, hpair⟩ := List.mem_map.mp hnode
    exact (local_addMember m).mono fun n hn => ⟨site, hsite, hn ▸ (Prod.mk.inj hpair).2⟩
  have htop : Local file.Names fun env => match source.member? file.facade {} id with
      | some m => .ok (env.addTopLevel file.scope.package m .source)
      | none => .ok env := by
    split
    · exact local_addTopLevel file.Names file.scope.package _
    · exact local_ok file.Names
  unfold declareMembersBy
  split
  · exact hclass
  · exact hclass
  · exact htop
  · exact htop
  · exact local_ok file.Names

theorem local_declareFileMembersBy (base : Environment) (file : File) :
    Local file.Names (declareFileMembersBy base · file) :=
  Local.foldlM fun id _ => local_declareMembersBy (file.signatures base) file id

theorem declareFileMembers_eq (files : List File) (h : env.hasClass = base.hasClass) :
    files.foldlM declareFileMembers env = files.foldlM (declareFileMembersBy base) env := by
  have hkeep (file : File) (b b' : Environment) (hb : b.hasClass = base.hasClass)
      (hd : declareFileMembers b file = .ok b') : b'.hasClass = base.hasClass :=
    (funext (declareFileMembers_grows hd).hasClass).trans hb
  refine foldlM_congr (p := fun env => env.hasClass = base.hasClass) (fun file _ b hb => ?_)
    (fun file _ => hkeep file) h
  refine foldlM_congr (p := fun env => env.hasClass = base.hasClass)
    (fun id _ e he => declareMembers_eq he file id) (fun id _ e e' he hd => ?_) hb
  exact (funext (declareMembers_grows hd).hasClass).trans he

/-- The three passes of binding, each over all files. -/
def bindFiles (env : Environment) (files : List File) : Except EnvironmentError Environment :=
  files.foldlM declareClasses env >>= fun declared =>
    files.foldlM declareFileMembers (files.foldl resolveSupertypes declared)

theorem alikeResults_bindFiles {files files' : List File} (hperm : files.Perm files')
    (hnested : ∀ file ∈ files, file.Nested)
    (hdisjoint : ∀ a ∈ files, ∀ b ∈ files, a ≠ b → ∀ n, a.Names n → ¬ b.Names n)
    (env : Environment) : AlikeResults (bindFiles env files) (bindFiles env files') := by
  have hclasses := alikeResults_foldlM hperm
    (fun file hfile => local_declareClasses (hnested file hfile)) hdisjoint (Alike.refl env)
  unfold bindFiles
  cases hc : files.foldlM declareClasses env with
  | error e =>
    cases hc' : files'.foldlM declareClasses env with
    | error e' => trivial
    | ok declared' =>
      rw [hc, hc'] at hclasses
      exact hclasses.elim
  | ok declared =>
    cases hc' : files'.foldlM declareClasses env with
    | error e' =>
      rw [hc, hc'] at hclasses
      exact hclasses.elim
    | ok declared' =>
      rw [hc, hc'] at hclasses
      have hdeclared : declared.Alike declared' := hclasses
      -- From here on the classes are the same, and every signature is read with them.
      obtain ⟨hsuper, hclass⟩ := resolveSupertypes_eq files (rfl : declared.hasClass = _)
      have hknown : declared'.hasClass = declared.hasClass := hdeclared.hasClass_eq.symm
      obtain ⟨hsuper', hclass'⟩ := resolveSupertypes_eq files' hknown
      have hsupertypes : AlikeResults (.ok (files.foldl resolveSupertypes declared))
          (.ok (files'.foldl resolveSupertypes declared')) := by
        rw [hsuper, hsuper']
        exact alikeResults_foldlM hperm
          (fun file _ => local_resolveSupertypesBy declared file) hdisjoint hdeclared
      change AlikeResults
        (files.foldlM declareFileMembers (files.foldl resolveSupertypes declared))
        (files'.foldlM declareFileMembers (files'.foldl resolveSupertypes declared'))
      rw [declareFileMembers_eq files hclass, declareFileMembers_eq files' hclass']
      exact alikeResults_foldlM hperm
        (fun file _ => local_declareFileMembersBy declared file) hdisjoint hsupertypes

end Binding

end KotlinTree
