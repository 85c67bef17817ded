import KotlinTree.Proofs.Attribution.Import
import KotlinTree.Proofs.Attribution.Overlooked.Declaration
import KotlinTree.Proofs.Attribution.Expression
import KotlinTree.Proofs.Grammar.EndOfFile
import KotlinTree.Proofs.Grammar.Shape.Expression
import KotlinTree.Proofs.WellFormed

/-!
Names of types that mean nothing. Main statement: such a name is reported wherever attribution comes to,
unless it is nested too deep.
-/

namespace KotlinTree

namespace Attribution.Setting

variable {s : Setting} {d : Diagnostic} {root p x : NodeId} {c : Around} {k : NodeKind} {n : Nat}

theorem importPath_quiet (s : Setting) (d : Diagnostic) (id : NodeId) : Quiet d (s.importPath id) := by
  induction id using Nat.strongRecOn with
  | ind id ih =>
    rw [importPath]
    refine .ite (fun _ => recordName_quiet id _) fun _ => ?_
    split
    · split
      · rename_i hlt
        exact (ih _ hlt).bind_first fun _ => record_quiet _ _ _ _ _
      · exact .pure _
    · exact .pure _

theorem importUse_quiet (s : Setting) (d : Diagnostic) (id : NodeId) : Quiet d (s.importUse id) := by
  unfold importUse
  split
  · split
    · exact (importPath_quiet s d _).bind_first fun _ => .pure _
    · exact .pure _
  · exact .pure _

theorem file_reports (s : Setting) (d : Diagnostic) {parts : SourceFile}
    (hd : s.forest.data (some root) = .sourceFile parts) :
    Reports d (fun c => ∃ x ∈ parts.declarations,
      Finds d (s.declaration (s.tasks s.forest.size) (.named s.unit.facade) x) c) (s.file root) := by
  unfold file
  rw [hd]
  have hrec := tasks_proceed s s.forest.size
  refine ((Reports.through (R := fun _ _ => False) (fun _ x _ => importUse_quiet s d x) _).quiet.bind_second
    fun _ => (Reports.through (fun _ x _ => (declaration_reports hrec _ x).self) _).bind_first fun _ =>
      Reports.stopped.bind_first fun _ => .pure _).mono fun c hc => ?_
  simpa using hc

namespace FindsPart

theorem sourceFile (h : s.FindsPart d p x c .sourceFile) {file : SourceFile}
    (hd : s.forest.data (some p) = .sourceFile file) : s.FindsAt (s.tasks n) d p c .sourceFile := by
  obtain ⟨hmem, k', hdeclaration, hx⟩ : x ∈ file.declarations ∧ s.forest.IsOf NodeKind.declarations x := by
    simpa [hd, NodeData.slots, h.written] using h.stands
  have hfinds := h.finds
  rw [around_level (by simp [isLevel, hd])] at hfinds
  simp only [namesInside, hd] at hfinds
  obtain ⟨node, hnode, -⟩ := Forest.exists_of_kind? hx
  have hat := hfinds s.forest.size (Forest.lt_size_of_getElem? hnode).le k' hx
  exact (file_reports s d hd).finds c
    ⟨x, hmem, declaration_finds (tasks_proceed s _) _ hx hdeclaration hat⟩

/-- What is found in a child is found in its parent. -/
theorem findsAt (h : s.FindsPart d p x c k) (hn : p ≤ n) : s.FindsAt (s.tasks n) d p c k := by
  -- The data of a node narrows its kinds down to a few; each of them leads on to the node's children.
  have hkinds := h.linked.mem_kinds h.kind
  have hstands := h.stands
  cases hd : s.forest.data (some p) <;> rw [hd] at hkinds hstands
  case typeOperation o => exact h.typeOperation (NodeData.mem_kinds_typeOperation hkinds).symm hn hd
  all_goals simp only [NodeData.kinds, List.mem_cons, List.not_mem_nil, or_false] at hkinds
  case classDeclaration => exact h.classDeclaration hkinds hn hd
  case binary => exact h.binary hkinds hn hd
  case unary => exact h.unary hkinds hn hd
  case function =>
    rcases hkinds with rfl | rfl | rfl
    · exact h.functionDeclaration hn hd
    · exact h.secondaryConstructor hn hd
    · exact h.propertyAccessor hn hd
  case selfReference =>
    rcases hkinds with rfl | rfl
    · exact absurd hstands (by simp [NodeData.slots, h.written])
    · exact h.superExpression hn hd
  case plain =>
    rcases hkinds with rfl | rfl | rfl | rfl | rfl | rfl | rfl | rfl | rfl
    -- A node whose slots hold no type cannot be a parent on the way to one.
    · exact absurd hstands (by simp [NodeData.slots, h.written])
    · exact absurd hstands (by simp [NodeData.slots, h.written])
    · exact h.typeArgumentList hn hd
    · exact absurd (.typeParameters h.kind) h.noticed
    · exact h.anonymousInitializer hn hd
    · exact h.valueArgumentList hn hd
    · exact h.indexing hn hd
    · exact h.jumpExpression hn hd
    · exact absurd hstands (by simp [NodeData.slots, h.written])
  all_goals subst hkinds
  case sourceFile => exact h.sourceFile hd
  case package | importDirective => exact absurd hstands (by simp [NodeData.slots, h.written])
  case classBody => exact h.classBody hn hd
  case primaryConstructor => exact h.primaryConstructor hn hd
  case parameter => exact h.parameter hn hd
  case supertypeEntry => exact h.supertypeEntry hn hd
  case property => exact h.propertyDeclaration hn hd
  case typeReference => exact h.typeReference hn hd
  case block => exact h.block hn hd
  case returnStatement => exact h.returnStatement hn hd
  case assignment => exact h.assignment hn hd
  case ifExpression => exact h.ifExpression hn hd
  case access => exact h.access hn hd
  case call => exact h.call hn hd
  case valueArgument => exact h.valueArgument hn hd
  case parenthesized => exact h.parenthesized hn hd
  case lambda => exact h.lambda hn hd
  case callableReference => exact h.callableReference hn hd

end FindsPart

theorem depth_le_aroundChild : c.depth ≤ (s.aroundChild p x c).depth := by
  have hnames : (s.namesInside p x c).depth = c.depth := by
    unfold namesInside
    split
    · dsimp only
      split <;> rfl
    · split <;> rfl
    · rfl
    · rfl
  unfold aroundChild
  split
  · exact (hnames ▸ Nat.le_succ c.depth : c.depth ≤ (s.namesInside p x c).depth + 1)
  · exact hnames.ge

/-- What is found in a node that attribution comes to is found in the file. -/
theorem ComesTo.finds (h : s.ComesTo root x c) (hf : s.forest.Linked) (hshaped : s.forest.Shaped)
    (hroot : s.forest.kind? (some root) = some (.node .sourceFile)) (hwritten : ¬s.forest.Typeless x)
    (hdepth : c.depth ≤ maxDepth) (hfinds : s.FindsIn d x c) : Finds d (s.file root) {} := by
  induction h with
  | root => exact hfinds root le_rfl .sourceFile hroot
  | @child p x c k _ hk hskipped hx hover ih =>
    have hchild := hf.mem_children_of_isChild hx
    have hparent : ¬s.forest.Typeless p := by
      rintro (⟨hk', hskipped'⟩ | ⟨-, hall⟩)
      · cases hk.symm.trans hk'
        exact Bool.false_ne_true (hskipped.symm.trans hskipped')
      · exact hwritten (hall x hchild)
    -- A parent is no deeper than its child, so that the bound holds all the way up.
    refine ih hparent (depth_le_aroundChild.trans hdepth) fun n hn k' hk' => ?_
    cases hk.symm.trans hk'
    have hfills := (hshaped.at_kind hk hskipped).1
    refine FindsPart.findsAt (x := x) ⟨hf, hshaped, hk, hchild, ?_, hwritten, hover, hdepth, hfinds⟩ hn
    exact (hfills x hchild).resolve_left fun hplain => hwritten hplain.typeless

end Attribution.Setting

open Attribution

/-- Wherever attribution comes to in a file that it goes through to its end, a type whose name is neither a
type parameter nor a class that can be seen there is reported, unless it is nested too deep in expressions. -/
theorem unknownType_reported (env : Environment) (fileName source : String) (bound : BoundUnit)
    (stops : Nat → Bool) {attributed : AttributedUnit}
    (h : attributeUnit env (.ofSource fileName source) bound stops = .ok attributed) {id : NodeId}
    {c : Around} {reference : TypeReference} {segments : List String}
    (hid : Setting.ComesTo ⟨(ParsedUnit.ofSource fileName source).forest, env, bound, stops⟩
      (ParsedUnit.ofSource fileName source).root id c)
    (hdepth : c.depth ≤ maxDepth)
    (hd : (ParsedUnit.ofSource fileName source).forest.data (some id) = .typeReference reference)
    (hname : reference.name.bind (ParsedUnit.ofSource fileName source).forest.chainSegments? = some segments)
    (hparameter : ∀ name ∈ c.typeParameters, segments ≠ [name])
    (hclass : bound.scope.resolveClass? segments c.enclosing env.hasClass = none) :
    (Failure.unknownType (dotted segments)).diagnostic bound.fileName
      ((ParsedUnit.ofSource fileName source).forest.span (some id)) ∈ attributed.diagnostics := by
  have hf := (ParsedUnit.ofSource_sound fileName source).linked
  obtain ⟨file, hroot, -⟩ := ParsedUnit.endOfFile_once_or_early fileName source
  have hroot := hf.kind?_of_data hroot rfl rfl
  have hk := hf.kind?_of_data hd rfl rfl
  obtain ⟨hstopped, rfl⟩ := eq_of_attributeUnit h
  have hfinds := Setting.finds_recordWrittenType
    (s := ⟨(ParsedUnit.ofSource fileName source).forest, env, bound, stops⟩) hd hname hparameter hclass
  -- The type itself is what keeps its tree, and so all trees around it, from being typeless.
  have hwritten : ¬(ParsedUnit.ofSource fileName source).forest.Typeless id := by
    rintro (⟨hk', hskipped⟩ | ⟨htype, -⟩)
    · cases hk.symm.trans hk'
      cases hskipped
    · exact htype hk
  have hfile := hid.finds hf (ParsedUnit.ofSource_shaped fileName source) hroot hwritten hdepth
    (d := (Failure.unknownType (dotted segments)).diagnostic bound.fileName
      ((ParsedUnit.ofSource fileName source).forest.span (some id))) fun n _ k hk' => by
    cases hk.symm.trans hk'
    exact fun top htop => (Setting.typeUse_some_reports top).finds c ⟨id, htop, hfinds⟩
  exact Array.mem_toList_iff.mpr (hfile {} rfl hstopped)

/-- A class with a property that something is cast for, to what is no class. -/
def castToUnknown : ParsedUnit := ParsedUnit.ofSource "A.kt" "class A { val x = y as U }"

def castClass : ClassDeclaration where
  kind := .plainClass
  modifiers := []
  name := some 1
  typeParameters := none
  primaryConstructor := none
  supertypes := #[]
  body := some 13

def castProperty : PropertyDeclaration where
  modifiers := []
  isVar := false
  receiverType := none
  name := some 4
  typeRef := none
  initializer := some 10

def castTarget : TypeReference where
  name := some 8
  typeArguments := #[]
  isNullable := false

/-- The nodes on the way to the type, each with its parent and with what it knows. -/
theorem castToUnknown_way :
    castToUnknown.root = 16 ∧
    castToUnknown.forest.kind? (some 16) = some (.node .sourceFile) ∧
    castToUnknown.forest.data (some 16) = .sourceFile
      { fileName := "A.kt", package := none, imports := #[], declarations := #[14], endOfFile := 15 } ∧
    castToUnknown.forest.parent? (some 14) = some 16 ∧
    castToUnknown.forest.kind? (some 14) = some (.node .classDeclaration) ∧
    castToUnknown.forest.data (some 14) = .classDeclaration castClass ∧
    castToUnknown.forest.parent? (some 13) = some 14 ∧
    castToUnknown.forest.kind? (some 13) = some (.node .classBody) ∧
    castToUnknown.forest.data (some 13) = .classBody #[11] ∧
    castToUnknown.forest.parent? (some 11) = some 13 ∧
    castToUnknown.forest.kind? (some 11) = some (.node .propertyDeclaration) ∧
    castToUnknown.forest.data (some 11) = .property castProperty ∧
    castToUnknown.forest.parent? (some 10) = some 11 ∧
    castToUnknown.forest.kind? (some 10) = some (.node .asExpression) ∧
    castToUnknown.forest.data (some 10) = .typeOperation ⟨6, .asKeyword, some 9⟩ ∧
    castToUnknown.forest.parent? (some 9) = some 10 ∧
    castToUnknown.forest.kind? (some 9) = some (.node .typeReference) ∧
    castToUnknown.forest.data (some 9) = .typeReference castTarget := by
  decide +kernel

/-- The names on the way, and the place of the type. -/
theorem castToUnknown_names :
    castToUnknown.forest.saysName 1 "A" = true ∧
    castToUnknown.forest.propertyTypeParameters 11 = [] ∧
    castToUnknown.forest.kind? (some 8) = some (.token .identifier) ∧
    castToUnknown.forest.saysName 8 "U" = true ∧
    castToUnknown.forest.span (some 9) = ⟨23, 24⟩ := by
  decide +kernel

theorem castToUnknown_comesTo {s : Setting} (hforest : s.forest = castToUnknown.forest)
    (hclass : s.unit.classNames = [(14, "A")]) :
    s.ComesTo 16 9 { enclosing := ["A"], depth := 1, labels := [some "A"] } := by
  obtain ⟨-, k₁₆, d₁₆, p₁₄, k₁₄, d₁₄, p₁₃, k₁₃, d₁₃, p₁₁, k₁₁, d₁₁, p₁₀, k₁₀, d₁₀, p₉, k₉, -⟩ :=
    castToUnknown_way
  obtain ⟨hA, hparameters, -⟩ := castToUnknown_names
  have hspelled : castToUnknown.forest.Spelled := ParsedUnit.ofSource_spelled _ _
  have hname := hspelled.nameText hA
  rw [← hforest] at *
  -- From the file down to the type, a child at a time: class, body, property, cast and type.
  have hfile : s.ComesTo 16 14 {} := by
    have h := Setting.ComesTo.root.child k₁₆ rfl p₁₄ (Setting.not_overlooks k₁₆ k₁₄ (by decide) (by decide))
    simpa [Setting.aroundChild, Setting.namesInside, Setting.isLevel, d₁₆] using h
  have hbody : s.ComesTo 16 13 { enclosing := ["A"], labels := [some "A"] } := by
    have h := hfile.child k₁₄ rfl p₁₃ (Setting.not_overlooks k₁₄ k₁₃ (by decide) (by decide))
    simpa [Setting.aroundChild, Setting.namesInside, Forest.isCode, k₁₃, d₁₄, hclass, hname,
      NodeKind.codes, NodeKind.declarations, Around.withTypeParameters, Around.inClass, Around.onClass,
      Forest.typeParameterNames, Forest.children, Forest.node?, castClass] using h
  have hmember : s.ComesTo 16 11 { enclosing := ["A"], labels := [some "A"] } := by
    have h := hbody.child k₁₃ rfl p₁₁ (Setting.not_overlooks k₁₃ k₁₁ (by decide) (by decide))
    simpa [Setting.aroundChild, Setting.namesInside, Setting.isLevel, d₁₃] using h
  have hvalue : s.ComesTo 16 10 { enclosing := ["A"], depth := 1, labels := [some "A"] } := by
    have h := hmember.child k₁₁ rfl p₁₀ (Setting.not_overlooks k₁₁ k₁₀ (by decide) (by decide))
    simpa [Setting.aroundChild, Setting.namesInside, Setting.isLevel, Forest.isCode, k₁₀, k₁₁, d₁₁,
      NodeKind.codes, NodeKind.declarations, Around.withTypeParameters, Around.deeper, hparameters] using h
  have h := hvalue.child k₁₀ rfl p₉ (Setting.not_overlooks k₁₀ k₉ (by decide) (by decide))
  simpa [Setting.aroundChild, Setting.namesInside, Forest.isCode, k₉, d₁₀, NodeKind.codes,
    NodeKind.declarations] using h

/-- What a property of a class is cast to is reported. -/
theorem unknownCast_reported : ∃ attributed,
    attributeUnit {} (.ofSource "A.kt" "class A { val x = y as U }")
      { fileName := "A.kt", scope := {}, facade := "AKt", classNames := [(14, "A")] } (fun _ => false) =
      .ok attributed ∧
    (Failure.unknownType "U").diagnostic "A.kt" ⟨23, 24⟩ ∈ attributed.diagnostics := by
  have hf := (ParsedUnit.ofSource_sound "A.kt" "class A { val x = y as U }").linked
  have hspelled := ParsedUnit.ofSource_spelled "A.kt" "class A { val x = y as U }"
  obtain ⟨hroot, -, -, -, -, -, -, -, -, -, -, -, -, -, -, -, -, hd⟩ := castToUnknown_way
  obtain ⟨-, -, hkind, hU, hspan⟩ := castToUnknown_names
  have hcomes := @castToUnknown_comesTo
  rw [castToUnknown] at hroot hd hspan hU hkind hcomes
  obtain ⟨attributed, h⟩ := attributeUnit_ok {} hf
    { fileName := "A.kt", scope := {}, facade := "AKt", classNames := [(14, "A")] } (fun _ => false)
    fun _ => rfl
  have hname : castTarget.name.bind
      (ParsedUnit.ofSource "A.kt" "class A { val x = y as U }").forest.chainSegments? = some ["U"] := by
    rw [castTarget, Option.bind_some]
    exact Forest.chainSegments?_name hkind (hspelled.nameText hU)
  have hnone : ({} : Environment).hasClass = fun _ => false := by
    funext name
    simp [Environment.hasClass]
  have hclass : ({} : FileScope).resolveClass? ["U"] ["A"] ({} : Environment).hasClass = none := by
    rw [hnone]
    rfl
  have hdotted : dotted ["U"] = "U" := by decide
  have hid : Setting.ComesTo ⟨(ParsedUnit.ofSource "A.kt" "class A { val x = y as U }").forest, {},
      { fileName := "A.kt", scope := {}, facade := "AKt", classNames := [(14, "A")] }, fun _ => false⟩
      (ParsedUnit.ofSource "A.kt" "class A { val x = y as U }").root 9
      { enclosing := ["A"], depth := 1, labels := [some "A"] } := by
    rw [hroot]
    refine hcomes ?_ ?_
    · with_reducible rfl
    · with_reducible rfl
  have hfound := unknownType_reported {} "A.kt" "class A { val x = y as U }" _ _ h hid (by decide) hd
    hname (by simp) hclass
  rw [hspan, hdotted] at hfound
  exact ⟨attributed, h, hfound⟩

end KotlinTree
