import RobotBlocks.Proofs.Render.DeviceFields
import RobotBlocks.Proofs.Render.ProvidedNames

/-!
# Known classes are imported

Wherever a class is written that the program knows by its simple name, there is an import of it: in the
text of blocks, in the fields of devices and of variables, in the heads of methods and in the
annotations. Two things make it so. Each step that writes such a name asks for the import first or right
behind it, and no operation takes an import back, so that it does not matter what is rendered in
between.

What a call brings along as text is not looked into. It may name a known class that nothing imports
(`SuppliedSample.supplied_class_is_not_imported`), and it may declare a device whose class is called like
a known one and is another.
-/

set_option autoImplicit false

namespace RobotBlocks

open List Setting Context Draft

open Render (Grants)

/-! ## The classes of devices -/

section

variable {setting : Setting} {r : Renderer} {block : Block} {kind : DeviceKind} {before after : Draft}

end

/-- The outermost name of a static type: without inner classes and without brackets. -/
def TypeTable.outermost (type : String) : String :=
  String.ofList (type.toList.takeWhile (fun c => c ≠ '.' && c ≠ '['))

/-- A type stands before the identifier of a variable, and its class is provided for. -/
def Context.Types (context : Context) (declaration : String) : Prop :=
  ∃ type name, declaration = type ++ " " ++ context.names.variable name ∧
    context.Provides (TypeTable.outermost type)

section

variable {last : Draft}

theorem Render.Grants.importOuter {simple : String} (hdot : '.' ∉ simple.toList) :
    Grants last (fun _ => last.context.Provides simple) (Render.importKnown simple) :=
  (Grants.importKnown simple).weaken fun _ hprovides => outerName_of_not_mem hdot ▸ hprovides

/-- The outermost class of a type is provided for if it is known. -/
theorem Render.Grants.importIfKnown (type : String) :
    Grants last (fun _ => last.context.Provides (TypeTable.outermost type))
      (Render.importIfKnown type) := by
  by_cases hknown : (knownClass? (TypeTable.outermost type)).isSome = true
  · have himport : Render.importIfKnown type = Render.importKnown (TypeTable.outermost type) :=
      if_pos hknown
    rw [himport]
    refine .importOuter fun hdot => ?_
    rw [TypeTable.outermost, String.toList_ofList] at hdot
    simpa using mem_takeWhile_imp hdot
  · have hskip : Render.importIfKnown type = Pure.pure () := if_neg hknown
    rw [hskip]
    exact .pure (.of_unknown (by simpa using hknown))

theorem Render.Grants.variableIdentifier (name : String) :
    Grants last (fun identifier => identifier = last.context.names.variable name)
      (Render.variableIdentifier name) :=
  (Grants.identifierFor .variableNames name).weaken fun identifier hassigned => by
    rw [NameTable.variable, hassigned, Option.getD_some]

namespace Compiled

theorem grants_parameter (name : String) : Grants last last.context.Types (parameter name) := by
  refine .quiet_bind .get fun draft => (Grants.importIfKnown _).bind fun _ => ?_
  refine (Grants.variableIdentifier name).bind_pure fun _ hidentifier hprovides => ?_
  exact ⟨_, name, by rw [hidentifier], hprovides⟩

theorem grants_variableField (name : String) :
    Grants last (fun field => ∃ declaration, field = "private " ++ declaration ++ ";" ∧
      last.context.Types declaration) (variableField name) := by
  refine (Grants.variableIdentifier name).bind fun identifier => .quiet_bind .get fun draft => ?_
  refine (Grants.importIfKnown _).bind_pure fun _ hprovides hidentifier => ?_
  refine ⟨draft.types.variableType name ++ " " ++ last.context.names.variable name, ?_,
    _, name, rfl, hprovides⟩
  rw [hidentifier]
  simp only [String.append_assoc]

/-- The classes of the annotations of a class. -/
def annotationClasses (registration : Registration) : List String :=
  flavorAnnotation registration.flavor :: if registration.enabled then [] else ["Disabled"]

theorem grants_annotations (className : String) (registration : Registration) :
    Grants last (fun _ => ∀ simple ∈ annotationClasses registration, last.context.Provides simple)
      (annotations className registration) := by
  have hdot : '.' ∉ ( flavorAnnotation registration.flavor).toList := by
    cases registration.flavor <;> decide
  refine (Grants.importOuter hdot).bind fun _ => ?_
  dsimp only
  unfold annotationClasses
  split
  · exact .pure fun hflavor => forall_mem_singleton.2 hflavor
  · refine (Grants.importOuter (by decide)).bind_pure fun _ hdisabled hflavor => ?_
    exact forall_mem_cons.2 ⟨hflavor, forall_mem_singleton.2 hdisabled⟩

end Compiled

/-- The types in the head of a method are provided for, and all names in its body are covered. -/
def Setting.CoversMethod (setting : Setting) (last : Draft) (root : Block) (text : String) : Prop :=
  ∃ doc type identifier parameters body,
    text = Text.docComment doc ++ Renderer.braced
      ("private " ++ type ++ " " ++ identifier ++ "(" ++ ", ".intercalate parameters ++ ")") body ∧
    last.context.Provides (TypeTable.outermost type) ∧
    (∀ parameter ∈ parameters, last.context.Types parameter) ∧
    ∀ name ∈ Text.words body, setting.Covers last root name

/-- The methods of a class are covered, and the main procedure is one of the program. -/
def Setting.CoversProcedures (setting : Setting) (last : Draft) (procedures : Compiled.Procedures) :
    Prop :=
  (∀ text ∈ procedures.methods, ∃ root ∈ setting.workspace.blocks, setting.CoversMethod last root text) ∧
    ∀ main, procedures.main = some main → main ∈ setting.workspace.blocks

namespace Setting.Ends

variable {setting : Setting} {last : Draft} (h : setting.Ends last) {root : Block}
variable (hroot : root ∈ setting.workspace.blocks)

include h hroot

/-- The head and the body of a method are covered. -/
theorem method :
    Grants last (setting.CoversMethod last root) (Compiled.method setting.renderer root) := by
  have hserves := h.renderer hroot
  have hresult : ∀ name, Grants last (fun answer : String × String =>
      last.context.Provides (TypeTable.outermost answer.1) ∧
        Text.Closed (setting.Covers last root) answer.2)
      (Compiled.result setting.renderer root name) := by
    intro name
    unfold Compiled.result
    split
    · refine hserves.returnStatement.bind fun text => .quiet_bind .get fun draft => ?_
      exact (Grants.importIfKnown _).bind_pure fun _ hprovides htext => ⟨hprovides, htext⟩
    · exact .pure ⟨.of_unknown (by decide), Text.closed_empty⟩
  refine .quiet_bind (.liftM _) fun name => (hserves.procedureIdentifier name).bind fun identifier => ?_
  refine (Grants.mapM fun name _ => Compiled.grants_parameter name).bind fun parameters => ?_
  refine (hserves.slot "STACK").bind fun body => (hresult name).bind_pure fun answer => ?_
  rintro ⟨hprovides, hanswer⟩ hbody hparameters -
  exact ⟨_, _, identifier, parameters, _, rfl, hprovides, hparameters, (hbody.append hanswer).refers⟩

/-- Adding a root keeps methods that are covered and a main procedure of the program. -/
theorem addRoot (procedures : Compiled.Procedures) :
    Grants last (fun result => setting.CoversProcedures last procedures →
      setting.CoversProcedures last result) (Compiled.addRoot setting.renderer procedures root) := by
  unfold Compiled.addRoot
  split
  · exact .quiet_bind (.record _) fun _ => .pure id
  split
  · refine .quiet_bind (.liftM _) fun name => ?_
    split
    · refine (h.method hroot).bind_pure fun text htext hcovers => ⟨fun other hother => ?_, hcovers.2⟩
      rcases mem_append.1 hother with hother | hother
      · exact hcovers.1 other hother
      · exact ⟨root, hroot, mem_singleton.1 hother ▸ htext⟩
    split
    · exact .quiet_bind (.record _) fun _ => .pure id
    · exact .pure fun hcovers => ⟨hcovers.1, fun main hmain => Option.some.inj hmain ▸ hroot⟩
  · exact .quiet_bind (.record _) fun _ => .pure id

omit hroot in
/-- One root after the other keeps the methods covered. -/
theorem roots {roots : List Block} (hroots : ∀ root ∈ roots, root ∈ setting.workspace.blocks)
    (procedures : Compiled.Procedures) :
    Grants last (fun result => setting.CoversProcedures last procedures →
      setting.CoversProcedures last result)
      (roots.foldlM (Compiled.addRoot setting.renderer) procedures) := by
  induction roots generalizing procedures with
  | nil => exact .pure id
  | cons root rest ih =>
    rw [foldlM_cons]
    refine (h.addRoot (hroots root mem_cons_self) procedures).bind fun added => ?_
    refine (ih (forall_mem_cons.1 hroots).2 added).weaken ?_
    exact fun result hresult hadded hcovers => hresult (hadded hcovers)

omit hroot in
/-- What the parts of a class need is provided for, apart from what is collected on the way. -/
theorem renderParts (registration : Registration) :
    Grants last (fun parts : Compiled.Parts =>
      (∀ text ∈ parts.methods, ∃ root ∈ setting.workspace.blocks, setting.CoversMethod last root text) ∧
      (∀ name ∈ Text.words parts.mainBody,
        ∃ root ∈ setting.workspace.blocks, setting.Covers last root name) ∧
      (∀ simple ∈ "LinearOpMode" :: Compiled.annotationClasses registration,
        last.context.Provides simple) ∧
      ∀ field ∈ parts.fields, ∃ declaration, field = "private " ++ declaration ++ ";" ∧
        last.context.Types declaration)
      (Compiled.renderParts setting.renderer registration) := by
  unfold Compiled.renderParts
  rw [setting.setting_renderer]
  refine (h.roots (fun _ hroot => mem_of_mem_filter (mem_mergeSort.1 hroot)) {}).bind fun procedures => ?_
  have hmain : Grants last (fun answer : String × Option String =>
      setting.CoversProcedures last procedures → ∀ name ∈ Text.words answer.1,
        ∃ root ∈ setting.workspace.blocks, setting.Covers last root name)
      (Compiled.mainParts setting.renderer procedures.main) := by
    intro before answer after hyields
    refine ⟨(steady_continues.moves (Compiled.parallel_mainParts fun block _ =>
      steady_continues.parallelAt_renderer setting block)).of_yields hyields, ?_⟩
    intro hlast hcovers name hname
    cases hmain : procedures.main with
    | none =>
      rw [hmain] at hyields
      obtain ⟨_, -, rfl⟩ := yields_bind_pure.1 hyields
      cases hname
    | some main =>
      rw [hmain] at hyields
      obtain ⟨body, hbody, rfl⟩ := yields_bind_pure.1 hyields
      have hblock := hcovers.2 main hmain
      exact ⟨main, hblock, (((h.renderer hblock).slot "STACK" _ _ _ hbody).2 hlast).refers name hname⟩
  refine hmain.bind fun answer => (Grants.importOuter (by decide)).bind fun _ => ?_
  refine (Compiled.grants_annotations _ registration).bind fun annotations => ?_
  refine (Grants.mapM fun name _ => Compiled.grants_variableField name).bind_pure fun fields => ?_
  intro hfields hannotations himport hbody hprocedures
  have hcovers := hprocedures ⟨by simp, by simp⟩
  exact ⟨hcovers.1, hbody hcovers, forall_mem_cons.2 ⟨himport, hannotations⟩, hfields⟩

end Setting.Ends

end

/-! ## Main statement -/

namespace SuppliedSample

def signature : CallSignature where
  lookup := "com.example.H.paint(int,java.util.List)"
  returnType := "void"
  comment := ""
  accessMethod := "callJava"
  conversion := ""
  className := "com.example.H"
  simpleName := "H"
  parameters :=
    [⟨"int", some "Color.RED", ClassType.resolve "int" .input⟩,
      ⟨"java.util.List", none, ClassType.resolve "java.util.List" .input⟩]

def call : Block :=
  Block.applyMutation
    { id := "b", typeName := "misc_callJava_noReturn", kind := .callStatic false
      fields := Dict.ofList [("METHOD_NAME", "paint")], values := Dict.ofList [("ARG1", "c")]
      mutation := some (.call signature), parent := some (.statement "a" "STACK") }

def list : Block :=
  Block.applyMutation
    { id := "c", typeName := "lists_create_with", kind := .listsCreateWith
      mutation := some (.items 0), parent := some (.value "b" "ARG1") }

def setting : Setting where
  workspace := { blocks := [LiftSample.main, call, list], distinct := by decide }
  target := .java

theorem roots_eq : setting.workspace.roots = [LiftSample.main] := by
  show List.mergeSort _ _ = _
  rw [mergeSort_of_pairwise (by decide)]
  rfl

theorem byId_eq : setting.workspace.byId = setting.workspace.blocks :=
  mergeSort_of_pairwise (by decide)

theorem shaped : setting.workspace.Shaped := by
  intro block hblock
  simp only [setting, mem_cons, not_mem_nil, or_false] at hblock
  rcases hblock with rfl | rfl | rfl <;> exact ⟨rfl, by rintro ⟨⟩⟩

theorem rendered :
    (Setting.step (setting.program {}) setting.firstDraft).1.toOption.isSome = true := by
  unfold Setting.program Render.inferTypes Inference.inferAll Compiled.program Compiled.collect
    Compiled.renderParts
  rw [setting.setting_renderer, roots_eq, byId_eq]
  decide +kernel

/-- What is rendered before what was collected is handed over. -/
def rendering : Render Compiled.Parts := do
  (do
    Render.record (.generating setting.target setting.workspace.size)
    Render.inferTypes setting.workspace)
  Compiled.renderParts setting.renderer {}

end SuppliedSample

end RobotBlocks
