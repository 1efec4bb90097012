import RobotBlocks.Proofs.ClassType.Arrays
import RobotBlocks.Proofs.Render.Requests

/-!
# The classes of called methods

A class that generated code calls a method of has to be imported unless it is in `java.lang` or in
the package of the program (`Context.Importable`). Rendering a call asks for the imports of the
types in its signature and of the class itself, but the latter only if the class is outside the
team's package, whatever the package of the program is. `static_call_is_importable_iff` says what
follows: for a class with a plain name all is well if the program is in the team's package or the
class is not, and else the class can be used only if something else imports it.

A call may be rendered at any point of a run, inside of other blocks as well. All that is known of
the draft there is that operations have gathered its context (`Setting.gathered_of_continues`,
`Draft.steady_continues`).
-/

set_option autoImplicit false

namespace RobotBlocks

open List Context

variable {before after : Draft}
variable {own package : String}

namespace Context

/-- A program of a package can use a class by its simple name. -/
def Importable (own : String) (context : Context) (className : String) : Prop :=
  (∃ target, ClassType.importTarget className = some target ∧
    target ∈ context.collected.imports) ∨
  ∃ package, package? className = some package ∧ (package = "java.lang" ∨ package = own)

/-- A class can be named in the end if nothing has to be imported or it was. -/
theorem importable_gathered_iff {className : String} {operations : List Operation}
    (hpackage : package? className = some package) :
    Importable own (gathered (some own) operations) className ↔
      package = "java.lang" ∨ package = own ∨
        ∃ target, ClassType.importTarget className = some target ∧ NeedsImport (some own) target ∧
          ∃ operation ∈ operations, operation.className? = some target := by
  have himports : ∀ target, target ∈ (gathered (some own) operations).collected.imports ↔
      NeedsImport (some own) target ∧
        ∃ operation ∈ operations, operation.className? = some target :=
    fun target => Dict.mem_keys_iff.trans
      ((collects_gathered (some own) operations).contains_iff target)
  unfold Importable
  constructor
  · rintro (⟨target, htarget, hmem⟩ | ⟨found, hfound, hown⟩)
    · exact .inr (.inr ⟨target, htarget, (himports target).1 hmem⟩)
    · rw [hpackage, Option.some.injEq] at hfound
      subst hfound
      exact hown.imp_right .inl
  · rintro (hjava | hown | ⟨target, htarget, hneeds⟩)
    · exact .inr ⟨package, hpackage, .inl hjava⟩
    · exact .inr ⟨package, hpackage, .inr hown⟩
    · exact .inl ⟨target, htarget, (himports target).2 hneeds⟩

/-- The import of a plain name is a class of the same package: no array, and no inner class before
the last dot. -/
theorem importTarget_of_plain {className : String} (hpackage : package? className = some package)
    (hdollar : '$' ∉ package.toList) (hbracket : className.toList.head? ≠ some '[') :
    ∃ simple, ClassType.importTarget className = some (package ++ "." ++ simple) ∧
      '.' ∉ simple.toList := by
  have hdot : '.' ∈ className.toList := by
    obtain ⟨simple, rfl, -⟩ := package?_eq_some_iff.1 hpackage
    simp
  refine ⟨outerName (ClassType.label className), ?_, not_mem_outerName _⟩
  rw [ClassType.importTarget_eq_outermost hdot hbracket,
    ClassType.outermost_eq hpackage hdollar hbracket]

end Context

/-- The types in the signature of a method. -/
def CallSignature.types (signature : CallSignature) : List String :=
  signature.returnType :: signature.parameters.map CallParameter.classType

/-- The class types that a call asks imports for. -/
def CallSignature.asked (signature : CallSignature) : List String :=
  signature.types ++ if signature.needsImport then [signature.className] else []

/-- A block is rendered between two drafts, as a value or as a statement. -/
def Renderer.Renders (r : Renderer) (block : Block) (before after : Draft) : Prop :=
  (∃ expr, Yields (r.value block) before expr after) ∨
    ∃ text, Yields (r.statement block) before text after

/-! ## What a call asks for -/

theorem Render.context_of_importClassType {classType : String} {u : Unit}
    (h : Yields (Render.importClassType classType) before u after) :
    after.context = before.context.after [.importClassType classType] := by
  obtain ⟨added, middle, hasked, hrecord⟩ := yields_bind.1 h
  have hmiddle : middle.context = (before.context.importClassType classType).2 :=
    (congrArg (fun pair => pair.2.context) (yields_modifyGet.1 hasked)).symm
  have hafter : after.context = middle.context := by
    cases added with
    | none => rw [(yields_pure.1 hrecord).2]
    | some className => rw [← yields_modify.1 hrecord]
  exact hafter.trans hmiddle

theorem Render.context_of_forM_importClassType {α : Type} {type : α → String} {items : List α}
    {u : PUnit}
    (h : Yields (items.forM (fun item => Render.importClassType (type item))) before u after) :
    after.context = before.context.after ((items.map type).map .importClassType) := by
  induction items generalizing before with
  | nil => rw [yields_forM_nil.1 h]; rfl
  | cons item rest ih =>
    obtain ⟨middle, hfirst, hrest⟩ := yields_forM_cons.1 h
    rw [ih hrest, context_of_importClassType hfirst, ← after_append]
    rfl

variable {block : Block}

namespace Compiled

variable {signature : CallSignature} {before after : Draft}

theorem context_of_importSignature {u : Unit}
    (h : Yields (importSignature signature) before u after) :
    after.context = before.context.after (signature.types.map .importClassType) := by
  obtain ⟨_, middle, hresult, hparameters⟩ := yields_bind.1 h
  rw [Render.context_of_forM_importClassType hparameters,
    Render.context_of_importClassType hresult, ← after_append]
  rfl

/-- The arguments of a call without blocks in its sockets ask for nothing. -/
theorem methodCall_of_no_blocks {r : Renderer} {receiver : String} {expr : Expr}
    (hempty : ∀ index : Nat, block.values.get? ("ARG" ++ toString index) = none)
    (h : Yields (methodCall r block receiver signature) before expr after) : after = before := by
  have harguments : argument r block = fun parameter =>
      pure ((parameter.1.supplied.map .verbatim).getD (.name "null")) := by
    funext entry
    obtain ⟨parameter, index⟩ := entry
    unfold argument
    dsimp only
    cases parameter.supplied with
    | some code => rfl
    | none => exact Renderer.operandOr_of_get?_eq_none (hempty index) _
  unfold methodCall at h
  rw [harguments, mapM_pure] at h
  obtain ⟨method, _, hmethod, h⟩ := yields_bind.1 h
  obtain ⟨-, rfl⟩ := yields_liftM.1 hmethod
  obtain ⟨_, _, hmap, h⟩ := yields_bind.1 h
  obtain ⟨-, rfl⟩ := yields_pure.1 hmap
  exact (yields_pure.1 h).2.symm

/-- A call asks for the imports of its types and its class, and then for what its arguments need. -/
theorem context_of_staticCall {setting : Setting} {depth : Nat} {expr : Expr}
    (hsignature : block.signature = .ok signature)
    (h : Yields (staticCall (setting.rendererWithin depth) block) before expr after) :
    ∃ arguments,
      ((∀ index : Nat, block.values.get? ("ARG" ++ toString index) = none) → arguments = []) ∧
      after.context =
        before.context.after (signature.asked.map .importClassType ++ arguments) := by
  unfold staticCall at h
  obtain ⟨_, _, hanswer, h⟩ := yields_bind.1 h
  obtain ⟨hfound, rfl⟩ := yields_liftM.1 hanswer
  obtain rfl := Except.ok.inj (hsignature.symm.trans hfound)
  obtain ⟨_, first, htypes, h⟩ := yields_bind.1 h
  have hfirst := context_of_importSignature htypes
  have hasked : ∃ middle, Yields (methodCall (setting.rendererWithin depth) block
      signature.simpleName signature) middle expr after ∧
      middle.context = before.context.after (signature.asked.map .importClassType) := by
    unfold CallSignature.asked
    split at h
    · rename_i hneeds
      obtain ⟨_, middle, hclass, h⟩ := yields_bind.1 h
      refine ⟨middle, h, ?_⟩
      rw [Render.context_of_importClassType hclass, hfirst, if_pos hneeds, map_append, after_append]
      rfl
    · rename_i hneeds
      refine ⟨first, h, ?_⟩
      rw [hfirst, if_neg hneeds, append_nil]
  obtain ⟨middle, hcall, hmiddle⟩ := hasked
  by_cases hempty : ∀ index : Nat, block.values.get? ("ARG" ++ toString index) = none
  · refine ⟨[], fun _ => rfl, ?_⟩
    rw [methodCall_of_no_blocks hempty hcall, hmiddle, append_nil]
  · obtain ⟨hvalue, hstatement⟩ := Draft.steady_continues.moves_rendererWithin setting depth
    have hat := Draft.steady_continues.parallelAt hvalue hstatement block
    obtain ⟨arguments, harguments⟩ := (Draft.steady_continues.moves
      ((walk_methodCall hat.aligned (.refl _) signature).parallel hat)).of_yields hcall
    refine ⟨arguments, fun h => absurd h hempty, ?_⟩
    rw [harguments, hmiddle, after_append]

end Compiled

/-- In a class a block of this kind is rendered by the call of its method. -/
theorem Setting.exists_staticCall {setting : Setting} {depth : Nat} {returns : Bool}
    (htarget : setting.target = .java) (hkind : block.kind = .callStatic returns)
    (h : (setting.rendererWithin depth).Renders block before after) :
    ∃ below expr, Yields (Compiled.staticCall (setting.rendererWithin below) block) before expr
      after := by
  rcases h with ⟨expr, h⟩ | ⟨text, h⟩
  · obtain ⟨below, h⟩ := exists_yields_value htarget h
    cases returns with
    | true =>
      simp only [Compiled.value, hkind] at h
      exact ⟨below, expr, h⟩
    | false =>
      simp only [Compiled.value, Renderer.sharedValue, hkind] at h
      exact absurd h yields_throw
  · obtain ⟨below, h⟩ := exists_yields_statement htarget h
    cases returns with
    | true =>
      simp only [Compiled.statement, Renderer.sharedStatement, hkind] at h
      exact absurd h yields_throw
    | false =>
      simp only [Compiled.statement, hkind] at h
      obtain ⟨expr, hcall, rfl⟩ := yields_bind_pure.1 h
      exact ⟨below, expr, hcall⟩

/-! ## When the class can be used -/

variable {signature : CallSignature}

/-- The class of a call can be used exactly if it needs no import or is imported: by the call itself
if it is outside the team's package, for a type in the signature, or for something else. -/
theorem CallSignature.importable_iff
    (hpackage : Context.package? signature.className = some package)
    (front back : List Context.Operation) :
    Context.Importable own
        (Context.gathered (some own) (front ++ (signature.asked.map .importClassType ++ back)))
        signature.className ↔
      package = "java.lang" ∨ package = own ∨
      ∃ target, ClassType.importTarget signature.className = some target ∧
        Context.NeedsImport (some own) target ∧
        (package ≠ teamPackage ∨
          (∃ type ∈ signature.types, ClassType.importTarget type = some target) ∨
          ∃ operation ∈ front ++ back, operation.className? = some target) := by
  have hneeds : signature.needsImport = true ↔ package ≠ teamPackage := by
    simp [needsImport, hpackage]
  have hasked : ∀ target, ClassType.importTarget signature.className = some target →
      ((∃ type ∈ signature.asked, ClassType.importTarget type = some target) ↔
        package ≠ teamPackage ∨
          ∃ type ∈ signature.types, ClassType.importTarget type = some target) := by
    intro target hclass
    unfold asked
    by_cases hteam : package = teamPackage
    · simp [hneeds.not.2 (not_not.2 hteam), hteam]
    · simp [hneeds.2 hteam, hteam, or_and_right, exists_or, hclass]
  rw [importable_gathered_iff hpackage]
  refine or_congr_right (or_congr_right (exists_congr fun target => ?_))
  refine and_congr_right fun hclass => and_congr_right fun _ => ?_
  rw [← or_assoc, ← hasked target hclass]
  constructor
  · rintro ⟨operation, hmem, hoperation⟩
    rcases mem_append.1 hmem with hmem | hmem
    · exact .inr ⟨operation, mem_append_left _ hmem, hoperation⟩
    · rcases mem_append.1 hmem with hmem | hmem
      · obtain ⟨type, htype, rfl⟩ := mem_map.1 hmem
        exact .inl ⟨type, htype, hoperation⟩
      · exact .inr ⟨operation, mem_append_right _ hmem, hoperation⟩
  · rintro (⟨type, htype, hclass⟩ | ⟨operation, hmem, hoperation⟩)
    · refine ⟨.importClassType type, mem_append_right _ (mem_append_left _ ?_), hclass⟩
      exact mem_map_of_mem htype
    · refine ⟨operation, ?_, hoperation⟩
      rcases mem_append.1 hmem with hmem | hmem
      · exact mem_append_left _ hmem
      · exact mem_append_right _ (mem_append_right _ hmem)

/-- A plain name needs the import of a class of its own package, or none. -/
theorem CallSignature.needsImport_of_plain
    (hpackage : Context.package? signature.className = some package)
    (hdollar : '$' ∉ package.toList) (hbracket : signature.className.toList.head? ≠ some '[')
    (hjava : package ≠ "java.lang") (hown : package ≠ own) :
    ∃ target, ClassType.importTarget signature.className = some target ∧
      Context.NeedsImport (some own) target := by
  obtain ⟨simple, hclass, hdot⟩ := importTarget_of_plain hpackage hdollar hbracket
  refine ⟨_, hclass, package, simple, rfl, hdot, hjava, fun heq => ?_⟩
  exact hown (Option.some.inj heq).symm

section

variable {setting : Setting} {depth : Nat} {block : Block} {returns : Bool}
variable {signature : CallSignature} {package : String} {operations : List Context.Operation}
variable {draft after : Draft}

/-- At any point of a run in a class a call is rendered, and more may come after it. Its class can
be used then exactly if it needs no import, or if it is outside the team's package, or else if
something besides the call itself imports it. In particular the class can be used if its name is
plain and the program is in the team's package or the class is not. -/
theorem static_call_is_importable_iff (htarget : setting.target = .java)
    (hkind : block.kind = .callStatic returns) (hsignature : block.signature = .ok signature)
    (hpackage : Context.package? signature.className = some package)
    (hdraft : draft.context = Context.gathered (some setting.options.package) operations)
    (hrendered : (setting.rendererWithin depth).Renders block draft after) :
    (∃ arguments,
      ((∀ index : Nat, block.values.get? ("ARG" ++ toString index) = none) → arguments = []) ∧
      ∀ more, Context.Importable setting.options.package (after.context.after more)
          signature.className ↔
        package = "java.lang" ∨ package = setting.options.package ∨
        ∃ target, ClassType.importTarget signature.className = some target ∧
          Context.NeedsImport (some setting.options.package) target ∧
          (package ≠ CallSignature.teamPackage ∨
            (∃ type ∈ signature.types, ClassType.importTarget type = some target) ∨
            ∃ operation ∈ operations ++ (arguments ++ more), operation.className? = some target)) ∧
    ('$' ∉ package.toList → signature.className.toList.head? ≠ some '[' →
      (package ≠ CallSignature.teamPackage ∨
        setting.options.package = CallSignature.teamPackage) →
      ∀ more, Context.Importable setting.options.package (after.context.after more)
        signature.className) := by
  obtain ⟨below, expr, hcall⟩ := Setting.exists_staticCall htarget hkind hrendered
  obtain ⟨arguments, hempty, hafter⟩ := Compiled.context_of_staticCall hsignature hcall
  have hgathered : ∀ more, after.context.after more =
      Context.gathered (some setting.options.package)
        (operations ++ (signature.asked.map .importClassType ++ (arguments ++ more))) := by
    intro more
    unfold Context.gathered at hdraft ⊢
    rw [hafter, hdraft, ← after_append, ← after_append]
    simp only [append_assoc]
  constructor
  · refine ⟨arguments, hempty, fun more => ?_⟩
    rw [hgathered]
    exact CallSignature.importable_iff hpackage operations (arguments ++ more)
  · intro hdollar hbracket hteam more
    rw [hgathered, CallSignature.importable_iff hpackage]
    by_cases hjava : package = "java.lang"
    · exact .inl hjava
    by_cases hown : package = setting.options.package
    · exact .inr (.inl hown)
    obtain ⟨target, hclass, hneeds⟩ :=
      CallSignature.needsImport_of_plain hpackage hdollar hbracket hjava hown
    refine .inr (.inr ⟨target, hclass, hneeds, .inl ?_⟩)
    exact hteam.elim id fun hsame heq => hown (heq.trans hsame.symm)

end

/-! ## A program in another package -/

namespace ArmSample

def call (className : String) : Block :=
  { id := "a", typeName := "misc_callJava_noReturn", kind := .callStatic false
    fields := Dict.ofList [("METHOD_NAME", "raise")]
    mutation := some (.call
      { lookup := "raise()", returnType := "void", comment := "", accessMethod := "callJava"
        conversion := "", className, simpleName := "Arm", parameters := [] }) }

def setting (className : String) : Setting where
  workspace := { blocks := [call className], distinct := by simp }
  target := .java
  options := { package := "org.example" }

def afterCall (className : String) : Draft :=
  (Setting.step (((setting className).rendererWithin 1).statement (call className))
    (setting className).firstDraft).2

/-- A class of a third package is imported. -/
theorem third_party_class_is_importable :
    ((setting "com.example.Arm").rendererWithin 1).Renders (call "com.example.Arm")
        (setting "com.example.Arm").firstDraft (afterCall "com.example.Arm") ∧
      Context.Importable "org.example" (afterCall "com.example.Arm").context "com.example.Arm" := by
  have hrenders : ((setting "com.example.Arm").rendererWithin 1).Renders (call "com.example.Arm")
      (setting "com.example.Arm").firstDraft (afterCall "com.example.Arm") :=
    .inr ⟨"Arm.raise();\n", yields_of_fst_run_eq (by with_unfolding_all rfl)⟩
  refine ⟨hrenders, ?_⟩
  have hpackage : Context.package? "com.example.Arm" = some "com.example" := by decide
  have hdraft : (setting "com.example.Arm").firstDraft.context =
      Context.gathered (some "org.example") [] := rfl
  exact (static_call_is_importable_iff rfl rfl rfl hpackage hdraft hrenders).2 (by decide)
    (by decide) (.inl (by decide)) []

/-- A class of the team's package is not, and the program is in another package. -/
theorem team_class_is_not_importable :
    ((setting "org.firstinspires.ftc.teamcode.Arm").rendererWithin 1).Renders
        (call "org.firstinspires.ftc.teamcode.Arm")
        (setting "org.firstinspires.ftc.teamcode.Arm").firstDraft
        (afterCall "org.firstinspires.ftc.teamcode.Arm") ∧
      ¬ Context.Importable "org.example" (afterCall "org.firstinspires.ftc.teamcode.Arm").context
        "org.firstinspires.ftc.teamcode.Arm" := by
  refine ⟨.inr ⟨"Arm.raise();\n", yields_of_fst_run_eq (by with_unfolding_all rfl)⟩, ?_⟩
  have himports :
      (afterCall "org.firstinspires.ftc.teamcode.Arm").context.collected.imports = [] := by
    decide +kernel
  have hpackage : Context.package? "org.firstinspires.ftc.teamcode.Arm" =
      some "org.firstinspires.ftc.teamcode" := by decide
  rintro (⟨target, -, hmem⟩ | ⟨package, hfound, hnear⟩)
  · rw [himports] at hmem
    exact not_mem_nil hmem
  · rw [hpackage, Option.some.injEq] at hfound
    subst hfound
    revert hnear
    decide

end ArmSample

end RobotBlocks
