import RobotBlocks.Proofs.Render.CalledClasses
import RobotBlocks.Proofs.Render.FixedNames

/-!
# The course of a rendering

Rendering a block takes steps of its own and asks for what stands in its inputs. `Course` follows
that for two blocks at once that have the same head and maybe different links: the steps of their own
are the same, and what they ask for, and which devices they declare, is listed in the index.

The list answers different questions. What is not on it cannot matter (`Course.eq_of_asked`), what is
on it is not left out, and a run comes to what is on the list in its order (`Course.passing`).
-/

set_option autoImplicit false

namespace RobotBlocks

open List

/-! ## Devices that are used -/

namespace DeviceUse

/-- The identifier of a device by a table of names. -/
def identifier (table : NameTable) (use : DeviceUse) : String :=
  (table.assigned? (.deviceNames use.className) use.device).getD ""

def field (use : DeviceUse) (identifier : String) : String :=
  "private " ++ use.className ++ " " ++ identifier ++ ";"

def assignment (use : DeviceUse) (identifier : String) : String :=
  identifier ++ " = hardwareMap.get(" ++ use.className ++ ".class, " ++
    Text.quote '"' use.device ++ ");"

/-- What the use of a device declares. -/
def declarations (table : NameTable) (use : DeviceUse) : List (DeclarationKey × String) :=
  [(.field (use.identifier table), use.field (use.identifier table)),
    (.assignment (use.identifier table), use.assignment (use.identifier table))]

end DeviceUse

/-- Between two drafts some devices were used, one after the other, and nothing else was declared.
The identifiers are read from any later table. -/
def Draft.Uses (uses : List DeviceUse) (before after : Draft) : Prop :=
  ∃ operations, after.context = before.context.after operations ∧
    (∀ use ∈ uses, ∃ identifier,
      after.context.names.assigned? (.deviceNames use.className) use.device = some identifier) ∧
    ∀ table : NameTable, table.Extends after.context.names →
      operations.filterMap Context.Operation.declaration? = uses.flatMap (DeviceUse.declarations table)

namespace Draft.Uses

variable {first second third : Draft} {uses uses' : List DeviceUse}

theorem continues (h : Draft.Uses uses first second) : first.Continues second := by
  obtain ⟨operations, hcontext, -⟩ := h
  exact ⟨operations, hcontext⟩

/-- What two runs in a row use is what one uses and then the other. -/
theorem trans (h : Draft.Uses uses first second) (h' : Draft.Uses uses' second third) :
    Draft.Uses (uses ++ uses') first third := by
  obtain ⟨front, hfront, hassigned, hdeclared⟩ := h
  have hextends := h'.continues.extends
  obtain ⟨back, hback, hassigned', hdeclared'⟩ := h'
  refine ⟨front ++ back, ?_, fun use huse => ?_, fun table htable => ?_⟩
  · rw [hback, hfront, Context.after_append]
  · rcases mem_append.1 huse with huse | huse
    · obtain ⟨identifier, hidentifier⟩ := hassigned use huse
      exact ⟨identifier, hextends _ _ _ hidentifier⟩
    · exact hassigned' use huse
  · rw [filterMap_append, flatMap_append, hdeclared table (htable.trans hextends),
      hdeclared' table htable]

/-- Operations that declare nothing use no device. -/
theorem of_quiet (operations : List Context.Operation)
    (hcontext : second.context = first.context.after operations)
    (hquiet : ∀ operation ∈ operations, operation.declaration? = none) :
    Draft.Uses [] first second := by
  refine ⟨operations, hcontext, by simp, fun table _ => ?_⟩
  rw [flatMap_nil, filterMap_eq_nil_iff]
  exact hquiet

theorem of_context_eq (h : second.context = first.context) : Draft.Uses [] first second :=
  of_quiet [] h (by simp)

end Draft.Uses

/-! ## Steps that declare nothing -/

/-- A step uses some devices whenever it ends well. -/
def Render.Using {α : Type} (uses : List DeviceUse) (action : Render α) : Prop :=
  ∀ before a after, Yields action before a after → Draft.Uses uses before after

namespace Render.Using

variable {α β : Type}

theorem pure (a : α) : Using [] (pure a : Render α) := by
  intro before b after h
  obtain ⟨-, rfl⟩ := yields_pure.1 h
  exact .of_context_eq rfl

theorem throw (uses : List DeviceUse) (fault : Fault) : Using uses (throw fault : Render α) :=
  fun _ _ _ h => absurd h yields_throw

theorem get : Using [] (get : Render Draft) := by
  intro before b after h
  obtain ⟨-, rfl⟩ := yields_get.1 h
  exact .of_context_eq rfl

theorem liftM (answer : Except Fault α) : Using [] (liftM answer : Render α) := by
  intro before b after h
  obtain ⟨-, rfl⟩ := yields_liftM.1 h
  exact .of_context_eq rfl

theorem bind {uses uses' : List DeviceUse} {x : Render α} {f : α → Render β} (hx : Using uses x)
    (hf : ∀ a, Using uses' (f a)) : Using (uses ++ uses') (x >>= f) := by
  intro before b after h
  obtain ⟨a, middle, hfirst, hsecond⟩ := yields_bind.1 h
  exact (hx before a middle hfirst).trans (hf a middle b after hsecond)

theorem record (event : Event) : Using [] (record event) := by
  intro before u after h
  exact .of_context_eq (by rw [← yields_modify.1 h])

/-- Single steps that declare nothing use no device. -/
theorem quiet : Quiet (Using []) where
  pure := pure
  bind hx hf before b after h := by
    obtain ⟨a, middle, hfirst, hsecond⟩ := yields_bind.1 h
    exact (hx before a middle hfirst).trans (hf before a middle hfirst middle b after hsecond)
  throw {_} {fault} _ := throw [] fault
  get := get
  record := record
  withContext request hquiet h before a after hyields := by
    refine .of_quiet [request] ?_ (by simpa using hquiet)
    rw [← congrArg (fun pair => pair.2.context) (yields_modifyGet.1 hyields)]
    exact h before.context

theorem deviceOf (hardware : Hardware) (block : Block) (kind : DeviceKind) :
    Using [] (deviceOf hardware block kind) := by
  refine bind (liftM _) fun identifier => ?_
  dsimp only
  split
  · exact bind (record _) fun _ => pure _
  · exact pure _

end Render.Using

theorem Render.context_of_identifierFor {space : Namespace} {name identifier : String}
    {before after : Draft} (h : Yields (Render.identifierFor space name) before identifier after) :
    after.context = before.context.after [.identifierFor space name] ∧
      after.context.names.assigned? space name = some identifier := by
  have hasked := yields_modifyGet.1 h
  have hcontext : after.context = (before.context.identifierFor space name).2 :=
    (congrArg (fun pair => pair.2.context) hasked).symm
  have hidentifier : identifier = (before.context.names.identifierFor space name).1 :=
    (congrArg Prod.fst hasked).symm
  refine ⟨hcontext, ?_⟩
  rw [hcontext, hidentifier]
  exact (NameTable.identifierFor_spec before.context.names space name).2

theorem Render.context_of_declare {key : DeclarationKey} {text : String} {before after : Draft}
    {u : Unit} (h : Yields (Render.declare key text) before u after) :
    after.context = before.context.after [.registerDeclaration key text] := by
  obtain ⟨_, hasked, rfl⟩ := yields_bind_pure.1 h
  exact (congrArg (fun pair => pair.2.context) (yields_modifyGet.1 hasked)).symm

/-- A device is declared under the identifier that it has from then on. -/
theorem Render.using_declareDevice (use : DeviceUse) (className : String) :
    Render.Using [use] (Render.declareDevice use.className className use.device) := by
  intro before result after h
  obtain ⟨identifier, named, hnamed, h⟩ := yields_bind.1 h
  obtain ⟨_, imported, himported, h⟩ := yields_bind.1 h
  obtain ⟨_, declared, hdeclared, h⟩ := yields_bind.1 h
  obtain ⟨_, hassigned, rfl⟩ := yields_bind_pure.1 h
  obtain ⟨hfirst, hidentifier⟩ := context_of_identifierFor hnamed
  let rest : List Context.Operation := [.importClassType className,
    .registerDeclaration (.field identifier) (use.field identifier),
    .registerDeclaration (.assignment identifier) (use.assignment identifier)]
  have hrest : after.context = named.context.after rest := by
    rw [context_of_declare hassigned, context_of_declare hdeclared,
      context_of_importClassType himported]
    rfl
  have hkept : after.context.names.assigned? (.deviceNames use.className) use.device =
      some identifier := by
    rw [hrest]
    exact named.context.extends_after _ _ _ _ hidentifier
  refine ⟨.identifierFor (.deviceNames use.className) use.device :: rest, ?_,
    fun other hother => ?_, fun table htable => ?_⟩
  · rw [hrest, hfirst]
    rfl
  · obtain rfl := mem_singleton.1 hother
    exact ⟨identifier, hkept⟩
  · have hread : use.identifier table = identifier := by
      unfold DeviceUse.identifier
      rw [htable _ _ _ hkept, Option.getD_some]
    rw [flatMap_singleton, DeviceUse.declarations, hread]
    rfl

/-! ## What runs come to -/

/-- A relation between what a run comes to and its first and its last draft: it holds of steps that come
to nothing, and of one run after another. -/
structure Trail {ι : Type} (T : List ι → Draft → Draft → Prop) : Prop where
  quiet {before after : Draft} : Draft.Uses [] before after → T [] before after
  trans {front back : List ι} {first second third : Draft} :
    T front first second → T back second third → T (front ++ back) first third

/-- A step comes to some things whenever it ends well. -/
def Render.Passing {ι α : Type} (T : List ι → Draft → Draft → Prop) (items : List ι)
    (action : Render α) : Prop :=
  ∀ before a after, Yields action before a after → T items before after

variable {α : Type}

theorem Render.Passing.throw {ι : Type} {T : List ι → Draft → Draft → Prop} (items : List ι)
    (fault : Fault) : Passing T items (throw fault : Render α) :=
  fun _ _ _ h => absurd h yields_throw

namespace Trail

open Render (Passing Using)

variable {ι α β : Type} {T : List ι → Draft → Draft → Prop} (hT : Trail T)
variable {front back : List ι} {x : Render α} {f : α → Render β}

include hT

theorem of_using (h : Using [] x) : Passing T [] x :=
  fun before a after hyields => hT.quiet (h before a after hyields)

theorem bind (hx : Passing T front x) (hf : ∀ a, Passing T back (f a)) :
    Passing T (front ++ back) (x >>= f) := by
  intro before b after h
  obtain ⟨a, middle, hfirst, hsecond⟩ := yields_bind.1 h
  exact hT.trans (hx before a middle hfirst) (hf a middle b after hsecond)

end Trail

/-! ## The course of a rendering -/

/-- Two renderings take the same course. A fault ends the course, whatever was still to come. -/
inductive Course (r r' : Renderer) (block block' : Block) :
    List Stop → {α : Type} → Render α → Render α → Prop
  /-- A step that does not ask for anything and declares nothing. -/
  | own {α : Type} {x : Render α} : Render.Using [] x → Course r r' block block' [] x x
  | throw {α : Type} (stops : List Stop) (fault : Fault) :
      Course r r' block block' stops (throw fault : Render α) (throw fault)
  | socket (name : String) (fallback : Expr) :
      Course r r' block block' [.ask (.socket name)] (r.operandOr block name fallback)
        (r'.operandOr block' name fallback)
  | slot (name : String) :
      Course r r' block block' [.ask (.slot name)] (r.slot block name) (r'.slot block' name)
  | device (use : DeviceUse) (className : String) :
      Course r r' block block' [.declare use]
        (Render.declareDevice use.className className use.device)
        (Render.declareDevice use.className className use.device)
  | bind {α β : Type} {front back : List Stop} {x y : Render α} {f g : α → Render β} :
      Course r r' block block' front x y → (∀ a, Course r r' block block' back (f a) (g a)) →
      Course r r' block block' (front ++ back) (x >>= f) (y >>= g)

namespace Course

variable {r r' : Renderer} {block block' : Block} {stops : List Stop} {α β : Type}
variable {f g : α → Render β} {x y : Render α}

theorem pure (a : α) : Course r r' block block' [] (pure a : Render α) (pure a) :=
  own (.pure a)

theorem bind_pure (h : Course r r' block block' stops x y) (f : α → β) :
    Course r r' block block' stops (x >>= fun a => Pure.pure (f a))
      (y >>= fun a => Pure.pure (f a)) := by
  rw [← append_nil stops]
  exact h.bind fun a => pure (f a)

/-- A step of the block itself, then the rest. -/
theorem own_bind {x : Render α} (hx : Render.Using [] x)
    (h : ∀ a, Course r r' block block' stops (f a) (g a)) :
    Course r r' block block' stops (x >>= f) (x >>= g) :=
  (own hx).bind h

/-- What a block says about itself is the same for both; if it is a fault, that is the end. -/
theorem liftM_bind {answer : Except Fault α}
    (h : ∀ a, answer = .ok a → Course r r' block block' stops (f a) (g a)) :
    Course r r' block block' stops (MonadLiftT.monadLift answer >>= f)
      (MonadLiftT.monadLift answer >>= g) := by
  cases answer with
  | error fault => exact throw stops fault
  | ok a => exact h a rfl

/-! ## What follows from the list -/

/-- Two courses that get the same answers are the same. -/
theorem eq_of_asked (h : Course r r' block block' stops x y)
    (hsocket : ∀ name, Stop.ask (.socket name) ∈ stops → ∀ fallback,
      r.operandOr block name fallback = r'.operandOr block' name fallback)
    (hslot : ∀ name, Stop.ask (.slot name) ∈ stops → r.slot block name = r'.slot block' name) :
    x = y := by
  induction h with
  | own | throw => rfl
  | socket name fallback => exact hsocket name mem_cons_self fallback
  | slot name => exact hslot name mem_cons_self
  | device => rfl
  | bind _ _ hfirst hsecond =>
    rw [hfirst (fun name hname => hsocket name (mem_append_left _ hname))
      fun name hname => hslot name (mem_append_left _ hname)]
    congr 1
    funext a
    exact hsecond a (fun name hname => hsocket name (mem_append_right _ hname))
      fun name hname => hslot name (mem_append_right _ hname)

/-- A run comes to what it asks for and to the devices that it declares, in the order of the list. -/
theorem passing {ι : Type} {T : List ι → Draft → Draft → Prop} (hT : Trail T)
    (h : Course r r' block block' stops x y) {itemsAt : Stop → List ι} (hsocket : ∀ name fallback,
      Render.Passing T (itemsAt (.ask (.socket name))) (r.operandOr block name fallback))
    (hslot : ∀ name, Render.Passing T (itemsAt (.ask (.slot name))) (r.slot block name))
    (hdevice : ∀ use className, Render.Passing T (itemsAt (.declare use))
      (Render.declareDevice use.className className use.device)) :
    Render.Passing T (stops.flatMap itemsAt) x := by
  induction h with
  | own hquiet => exact hT.of_using hquiet
  | throw stops fault => exact .throw _ fault
  | socket name fallback =>
    rw [flatMap_singleton]
    exact hsocket name fallback
  | slot name =>
    rw [flatMap_singleton]
    exact hslot name
  | device use className =>
    rw [flatMap_singleton]
    exact hdevice use className
  | bind _ _ hfirst hsecond =>
    rw [flatMap_append]
    exact hT.bind hfirst hsecond

end Course

/-! ## The courses of blocks -/

/-- Two renderers are about to render two blocks with the same head. What they know about the types
and kinds of inner blocks is the same as far as it matters. -/
structure Renderer.Beside (r r' : Renderer) (block block' : Block) : Prop where
  target_eq : r.setting.target = r'.setting.target
  hardware_eq : r.setting.hardware = r'.setting.hardware
  head : ∃ links, block' = block.relinked links
  dropsFraction : block.kind = .mathArithmetic → r.dropsFraction block = r'.dropsFraction block'
  firstIsText : block.kind = .textJoin → block.itemCount ≠ 0 →
    r.firstIsText block = r'.firstIsText block'

/-- Renderers with the same setting are about to render a block alike. -/
theorem Renderer.beside_of_setting_eq {r r' : Renderer} (h : r.setting = r'.setting) (block : Block) :
    r.Beside r' block block := by
  refine ⟨by rw [h], by rw [h], ⟨⟨block.values, block.statements, block.parent⟩, rfl⟩,
    fun _ => ?_, fun _ _ => ?_⟩
  · unfold dropsFraction isIntegral
    rw [h]
  · unfold firstIsText
    rw [h]

variable {r r' : Renderer} {block block' : Block}

theorem Render.Step.quiet {x : Render α} (h : Render.Step x) : Render.Using [] x := by
  cases h with
  | record event => exact .record event
  | identifierFor space name => exact Using.quiet.identifierFor space name
  | distinctName base => exact Using.quiet.distinctName base
  | importClassType classType => exact Using.quiet.importClassType classType
  | importKnown simple => exact Using.quiet.importKnown simple

namespace Renderer.Beside

variable (h : r.Beside r' block block')

include h

theorem exists_aligned : ∃ links, block' = block.relinked links ∧ r.Aligned True r' block links := by
  obtain ⟨links, rfl⟩ := h.head
  exact ⟨links, rfl, h.target_eq, h.hardware_eq, fun hkind hcount _ => h.firstIsText hkind hcount⟩

theorem quotient (hkind : block.kind = .mathArithmetic) :
    Course r r' block block' (Stop.asks (Input.sockets ["A", "B"])) (r.quotient block)
      (r'.quotient block') := by
  obtain ⟨links, rfl, haligned⟩ := h.exists_aligned
  unfold Renderer.quotient Renderer.binary Renderer.operand
  rw [← h.dropsFraction hkind, haligned.placeholder_eq, haligned.placeholder_eq]
  refine .own_bind (Render.Using.quiet.dropsFraction fun _ _ => .liftM _) fun drops => ?_
  split
  all_goals exact (Course.socket "A" _).bind fun _ => (Course.socket "B" _).bind_pure _

end Renderer.Beside

/-- Where all results agree, a walk is a course. -/
theorem Walk.course {stops : List Stop} {x y : Render α}
    (h : Walk True r r' block block' stops x y) (hbeside : r.Beside r' block block') :
    Course r r' block block' stops x y := by
  induction h with
  | pure hab =>
    rw [hab trivial]
    exact .pure _
  | throw stops fault => exact .throw stops fault
  | bind _ _ hfirst hrest => exact hfirst.bind fun a => hrest a a (.refl a)
  | look _ hrest => exact .own_bind .get fun draft => hrest draft draft fun _ => .refl draft
  | own hstep => exact .own hstep.quiet
  | importIfKnown htype =>
    rw [htype trivial]
    exact .own (Render.Using.quiet.importIfKnown _)
  | device use className => exact .device use className
  | socket name fallback => exact .socket name fallback
  | slot name => exact .slot name
  | quotient hkind => exact hbeside.quotient hkind

namespace Renderer.Beside

variable (h : r.Beside r' block block')

include h

theorem renderValue (hvalue : ∀ typed, block.kind ≠ .opMode (.sleep typed)) :
    Course r r' block block' (r.setting.stops block) (r.renderValue block)
      (r'.renderValue block') := by
  obtain ⟨links, rfl, haligned⟩ := h.exists_aligned
  exact (haligned.renderValue hvalue).course h

theorem renderStatement :
    Course r r' block block' (r.setting.stops block) (r.renderStatement block)
      (r'.renderStatement block') := by
  obtain ⟨links, rfl, haligned⟩ := h.exists_aligned
  exact haligned.renderStatement.course h

end Renderer.Beside

end RobotBlocks
