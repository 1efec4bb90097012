import RobotBlocks.Proofs.Expr.Words
import RobotBlocks.Proofs.Render.DeviceNames
import RobotBlocks.Proofs.Render.RenderedBlocks
import RobotBlocks.Proofs.Render.Values

/-!
# Names in rendered text are provided for

Some of the words of rendered text are the names of known classes. Rendering imports such a class
whenever it writes its name. What it does not look into are texts that it takes over: comments, quoted
texts, and what a call brings along, which is its class, its method and some arguments
(`Block.suppliedTexts`). So whatever a block is rendered to, all words in it are provided for at the end
of the run, or they are supplied by a block inside it (`Setting.Ends.rendererWithin`).

What a step gives is said of the last draft of the run (`Render.Grants`), since imports go only one
way: what is imported after a step is imported in the end.
-/

set_option autoImplicit false

namespace RobotBlocks

open Grammar List NameTable Known
open Identifier (isIdentifierChar isReserved)
open Text (Refers Closed isSign)

theorem Draft.Continues.keeps {before after : Draft} (h : before.Continues after) :
    before.context.Keeps after.context := by
  obtain ⟨operations, hcontext⟩ := h
  rw [hcontext]
  exact before.context.keeps_after operations

variable {simple : String}

/-- What is provided for stays so. -/
theorem Draft.Continues.provides {before after : Draft} (h : before.Continues after)
    (hprovides : before.context.Provides simple) : after.context.Provides simple := by
  intro className hknown
  rw [h.keeps.ownPackage_eq]
  exact (hprovides className hknown).imp_left (h.keeps.imports_mem className)

/-! ## What steps grant -/

/-- A step goes on from its draft, and what it gives is as said if the run ends with the last draft. -/
def Render.Grants {α : Type} (last : Draft) (Q : α → Prop) (action : Render α) : Prop :=
  ∀ before a after, Yields action before a after →
    before.Continues after ∧ (after.Continues last → Q a)

namespace Render.Grants

variable {α β : Type} {last : Draft} {Q : α → Prop} {R : β → Prop}
variable {x : Render α} {f : α → Render β}

theorem pure {a : α} (h : Q a) : Grants last Q (pure a) := by
  intro before b after hyields
  obtain ⟨rfl, rfl⟩ := yields_pure.1 hyields
  exact ⟨.refl, fun _ => h⟩

theorem throw (fault : Fault) : Grants last Q (throw fault) :=
  fun _ _ _ hyields => absurd hyields yields_throw

/-- The second step may count on what the first one gives. -/
theorem bind (hx : Grants last Q x) (hf : ∀ a, Grants last (fun b => Q a → R b) (f a)) :
    Grants last R (x >>= f) := by
  intro before b after hyields
  obtain ⟨a, middle, hfirst, hsecond⟩ := yields_bind.1 hyields
  obtain ⟨hcontinues, hQ⟩ := hx before a middle hfirst
  obtain ⟨hcontinues', hR⟩ := hf a middle b after hsecond
  refine ⟨hcontinues.trans hcontinues', fun hlast => ?_⟩
  exact hR hlast (hQ (hcontinues'.trans hlast))

theorem bind_pure {f : α → β} (hx : Grants last Q x) (hf : ∀ a, Q a → R (f a)) :
    Grants last R (x >>= fun a => Pure.pure (f a)) :=
  hx.bind fun a => pure (hf a)

theorem weaken {Q' : α → Prop} (hx : Grants last Q x) (h : ∀ a, Q a → Q' a) : Grants last Q' x := by
  intro before a after hyields
  obtain ⟨hcontinues, hQ⟩ := hx before a after hyields
  exact ⟨hcontinues, fun hlast => h a (hQ hlast)⟩

/-- A step whose result does not matter. -/
theorem quiet_bind {uses : List DeviceUse} (hx : Using uses x) (hf : ∀ a, Grants last R (f a)) :
    Grants last R (x >>= f) := by
  intro before b after hyields
  obtain ⟨a, middle, hfirst, hsecond⟩ := yields_bind.1 hyields
  obtain ⟨hcontinues, hR⟩ := hf a middle b after hsecond
  exact ⟨(hx before a middle hfirst).continues.trans hcontinues, hR⟩

variable {answer : Except Fault α}

theorem liftM_bind (hf : ∀ a, answer = .ok a → Grants last R (f a)) :
    Grants last R (liftM answer >>= f) := by
  intro before b after hyields
  obtain ⟨a, middle, hfirst, hsecond⟩ := yields_bind.1 hyields
  obtain ⟨hanswer, rfl⟩ := yields_liftM.1 hfirst
  exact hf a hanswer _ b after hsecond

theorem liftM (h : ∀ a, answer = .ok a → Q a) : Grants last Q (liftM answer) := by
  intro before a after hyields
  obtain ⟨hanswer, rfl⟩ := yields_liftM.1 hyields
  exact ⟨.refl, fun _ => h a hanswer⟩

theorem mapM {items : List α} (h : ∀ item ∈ items, Grants last R (f item)) :
    Grants last (fun results => ∀ b ∈ results, R b) (items.mapM f) := by
  induction items with
  | nil => exact pure (by simp)
  | cons item rest ih =>
    rw [mapM_cons]
    refine (h item mem_cons_self).bind fun first => ?_
    refine (ih (forall_mem_cons.1 h).2).bind_pure fun others => ?_
    intro hothers hfirst b hb
    rcases mem_cons.1 hb with rfl | hb
    · exact hfirst
    · exact hothers b hb

theorem identifierFor (space : Namespace) (name : String) :
    Grants last (fun identifier => last.context.names.assigned? space name = some identifier)
      (identifierFor space name) := by
  intro before identifier after hyields
  refine ⟨(Using.quiet.identifierFor space name before identifier after hyields).continues, ?_⟩
  exact fun hlast => hlast.extends _ _ _ (Render.context_of_identifierFor hyields).2

theorem importKnown (simple : String) :
    Grants last (fun _ => last.context.Provides (Context.outerName simple)) (importKnown simple) := by
  intro before u after hyields
  refine ⟨(Using.quiet.importKnown simple before u after hyields).continues, fun hlast => ?_⟩
  rw [Render.importKnown_eq] at hyields
  cases hknown : knownClass? (Context.outerName simple) with
  | none =>
    rw [hknown] at hyields
    exact absurd hyields yields_throw
  | some className =>
    rw [hknown] at hyields
    obtain ⟨added, middle, hadd, hrecord⟩ := yields_bind.1 hyields
    obtain ⟨rfl, rfl⟩ := Prod.mk.inj (yields_modifyGet.1 hadd)
    refine hlast.provides ((Using.quiet.recordImport _ _ _ _ hrecord).continues.provides ?_)
    exact Context.provides_registerImport _ (Context.not_mem_outerName simple) hknown

end Render.Grants

/-! ## Names of no known class -/

/-- The names of no known class that rendering writes with a capital letter. -/
def plainNames : List String :=
  ["Math", "PI", "String", "Double", "NaN", "POSITIVE_INFINITY", "NEGATIVE_INFINITY", "DisplayFormat",
   "CLASSIC", "MONOSPACE", "HTML"]

def isPlainWord (word : String) : Bool :=
  !(word.toList.head?.any Char.isUpper) || plainNames.contains word

/-- No known class has such a name. -/
theorem unknown_of_isPlainWord {word : String} (h : isPlainWord word = true) :
    knownClass? word = none := by
  have hall : ∀ known ∈ knownPackages.flatMap Prod.snd, isPlainWord known = false := by
    decide +kernel
  by_contra hsome
  have hknown := (knownClass?_isSome_iff word).1 (Option.isSome_iff_ne_none.2 hsome)
  exact absurd (h.symm.trans (hall word hknown)) Bool.noConfusion

/-- A text of such words only. -/
def isPlain (text : String) : Bool := (Text.words text).all isPlainWord

theorem isPlainWord_of_isDigital {word : String} (h : Text.isDigital word = true) :
    isPlainWord word = true := by
  unfold Text.isDigital at h
  unfold isPlainWord
  cases hhead : word.toList.head? with
  | none => simp [hhead] at h
  | some c =>
    have hdigit : c.isDigit = true := by simpa [hhead] using h
    have hupper : c.isUpper = false := by
      unfold Char.isDigit at hdigit
      unfold Char.isUpper
      grind
    simp [hupper]

/-! ## Identifiers -/

variable {identifier : String}

theorem knownClass?_of_not_isReserved (h : isReserved identifier = false) :
    knownClass? identifier = none := by
  rw [isReserved, Bool.or_eq_false_iff] at h
  simpa using h.2

variable {name : String}

namespace NameTable

/-- No name has a reserved identifier. -/
def Unreserved (table : NameTable) : Prop :=
  ∀ space name identifier, table.assigned? space name = some identifier →
    isReserved identifier = false

variable {P : String → Prop}

/-- The identifiers of variables and procedures are words, and no class has them as its name. -/
theorem Spelled.refers {table : NameTable} (h : table.Spelled)
    (hP : ∀ name, knownClass? name = none → P name) {naming : Naming}
    (hassigned : table.assigned? naming.space name = some identifier) : Refers P identifier := by
  obtain ⟨hfree, number, rfl⟩ := h naming name identifier hassigned
  exact Text.refers_word (isWord_numbered (isWord_plain name) number)
    (hP _ (knownClass?_of_not_isReserved hfree))

/-- So are those of devices, if the names of their classes are words. -/
theorem DevicesSpelled.refers {table : NameTable} (h : table.DevicesSpelled)
    (hfree : table.Unreserved) (hP : ∀ name, knownClass? name = none → P name)
    {className : String} (hclass : ∀ c ∈ className.toList, isIdentifierChar c = true)
    (hassigned : table.assigned? (.deviceNames className) name = some identifier) :
    Refers P identifier := by
  have hunknown := hP _ (knownClass?_of_not_isReserved (hfree _ _ _ hassigned))
  rcases h className name identifier hassigned with rfl | ⟨number, rfl⟩
  · exact Text.refers_word (isWord_plain name) hunknown
  · exact Text.refers_word ((isWord_numbered_classed_iff name className number).2 hclass) hunknown

end NameTable

variable {block : Block}

namespace Block

/-- The texts that a block brings along: its comment, what it quotes, and of a call the class or nothing,
the method and arguments. -/
def suppliedTexts (block : Block) : List String :=
  (Renderer.commentOf block).toList.map Text.lineComment ++
    (match block.kind, block.signature? with
      | .text, _ => [Text.quote '"' ((block.field? "TEXT").getD "")]
      | .comment, _ => [Text.lineComment ((block.field? "COMMENT").getD "")]
      | .callStatic _, some signature => [signature.simpleName]
      | _, _ => []) ++
    block.signature?.toList.flatMap fun signature =>
      (block.field? "METHOD_NAME").toList ++ signature.parameters.filterMap CallParameter.supplied

def suppliedWords (block : Block) : List String := block.suppliedTexts.flatMap Text.words

/-- A device that is called has a class whose name is a word. -/
def callsWord (block : Block) : Bool :=
  match block.kind, block.signature? with
  | .callDevice _, some signature => signature.simpleName.toList.all isIdentifierChar
  | _, _ => true

/-- A choice is one of those that a block has. -/
theorem mem_of_choice {field value : String} {choices : List String}
    (h : block.choice field choices = .ok value) : value ∈ choices := by
  obtain ⟨found, -, h⟩ := bind_eq_ok_iff.1 h
  split at h
  · next hcontains =>
    cases h
    exact contains_iff_mem.1 hcontains
  · cases h

end Block

/-- The members by which a property is read and written are names of no class. -/
theorem DeviceProperty.plain_of_of {kind : DeviceKind} {setting : Bool}
    {property : DeviceProperty} (h : DeviceProperty.of block kind setting = .ok property) :
    isPlain property.getter = true ∧
      isPlain (property.setter.getD property.getter) = true := by
  have hall : ∀ property ∈ DeviceProperty.all kind, isPlain property.getter = true ∧
      isPlain (property.setter.getD property.getter) = true := by
    cases kind <;> decide
  obtain ⟨prop, -, h⟩ := bind_eq_ok_iff.1 h
  split at h
  · next hfound =>
    cases h
    exact hall _ (mem_of_find?_eq_some hfound)
  · cases h

theorem plain_opModeCall (call : OpModeCall) : isPlain call.method = true := by
  cases call with
  | sleep typed | getRuntime typed => cases typed <;> rfl
  | _ => rfl

/-- A block stands in an input of another one and is enabled. -/
def Workspace.Encloses (w : Workspace) (block child : Block) : Prop :=
  ∃ input, child ∈ w.enabledIn block input

variable {child : Block}

theorem Workspace.Encloses.mem {w : Workspace} (h : w.Encloses block child) : child ∈ w.blocks := by
  obtain ⟨input, h⟩ := h
  cases input with
  | socket name =>
    obtain ⟨id, -, hget⟩ := Option.bind_eq_some_iff.1 (Option.mem_toList.1 (mem_of_mem_filter h))
    exact mem_of_find?_eq_some hget
  | slot name =>
    have hchild := mem_of_mem_filter h
    cases hslot : block.statements.get? name with
    | none => simp [hslot] at hchild
    | some start =>
      rw [hslot] at hchild
      exact mem_of_mem_chainFrom hchild

/-- A block, or one that is inside it, supplies a name. -/
def Workspace.SuppliedIn (w : Workspace) (block : Block) (name : String) : Prop :=
  ∃ supplier, Relation.ReflTransGen w.Encloses block supplier ∧ name ∈ supplier.suppliedWords

/-- A step gives an expression all words of which are of a kind. -/
abbrev Draft.Gives (last : Draft) (P : String → Prop) (action : Render Expr) : Prop :=
  Render.Grants last (Expr.RefersTo P) action

/-- A step gives a closed text all words of which are of a kind. -/
abbrev Draft.Writes (last : Draft) (P : String → Prop) (action : Render String) : Prop :=
  Render.Grants last (Closed P) action

/-- Words of a kind are all that is needed for a block if the blocks inside it need no others: those
that are provided for at the end of the run, and those that the block itself supplies. -/
structure Renderer.Serves (r : Renderer) (last : Draft) (block : Block) (P : String → Prop) : Prop where
  target_eq : r.setting.target = .java
  spelled : last.context.names.Spelled
  devices : last.context.names.DevicesSpelled
  unreserved : last.context.names.Unreserved
  callsWord : block.callsWord = true
  provided (name : String) : last.context.Provides name → P name
  supplied : ∀ name ∈ block.suppliedWords, P name
  inner (child : Block) : r.setting.workspace.Encloses block child →
    (∀ name ∈ child.suppliedWords, P name) ∧ last.Gives P (r.value child) ∧
      last.Writes P (r.statement child)

namespace Renderer.Serves

open Render (Grants)

variable {r : Renderer} {last : Draft} {block : Block} {P : String → Prop}

theorem supplies (h : ∀ name ∈ child.suppliedWords, P name) {text : String}
    (htext : text ∈ child.suppliedTexts) : Refers P text :=
  fun name hname => h name (mem_flatMap.2 ⟨text, htext, hname⟩)

theorem comment {comment : String} (h : ∀ name ∈ child.suppliedWords, P name)
    (hcomment : Text.lineComment comment ∈ child.suppliedTexts) :
    Closed P (Text.lineComment comment) :=
  ⟨supplies h hcomment, Text.endsApart_of_ended (Text.ended_lineComment comment)⟩

theorem expressionStatement {x : Render Expr} (hx : last.Gives P x) :
    last.Writes P (x >>= fun expr => pure (Renderer.expressionStatement expr)) :=
  hx.bind_pure fun _ hexpr => hexpr.sign rfl

/-- A body in braces behind a head. -/
theorem braced {head body : String} (hhead : Refers P head) (hbody : Closed P body) :
    Closed P (Renderer.braced head body) :=
  ((hhead.sign rfl).append hbody).append (Text.closed_of_isSign rfl)

variable (h : r.Serves last block P)

include h

theorem unknown (name : String) (hunknown : knownClass? name = none) : P name :=
  h.provided name (.of_unknown hunknown)

theorem plain {text : String} (htext : isPlain text = true) : Refers P text :=
  fun name hname => h.unknown name (unknown_of_isPlainWord (all_eq_true.1 htext name hname))

theorem plainClosed {text : String} (htext : isPlain text = true) (happart : Text.endsApart text = true) :
    Closed P text :=
  ⟨h.plain htext, happart⟩

/-- A text with the name of a known class, after the import of it. -/
theorem imported {text : String}
    (htext : (Text.words text).all (fun word => word = simple || isPlainWord word) = true)
    (himport : last.context.Provides (Context.outerName simple)) (hdot : '.' ∉ simple.toList) :
    Refers P text := by
  intro name hname
  rcases Bool.or_eq_true_iff.1 (all_eq_true.1 htext name hname) with heq | hplain
  · rw [of_decide_eq_true heq]
    exact h.provided simple (Context.outerName_of_not_mem hdot ▸ himport)
  · exact h.unknown name (unknown_of_isPlainWord hplain)

theorem text {text : String} (htext : text ∈ block.suppliedTexts) : Refers P text :=
  supplies h.supplied htext

theorem label (type : NumericType) : Refers P type.label :=
  h.plain (by cases type <;> decide)

/-! ### Identifiers -/

theorem identifierFor (naming : Naming) (name : String) :
    Grants last (Refers P) (Render.identifierFor naming.space name) :=
  (Grants.identifierFor naming.space name).weaken fun _ => h.spelled.refers h.unknown

theorem procedureIdentifier (name : String) :
    Grants last (Refers P) (Render.procedureIdentifier name) := by
  unfold Render.procedureIdentifier
  split
  · next hmain =>
    rw [hmain]
    exact .pure (h.plain (by decide))
  · exact h.identifierFor .procedureName name

theorem distinctName {base : String} (hbase : IsWord base.toList) :
    Grants last (Refers P) (Render.distinctName base) := by
  intro before identifier after hyields
  refine ⟨(Render.Using.quiet.distinctName base before identifier after hyields).continues, fun _ => ?_⟩
  obtain rfl : _ = identifier := congrArg Prod.fst (yields_modifyGet.1 hyields)
  refine Text.refers_word (NameTable.isWord_numbered hbase _) (h.unknown _ ?_)
  exact knownClass?_of_not_isReserved
    ((NameTable.busy_eq_false_iff _ _).1 (NameTable.not_busy_freeNumber before.context.names _ _)).1

theorem declareDevice (className device : String)
    (hsimple : ∀ c ∈ simple.toList, isIdentifierChar c = true) :
    Grants last (Refers P) (Render.declareDevice simple className device) := by
  intro before result after hyields
  have hcontinues := (Render.using_declareDevice ⟨simple, device⟩ className _ _ _ hyields).continues
  obtain ⟨identifier, named, hnamed, hyields⟩ := yields_bind.1 hyields
  obtain ⟨_, imported, himported, hyields⟩ := yields_bind.1 hyields
  obtain ⟨_, declared, hdeclared, hyields⟩ := yields_bind.1 hyields
  obtain ⟨_, hassigned, rfl⟩ := yields_bind_pure.1 hyields
  refine ⟨hcontinues, fun hlast => ?_⟩
  have hclosed := Draft.steady_continues.closed
  have hrest := ((hclosed.importClassType className).of_yields himported).trans
    (((hclosed.declare _ _).of_yields hdeclared).trans ((hclosed.declare _ _).of_yields hassigned))
  exact h.devices.refers h.unreserved h.unknown hsimple
    ((hrest.trans hlast).extends _ _ _ (Render.context_of_identifierFor hnamed).2)

/-! ### Values of both targets -/

/-- A number with a mark of its type behind it. -/
theorem marked {text mark : String} (htext : IsLiteral text)
    (hmark : mark.toList.all isIdentifierChar = true) : Refers P (text ++ mark) :=
  Text.refers_literal htext (all_eq_true.1 hmark) fun word hword =>
    h.unknown word (unknown_of_isPlainWord (isPlainWord_of_isDigital hword))

theorem literal {value : Binary64} (hvalue : Binary64.InRange value) :
    Refers P (Numeral.literal .java value) := by
  cases value with
  | nan => exact h.plain (by decide)
  | infinite negative => exact h.plain (by cases negative <;> decide)
  | finite negative significand exponent =>
    have hliteral := @marked _ _ _ _ h _ "" (Numeral.isLiteral_literal .java hvalue) rfl
    rwa [String.append_empty] at hliteral

theorem literalFor {expr : Expr} (hexpr : expr.RefersTo P) (type : NumericType) {value : Binary64}
    (hvalue : Binary64.InRange value) : (Expr.literalFor type value expr).RefersTo P := by
  unfold Expr.literalFor
  split
  · exact hexpr
  · next hfinite =>
    split
    · exact hexpr
    · split
      · cases value with
        | nan | infinite => simp [Binary64.isFinite] at hfinite
        | finite negative significand exponent =>
          exact h.marked (Numeral.isLiteral_classText hvalue) rfl
      · exact hexpr.cast (h.label _)
    · split
      · exact h.marked (isLiteral_toString_int value.toInteger) rfl
      · exact hexpr.cast (h.label _)
    · exact hexpr.cast (h.label _)

theorem coerce (socket : String) (child : Block) (expr : Expr) :
    Grants last (fun result => expr.RefersTo P → result.RefersTo P)
      (r.coerce block socket child expr) := by
  refine .quiet_bind .get fun draft => .quiet_bind (.liftM _) fun type => ?_
  split
  · exact .pure fun hexpr => hexpr
  · next expected _ =>
    split
    · refine .liftM_bind fun value hvalue => .pure fun hexpr => ?_
      exact h.literalFor hexpr expected (inRange_literal hvalue)
    · refine .quiet_bind (.liftM _) fun found => ?_
      split
      · refine .pure fun hexpr => ?_
        split
        · exact hexpr.cast (h.label expected)
        · exact hexpr
      · exact .pure fun hexpr => hexpr

theorem operandOr (socket : String) {fallback : Expr} (hfallback : fallback.RefersTo P) :
    last.Gives P (r.operandOr block socket fallback) := by
  refine operandOr_cases (P := fun x _ => last.Gives P x) rfl (fun _ => .pure hfallback)
    (fun _ _ _ => .throw _) fun id child hid hchild henabled => ?_
  have hinner : r.setting.workspace.Encloses block child :=
    ⟨.socket socket, by simp [Workspace.enabledIn, hid, hchild, henabled]⟩
  unfold plugged
  cases child.shape.outputCheck? with
  | none => exact .throw _
  | some found =>
    refine .quiet_bind (Render.Using.quiet.checkSocket _ _ _) fun _ => ?_
    refine (h.inner child hinner).2.1.bind fun expr => ?_
    rw [h.target_eq]
    exact h.coerce socket child expr

theorem operand (socket : String) : last.Gives P (r.operand block socket) := by
  refine h.operandOr socket ?_
  unfold placeholder
  split
  · exact h.plain (by decide)
  · exact h.plain (by decide)
  · rw [textLiteral, h.target_eq]
    exact h.plain (by decide)
  · next hscript =>
    rw [h.target_eq] at hscript
    cases hscript
  · exact h.plain (by decide)

theorem operands (stem : String) (count : Nat) :
    Grants last (fun exprs => ∀ expr ∈ exprs, expr.RefersTo P) (r.operands block stem count) :=
  .mapM fun _ _ => h.operand _

theorem callWith (function : String) (sockets : List String) :
    Grants last (fun expr => Refers P function → expr.RefersTo P)
      (r.callWith block function sockets) :=
  (Grants.mapM fun socket _ => h.operand socket).bind_pure fun _ hexprs hfunction =>
    .call hfunction hexprs

/-- A call of a function of no known class. -/
theorem callPlain {function : String} (hfunction : isPlain function = true) (sockets : List String) :
    last.Gives P (r.callWith block function sockets) :=
  (h.callWith function sockets).weaken fun _ hexpr => hexpr (h.plain hfunction)

theorem binary {operator : Operator} (hoperator : isSign (" " ++ operator.symbol ++ " ") = true) :
    last.Gives P (r.binary block operator) := by
  refine (h.operand "A").bind fun left => (h.operand "B").bind_pure fun right hright hleft => ?_
  exact .binary hoperator hleft hright

theorem quotient : last.Gives P (r.quotient block) := by
  refine .quiet_bind (Render.Using.quiet.dropsFraction fun _ _ => .liftM _) fun drops => ?_
  split
  · refine (h.operand "A").bind fun dividend => (h.operand "B").bind_pure fun divisor => ?_
    exact fun hdivisor hdividend => .binary rfl (hdividend.cast (h.label .double)) hdivisor
  · exact h.binary rfl

theorem arithmetic : last.Gives P (r.arithmetic block) := by
  refine .quiet_bind (.liftM _) fun op => ?_
  split
  · exact h.binary rfl
  · exact h.binary rfl
  · exact h.binary rfl
  · exact h.quotient
  · exact h.callPlain (by decide) _
  · exact .throw _

theorem single : last.Gives P (r.single block) := by
  refine .quiet_bind (.liftM _) fun op => ?_
  split
  · exact (h.operand "NUM").bind_pure fun _ hexpr => hexpr.negate
  · refine (h.operand "NUM").bind_pure fun expr hexpr => .call (h.plain (by decide)) ?_
    exact forall_mem_cons.2 ⟨h.plain (by decide), forall_mem_singleton.2 hexpr⟩
  · exact h.callPlain (by decide) _
  · exact h.callPlain (by decide) _
  · exact h.callPlain (by decide) _
  · unfold decimalLogarithm
    rw [h.target_eq]
    exact h.callPlain (by decide) _
  · exact h.callPlain (by decide) _
  · exact .throw _

theorem ternary : last.Gives P (r.ternary block) := by
  refine (h.operand "IF").bind fun test => (h.operand "THEN").bind fun yes => ?_
  exact (h.operand "ELSE").bind_pure fun no hno hyes htest => htest.conditional hyes hno

theorem joined : last.Gives P (r.joined block) := by
  unfold Renderer.joined
  split
  · rw [textLiteral, h.target_eq]
    exact .pure (h.plain (by decide))
  · rw [h.target_eq]
    refine (h.operands "ADD" block.itemCount).bind_pure fun exprs hexprs => ?_
    unfold joinedInClass
    split
    · exact .call (h.plain (by decide)) hexprs
    · split
      · refine .chain rfl (hexprs _ mem_cons_self) fun expr hexpr => ?_
        exact hexprs expr (mem_cons_of_mem _ hexpr)
      · exact .chain rfl (h.plain (by decide)) hexprs

theorem listOf : last.Gives P (r.listOf block) := by
  unfold Renderer.listOf
  rw [h.target_eq]
  refine (h.operands "ADD" block.itemCount).bind fun exprs => ?_
  refine (Grants.importKnown "JavaUtil").bind_pure fun _ himport hexprs => .call ?_ hexprs
  exact h.imported (by decide) himport (by decide)

theorem procedureCall : last.Gives P (r.procedureCall block) := by
  refine .quiet_bind (.liftM _) fun name => (h.procedureIdentifier name).bind fun identifier => ?_
  exact (h.operands "ARG" _).bind_pure fun exprs hexprs hidentifier => .call hidentifier hexprs

theorem sharedValue : last.Gives P (r.sharedValue block) := by
  unfold Renderer.sharedValue
  split
  · refine .liftM_bind fun value hvalue => .pure ?_
    rw [h.target_eq]
    exact h.literal (inRange_literal hvalue)
  · exact h.arithmetic
  · exact h.single
  · refine .liftM fun expr hexpr => ?_
    obtain ⟨value, -, hexpr⟩ := bind_eq_ok_iff.1 hexpr
    split at hexpr <;> cases hexpr <;> exact h.plain (by decide)
  · refine .liftM_bind fun operator hoperator => h.binary ?_
    obtain ⟨op, -, hoperator⟩ := bind_eq_ok_iff.1 hoperator
    split at hoperator <;> cases hoperator <;> rfl
  · refine .liftM_bind fun operator hoperator => h.binary ?_
    obtain ⟨op, -, hoperator⟩ := bind_eq_ok_iff.1 hoperator
    split at hoperator <;> cases hoperator <;> rfl
  · exact (h.operand "BOOL").bind_pure fun _ hexpr => hexpr.not
  · exact .pure (h.plain (by decide))
  · exact h.ternary
  · next hkind =>
    rw [textLiteral, h.target_eq]
    refine .pure (h.text ?_)
    rw [Block.suppliedTexts, hkind]
    exact mem_append_left _ (mem_append_right _ mem_cons_self)
  · exact h.joined
  · exact h.listOf
  · refine .quiet_bind (.liftM _) fun name => ?_
    exact (h.identifierFor .variableName name).bind_pure fun _ hidentifier => hidentifier
  · exact h.procedureCall
  · exact .throw _

theorem angle : last.Gives P (r.angle block) := by
  refine (h.operand "Y").bind fun y => (h.operand "X").bind_pure fun x hx hy => ?_
  have hatan : (Expr.call "Math.atan2" [y, x]).RefersTo P :=
    .call (h.plain (by decide)) (forall_mem_cons.2 ⟨hy, forall_mem_singleton.2 hx⟩)
  exact .binary rfl (.binary rfl hatan (h.plain (by decide))) (h.plain (by decide))

/-! ### Values of classes -/

omit h in
theorem importSignature (signature : CallSignature) :
    Render.Using [] (Compiled.importSignature signature) :=
  Render.Using.quiet.andThen (Render.Using.quiet.importClassType _) fun _ =>
    Render.Using.quiet.forM _ fun _ _ => Render.Using.quiet.importClassType _

theorem methodCall (receiver : String) {signature : CallSignature}
    (hsignature : block.signature? = some signature) :
    Grants last (fun expr => Refers P receiver → expr.RefersTo P)
      (Compiled.methodCall r block receiver signature) := by
  have htext : ∀ {text}, text ∈ (block.field? "METHOD_NAME").toList ++
      signature.parameters.filterMap CallParameter.supplied → Refers P text := by
    intro text htext
    refine h.text (mem_append_right _ ?_)
    simpa only [hsignature, Option.toList_some, flatMap_singleton] using htext
  have hargument : ∀ entry ∈ signature.parameters.zipIdx,
      last.Gives P (Compiled.argument r block entry) := by
    intro entry hentry
    unfold Compiled.argument
    dsimp only
    split
    · next code hsupplied =>
      refine .pure (htext (mem_append_right _ ?_))
      exact mem_filterMap.2 ⟨entry.1, fst_mem_of_mem_zipIdx hentry, hsupplied⟩
    · exact h.operandOr _ (h.plain (by decide))
  refine .liftM_bind fun method hmethod => ?_
  have hmember : Refers P method := by
    refine htext (mem_append_left _ ?_)
    rw [Block.field?_of_requiredField hmethod]
    exact mem_cons_self
  exact (Grants.mapM hargument).bind_pure fun exprs hexprs hreceiver =>
    .method hreceiver hmember hexprs

theorem staticCall {returns : Bool} (hkind : block.kind = .callStatic returns) :
    last.Gives P (Compiled.staticCall r block) := by
  refine .liftM_bind fun signature hsignature => ?_
  replace hsignature := Block.signature?_of_signature hsignature
  have hreceiver : Refers P signature.simpleName := by
    refine h.text ?_
    simp [Block.suppliedTexts, hsignature, hkind]
  have hcall := (h.methodCall signature.simpleName hsignature).weaken fun _ hexpr => hexpr hreceiver
  refine .quiet_bind (importSignature signature) fun _ => ?_
  split
  · exact .quiet_bind (Render.Using.quiet.importClassType _) fun _ => hcall
  · exact hcall

theorem deviceCall {returns : Bool} (hkind : block.kind = .callDevice returns) :
    last.Gives P (Compiled.deviceCall r block) := by
  refine .liftM_bind fun signature hsignature => ?_
  replace hsignature := Block.signature?_of_signature hsignature
  have hsimple : ∀ c ∈ signature.simpleName.toList, isIdentifierChar c = true := by
    have hword := h.callsWord
    rw [Block.callsWord, hsignature, hkind] at hword
    exact all_eq_true.1 hword
  refine .quiet_bind (importSignature signature) fun _ => .quiet_bind (.liftM _) fun device => ?_
  exact (h.declareDevice signature.className device hsimple).bind fun identifier =>
    h.methodCall identifier hsignature

theorem formattedNumber : last.Gives P (Compiled.formattedNumber r block) := by
  refine (Grants.importKnown "JavaUtil").bind fun _ => ?_
  refine (h.callWith "JavaUtil.formatNumber" _).weaken fun expr hexpr himport => hexpr ?_
  exact h.imported (by decide) himport (by decide)

theorem miscValue (misc : MiscBlock) : last.Gives P (Compiled.miscValue r block misc) := by
  have hcompared : ∀ {operator : Operator}, isSign (" " ++ operator.symbol ++ " ") = true →
      last.Gives P (Compiled.comparedWithNull r block operator) := fun hoperator =>
    (h.operand "VALUE").bind_pure fun _ hexpr => .binary hoperator hexpr (h.plain (by decide))
  cases misc with
  | null => exact .pure (h.plain (by decide))
  | isNull | isNotNull => exact hcompared rfl
  | atan2 => exact h.angle
  | formatNumber => exact h.formattedNumber
  | roundDecimal =>
    refine h.formattedNumber.bind_pure fun expr hexpr => .call (h.plain (by decide)) ?_
    exact forall_mem_singleton.2 hexpr
  | addItemToList => exact h.sharedValue

theorem displayFormatValue : last.Gives P (Compiled.displayFormatValue block) := by
  refine .liftM_bind fun format hformat => ?_
  refine (Grants.importKnown "Telemetry").bind_pure fun _ himport => ?_
  have hchoice := Block.mem_of_choice hformat
  simp only [mem_cons, not_mem_nil, or_false] at hchoice
  rcases hchoice with rfl | rfl | rfl <;> exact h.imported (by decide) himport (by decide)

theorem gamepadValue (typing : Typing) :
    last.Gives P (liftM (Compiled.gamepadValue block typing)) := by
  have hmembers : ∀ property ∈ GamepadProperty.all, isPlain property.member = true := by
    decide
  refine .liftM fun expr hexpr => ?_
  obtain ⟨property, hproperty, hexpr⟩ := bind_eq_ok_iff.1 hexpr
  obtain ⟨gamepad, hgamepad, hexpr⟩ := bind_eq_ok_iff.1 hexpr
  cases hexpr
  have hname : Refers P gamepad := by
    have hchoice := Block.mem_of_choice hgamepad
    simp only [mem_cons, not_mem_nil, or_false] at hchoice
    rcases hchoice with rfl | rfl <;> exact h.plain (by decide)
  have hmember : Refers P property.member := by
    refine h.plain (hmembers property ?_)
    obtain ⟨prop, -, hproperty⟩ := bind_eq_ok_iff.1 hproperty
    split at hproperty
    · next found hfound =>
      split at hproperty <;> cases hproperty
      exact mem_of_find?_eq_some hfound
    · cases hproperty
  exact (hname.sign rfl).follow hmember

theorem colorValue : last.Gives P (Compiled.colorValue r block) := by
  refine .quiet_bind (.liftM _) fun property => (h.operand "COLOR").bind fun color => ?_
  split
  · refine (Grants.importKnown "Color").bind_pure fun _ himport hcolor => ?_
    refine .call ?_ (forall_mem_singleton.2 hcolor)
    exact h.imported (by cases property <;> decide) himport (by decide)
  · refine (Grants.importKnown "JavaUtil").bind_pure fun _ himport hcolor => ?_
    refine .call ?_ (forall_mem_singleton.2 hcolor)
    exact h.imported (by cases property <;> decide) himport (by decide)

theorem deviceField (kind : DeviceKind) : last.Gives P (Compiled.deviceField r block kind) := by
  refine .quiet_bind (.deviceOf _ block kind) fun device => ?_
  unfold Render.declareResolved
  dsimp only
  split
  · next className _ =>
    refine (h.declareDevice className device.name ?_).bind_pure fun _ hidentifier => hidentifier
    exact all_eq_true.1 (by cases device.kind <;> rfl)
  · exact .throw _

theorem compiledValue : last.Gives P (Compiled.value r block) := by
  unfold Compiled.value
  split
  · exact h.miscValue _
  · next hkind => exact h.staticCall hkind
  · next hkind => exact h.deviceCall hkind
  · exact h.displayFormatValue
  · next call _ =>
    exact .pure (.call (h.plain (plain_opModeCall call)) (forall_mem_nil _))
  · exact h.colorValue
  · exact h.gamepadValue _
  · next kind _ =>
    refine .liftM_bind fun property hproperty => ?_
    refine (h.deviceField kind).bind_pure fun device hdevice => ?_
    exact hdevice.method (h.plain (DeviceProperty.plain_of_of hproperty).1) (forall_mem_nil _)
  · exact (h.operand "VALUE").bind_pure fun _ hexpr =>
      hexpr.method (h.plain (by decide)) (forall_mem_nil _)
  · exact (h.operand "VALUE").bind_pure fun _ hexpr =>
      hexpr.method (h.plain (by decide)) (forall_mem_nil _)
  · exact h.sharedValue

/-! ### Statements -/

theorem slot (name : String) : last.Writes P (r.slot block name) := by
  cases hslot : block.statements.get? name with
  | none =>
    rw [slot_of_get?_eq_none hslot]
    exact .pure Text.closed_empty
  | some start =>
    rw [slot_of_get?_eq_some hslot]
    have hlink : ∀ child ∈ (r.setting.workspace.chain start).1, last.Writes P (r.link child) := by
      intro child hchild
      unfold Renderer.link
      split
      · exact .quiet_bind (.record _) fun _ => .pure Text.closed_empty
      · next henabled =>
        obtain ⟨hsupplied, -, hstatement⟩ := h.inner child
          ⟨.slot name, by simp [Workspace.enabledIn, hslot, hchild, henabled]⟩
        refine hstatement.bind_pure fun text htext => .append ?_ htext
        cases hcomment : commentOf child with
        | none => exact Text.closed_empty
        | some comment =>
          exact Serves.comment hsupplied (by simp [Block.suppliedTexts, hcomment])
    have hchain : last.Writes P (r.chain start) := by
      unfold Renderer.chain
      refine (Grants.mapM hlink).bind fun texts => ?_
      split
      · exact .throw _
      · exact .pure fun htexts => .join htexts
    exact hchain.bind_pure fun _ htext => htext.refers.indent

theorem operandText (socket : String) (place : Precedence) :
    Grants last (Refers P) (r.operandText block socket place) :=
  (h.operand socket).bind_pure fun _ hexpr => Expr.refers_printAt hexpr place

theorem callStatement {function : String} (hfunction : isPlain function = true)
    (sockets : List String) : last.Writes P (r.callStatement block function sockets) :=
  expressionStatement (h.callPlain hfunction sockets)

theorem assignment : last.Writes P (r.assignment block) := by
  refine .quiet_bind (.liftM _) fun name => (h.identifierFor .variableName name).bind fun identifier => ?_
  refine (h.operandText "VALUE" .assignment).bind_pure fun value hvalue hidentifier => ?_
  exact ((hidentifier.sign rfl).follow hvalue).sign rfl

theorem branches : last.Writes P (r.branches block) := by
  have hbranch : ∀ index, last.Writes P (r.branch block index) := by
    intro index
    refine (h.operandText _ .anything).bind fun condition => ?_
    refine (h.slot _).bind_pure fun body hbody hcondition => ?_
    have hword : Refers P (if index = 0 then "if" else "\x7d else if") := by
      split <;> exact h.plain (by decide)
    exact (((hword.sign rfl).follow hcondition).sign rfl).append hbody
  have hlast : last.Writes P (r.lastBranch block) := by
    unfold lastBranch
    split
    · exact (h.slot "ELSE").bind_pure fun _ hbody => (h.plainClosed (by decide) rfl).append hbody
    · exact .pure Text.closed_empty
  refine (Grants.mapM fun index _ => hbranch index).bind fun texts => ?_
  exact hlast.bind_pure fun last hlast htexts =>
    ((Closed.join htexts).append hlast).append (Text.closed_of_isSign rfl)

theorem conditionLoop : last.Writes P (r.conditionLoop block) := by
  have hcondition : last.Gives P (r.loopCondition block) := by
    unfold loopCondition
    split
    · exact h.operand "BOOL"
    · exact (h.operand "BOOL").bind_pure fun _ hexpr => hexpr.not
    · exact .throw _
  refine hcondition.bind fun condition => (h.slot "DO").bind_pure fun body hbody hcondition => ?_
  refine braced ?_ hbody
  exact (((h.plainClosed (by decide) rfl).follow (Expr.refers_printAt hcondition _)).sign rfl).refers

theorem countedLoop : last.Writes P (r.countedLoop block) := by
  refine (h.operandText "TIMES" _).bind fun times => ?_
  refine (h.distinctName (by decide)).bind fun counter => ?_
  refine (h.slot "DO").bind_pure fun body hbody hcounter htimes => ?_
  rw [h.target_eq]
  refine braced ?_ hbody
  have hfor : Closed P ("for (" ++ counterKeyword .java ++ " ") := h.plainClosed (by decide) rfl
  have hstart : Closed P ("for (" ++ counterKeyword .java ++ " " ++ counter ++ " = 0; ") :=
    (hfor.follow hcounter).close (h.plainClosed (by decide) rfl) rfl (by decide)
  exact (((((hstart.follow hcounter).sign rfl).follow htimes).sign rfl).follow hcounter
    |>.sign rfl).refers

theorem returnStatement : last.Writes P (r.returnStatement block) := by
  refine (h.operandText "RETURN" .anything).bind_pure fun value hvalue => ?_
  exact (((h.plainClosed (by decide) rfl).follow hvalue).sign rfl).refers.indent

theorem sharedStatement : last.Writes P (r.sharedStatement block) := by
  unfold Renderer.sharedStatement
  split
  · exact h.assignment
  · exact h.branches
  · exact h.conditionLoop
  · exact h.countedLoop
  · refine .liftM fun text htext => ?_
    obtain ⟨flow, -, htext⟩ := bind_eq_ok_iff.1 htext
    split at htext <;> cases htext <;> exact h.plainClosed (by decide) rfl
  · exact expressionStatement h.procedureCall
  · exact .throw _

theorem telemetry (kind : TelemetryBlock) : last.Writes P (Compiled.telemetry r block kind) := by
  cases kind with
  | addNumericData typed | addTextData typed | update => exact h.callStatement (by decide) _
  | speak =>
    refine (h.operand "TEXT").bind_pure fun text htext => Refers.sign ?_ rfl
    refine Expr.RefersTo.call (h.plain (by decide)) ?_
    refine forall_mem_cons.2 ⟨htext, forall_mem_cons.2 ⟨h.plain (by decide), ?_⟩⟩
    exact forall_mem_singleton.2 (h.plain (by decide))
  | speakWithLanguage | setDisplayFormat => exact h.callStatement (by decide) _
  | typedEnumDisplayFormat => exact h.sharedStatement

theorem deviceSet (kind : DeviceKind) : last.Writes P (Compiled.deviceSet r block kind) := by
  refine .liftM_bind fun property hproperty => (h.deviceField _).bind fun device => ?_
  refine (h.operand "VALUE").bind_pure fun value hvalue hdevice => ?_
  have hsetter := h.plain (DeviceProperty.plain_of_of hproperty).2
  exact Refers.sign (hdevice.method hsetter (forall_mem_singleton.2 hvalue)) rfl

theorem compiledStatement : last.Writes P (Compiled.statement r block) := by
  unfold Compiled.statement
  split
  · next hkind =>
    exact .pure (Serves.comment h.supplied (by simp [Block.suppliedTexts, hkind]))
  · refine (h.operand "LIST").bind fun list => (h.operand "ITEM").bind_pure fun item hitem hlist => ?_
    exact Refers.sign (hlist.method (h.plain (by decide)) (forall_mem_singleton.2 hitem)) rfl
  · next hkind => exact expressionStatement (h.staticCall hkind)
  · next hkind => exact expressionStatement (h.deviceCall hkind)
  · exact h.telemetry _
  · exact h.callStatement (by decide) _
  · next call _ _ => exact h.callStatement (plain_opModeCall call) _
  · exact h.deviceSet _
  · exact h.sharedStatement

end Renderer.Serves

/-! ## Programs -/

/-- A name is provided for at the end of a run, or it is supplied by a block or inside it. -/
def Setting.Covers (setting : Setting) (last : Draft) (block : Block) (name : String) : Prop :=
  last.context.Provides name ∨ setting.workspace.SuppliedIn block name

/-- A run of a class ends with a draft, and the devices that it calls have words for classes. -/
structure Setting.Ends (setting : Setting) (last : Draft) : Prop where
  target_eq : setting.target = .java
  spelled : last.context.names.Spelled
  devices : last.context.names.DevicesSpelled
  unreserved : last.context.names.Unreserved
  callsWord : ∀ block ∈ setting.workspace.blocks, block.callsWord = true

namespace Setting.Ends

variable {setting : Setting} {last : Draft} (h : setting.Ends last)

include h

theorem serves {depth : Nat} (hinner : ∀ child ∈ setting.workspace.blocks,
      last.Gives (setting.Covers last child) ((setting.rendererWithin depth).value child) ∧
        last.Writes (setting.Covers last child) ((setting.rendererWithin depth).statement child))
    (hblock : block ∈ setting.workspace.blocks) :
    (setting.rendererWithin depth).Serves last block (setting.Covers last block) where
  target_eq := by
    rw [setting.setting_rendererWithin]
    exact h.target_eq
  spelled := h.spelled
  devices := h.devices
  unreserved := h.unreserved
  callsWord := h.callsWord block hblock
  provided _ := .inl
  supplied name hname := .inr ⟨block, .refl, hname⟩
  inner child hchild := by
    rw [setting.setting_rendererWithin] at hchild
    have hsub : ∀ name, setting.Covers last child name → setting.Covers last block name := by
      rintro name (hprovided | ⟨supplier, hinside, hname⟩)
      · exact .inl hprovided
      · exact .inr ⟨supplier, .head hchild hinside, hname⟩
    obtain ⟨hvalue, hstatement⟩ := hinner child hchild.mem
    exact ⟨fun name hname => .inr ⟨child, .single hchild, hname⟩,
      hvalue.weaken fun _ hexpr => hexpr.mono hsub, hstatement.weaken fun _ htext => htext.mono hsub⟩

/-- Whatever a block is rendered to, the words in it are provided for at the end of the run, or they are
supplied by a block inside it. -/
theorem rendererWithin (depth : Nat) (hblock : block ∈ setting.workspace.blocks) :
    last.Gives (setting.Covers last block) ((setting.rendererWithin depth).value block) ∧
      last.Writes (setting.Covers last block) ((setting.rendererWithin depth).statement block) := by
  induction depth generalizing block with
  | zero => exact ⟨.throw _, .throw _⟩
  | succ depth ih =>
    have hserves := h.serves (fun _ hchild => ih hchild) hblock
    constructor
    · show last.Gives _ ((setting.rendererWithin depth).renderValue block)
      unfold Renderer.renderValue
      rw [hserves.target_eq]
      exact hserves.compiledValue
    · show last.Writes _ ((setting.rendererWithin depth).renderStatement block)
      unfold Renderer.renderStatement
      rw [hserves.target_eq]
      split
      · exact hserves.compiledStatement
      · exact .throw _

theorem renderer (hblock : block ∈ setting.workspace.blocks) :
    setting.renderer.Serves last block (setting.Covers last block) :=
  h.serves (fun _ hchild => h.rendererWithin _ hchild) hblock

end Setting.Ends

end RobotBlocks
