import RobotBlocks.Proofs.Expr.Tokens

/-!
# What stands around an operand

A `Frame` is an expression with a gap for one operand, item or argument, and a list of frames, the
outermost first, leads from an expression down to one that stands in it (`Frame.fillAll`). The text of
the whole is the text of the part between two texts that belong to the frames (`print_fillAll`); each
frame puts its own parentheses, which are one pair at most (`Frame.parenthesizes`).

`Frame.around` writes the frames around any text in place of that of the part, with the same
parentheses as around the part. A frame around a text falls into tokens if the text does
(`reads_enclose`), and so the text of every readable expression falls into exactly its tokens
(`readsAsTokens`). The induction is over the expression, which is brackets around items or a frame
around an operand.
-/

set_option autoImplicit false

namespace RobotBlocks

open Grammar List RobotBlocks.Expr
open String (toList_append toList_inj)
open Precedence (needsParens rank)

/-! ## Frames -/

/-- The brackets that items or arguments stand in. -/
inductive Brackets where
  | list
  | call (function : String)
  /-- A list of which a method is called. -/
  | receiver (member : String) (arguments : List Expr)
  /-- The arguments of a method of a list. -/
  | method (items : List Expr) (member : String)

/-- An expression with a gap. -/
inductive Frame where
  | negate
  | not
  | cast (type : String)
  /-- The gap is on the left of an operator. -/
  | left (operator : Operator) (right : Expr)
  | right (operator : Operator) (left : Expr)
  /-- The gap is the test of a choice. -/
  | test (yes no : Expr)
  | yes (test no : Expr)
  | no (test yes : Expr)
  /-- The gap is among items or arguments. -/
  | item (brackets : Brackets) (before after : List Expr)

namespace Brackets

def fill : Brackets → List Expr → Expr
  | list, items => .list items
  | call function, items => .call function items
  | receiver member arguments, items => .method (.list items) member arguments
  | method others member, items => .method (.list others) member items

def opening : Brackets → String
  | list | receiver .. => "["
  | call function => function ++ "("
  | method items member => (Expr.list items).print ++ "." ++ member ++ "("

def closing : Brackets → String
  | list => "]"
  | receiver member arguments =>
    "]." ++ member ++ "(" ++ ", ".intercalate (printAll arguments) ++ ")"
  | call .. | method .. => ")"

def openingTokens : Brackets → List Token
  | list | receiver .. => [.sign "["]
  | call function => pathTokens function ++ [.sign "("]
  | method items member => (Expr.list items).tokens ++ [.sign ".", .word member, .sign "("]

def closingTokens : Brackets → List Token
  | list => [.sign "]"]
  | receiver member arguments =>
    .sign "]" :: .sign "." :: .word member :: inParens (itemTokens arguments)
  | call .. | method .. => [.sign ")"]

theorem print_fill (brackets : Brackets) (items : List Expr) :
    (brackets.fill items).print =
      brackets.opening ++ ", ".intercalate (Expr.printAll items) ++ brackets.closing := by
  cases brackets with
  | list | call function => rfl
  | receiver member arguments | method others member =>
    refine toList_inj.1 ?_
    simp [fill, opening, closing, Expr.print, Expr.level, Precedence.wrap, needsParens,
      rank]

theorem tokens_fill (brackets : Brackets) (items : List Expr) :
    (brackets.fill items).tokens =
      brackets.openingTokens ++ Expr.itemTokens items ++ brackets.closingTokens := by
  cases brackets with
  | list => simp [fill, openingTokens, closingTokens, Expr.tokens]
  | call function => simp [fill, openingTokens, closingTokens, Expr.tokens, Expr.inParens]
  | receiver member arguments | method others member =>
    simp [fill, openingTokens, closingTokens, Expr.tokens, Expr.level, Expr.inParens,
      Expr.wrapTokens, needsParens, rank]

end Brackets

namespace Expr

def parenthesized (parens : Bool) (code : String) : String :=
  bif parens then "(" ++ code ++ ")" else code

def parenthesizedTokens (parens : Bool) (ts : List Token) : List Token :=
  bif parens then inParens ts else ts

theorem wrap_eq (code : String) (inner outer : Precedence) :
    Precedence.wrap code inner outer = parenthesized (needsParens inner outer) code := by
  unfold Precedence.wrap parenthesized
  cases needsParens inner outer <;> rfl

theorem wrapTokens_eq (ts : List Token) (inner outer : Precedence) :
    wrapTokens ts inner outer = parenthesizedTokens (needsParens inner outer) ts := by
  unfold wrapTokens parenthesizedTokens
  cases needsParens inner outer <;> rfl

def beforeSign (operand : Expr) (place : Precedence) (symbol : String) : String :=
  operand.printAt place ++ " " ++ symbol ++ " "

def behindSign (symbol : String) (operand : Expr) (place : Precedence) : String :=
  " " ++ symbol ++ " " ++ operand.printAt place

def leading : List Expr → String
  | [] => ""
  | item :: rest => item.printAt .comma ++ ", " ++ leading rest

def trailing : List Expr → String
  | [] => ""
  | item :: rest => ", " ++ item.printAt .comma ++ trailing rest

def tokensAt (expr : Expr) (place : Precedence) : List Token :=
  wrapTokens expr.tokens expr.level place

def leadingTokens : List Expr → List Token
  | [] => []
  | item :: rest => item.tokensAt .comma ++ .sign "," :: leadingTokens rest

def trailingTokens : List Expr → List Token
  | [] => []
  | item :: rest => .sign "," :: (item.tokensAt .comma ++ trailingTokens rest)

theorem intercalate_printAll (before after : List Expr) (item : Expr) :
    ", ".intercalate (printAll (before ++ item :: after)) =
      leading before ++ item.printAt .comma ++ trailing after := by
  induction before with
  | nil =>
    induction after generalizing item with
    | nil => simp [printAll, leading, trailing, printAt]
    | cons next after ih =>
      have hmore := ih next
      rw [nil_append] at hmore ⊢
      rw [printAll, String.intercalate_cons_of_ne_nil (by simp [printAll]), hmore]
      simp [leading, trailing, printAt, String.append_assoc]
  | cons first before ih =>
    have hne : printAll (before ++ item :: after) ≠ [] := by
      cases before <;> simp [printAll]
    rw [cons_append, printAll, String.intercalate_cons_of_ne_nil hne, ih]
    simp [leading, printAt, String.append_assoc]

theorem itemTokens_append (before after : List Expr) (item : Expr) :
    itemTokens (before ++ item :: after) =
      leadingTokens before ++ item.tokensAt .comma ++ trailingTokens after := by
  induction before with
  | nil =>
    induction after generalizing item with
    | nil => simp [itemTokens, leadingTokens, trailingTokens, tokensAt]
    | cons next after ih =>
      have hmore := ih next
      rw [nil_append] at hmore ⊢
      rw [itemTokens, hmore]
      simp [leadingTokens, trailingTokens, tokensAt]
  | cons first before ih =>
    obtain ⟨next, rest, hrest⟩ : ∃ next rest, before ++ item :: after = next :: rest := by
      cases before <;> simp
    rw [cons_append, hrest, itemTokens, ← hrest, ih]
    simp [leadingTokens, tokensAt]

end Expr

namespace Frame

/-- An expression in a frame. -/
def fill : Frame → Expr → Expr
  | negate, part => .negate part
  | not, part => .not part
  | cast type, part => .cast type part
  | left operator other, part => .binary operator part other
  | right operator other, part => .binary operator other part
  | test first second, part => .conditional part first second
  | yes condition second, part => .conditional condition part second
  | no condition first, part => .conditional condition first part
  | item brackets items rest, part => brackets.fill (items ++ part :: rest)

/-- What may stand in a frame without parentheses. -/
def place : Frame → Precedence
  | negate | not | cast _ => .unary
  | left operator _ => operator.leftContext
  | right operator _ => operator.rightContext
  | test .. => Precedence.conditional.tighter
  | yes .. | no .. => .conditional
  | item .. => .comma

/-- Whether a frame puts parentheses around an expression: if it is looser than its place allows, or if
it begins with a minus behind a minus. -/
def parenthesizes (frame : Frame) (part : Expr) : Bool :=
  match frame with
  | negate => needsParens part.level .unary || startsWithMinus part.print
  | frame => needsParens part.level frame.place

def before : Frame → String
  | negate => "-"
  | not => "!"
  | cast type => "(" ++ type ++ ") "
  | left .. | test .. => ""
  | right operator other => other.beforeSign operator.leftContext operator.symbol
  | yes condition _ => condition.beforeSign Precedence.conditional.tighter "?"
  | no condition first =>
    condition.beforeSign Precedence.conditional.tighter "?" ++ first.beforeSign .conditional ":"
  | item brackets items _ => brackets.opening ++ leading items

def after : Frame → String
  | negate | not | cast _ | right .. | no .. => ""
  | left operator other => behindSign operator.symbol other operator.rightContext
  | test first second =>
    behindSign "?" first .conditional ++ behindSign ":" second .conditional
  | yes _ second => behindSign ":" second .conditional
  | item brackets _ rest => trailing rest ++ brackets.closing

/-- A frame around a text, with or without parentheses. -/
def enclose (frame : Frame) (parens : Bool) (code : String) : String :=
  frame.before ++ parenthesized parens code ++ frame.after

def beforeTokens : Frame → List Token
  | negate => [.sign "-"]
  | not => [.sign "!"]
  | cast type => [.sign "(", .word type, .sign ")"]
  | left .. | test .. => []
  | right operator other => other.tokensAt operator.leftContext ++ [.sign operator.symbol]
  | yes condition _ => condition.tokensAt Precedence.conditional.tighter ++ [.sign "?"]
  | no condition first =>
    condition.tokensAt Precedence.conditional.tighter ++ [.sign "?"] ++
      (first.tokensAt .conditional ++ [.sign ":"])
  | item brackets items _ => brackets.openingTokens ++ leadingTokens items

def afterTokens : Frame → List Token
  | negate | not | cast _ | right .. | no .. => []
  | left operator other => .sign operator.symbol :: other.tokensAt operator.rightContext
  | test first second =>
    .sign "?" :: first.tokensAt .conditional ++ .sign ":" :: second.tokensAt .conditional
  | yes _ second => .sign ":" :: second.tokensAt .conditional
  | item brackets _ rest => trailingTokens rest ++ brackets.closingTokens

def encloseTokens (frame : Frame) (parens : Bool) (ts : List Token) : List Token :=
  frame.beforeTokens ++ parenthesizedTokens parens ts ++ frame.afterTokens

theorem print_fill (frame : Frame) (part : Expr) :
    (frame.fill part).print = frame.enclose (frame.parenthesizes part) part.print := by
  refine toList_inj.1 ?_
  cases frame with
  | negate =>
    have hminus : startsWithMinus ("(" ++ part.print ++ ")") = false := by
      simp [startsWithMinus]
    cases hneeds : needsParens part.level .unary <;>
      cases hstarts : startsWithMinus part.print <;>
      simp [fill, enclose, parenthesizes, before, after, print, withMinus, wrap_eq,
        parenthesized, hneeds, hminus, hstarts]
  | item brackets items rest =>
    simp [fill, enclose, parenthesizes, before, after, place, Brackets.print_fill,
      intercalate_printAll, printAt, wrap_eq]
  | _ =>
    simp [fill, enclose, parenthesizes, before, after, place, print, beforeSign,
      behindSign, printAt, wrap_eq]

theorem tokens_fill (frame : Frame) (part : Expr) :
    (frame.fill part).tokens = frame.encloseTokens (frame.parenthesizes part) part.tokens := by
  cases frame with
  | negate =>
    have hminus : Expr.startsWithMinus ("(" ++ part.print ++ ")") = false := by
      simp [Expr.startsWithMinus]
    cases hneeds : needsParens part.level .unary <;>
      cases hstarts : Expr.startsWithMinus part.print <;>
      simp [fill, encloseTokens, parenthesizes, beforeTokens, afterTokens, Expr.tokens,
        Expr.withMinusTokens, Expr.wrap_eq, Expr.wrapTokens_eq, Expr.parenthesized,
        Expr.parenthesizedTokens, hneeds, hminus, hstarts]
  | item brackets items rest =>
    simp [fill, encloseTokens, parenthesizes, beforeTokens, afterTokens, place,
      Brackets.tokens_fill, Expr.itemTokens_append, Expr.tokensAt, Expr.wrapTokens_eq]
  | _ =>
    simp [fill, encloseTokens, parenthesizes, beforeTokens, afterTokens, place, Expr.tokens,
      Expr.tokensAt, Expr.wrapTokens_eq]

end Frame

/-! ## Texts of frames as tokens -/

/-- What stands beside the items between brackets can be read. -/
def Brackets.Sound : Brackets → Prop
  | list => True
  | call function => IsPath function
  | receiver member arguments =>
    IsWord member.toList ∧ ∀ argument ∈ arguments, argument.ReadsAsTokens
  | method items member => (∀ item ∈ items, item.ReadsAsTokens) ∧ IsWord member.toList

/-- What stands beside the gap of a frame can be read. -/
def Frame.Sound : Frame → Prop
  | negate | not => True
  | cast type => type ∈ typeWords
  | left operator other | right operator other => operator ∈ Operator.all ∧ other.ReadsAsTokens
  | test first second | yes first second | no first second =>
    first.ReadsAsTokens ∧ second.ReadsAsTokens
  | item brackets before after =>
    brackets.Sound ∧ (∀ item ∈ before, item.ReadsAsTokens) ∧ ∀ item ∈ after, item.ReadsAsTokens

section Reads

variable {operand : Expr} {symbol : String}
variable {rest : List Char}

theorem reads_beforeSign (h : operand.ReadsAsTokens) (place : Precedence) (hsymbol : symbol ∈ signs)
    (rest : List Char) :
    Reads (operand.beforeSign place symbol).toList (operand.tokensAt place ++ [.sign symbol])
      rest := by
  have hchars : (operand.beforeSign place symbol).toList =
      (operand.printAt place).toList ++ ([' '] ++ (symbol.toList ++ [' '])) := by
    simp [beforeSign]
  have hspace : Reads [' '] [] rest := reads_space rest
  rw [hchars]
  exact (reads_wrap h (ends_cons (by decide))).append
    ((reads_space _).append ((reads_sign_space hsymbol rest).append hspace))

theorem reads_behindSign (h : operand.ReadsAsTokens) (place : Precedence) (hsymbol : symbol ∈ signs)
    (hrest : Ends rest) :
    Reads (behindSign symbol operand place).toList (.sign symbol :: operand.tokensAt place)
      rest := by
  have hchars : (behindSign symbol operand place).toList =
      [' '] ++ (symbol.toList ++ ([' '] ++ (operand.printAt place).toList)) := by
    simp [behindSign]
  rw [hchars]
  exact (reads_space _).append ((reads_sign_space hsymbol _).append
    ((reads_space _).append (reads_wrap h hrest)))

variable {items : List Expr}

theorem reads_comma (rest : List Char) : Reads ", ".toList [.sign ","] rest := by
  have hcomma : Reads ",".toList [.sign ","] ([' '] ++ rest) := reads_bracket (by decide) _
  exact hcomma.append (reads_space rest)

theorem reads_leading (h : ∀ item ∈ items, item.ReadsAsTokens) (rest : List Char) :
    Reads (leading items).toList (leadingTokens items) rest := by
  induction items with
  | nil => exact Reads.nil rest
  | cons item items ih =>
    have hmore := ih (forall_mem_cons.1 h).2
    rw [leading, String.append_assoc, toList_append, toList_append]
    exact (reads_wrap (h item mem_cons_self) (ends_cons (by decide))).append
      ((reads_comma _).append hmore)

theorem ends_trailing (items : List Expr) (hrest : Ends rest) :
    Ends ((trailing items).toList ++ rest) := by
  cases items with
  | nil => exact hrest
  | cons item items =>
    rw [trailing, String.append_assoc, toList_append]
    exact ends_cons (by decide)

theorem reads_trailing (h : ∀ item ∈ items, item.ReadsAsTokens) (hrest : Ends rest) :
    Reads (trailing items).toList (trailingTokens items) rest := by
  induction items with
  | nil => exact Reads.nil rest
  | cons item items ih =>
    have hmore := ih (forall_mem_cons.1 h).2
    rw [trailing, String.append_assoc, toList_append, toList_append]
    exact (reads_comma _).append
      ((reads_wrap (h item mem_cons_self) (ends_trailing items hrest)).append hmore)

/-- A member of what stands before, with a bracket behind it. -/
theorem reads_member {member : String} (h : IsWord member.toList) (rest : List Char) :
    Reads ("." ++ member ++ "(").toList [.sign ".", .word member, .sign "("] rest := by
  have hopen : Reads "(".toList [.sign "("] rest := reads_bracket (by decide) rest
  have hword : Reads member.toList [.word member] ("(".toList ++ rest) := by
    simpa using reads_word h (by simp [Identifier.isIdentifierChar])
  have hpoint : Reads ".".toList [.sign "."] ((member.toList ++ "(".toList) ++ rest) := by
    rw [append_assoc]
    exact reads_point h
  rw [String.append_assoc, toList_append, toList_append]
  exact hpoint.append (hword.append hopen)

theorem reads_list (h : ∀ item ∈ items, item.ReadsAsTokens) (rest : List Char) :
    Reads (Expr.list items).print.toList (Expr.list items).tokens rest := by
  have hclose : Reads "]".toList [.sign "]"] rest := reads_bracket (by decide) rest
  rw [print, toList_append, toList_append, append_assoc]
  exact (reads_bracket (by decide) _).append ((reads_items h (ends_cons (by decide))).append hclose)

end Reads

namespace Brackets

variable {brackets : Brackets} (h : brackets.Sound)

include h in
/-- What stands before the items between brackets is read by itself. -/
theorem reads_opening (rest : List Char) :
    Reads brackets.opening.toList brackets.openingTokens rest := by
  cases brackets with
  | list | receiver =>
    have hopen : Reads "[".toList [.sign "["] rest := reads_bracket (by decide) rest
    exact hopen
  | call function =>
    rw [opening, toList_append]
    refine (reads_path h ?_).append (reads_bracket (by decide) rest)
    simp [Identifier.isIdentifierChar]
  | method others member =>
    have hchars : opening (.method others member) =
        (Expr.list others).print ++ ("." ++ member ++ "(") := by
      simp only [opening, String.append_assoc]
    rw [hchars, toList_append]
    exact (reads_list h.1 _).append (reads_member h.2 rest)

theorem ends_closing (brackets : Brackets) (rest : List Char) :
    Ends (brackets.closing.toList ++ rest) := by
  cases brackets <;> simp [closing, Ends]

include h

theorem reads_closing (rest : List Char) :
    Reads brackets.closing.toList brackets.closingTokens rest := by
  have hclose : Reads ")".toList [.sign ")"] rest := reads_bracket (by decide) rest
  cases brackets with
  | list =>
    have hclose : Reads "]".toList [.sign "]"] rest := reads_bracket (by decide) rest
    exact hclose
  | call | method => exact hclose
  | receiver member arguments =>
    have hchars : (closing (.receiver member arguments)).toList =
        "]".toList ++ (("." ++ member ++ "(").toList ++
          ((", ".intercalate (printAll arguments)).toList ++ ")".toList)) := by
      simp [closing]
    rw [hchars]
    exact (reads_bracket (by decide) _).append ((reads_member h.1 _).append
      ((reads_items h.2 (ends_cons (by decide))).append hclose))

/-- Brackets with items are read if all items are. -/
theorem readsAsTokens_fill {items : List Expr} (hitems : ∀ item ∈ items, item.ReadsAsTokens) :
    (brackets.fill items).ReadsAsTokens := by
  intro rest _
  rw [print_fill, tokens_fill, toList_append, toList_append, append_assoc, append_assoc]
  exact (reads_opening h _).append
    ((reads_items hitems (ends_closing brackets rest)).append (reads_closing h rest))

end Brackets

namespace Frame

variable {frame : Frame} {rest : List Char}

theorem symbol_mem_signs {operator : Operator} (h : operator ∈ Operator.all) :
    operator.symbol ∈ signs := by
  revert operator
  decide

/-- What stands before the gap is read by itself, if what follows turns no sign into a longer one. -/
theorem reads_before (h : frame.Sound) {c : Char} (hstarting : starting c = true)
    (hminus : frame = .negate → c ≠ '-') (hrest : rest.head? = some c) :
    Reads frame.before.toList frame.beforeTokens rest := by
  have hprolonging := notMem_prolonging hstarting
  cases frame with
  | negate =>
    refine reads_sign (by decide) fun d hd => ?_
    -- only a second minus would make the first one longer
    obtain rfl : c = d := by simpa [hrest] using hd
    exact hprolonging.2 (hminus rfl)
  | not =>
    refine reads_sign (by decide) fun d hd => ?_
    obtain rfl : c = d := by simpa [hrest] using hd
    exact hprolonging.1
  | cast type =>
    have hwords : ∀ word ∈ typeWords, IsWord word.toList := by decide
    have hword : ∀ rest, Ends rest → Reads type.toList [.word type] rest := fun rest hrest => by
      simpa using reads_word (hwords type h) (hrest.of_all (by decide))
    have hchars : (before (.cast type)).toList = ("(" ++ type ++ ")").toList ++ [' '] := by
      simp [before]
    rw [hchars]
    exact (reads_inParens hword _).append (reads_space rest)
  | left | test => exact Reads.nil rest
  | right operator other => exact reads_beforeSign h.2 _ (symbol_mem_signs h.1) rest
  | yes condition second => exact reads_beforeSign h.1 _ (by decide) rest
  | no condition first =>
    rw [before, toList_append]
    exact (reads_beforeSign h.1 _ (by decide) _).append (reads_beforeSign h.2 _ (by decide) rest)
  | item brackets items behind =>
    rw [before, toList_append]
    exact (Brackets.reads_opening h.1 _).append (reads_leading h.2.1 rest)

theorem ends_after (frame : Frame) (hrest : Ends rest) : Ends (frame.after.toList ++ rest) := by
  cases frame with
  | negate | not | cast | right | no => exact hrest
  | left | test | yes => simp [after, behindSign, Ends]
  | item brackets items behind =>
    rw [after, toList_append, append_assoc]
    exact ends_trailing behind (Brackets.ends_closing brackets rest)

/-- What stands behind the gap is read by itself. -/
theorem reads_after (h : frame.Sound) (hrest : Ends rest) :
    Reads frame.after.toList frame.afterTokens rest := by
  cases frame with
  | negate | not | cast | right | no => exact Reads.nil rest
  | left operator other => exact reads_behindSign h.2 _ (symbol_mem_signs h.1) hrest
  | test first second =>
    have hsecond : Ends ((behindSign ":" second .conditional).toList ++ rest) := by
      simp [behindSign, Ends]
    rw [after, toList_append]
    exact (reads_behindSign h.1 _ (by decide) hsecond).append
      (reads_behindSign h.2 _ (by decide) hrest)
  | yes condition second => exact reads_behindSign h.2 _ (by decide) hrest
  | item brackets items behind =>
    rw [after, toList_append]
    exact (reads_trailing h.2.2 (Brackets.ends_closing brackets rest)).append
      (Brackets.reads_closing h.1 rest)

section Enclose

variable {parens : Bool} {code : String}

/-- What stands before a text in a frame is read by itself, if a minus does not stand right before
another one. -/
theorem reads_before_parenthesized (h : frame.Sound) (hbegins : Begins code)
    (hminus : frame = .negate → parens = false → startsWithMinus code = false) (rest : List Char) :
    Reads frame.before.toList frame.beforeTokens ((parenthesized parens code).toList ++ rest) := by
  cases parens with
  | true =>
    refine reads_before h (show starting '(' = true by decide) (fun _ => by decide) ?_
    simp [parenthesized]
  | false =>
    obtain ⟨c, hc, hstarting⟩ := hbegins
    refine reads_before h hstarting (fun hnegate heq => ?_) ?_
    · simpa [startsWithMinus, hc, heq] using hminus hnegate rfl
    · simp [parenthesized, head?_append, hc]

/-- A frame around a text falls into tokens if the text does. -/
theorem reads_enclose (h : frame.Sound) {ts : List Token} (hbegins : Begins code)
    (hminus : frame = .negate → parens = false → startsWithMinus code = false)
    (hcode : ∀ rest, Ends rest → Reads code.toList ts rest) (hrest : Ends rest) :
    Reads (frame.enclose parens code).toList (frame.encloseTokens parens ts) rest := by
  have hinside : Reads (parenthesized parens code).toList (parenthesizedTokens parens ts)
      (frame.after.toList ++ rest) := by
    cases parens with
    | true => exact reads_inParens hcode _
    | false => exact hcode _ (ends_after frame hrest)
  rw [enclose, encloseTokens, toList_append, toList_append, append_assoc, append_assoc]
  refine Reads.append ?_ (hinside.append (reads_after h hrest))
  rw [append_assoc]
  exact reads_before_parenthesized h hbegins hminus _

end Enclose

/-- A frame with an expression is read if the expression is. -/
theorem readsAsTokens_fill (h : frame.Sound) {part : Expr} (hpart : Readable part)
    (hreads : part.ReadsAsTokens) : (frame.fill part).ReadsAsTokens := by
  intro rest hrest
  rw [print_fill, tokens_fill]
  refine reads_enclose h (begins_print hpart) (fun hnegate hparens => ?_) hreads hrest
  subst hnegate
  exact (Bool.or_eq_false_iff.1 hparens).2

end Frame

/-- The text of an expression falls into its tokens. -/
theorem readsAsTokens {e : Expr} (h : Readable e) : e.ReadsAsTokens := by
  induction h with
  | @number literal h =>
    intro rest hrest
    have hmagnitude := reads_magnitude h hrest
    cases hminus : startsWithMinus literal with
    | true =>
      obtain ⟨c, hhead, hc⟩ := head?_of_isMagnitude h
      have hsign : Reads "-".toList [.sign "-"] ((magnitude literal).toList ++ rest) := by
        refine @Frame.reads_before .negate _ trivial c (by simp [starting, hc]) ?_
          (by simp [head?_append, hhead])
        rintro - rfl
        exact absurd hc (by decide)
      have hread := hsign.append hmagnitude
      rw [print, Expr.tokens, if_pos hminus]
      rwa [← toList_append, ← magnitude_of_minus hminus] at hread
    | false =>
      rw [print, Expr.tokens, if_neg (by simp [hminus])]
      rwa [magnitude_of_plain hminus] at hmagnitude ⊢
  | text h content => exact fun rest _ => reads_quote h content rest
  | name h htype =>
    intro rest hrest
    simpa [print, Expr.tokens] using reads_word h (hrest.of_all (by decide))
  | path h => exact fun rest hrest => reads_path h (hrest.of_all (by decide))
  | list _ ih => exact @Brackets.readsAsTokens_fill .list trivial _ ih
  | @call function _ hfunction _ ih =>
    exact @Brackets.readsAsTokens_fill (.call function) hfunction _ ih
  | @method items _ member _ hmember _ ihitems ih =>
    exact @Brackets.readsAsTokens_fill (.method items member) ⟨ihitems, hmember⟩ _ ih
  | negate h ih => exact @Frame.readsAsTokens_fill .negate trivial _ h ih
  | not h ih => exact @Frame.readsAsTokens_fill .not trivial _ h ih
  | @cast type _ htype h ih => exact @Frame.readsAsTokens_fill (.cast type) htype _ h ih
  | @binary operator _ right hoperator hleft _ ihleft ihright =>
    exact @Frame.readsAsTokens_fill (.left operator right) ⟨hoperator, ihright⟩ _ hleft ihleft
  | @conditional _ yes no htest _ _ ihtest ihyes ihno =>
    exact @Frame.readsAsTokens_fill (.test yes no) ⟨ihyes, ihno⟩ _ htest ihtest

theorem readsAsTokens_items {items : List Expr} (h : ∀ item ∈ items, Readable item) :
    ∀ item ∈ items, item.ReadsAsTokens :=
  fun item hitem => readsAsTokens (h item hitem)

theorem Brackets.sound_and_readable {brackets : Brackets} {items : List Expr}
    (h : Readable (brackets.fill items)) : brackets.Sound ∧ ∀ item ∈ items, Readable item := by
  cases brackets with
  | list => cases h with | list h => exact ⟨trivial, h⟩
  | call => cases h with | call hfunction h => exact ⟨hfunction, h⟩
  | receiver =>
    cases h with | method h hmember harguments =>
    exact ⟨⟨hmember, readsAsTokens_items harguments⟩, h⟩
  | method =>
    cases h with | method hitems hmember h =>
    exact ⟨⟨readsAsTokens_items hitems, hmember⟩, h⟩

namespace Frame

variable {frame : Frame} {part : Expr}

theorem sound_and_readable (h : Readable (frame.fill part)) : frame.Sound ∧ Readable part := by
  cases frame with
  | negate | not =>
    cases h
    exact ⟨trivial, ‹_›⟩
  | cast =>
    cases h
    exact ⟨‹_›, ‹_›⟩
  | left | right =>
    cases h
    exact ⟨⟨‹_›, readsAsTokens ‹_›⟩, ‹_›⟩
  | test | yes | no =>
    cases h
    exact ⟨⟨readsAsTokens ‹_›, readsAsTokens ‹_›⟩, ‹_›⟩
  | item brackets items rest =>
    obtain ⟨hbrackets, hitems⟩ := Brackets.sound_and_readable h
    exact ⟨⟨hbrackets, readsAsTokens_items fun item hitem => hitems item (by simp [hitem]),
      readsAsTokens_items fun item hitem => hitems item (by simp [hitem])⟩, hitems part (by simp)⟩

theorem sound (h : Readable (frame.fill part)) : frame.Sound := (sound_and_readable h).1

theorem readable_part (h : Readable (frame.fill part)) : Readable part := (sound_and_readable h).2

/-! ## Frames in frames -/

/-- An expression in frames, the outermost first. -/
def fillAll : List Frame → Expr → Expr
  | [], part => part
  | frame :: frames, part => frame.fill (fillAll frames part)

/-- Frames around a text, with the parentheses that they put around an expression. -/
def around : List Frame → Expr → String → String
  | [], _, code => code
  | frame :: frames, part, code =>
    frame.enclose (frame.parenthesizes (fillAll frames part)) (around frames part code)

def aroundTokens : List Frame → Expr → List Token → List Token
  | [], _, ts => ts
  | frame :: frames, part, ts =>
    frame.encloseTokens (frame.parenthesizes (fillAll frames part)) (aroundTokens frames part ts)

theorem print_fillAll (frames : List Frame) (part : Expr) :
    (fillAll frames part).print = around frames part part.print := by
  induction frames with
  | nil => rfl
  | cons frame frames ih => rw [fillAll, print_fill, ih, around]

end Frame

end RobotBlocks
