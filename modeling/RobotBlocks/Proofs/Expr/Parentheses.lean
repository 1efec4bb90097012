import RobotBlocks.Proofs.Expr.RoundTrip

/-!
# The parentheses that a tree needs

`Tree.bare` writes a tree of the grammar with no more parentheses than the levels of its operands ask
for. Whatever tokens are read as the tree, they hold at least those parentheses, each at its place: the
place of an opening parenthesis is the number of tokens before it that are no parentheses (`opensAt`).
That is what `Covers` says, with one rule for each rule of the grammar, and each layer of the parser
keeps to it (`covers_of_parse`).

No balance of parentheses is needed for this, since only the opening ones are counted.
-/

set_option autoImplicit false

namespace RobotBlocks

open Grammar List RobotBlocks.Expr

/-! ## Counting parentheses -/

def Grammar.Token.isParen (token : Token) : Bool := token = .sign "(" || token = .sign ")"

def plain : List Token → Nat
  | [] => 0
  | token :: rest => if token.isParen then plain rest else plain rest + 1

/-- How many opening parentheses have a given number of other tokens before them. -/
def opensAt : List Token → Nat → Nat
  | [], _ => 0
  | token :: rest, place =>
    if token.isParen then (if token = .sign "(" ∧ place = 0 then 1 else 0) + opensAt rest place
    else if place = 0 then 0
    else opensAt rest (place - 1)

theorem plain_append (ts us : List Token) : plain (ts ++ us) = plain ts + plain us := by
  induction ts with
  | nil => simp [plain]
  | cons token ts ih =>
    simp only [cons_append, plain, ih]
    split <;> omega

theorem plain_cons {token : Token} (h : token.isParen = false) (ts : List Token) :
    plain (token :: ts) = plain ts + 1 := by
  simp [plain, h]

theorem opensAt_cons {token : Token} (h : token.isParen = false) (ts : List Token) (place : Nat) :
    opensAt (token :: ts) place = if place = 0 then 0 else opensAt ts (place - 1) := by
  simp [opensAt, h]

theorem opensAt_append (ts us : List Token) (place : Nat) :
    opensAt (ts ++ us) place =
      opensAt ts place + if plain ts ≤ place then opensAt us (place - plain ts) else 0 := by
  induction ts generalizing place with
  | nil => simp [opensAt, plain]
  | cons token ts ih =>
    cases hparen : token.isParen with
    | true => simp only [cons_append, opensAt, plain, hparen, if_true, ih, Nat.add_assoc]
    | false =>
      rw [cons_append, opensAt_cons hparen, opensAt_cons hparen, plain_cons hparen]
      cases place with
      | zero => simp
      | succ place => simp [ih]

/-- Behind the last token there is nothing to count. -/
theorem opensAt_eq_zero {ts : List Token} {place : Nat} (h : plain ts < place) :
    opensAt ts place = 0 := by
  induction ts generalizing place with
  | nil => rfl
  | cons token ts ih =>
    cases hparen : token.isParen with
    | true =>
      simp only [plain, hparen, if_true] at h
      have hplace : place ≠ 0 := by omega
      simp [opensAt, hparen, hplace, ih h]
    | false =>
      rw [plain_cons hparen] at h
      rw [opensAt_cons hparen, ih (by omega)]
      simp

theorem plain_inParens (ts : List Token) : plain (inParens ts) = plain ts := by
  rw [inParens, plain, if_pos (by decide), plain_append]
  rfl

theorem opensAt_inParens (ts : List Token) (place : Nat) :
    opensAt (inParens ts) place = (if place = 0 then 1 else 0) + opensAt ts place := by
  have hclose : ∀ place, opensAt [.sign ")"] place = 0 := by
    intro place
    simp [opensAt, Token.isParen]
  rw [inParens, opensAt, if_pos (by decide), opensAt_append, hclose]
  simp

theorem plain_wrapTokens (ts : List Token) (inner outer : Precedence) :
    plain (wrapTokens ts inner outer) = plain ts := by
  unfold wrapTokens
  split
  · exact plain_inParens ts
  · rfl

theorem opensAt_wrapTokens (ts : List Token) (inner outer : Precedence) (place : Nat) :
    opensAt (wrapTokens ts inner outer) place =
      (if Precedence.needsParens inner outer ∧ place = 0 then 1 else 0) + opensAt ts place := by
  unfold wrapTokens
  split
  · next h => simp [opensAt_inParens, h]
  · next h => simp [h]

/-- As many tokens besides parentheses, and nowhere more opening parentheses. -/
structure Sparser (ts us : List Token) : Prop where
  plain_eq : plain ts = plain us
  opensAt_le : ∀ place, opensAt ts place ≤ opensAt us place

namespace Sparser

variable {ts ts' us us' vs : List Token}

theorem refl (ts : List Token) : Sparser ts ts := ⟨rfl, fun _ => Nat.le_refl _⟩

theorem trans (h : Sparser ts us) (h' : Sparser us vs) : Sparser ts vs :=
  ⟨h.plain_eq.trans h'.plain_eq, fun place => Nat.le_trans (h.opensAt_le place) (h'.opensAt_le place)⟩

theorem append (h : Sparser ts us) (h' : Sparser ts' us') : Sparser (ts ++ ts') (us ++ us') := by
  refine ⟨by rw [plain_append, plain_append, h.plain_eq, h'.plain_eq], fun place => ?_⟩
  rw [opensAt_append, opensAt_append, h.plain_eq]
  have hfirst := h.opensAt_le place
  have hsecond := h'.opensAt_le (place - plain us)
  split <;> omega

theorem cons (token : Token) (h : Sparser ts us) : Sparser (token :: ts) (token :: us) :=
  (refl [token]).append h

theorem inParens (h : Sparser ts us) : Sparser (inParens ts) (inParens us) :=
  (h.append (refl _)).cons _

/-- More parentheses are no harm. -/
theorem enclose (h : Sparser ts us) : Sparser ts (Expr.inParens us) := by
  refine ⟨h.plain_eq.trans (plain_inParens us).symm, fun place => ?_⟩
  have := h.opensAt_le place
  rw [opensAt_inParens]
  omega

end Sparser

/-! ## What a tree needs -/

/-- The operator with a sign. -/
def Operator.ofSymbol (symbol : String) : Operator :=
  (Operator.all.find? fun operator => operator.symbol = symbol).getD .plus

theorem Operator.ofSymbol_symbol {operator : Operator} (h : operator ∈ Operator.all) :
    Operator.ofSymbol operator.symbol = operator := by
  revert operator
  decide

theorem Operator.level_ofSymbol_le (symbol : String) :
    (Operator.ofSymbol symbol).level.rank ≤ Precedence.disjunction.rank := by
  have hall : ∀ operator ∈ Operator.all, operator.level.rank ≤ Precedence.disjunction.rank := by
    decide
  unfold Operator.ofSymbol
  cases hfound : Operator.all.find? fun operator => operator.symbol = symbol with
  | none => decide
  | some operator => exact hall operator (mem_of_find?_eq_some hfound)

namespace Grammar.Tree

/-- How tightly a tree holds together. No place is tighter than that of a member. -/
def level : Tree → Precedence
  | negate .. | not .. | cast .. => .unary
  | binary symbol .. => (Operator.ofSymbol symbol).level
  | conditional .. => .conditional
  | _ => .member

mutual

/-- The tokens of a tree, with parentheses only around operands that are looser than their place
allows. -/
def bare : Tree → List Token
  | number literal => [.number literal]
  | text content => [.text content]
  | name word => [.word word]
  | list items => .sign "[" :: (bareItems items ++ [.sign "]"])
  | member receiver word =>
    wrapTokens receiver.bare receiver.level .member ++ [.sign ".", .word word]
  | call function arguments =>
    wrapTokens function.bare function.level .member ++ inParens (bareItems arguments)
  | negate operand => .sign "-" :: wrapTokens operand.bare operand.level .unary
  | not operand => .sign "!" :: wrapTokens operand.bare operand.level .unary
  | cast type operand =>
    .sign "(" :: .word type :: .sign ")" :: wrapTokens operand.bare operand.level .unary
  | binary symbol left right =>
    wrapTokens left.bare left.level (Operator.ofSymbol symbol).leftContext ++
      .sign symbol :: wrapTokens right.bare right.level (Operator.ofSymbol symbol).rightContext
  | conditional test yes no =>
    wrapTokens test.bare test.level .disjunction ++
      .sign "?" :: (yes.bare ++ .sign ":" :: no.bare)

def bareItems : List Tree → List Token
  | [] => []
  | [tree] => tree.bare
  | tree :: next :: rest => tree.bare ++ .sign "," :: bareItems (next :: rest)

end

def bareAt (tree : Tree) (place : Precedence) : List Token :=
  wrapTokens tree.bare tree.level place

theorem level_le (tree : Tree) : tree.level.rank ≤ Precedence.conditional.rank := by
  cases tree with
  | binary symbol left right =>
    exact Nat.le_trans (Operator.level_ofSymbol_le symbol) (by decide)
  | _ => simp [level, Precedence.rank]

theorem bareAt_of_rank_le {tree : Tree} {place : Precedence} (h : tree.level.rank ≤ place.rank) :
    tree.bareAt place = tree.bare := by
  simp [bareAt, wrapTokens, Precedence.needsParens, Nat.not_lt.2 h]

/-- A looser place needs no more parentheses. -/
theorem sparser_bareAt (tree : Tree) {place looser : Precedence} (h : place.rank ≤ looser.rank) :
    Sparser (tree.bareAt looser) (tree.bareAt place) := by
  unfold bareAt wrapTokens Precedence.needsParens
  split_ifs with hlooser hplace
  · exact .refl _
  · simp only [decide_eq_true_eq] at hlooser hplace
    omega
  · exact (Sparser.refl _).enclose
  · exact .refl _

end Grammar.Tree

/-- Tokens that hold every parenthesis that a tree needs at a place. -/
structure Covers (place : Precedence) (ts : List Token) (tree : Tree) : Prop where
  sparser : Sparser (tree.bareAt place) ts
  noDouble : .sign "--" ∉ ts

namespace Covers

variable {ts us : List Token} {tree left right : Tree} {place : Precedence}

theorem of_bare (h : Sparser tree.bare ts) (hdouble : .sign "--" ∉ ts)
    (hlevel : tree.level.rank ≤ place.rank) : Covers place ts tree :=
  ⟨(Tree.bareAt_of_rank_le hlevel).symm ▸ h, hdouble⟩

theorem bare (h : Covers place ts tree) (hplace : Precedence.conditional.rank ≤ place.rank) :
    Sparser tree.bare ts :=
  Tree.bareAt_of_rank_le (Nat.le_trans tree.level_le hplace) ▸ h.sparser

theorem mono (h : Covers place ts tree) {looser : Precedence} (hrank : place.rank ≤ looser.rank) :
    Covers looser ts tree :=
  ⟨(tree.sparser_bareAt hrank).trans h.sparser, h.noDouble⟩

theorem inParens (h : Covers .conditional ts tree) (place : Precedence) :
    Covers place (inParens ts) tree := by
  refine ⟨?_, by simp [Expr.inParens, h.noDouble]⟩
  have hbare := h.bare le_rfl
  unfold Tree.bareAt wrapTokens
  split
  · exact hbare.inParens
  · exact hbare.enclose

theorem negate (h : Covers .unary ts tree) : Covers .unary (.sign "-" :: ts) (.negate tree) :=
  of_bare (h.sparser.cons _) (by simp [h.noDouble]) le_rfl

theorem not (h : Covers .unary ts tree) : Covers .unary (.sign "!" :: ts) (.not tree) :=
  of_bare (h.sparser.cons _) (by simp [h.noDouble]) le_rfl

theorem cast (h : Covers .unary ts tree) (type : String) :
    Covers .unary (.sign "(" :: .word type :: .sign ")" :: ts) (.cast type tree) :=
  of_bare (((h.sparser.cons _).cons _).cons _) (by simp [h.noDouble]) le_rfl

theorem binary {symbol : String} (hleft : Covers (Operator.ofSymbol symbol).leftContext ts left)
    (hright : Covers (Operator.ofSymbol symbol).rightContext us right) (hsymbol : symbol ≠ "--") :
    Covers (Operator.ofSymbol symbol).level (ts ++ .sign symbol :: us) (.binary symbol left right) := by
  refine of_bare (hleft.sparser.append (hright.sparser.cons _)) ?_ le_rfl
  simp [hleft.noDouble, hright.noDouble, Ne.symm hsymbol]

theorem conditional {vs : List Token} {test : Tree} (htest : Covers .disjunction ts test)
    (hyes : Covers .conditional us left) (hno : Covers .conditional vs right) :
    Covers .conditional (ts ++ .sign "?" :: (us ++ .sign ":" :: vs))
      (.conditional test left right) := by
  have hbare := (hyes.bare le_rfl).append ((hno.bare le_rfl).cons (.sign ":"))
  refine of_bare (htest.sparser.append (hbare.cons _)) ?_ le_rfl
  simp [htest.noDouble, hyes.noDouble, hno.noDouble]

theorem member (h : Covers .member ts tree) (name : String) :
    Covers .member (ts ++ [.sign ".", .word name]) (.member tree name) :=
  of_bare (h.sparser.append (.refl _)) (by simp [h.noDouble]) le_rfl

end Covers

/-- Tokens that hold every parenthesis that items or arguments need. -/
structure CoversItems (ts : List Token) (trees : List Tree) : Prop where
  sparser : Sparser (Tree.bareItems trees) ts
  noDouble : .sign "--" ∉ ts

namespace CoversItems

variable {ts us : List Token} {tree : Tree} {trees : List Tree}

theorem nil : CoversItems [] [] := ⟨.refl _, by simp⟩

theorem single (h : Covers .conditional ts tree) : CoversItems ts [tree] :=
  ⟨h.bare le_rfl, h.noDouble⟩

theorem cons (h : Covers .conditional ts tree) (hmore : CoversItems us trees) (hne : trees ≠ []) :
    CoversItems (ts ++ .sign "," :: us) (tree :: trees) := by
  obtain ⟨next, rest, rfl⟩ := exists_cons_of_ne_nil hne
  exact ⟨(h.bare le_rfl).append (hmore.sparser.cons _),
    by simp [h.noDouble, hmore.noDouble]⟩

theorem list (h : CoversItems ts trees) :
    Covers .member (.sign "[" :: (ts ++ [.sign "]"])) (.list trees) :=
  .of_bare ((h.sparser.append (.refl _)).cons _) (by simp [h.noDouble]) le_rfl

theorem call (h : CoversItems us trees) (hfunction : Covers .member ts tree) :
    Covers .member (ts ++ inParens us) (.call tree trees) :=
  .of_bare (hfunction.sparser.append h.sparser.inParens)
    (by simp [inParens, h.noDouble, hfunction.noDouble]) le_rfl

end CoversItems

/-! ## The parser -/

/-- What a parser reads as a tree holds every parenthesis that the tree needs at a place. -/
def Grammar.Parser.Keeps (place : Precedence) (parser : Parser) : Prop :=
  ∀ ts tree rest, parser ts = some (tree, rest) →
    ∃ used, ts = used ++ rest ∧ Covers place used tree

theorem Grammar.Parser.Keeps.mono {parser : Parser} {place looser : Precedence}
    (h : parser.Keeps place) (hrank : place.rank ≤ looser.rank) : parser.Keeps looser := by
  intro ts tree rest hread
  obtain ⟨used, hused, hcovers⟩ := h ts tree rest hread
  exact ⟨used, hused, hcovers.mono hrank⟩

variable {level : Precedence}

/-- The signs of a chain are those of operators of its level that group from the left. -/
theorem ofSymbol_chainSymbols {symbol : String} (h : symbol ∈ chainSymbols level) :
    (Operator.ofSymbol symbol).level = level ∧ (Operator.ofSymbol symbol).leftContext = level ∧
      (Operator.ofSymbol symbol).rightContext = level.tighter ∧ symbol ≠ "--" := by
  revert symbol
  cases level <;> decide

theorem covers_of_chain {operand : Parser} {left tree : Tree} {before ts rest : List Token}
    (hoperand : operand.Keeps level.tighter) (hleft : Covers level before left)
    (h : chain (chainSymbols level) operand left ts = some (tree, rest)) :
    ∃ used, ts = used ++ rest ∧ Covers level (before ++ used) tree := by
  -- the operands read so far are the left one of the next operator, and their tokens go before
  fun_induction chain (chainSymbols level) operand left ts generalizing before with
  | case1 left symbol tail hsymbol right tail' hright hlength ih =>
    obtain ⟨hlevel, hcontext, hcontext', hdouble⟩ := ofSymbol_chainSymbols hsymbol
    obtain ⟨used, rfl, hcovers⟩ := hoperand _ _ _ hright
    have hbinary := Covers.binary (hcontext ▸ hleft) (hcontext' ▸ hcovers) hdouble
    rw [hlevel] at hbinary
    obtain ⟨used', rfl, hcovers'⟩ := ih hbinary h
    exact ⟨.sign symbol :: (used ++ used'), by simp, by simpa using hcovers'⟩
  | case2 | case3 => cases h
  | case4 | case5 =>
    cases h
    exact ⟨[], rfl, by simpa using hleft⟩

theorem keeps_chained {operand : Parser} (hoperand : operand.Keeps level.tighter) :
    Parser.Keeps level (chained (chainSymbols level) operand) := by
  intro ts tree rest h
  obtain ⟨⟨left, tail⟩, hleft, hchain⟩ := Option.bind_eq_some_iff.1 h
  obtain ⟨used, rfl, hcovers⟩ := hoperand _ _ _ hleft
  have hrank : level.tighter.rank ≤ level.rank := by
    rw [Precedence.rank_tighter]
    omega
  obtain ⟨used', rfl, hcovers'⟩ := covers_of_chain hoperand (hcovers.mono hrank) hchain
  exact ⟨used ++ used', by simp, hcovers'⟩

theorem keeps_relational {inner : Parser} (hoperand : Parser.Keeps .additive (additive inner)) :
    Parser.Keeps .relational (relational inner) := by
  have hsymbols : ∀ symbol ∈ ["<", "<=", ">", ">="],
      (Operator.ofSymbol symbol).level = .relational ∧
        (Operator.ofSymbol symbol).leftContext = .additive ∧
          (Operator.ofSymbol symbol).rightContext = .additive ∧ symbol ≠ "--" := by
    decide
  have hlooser : Parser.Keeps .relational (additive inner) := hoperand.mono (by decide)
  intro ts tree rest h
  unfold relational unchained at h
  split at h
  · next left symbol tail hleft =>
    split at h
    · next hsymbol =>
      obtain ⟨⟨right, tail'⟩, hright, heq⟩ := Option.map_eq_some_iff.1 h
      cases heq
      obtain ⟨used, rfl, hcovers⟩ := hoperand _ _ _ hleft
      obtain ⟨used', rfl, hcovers'⟩ := hoperand _ _ _ hright
      obtain ⟨hlevel, hcontext, hcontext', hdouble⟩ := hsymbols symbol hsymbol
      have hbinary := Covers.binary (hcontext ▸ hcovers) (hcontext' ▸ hcovers') hdouble
      exact ⟨used ++ .sign symbol :: used', by simp, hlevel ▸ hbinary⟩
    · cases h
      exact hlooser _ _ _ hleft
  · exact hlooser _ _ _ h

section Layers

variable {inner : Parser} (hinner : Parser.Keeps .conditional inner)

include hinner

theorem covers_of_items {close : String} {ts rest : List Token} {found : List Tree}
    (h : items inner close ts = some (found, rest)) :
    ∃ used, ts = used ++ .sign close :: rest ∧ CoversItems used found ∧ found ≠ [] := by
  fun_induction items inner close ts generalizing found rest with
  | case1 ts item tail hitem =>
    cases h
    obtain ⟨used, rfl, hcovers⟩ := hinner _ _ _ hitem
    exact ⟨used, rfl, .single hcovers, by simp⟩
  | case2 ts item symbol tail hitem hclose hcomma ih =>
    obtain ⟨⟨more, tail'⟩, hmore, heq⟩ := Option.map_eq_some_iff.1 h
    cases heq
    obtain ⟨used, rfl, hcovers⟩ := hinner _ _ _ hitem
    obtain ⟨used', rfl, hitems, hne⟩ := ih hmore
    refine ⟨used ++ .sign "," :: used', ?_, .cons hcovers hitems hne, by simp⟩
    rw [hcomma.1, append_assoc, cons_append]
  | case3 | case4 => cases h

theorem covers_of_arguments {close : String} {ts rest : List Token} {found : List Tree}
    (h : arguments inner close ts = some (found, rest)) :
    ∃ used, ts = used ++ .sign close :: rest ∧ CoversItems used found := by
  unfold arguments at h
  split at h
  · next hhead =>
    cases h
    refine ⟨[], ?_, .nil⟩
    cases ts with
    | nil => cases hhead
    | cons token ts =>
      cases hhead
      rfl
  · obtain ⟨used, hused, hcovers, -⟩ := covers_of_items hinner h
    exact ⟨used, hused, hcovers⟩

theorem keeps_primary : Parser.Keeps .member (primary inner) := by
  intro ts tree rest h
  unfold primary at h
  split at h
  · next literal tail =>
    cases h
    exact ⟨[.number literal], rfl, .of_bare (.refl _) (by simp) le_rfl⟩
  · next content tail =>
    cases h
    exact ⟨[.text content], rfl, .of_bare (.refl _) (by simp) le_rfl⟩
  · next word tail =>
    cases h
    exact ⟨[.word word], rfl, .of_bare (.refl _) (by simp) le_rfl⟩
  · next symbol tail =>
    split at h
    · next hopen =>
      subst hopen
      split at h
      · next tree' close tail' hinside =>
        split at h
        · next hclose =>
          cases h
          -- in parentheses a tree of any level may stand, whether or not it needs them
          obtain ⟨used, rfl, hcovers⟩ := hinner _ _ _ hinside
          exact ⟨inParens used, by simp [inParens, hclose], hcovers.inParens _⟩
        · cases h
      · cases h
    · split at h
      · next hopen =>
        subst hopen
        obtain ⟨⟨found, tail'⟩, hfound, heq⟩ := Option.map_eq_some_iff.1 h
        cases heq
        obtain ⟨used, rfl, hcovers⟩ := covers_of_arguments hinner hfound
        exact ⟨_, by simp, hcovers.list⟩
      · cases h
  · cases h

theorem covers_of_suffixes {left tree : Tree} {before ts rest : List Token}
    (hleft : Covers .member before left) (h : suffixes inner left ts = some (tree, rest)) :
    ∃ used, ts = used ++ rest ∧ Covers .member (before ++ used) tree := by
  fun_induction suffixes inner left ts generalizing before with
  | case1 left word tail ih =>
    obtain ⟨used, rfl, hcovers⟩ := ih (hleft.member word) h
    exact ⟨.sign "." :: .word word :: used, rfl, by simpa using hcovers⟩
  | case2 => cases h
  | case3 left tail found tail' hfound hlength hpoint ih =>
    obtain ⟨inside, rfl, harguments⟩ := covers_of_arguments hinner hfound
    obtain ⟨used, rfl, hcovers⟩ := ih (harguments.call hleft) h
    exact ⟨inParens inside ++ used, by simp [inParens], by simpa using hcovers⟩
  | case4 | case5 => cases h
  | case6 | case7 =>
    cases h
    exact ⟨[], rfl, by simpa using hleft⟩

theorem keeps_member : Parser.Keeps .member (member inner) := by
  intro ts tree rest h
  obtain ⟨⟨left, tail⟩, hprimary, hsuffixes⟩ := Option.bind_eq_some_iff.1 h
  obtain ⟨used, rfl, hcovers⟩ := keeps_primary hinner _ _ _ hprimary
  obtain ⟨used', rfl, hcovers'⟩ := covers_of_suffixes hinner hcovers hsuffixes
  exact ⟨used ++ used', by simp, hcovers'⟩

theorem keeps_unary : Parser.Keeps .unary (unary inner) := by
  have hmember : Parser.Keeps .unary (member inner) := (keeps_member hinner).mono (by decide)
  intro ts tree rest h
  fun_induction unary inner ts generalizing tree rest with
  | case1 tail ih =>
    obtain ⟨⟨operand, tail'⟩, hoperand, heq⟩ := Option.map_eq_some_iff.1 h
    obtain ⟨rfl, rfl⟩ : operand.negate = tree ∧ tail' = rest := by simpa using heq
    obtain ⟨used, rfl, hcovers⟩ := ih operand tail' hoperand
    exact ⟨_, rfl, hcovers.negate⟩
  | case2 tail hminus ih =>
    obtain ⟨⟨operand, tail'⟩, hoperand, heq⟩ := Option.map_eq_some_iff.1 h
    obtain ⟨rfl, rfl⟩ : operand.not = tree ∧ tail' = rest := by simpa using heq
    obtain ⟨used, rfl, hcovers⟩ := ih operand tail' hoperand
    exact ⟨_, rfl, hcovers.not⟩
  | case3 symbol hminus hnot type close tail hcast ih =>
    obtain ⟨⟨operand, tail'⟩, hoperand, heq⟩ := Option.map_eq_some_iff.1 h
    obtain ⟨rfl, rfl⟩ : .cast type operand = tree ∧ tail' = rest := by simpa using heq
    obtain ⟨used, rfl, hcovers⟩ := ih operand tail' hoperand
    obtain ⟨rfl, -, rfl⟩ := hcast
    exact ⟨_, rfl, hcovers.cast type⟩
  | case4 | case5 | case6 => exact hmember _ _ _ h

theorem keeps_choice {test : Parser} (htest : test.Keeps .disjunction) :
    Parser.Keeps .conditional (choice inner test) := by
  have hlooser : test.Keeps .conditional := htest.mono (by decide)
  intro ts tree rest h
  unfold choice at h
  split at h
  · next condition symbol tail hcondition =>
    split at h
    · next hmark =>
      subst hmark
      split at h
      · next yes colon tail' hyes =>
        split at h
        · next hcolon =>
          subst hcolon
          obtain ⟨⟨no, tail''⟩, hno, heq⟩ := Option.map_eq_some_iff.1 h
          obtain ⟨rfl, rfl⟩ : .conditional condition yes no = tree ∧ tail'' = rest := by
            simpa using heq
          obtain ⟨used, rfl, hcovers⟩ := htest _ _ _ hcondition
          obtain ⟨used', rfl, hcovers'⟩ := hinner _ _ _ hyes
          obtain ⟨used'', rfl, hcovers''⟩ := hinner _ _ _ hno
          exact ⟨_, by simp, hcovers.conditional hcovers' hcovers''⟩
        · cases h
      · cases h
    · cases h
      exact hlooser _ _ _ hcondition
  · exact hlooser _ _ _ h

/-- The loosest layer, from the tightest one up. -/
theorem keeps_layer : Parser.Keeps .conditional (layer inner .conditional) := by
  have hmultiplicative : Parser.Keeps .multiplicative (multiplicative inner) :=
    keeps_chained (keeps_unary hinner)
  have hadditive : Parser.Keeps .additive (additive inner) := keeps_chained hmultiplicative
  have hequality : Parser.Keeps .equality (equality inner) :=
    keeps_chained (keeps_relational hadditive)
  have hconjunction : Parser.Keeps .conjunction (conjunction inner) := keeps_chained hequality
  exact keeps_choice hinner (keeps_chained hconjunction)

end Layers

theorem keeps_expression (depth : Nat) : Parser.Keeps .conditional (expression depth) := by
  induction depth with
  | zero =>
    intro ts tree rest h
    cases h
  | succ depth ih => exact keeps_layer ih

/-- Tokens that are read as a tree hold every parenthesis that the tree needs. -/
theorem covers_of_parse {ts : List Token} {tree : Tree} (h : parse ts = some tree) :
    Covers .conditional ts tree := by
  unfold parse at h
  split at h
  · next found hfound =>
    cases h
    obtain ⟨used, rfl, hcovers⟩ := keeps_expression _ _ _ _ hfound
    simpa using hcovers
  · cases h

end RobotBlocks
