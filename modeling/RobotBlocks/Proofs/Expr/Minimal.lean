import RobotBlocks.Proofs.Expr.Parentheses

/-!
# No parentheses too many

Take any pair of parentheses that the text of a readable expression has around an operand, and leave it
out: the text that remains is not read as the tree of the expression (`Frame.read_around_ne`).

If the operand is looser than its place allows, the tokens that remain have fewer opening parentheses at
the place of the pair than the tree needs there (`Lacks`). This is shown for the frame of the operand and
kept by every frame around it: the only parentheses that the tree does not need are those between two
minus signs, and they stand at a place of their own, before a minus. If the operand begins with a minus
behind a minus, the two become one sign (`Clashes`), which no expression has.
-/

set_option autoImplicit false

namespace RobotBlocks

open Grammar List Operator RobotBlocks.Expr
open Grammar.Tree (bare bareAt bareItems)
open Precedence (needsParens tighter rank)

variable {frame : Frame} {part : Expr}

/-! ## Texts in the place of others -/

/-- A text that begins like an expression, and with a minus only if the text of a given expression does
so or does not stand behind a minus without parentheses. -/
structure Stands (expr : Expr) (code : String) : Prop where
  begins : Begins code
  minus : startsWithMinus code = true →
    startsWithMinus expr.print = true ∨ needsParens expr.level .unary = true

variable {code : String} {ts : List Token}
variable {operator : Operator}

namespace Frame

theorem needsParens_operator (h : operator ∈ Operator.all) :
    needsParens operator.level .unary = true := by
  revert operator
  decide

/-- A frame without a text before the gap is that of an operator between operands. -/
theorem before_cases (h : Readable (frame.fill part)) :
    (frame.before = "" ∧ needsParens (frame.fill part).level .unary = true) ∨
      Begins frame.before := by
  cases frame with
  | negate => exact .inr (begins_of_head? (c := '-') rfl (by decide))
  | not => exact .inr (begins_of_head? (c := '!') rfl (by decide))
  | cast type => exact .inr (begins_of_head? (c := '(') (by simp [before]) (by decide))
  | left operator other =>
    cases h with
    | binary hoperator _ _ => exact .inl ⟨rfl, needsParens_operator hoperator⟩
  | test first second => exact .inl ⟨rfl, rfl⟩
  | right operator other =>
    cases h with
    | binary _ hleft _ =>
      refine .inr ?_
      simp only [before, beforeSign, String.append_assoc]
      exact begins_append (begins_wrap (begins_print hleft) _ _) _
  | yes condition second | no condition first =>
    cases h with
    | conditional htest _ _ =>
      refine .inr ?_
      simp only [before, beforeSign, String.append_assoc]
      exact begins_append (begins_wrap (begins_print htest) _ _) _
  | item brackets items behind =>
    refine .inr (begins_append ?_ _)
    cases brackets with
    | list | receiver =>
      exact begins_of_head? (c := '[') (by simp [Brackets.opening]) (by decide)
    | call function =>
      cases h with
      | call hfunction _ => exact begins_append (begins_of_isPath hfunction) _
    | method others member =>
      exact begins_of_head? (c := '[') (by simp [Brackets.opening, print]) (by decide)

/-- A text in the place of another one stays so in a frame. -/
theorem stands_enclose (h : Readable (frame.fill part)) (parens : Bool) (hbegins : Begins code) :
    Stands (frame.fill part) (frame.enclose parens code) := by
  rcases before_cases h with ⟨hempty, hloose⟩ | ⟨c, hc, hstarting⟩
  · refine ⟨?_, fun _ => .inr hloose⟩
    rw [enclose, hempty, String.empty_append]
    refine begins_append ?_ _
    cases parens with
    | true => exact begins_of_head? (c := '(') (by simp [parenthesized]) (by decide)
    | false => exact hbegins
  · -- both texts begin with the text before the gap
    have hhead : ∀ parens code, (frame.enclose parens code).toList.head? = some c := by
      intro parens code
      simp [enclose, head?_append, hc]
    refine ⟨⟨c, hhead _ _, hstarting⟩, fun hminus => .inl ?_⟩
    rw [print_fill]
    unfold startsWithMinus at hminus ⊢
    rwa [hhead] at hminus ⊢

variable {frames : List Frame} {code : String}

theorem stands_around (h : Readable (fillAll frames part)) (hstands : Stands part code) :
    Stands (fillAll frames part) (around frames part code) := by
  induction frames with
  | nil => exact hstands
  | cons frame frames ih => exact stands_enclose h _ (ih (readable_part h)).begins

/-- A minus that puts no parentheses does not stand right before another one. -/
theorem startsWithMinus_eq_false (h : Stands part code) (hparens : negate.parenthesizes part = false) :
    startsWithMinus code = false := by
  obtain ⟨hneeds, hminus⟩ := Bool.or_eq_false_iff.1 hparens
  cases hcode : startsWithMinus code with
  | false => rfl
  | true =>
    rcases h.minus hcode with hstarts | hloose
    · rw [hstarts] at hminus
      exact hminus
    · rw [hloose] at hneeds
      exact hneeds.symm ▸ rfl

/-- Frames around a text fall into tokens if the text does. -/
theorem reads_around (h : Readable (fillAll frames part)) (hstands : Stands part code)
    (hcode : ∀ rest, Ends rest → Reads code.toList ts rest) :
    ∀ rest, Ends rest →
      Reads (around frames part code).toList (aroundTokens frames part ts) rest := by
  induction frames with
  | nil => exact hcode
  | cons frame frames ih =>
    intro rest hrest
    have hinner := stands_around (readable_part h) hstands
    refine reads_enclose (sound h) hinner.begins ?_ (ih (readable_part h)) hrest
    rintro rfl hparens
    exact startsWithMinus_eq_false hinner hparens

end Frame

/-! ## Two minus signs in a row -/

/-- Wherever a text stands, two minus signs in it are read as one. -/
def Clashes (code : String) : Prop :=
  ∀ rest ts, Grammar.tokens (code.toList ++ rest) = some ts → .sign "--" ∈ ts

theorem Grammar.Reads.tokens_cases {cs rest : List Char} {us : List Token} (h : Reads cs us rest)
    (htokens : Grammar.tokens (cs ++ rest) = some ts) :
    ∃ more, Grammar.tokens rest = some more ∧ us ++ more = ts :=
  Option.map_eq_some_iff.1 (h ▸ htokens)

theorem clashes_minus (h : startsWithMinus code = true) :
    Clashes (Frame.negate.enclose false code) := by
  intro rest ts htokens
  have hcode : ∃ cs, code.toList = '-' :: cs := by
    cases hcs : code.toList with
    | nil => simp [startsWithMinus, hcs] at h
    | cons c cs =>
      obtain rfl : c = '-' := by simpa [startsWithMinus, hcs] using h
      exact ⟨cs, rfl⟩
  obtain ⟨cs, hcs⟩ := hcode
  have hdouble : Reads "--".toList [.sign "--"] (cs ++ rest) :=
    reads_sign (by decide) (by simp [show prolonging "--" = [] by decide])
  have hchars : (Frame.negate.enclose false code).toList ++ rest = "--".toList ++ (cs ++ rest) := by
    simp [Frame.enclose, Frame.before, Frame.after, parenthesized, hcs]
  rw [hchars] at htokens
  obtain ⟨more, -, rfl⟩ := hdouble.tokens_cases htokens
  simp

namespace Frame

theorem clashes_enclose (h : Readable (frame.fill part)) {parens : Bool} (hbegins : Begins code)
    (hminus : frame = .negate → parens = false → startsWithMinus code = false)
    (hclashes : Clashes code) : Clashes (frame.enclose parens code) := by
  intro rest ts htokens
  have hbefore := reads_before_parenthesized (sound h) hbegins hminus (frame.after.toList ++ rest)
  rw [enclose, String.toList_append, String.toList_append, append_assoc, append_assoc] at htokens
  obtain ⟨more, hmore, rfl⟩ := hbefore.tokens_cases htokens
  refine mem_append_right _ ?_
  cases parens with
  | false => exact hclashes _ _ hmore
  | true =>
    have hopen : Reads "(".toList [.sign "("]
        (code.toList ++ (")".toList ++ (frame.after.toList ++ rest))) := reads_bracket (by decide) _
    have hchars : (parenthesized true code).toList ++ (frame.after.toList ++ rest) =
        "(".toList ++ (code.toList ++ (")".toList ++ (frame.after.toList ++ rest))) := by
      simp [parenthesized]
    rw [hchars] at hmore
    obtain ⟨inside, hinside, rfl⟩ := hopen.tokens_cases hmore
    exact mem_append_right _ (hclashes _ _ hinside)

theorem clashes_around {frames : List Frame} (h : Readable (fillAll frames part))
    (hstands : Stands part code) (hclashes : Clashes code) : Clashes (around frames part code) := by
  induction frames with
  | nil => exact hclashes
  | cons frame frames ih =>
    have hinner := stands_around (readable_part h) hstands
    refine clashes_enclose h hinner.begins ?_ (ih (readable_part h))
    rintro rfl hparens
    exact startsWithMinus_eq_false hinner hparens

end Frame

/-! ## Expressions and the trees that they stand for -/

section Trees

variable {expr : Expr}

theorem parse_tokens (h : Readable expr) : parse expr.tokens = some expr.tree := by
  have hexpression : expression (expr.tokens.length + 1) expr.tokens = some (expr.tree, []) := by
    have := (parses h).parsesAs.inBrackets (parses h).level_le (Nat.lt_succ_self _) (stops_nil _)
    simpa using this
  simp [parse, hexpression]

theorem sparser_tokens (h : Readable expr) : Sparser expr.tree.bare expr.tokens :=
  (covers_of_parse (parse_tokens h)).bare le_rfl

theorem plain_bareAt (h : Readable expr) (place place' : Precedence) :
    plain (expr.tree.bareAt place) = plain (expr.tokensAt place') := by
  rw [bareAt, plain_wrapTokens, tokensAt, plain_wrapTokens]
  exact (sparser_tokens h).plain_eq

theorem foldl_member (first : Tree) (members : List String) (h : first.level = .member) :
    (members.foldl .member first).level = .member ∧
      (members.foldl .member first).bare =
        first.bare ++ members.flatMap fun word => [.sign ".", .word word] := by
  induction members generalizing first with
  | nil => exact ⟨h, by simp⟩
  | cons word members ih =>
    obtain ⟨hlevel, hbare⟩ := ih (.member first word) rfl
    refine ⟨hlevel, ?_⟩
    rw [foldl_cons, hbare, bare, h]
    simp [wrapTokens, needsParens]

/-- A name with points in it needs no parentheses. -/
theorem pathTree_spec (code : String) :
    (pathTree code).level = .member ∧ (pathTree code).bare = pathTokens code := by
  obtain ⟨first, members, hwords⟩ := exists_pathWords code
  unfold pathTree pathTokens
  rw [hwords]
  exact foldl_member (.name (String.ofList first)) (members.map String.ofList) rfl

/-- A number without its sign needs no parentheses. -/
theorem magnitudeTree_spec (h : IsMagnitude code) :
    (magnitudeTree code).level.rank ≤ 1 ∧
      (magnitudeTree code).bare = magnitudeTokens code := by
  rcases magnitude_cases h with ⟨-, htree, htokens⟩ | ⟨-, htree, htokens⟩
  · rw [htree, htokens]
    exact ⟨Nat.le_refl 1, by rw [bare]⟩
  · rw [htree, htokens, (pathTree_spec code).1]
    exact ⟨by decide, (pathTree_spec code).2⟩

/-- An expression and its tree need parentheses at the same places. -/
theorem needsParens_level_tree (h : Readable expr) {place : Precedence} (hplace : 1 ≤ place.rank) :
    needsParens expr.tree.level place = needsParens expr.level place := by
  have htight : ∀ tight : Precedence, tight.rank ≤ 1 →
      needsParens tight place = needsParens .member place := by
    intro tight htight
    have hmember : Precedence.member.rank = 1 := rfl
    simp only [needsParens, hmember, decide_eq_decide]
    omega
  cases h with
  | @number literal h =>
    cases hminus : Expr.startsWithMinus literal with
    | true => simp [Expr.tree, Expr.level, Tree.level, hminus]
    | false =>
      rw [Expr.tree, Expr.level, if_neg (by simp [hminus]), if_neg (by simp [hminus]),
        htight _ (magnitudeTree_spec h).1, htight .atomic (by decide)]
  | text | name | list => exact (htight .atomic (by decide)).symm
  | @path code h => rw [Expr.tree, (pathTree_spec code).1, Expr.level]
  | binary hoperator => rw [Expr.tree, Tree.level, ofSymbol_symbol hoperator, Expr.level]
  | _ => rfl

theorem plain_pathTokens_pos (code : String) : 0 < plain (pathTokens code) := by
  obtain ⟨first, members, hwords⟩ := exists_pathWords code
  simp [pathTokens, hwords, plain, Token.isParen]

theorem plain_magnitudeTokens_pos (h : IsMagnitude code) : 0 < plain (magnitudeTokens code) := by
  rcases magnitude_cases h with ⟨-, -, htokens⟩ | ⟨-, -, htokens⟩
  · simp [htokens, plain, Token.isParen]
  · exact htokens ▸ plain_pathTokens_pos code

theorem plain_tokens_pos (h : Readable expr) : 0 < plain expr.tokens := by
  have hsign : ∀ operator ∈ Operator.all, (Token.sign operator.symbol).isParen = false := by decide
  cases h with
  | @number literal h =>
    have hpos := plain_magnitudeTokens_pos h
    cases hminus : Expr.startsWithMinus literal with
    | true => simp [Expr.tokens, hminus, plain, Token.isParen]
    | false => simpa [Expr.tokens, hminus] using hpos
  | text | name | list | not | cast | negate =>
    simp [Expr.tokens, Expr.withMinusTokens, plain, Token.isParen]
  | @path code h => exact plain_pathTokens_pos code
  | @call function arguments hfunction h =>
    have := plain_pathTokens_pos function
    rw [Expr.tokens, plain_append]
    omega
  | method hitems hmember h =>
    rw [Expr.tokens, plain_append, plain_cons (by decide)]
    omega
  | binary hoperator =>
    rw [Expr.tokens, plain_append, plain_cons (hsign _ hoperator)]
    omega
  | conditional =>
    rw [Expr.tokens, plain_append, plain_cons (by decide)]
    omega

theorem Operator.one_le_rank_contexts (h : operator ∈ Operator.all) :
    1 ≤ operator.leftContext.rank ∧ 1 ≤ operator.rightContext.rank := by
  revert operator
  decide

/-- Only the first operand has a part in how many parentheses stand in front. -/
theorem opensAt_append_zero (h : 0 < plain ts) (us : List Token) :
    opensAt (ts ++ us) 0 = opensAt ts 0 := by
  rw [opensAt_append, if_neg (by omega), Nat.add_zero]

theorem opensAt_firstOperand (h : Readable expr) {place : Precedence} (hplace : 1 ≤ place.rank)
    (hzero : opensAt expr.tokens 0 ≤ opensAt expr.tree.bare 0) (us vs : List Token) :
    opensAt (expr.tokensAt place ++ us) 0 ≤ opensAt (expr.tree.bareAt place ++ vs) 0 := by
  have hpos : 0 < plain (expr.tokensAt place) := by
    rw [tokensAt, plain_wrapTokens]
    exact plain_tokens_pos h
  rw [opensAt_append_zero hpos, opensAt_append, tokensAt, bareAt, opensAt_wrapTokens,
    opensAt_wrapTokens, needsParens_level_tree h hplace]
  omega

/-- The tree needs all parentheses that the text begins with. -/
theorem opensAt_tokens_zero (h : Readable expr) :
    opensAt expr.tokens 0 ≤ opensAt expr.tree.bare 0 := by
  induction h with
  | @number literal h =>
    cases hminus : Expr.startsWithMinus literal with
    | true => simp [Expr.tokens, hminus, opensAt, Token.isParen]
    | false => simp [Expr.tokens, Expr.tree, hminus, (magnitudeTree_spec h).2]
  | text | name | list | not | negate =>
    simp [Expr.tokens, Expr.withMinusTokens, opensAt, Token.isParen]
  | @path code h =>
    have hbare : (Expr.path code).tree.bare = (Expr.path code).tokens := by
      rw [Expr.tree, (pathTree_spec code).2, Expr.tokens]
    exact Nat.le_of_eq (by rw [hbare])
  | @call function arguments hfunction h ih =>
    rw [Expr.tokens, opensAt_append_zero (plain_pathTokens_pos function), Expr.tree, bare,
      opensAt_append, opensAt_wrapTokens, (pathTree_spec function).2]
    omega
  | method hitems hmember h =>
    simp [Expr.tokens, Expr.wrapTokens, Expr.level, needsParens, rank, opensAt,
      Token.isParen]
  | cast => simp [Expr.tokens, Expr.tree, bare, opensAt, Token.isParen]
  | binary hoperator hleft _ ihleft _ =>
    rw [Expr.tree, bare, ofSymbol_symbol hoperator]
    exact opensAt_firstOperand hleft (one_le_rank_contexts hoperator).1 ihleft _ _
  | conditional htest _ _ ihtest _ _ =>
    rw [Expr.tree, bare]
    exact opensAt_firstOperand htest (show 1 ≤ Precedence.disjunction.rank by decide) ihtest _ _

end Trees

/-! ## Frames and the trees of what stands in them -/

/-- As many tokens besides parentheses, and as many opening parentheses behind them at least. -/
structure Flush (ts us : List Token) : Prop where
  plain_eq : plain ts = plain us
  opensAt_le : ∀ place, plain us ≤ place → opensAt us place ≤ opensAt ts place

namespace Flush

variable {ts ts' us us' : List Token}

theorem refl (ts : List Token) : Flush ts ts := ⟨rfl, fun _ _ => Nat.le_refl _⟩

theorem append (h : Flush ts us) (h' : Flush ts' us') : Flush (ts ++ ts') (us ++ us') := by
  refine ⟨by rw [plain_append, plain_append, h.plain_eq, h'.plain_eq], fun place hplace => ?_⟩
  rw [plain_append] at hplace
  have hfirst := h.opensAt_le place (by omega)
  have hsecond := h'.opensAt_le (place - plain us) (by omega)
  rw [opensAt_append, opensAt_append, h.plain_eq, if_pos (by omega), if_pos (by omega)]
  omega

/-- Behind a last token that is no parenthesis there are none. -/
theorem snoc {token : Token} (h : plain ts = plain us) (htoken : token.isParen = false) :
    Flush (ts ++ [token]) (us ++ [token]) := by
  have hplain : plain [token] = 1 := plain_cons htoken []
  refine ⟨by rw [plain_append, plain_append, h], fun place hplace => ?_⟩
  rw [plain_append, hplain] at hplace
  rw [opensAt_append, opensAt_eq_zero (by omega), if_pos (by omega), opensAt_cons htoken]
  simp [opensAt]

end Flush

theorem exists_bareItems {items behind : List Expr} (h : ∀ item ∈ items, Readable item) (part : Expr) :
    ∃ before after, bareItems (trees (items ++ part :: behind)) =
      before ++ part.tree.bare ++ after ∧ Flush before (leadingTokens items) := by
  induction items with
  | nil =>
    cases behind with
    | nil => exact ⟨[], [], by simp [trees, bareItems], .refl _⟩
    | cons next behind =>
      exact ⟨[], .sign "," :: bareItems (trees (next :: behind)),
        by simp [trees, bareItems], .refl _⟩
  | cons item items ih =>
    obtain ⟨before, after, hbare, hflush⟩ := ih (forall_mem_cons.1 h).2
    have hitem : Flush (item.tree.bare ++ [.sign ","]) (item.tokensAt .comma ++ [.sign ","]) := by
      refine .snoc ?_ (by decide)
      rw [tokensAt, plain_wrapTokens]
      exact (sparser_tokens (h item mem_cons_self)).plain_eq
    refine ⟨item.tree.bare ++ [.sign ","] ++ before, after, ?_, ?_⟩
    · obtain ⟨next, rest, hrest⟩ : ∃ next rest,
          trees (items ++ part :: behind) = next :: rest := by
        cases items <;> exact ⟨_, _, rfl⟩
      rw [cons_append, trees, hrest, bareItems, ← hrest, hbare]
      simp
    · have hleading : leadingTokens (item :: items) =
          item.tokensAt .comma ++ [.sign ","] ++ leadingTokens items := by
        simp [leadingTokens]
      rw [hleading]
      exact hitem.append hflush

theorem Brackets.exists_bare_fill {brackets : Brackets} {items : List Expr}
    (h : Readable (brackets.fill items)) :
    ∃ before after, (brackets.fill items).tree.bare =
      before ++ bareItems (trees items) ++ after ∧ Flush before brackets.openingTokens := by
  cases brackets with
  | list => exact ⟨[.sign "["], [.sign "]"], by simp [fill, tree, bare], .refl _⟩
  | call function =>
    refine ⟨pathTokens function ++ [.sign "("], [.sign ")"], ?_, .refl _⟩
    simp [fill, tree, bare, pathTree_spec, wrapTokens, needsParens, inParens]
  | receiver member arguments =>
    refine ⟨[.sign "["], .sign "]" :: .sign "." :: .word member ::
      inParens (bareItems (trees arguments)), ?_, .refl _⟩
    simp [fill, tree, bare, Tree.level, wrapTokens, needsParens]
  | method others member =>
    cases h with
    | method hothers _ _ =>
      refine ⟨(Expr.list others).tree.bare ++ [.sign "."] ++ [.word member, .sign "("], [.sign ")"],
        ?_, ?_⟩
      · simp [fill, Expr.tree, bare, Tree.level, Expr.wrapTokens, needsParens,
          inParens]
      · have hlist : Flush ((Expr.list others).tree.bare ++ [.sign "."])
            ((Expr.list others).tokens ++ [.sign "."]) :=
          .snoc (sparser_tokens (.list hothers)).plain_eq (by decide)
        simpa [openingTokens] using hlist.append (.refl [.word member, .sign "("])

variable {place : Nat}

namespace Frame

theorem one_le_rank_place (h : Readable (frame.fill part)) : 1 ≤ frame.place.rank := by
  cases frame with
  | left operator other =>
    cases h with
    | binary hoperator _ _ => exact (one_le_rank_contexts hoperator).1
  | right operator other =>
    cases h with
    | binary hoperator _ _ => exact (one_le_rank_contexts hoperator).2
  | _ => simp [place, rank, tighter]

/-- What the tree of an expression in a frame needs is what the frame and the tree of the expression
need. -/
theorem exists_bare_fill (h : Readable (frame.fill part)) :
    ∃ before after, (frame.fill part).tree.bare = before ++ part.tree.bareAt frame.place ++ after ∧
      Flush before frame.beforeTokens := by
  have hsign : ∀ operator ∈ Operator.all, (Token.sign operator.symbol).isParen = false := by decide
  cases frame with
  | negate | not | cast =>
    exact ⟨_, [], by simp [fill, tree, bare, bareAt, place, beforeTokens], .refl _⟩
  | left operator other =>
    cases h with
    | binary hoperator _ _ =>
      refine ⟨[], .sign operator.symbol :: other.tree.bareAt operator.rightContext, ?_, .refl _⟩
      simp [fill, tree, bare, bareAt, place, ofSymbol_symbol hoperator]
  | right operator other =>
    cases h with
    | binary hoperator hleft _ =>
      refine ⟨other.tree.bareAt operator.leftContext ++ [.sign operator.symbol], [], ?_,
        .snoc (plain_bareAt hleft _ _) (hsign operator hoperator)⟩
      simp [fill, tree, bare, bareAt, place, ofSymbol_symbol hoperator]
  | test first second =>
    refine ⟨[], .sign "?" :: (first.tree.bare ++ .sign ":" :: second.tree.bare), ?_, .refl _⟩
    simp [fill, tree, bare, bareAt, place, tighter]
  | yes condition second =>
    cases h with
    | conditional htest _ _ =>
      refine ⟨condition.tree.bareAt .disjunction ++ [.sign "?"], .sign ":" :: second.tree.bare, ?_,
        .snoc (plain_bareAt htest _ _) (by decide)⟩
      rw [place, Tree.bareAt_of_rank_le part.tree.level_le]
      simp [fill, tree, bare, bareAt]
  | no condition first =>
    cases h with
    | conditional htest hyes _ =>
      refine ⟨condition.tree.bareAt .disjunction ++ [.sign "?"] ++ (first.tree.bare ++ [.sign ":"]), [],
        ?_, Flush.append (.snoc (plain_bareAt htest _ _) (by decide)) (.snoc ?_ (by decide))⟩
      · rw [place, Tree.bareAt_of_rank_le part.tree.level_le]
        simp [fill, tree, bare, bareAt]
      · rw [tokensAt, plain_wrapTokens]
        exact (sparser_tokens hyes).plain_eq
  | item brackets items behind =>
    have hitems : ∀ item ∈ items, Readable item := fun item hitem =>
      (Brackets.sound_and_readable h).2 item (by simp [hitem])
    obtain ⟨opening, closing, hbrackets, hopening⟩ := Brackets.exists_bare_fill h
    obtain ⟨before, after, hbare, hbefore⟩ := exists_bareItems hitems part
    refine ⟨opening ++ before, after ++ closing, ?_, hopening.append hbefore⟩
    have hlevel : part.tree.level.rank ≤ Precedence.comma.rank :=
      Nat.le_trans part.tree.level_le (by decide)
    rw [fill, hbrackets, hbare, place, Tree.bareAt_of_rank_le hlevel]
    simp

theorem plain_parenthesizedTokens (parens : Bool) (ts : List Token) :
    plain (parenthesizedTokens parens ts) = plain ts := by
  cases parens with
  | true => exact plain_inParens ts
  | false => rfl

theorem opensAt_parenthesizedTokens (parens : Bool) (ts : List Token) (place : Nat) :
    opensAt (parenthesizedTokens parens ts) place =
      (if parens ∧ place = 0 then 1 else 0) + opensAt ts place := by
  cases parens with
  | true => simp [parenthesizedTokens, opensAt_inParens]
  | false => simp [parenthesizedTokens]

theorem plain_encloseTokens (frame : Frame) (parens : Bool) (ts : List Token) :
    plain (frame.encloseTokens parens ts) =
      plain frame.beforeTokens + plain ts + plain frame.afterTokens := by
  rw [encloseTokens, plain_append, plain_append, plain_parenthesizedTokens]

theorem opensAt_encloseTokens (frame : Frame) (parens : Bool) (h : place < plain ts) :
    opensAt (frame.encloseTokens parens ts) (plain frame.beforeTokens + place) =
      opensAt frame.beforeTokens (plain frame.beforeTokens + place) +
        ((if parens ∧ place = 0 then 1 else 0) + opensAt ts place) := by
  rw [encloseTokens, append_assoc, opensAt_append, if_pos (Nat.le_add_right _ _),
    Nat.add_sub_cancel_left, opensAt_append, plain_parenthesizedTokens, opensAt_parenthesizedTokens,
    if_neg (Nat.not_le.2 h), Nat.add_zero]

/-- The opening parentheses that the tree needs at a place inside what stands in a frame. -/
theorem opensAt_bare_fill (h : Readable (frame.fill part)) (place : Nat) :
    opensAt frame.beforeTokens (plain frame.beforeTokens + place) +
        ((if needsParens part.level frame.place ∧ place = 0 then 1 else 0) +
          opensAt part.tree.bare place) ≤
      opensAt (frame.fill part).tree.bare (plain frame.beforeTokens + place) := by
  obtain ⟨before, after, hbare, hflush⟩ := exists_bare_fill h
  have hbefore := hflush.opensAt_le (plain frame.beforeTokens + place) (Nat.le_add_right _ _)
  rw [hbare, append_assoc, opensAt_append, hflush.plain_eq, if_pos (Nat.le_add_right _ _),
    Nat.add_sub_cancel_left, opensAt_append, bareAt, opensAt_wrapTokens,
    needsParens_level_tree (readable_part h) (one_le_rank_place h)]
  omega

/-- What stands before the gap of an expression that holds together. -/
theorem plain_beforeTokens_pos (h : Readable (frame.fill part))
    (htight : needsParens (frame.fill part).level .unary = false) :
    0 < plain frame.beforeTokens := by
  cases frame with
  | negate | not | cast => simp [beforeTokens, plain, Token.isParen]
  | left operator other | right operator other =>
    cases h with
    | binary hoperator =>
      exact absurd (needsParens_operator hoperator) (Bool.eq_false_iff.1 htight)
  | test | yes | no => cases htight
  | item brackets items behind =>
    rw [beforeTokens, plain_append]
    cases brackets with
    | list | receiver =>
      rw [Brackets.openingTokens, plain_cons (by decide)]
      omega
    | call function =>
      have := plain_pathTokens_pos function
      rw [Brackets.openingTokens, plain_append]
      omega
    | method others member =>
      rw [Brackets.openingTokens, plain_append, plain_cons (by decide)]
      omega

end Frame

/-- Tokens with fewer opening parentheses at a place than the tree of an expression needs there. If the
expression holds together, the place is not in front. -/
structure Lacks (expr : Expr) (ts : List Token) (place : Nat) : Prop where
  plain_eq : plain ts = plain expr.tokens
  place_lt : place < plain ts
  opensAt_lt : opensAt ts place < opensAt expr.tree.bare place
  place_pos : needsParens expr.level .unary = false → 0 < place

namespace Frame

variable {frames : List Frame}

/-- The place of parentheses that the tree needs, where they are left out. -/
theorem lacks_enclose_false (h : Readable (frame.fill part))
    (hneeds : needsParens part.level frame.place = true) :
    Lacks (frame.fill part) (frame.encloseTokens false part.tokens) (plain frame.beforeTokens) := by
  have hpart := readable_part h
  have hpos := plain_tokens_pos hpart
  have hopens := opensAt_encloseTokens frame false hpos
  have hbare := opensAt_bare_fill h 0
  have hfront := opensAt_tokens_zero hpart
  simp only [hneeds, Nat.add_zero, and_self, if_true] at hbare
  refine ⟨?_, ?_, ?_, plain_beforeTokens_pos h⟩
  · rw [tokens_fill, plain_encloseTokens, plain_encloseTokens]
  · rw [plain_encloseTokens]
    omega
  · simp only [Nat.add_zero, Bool.false_eq_true, false_and, if_false] at hopens
    omega

/-- What lacks parentheses goes on to lack them in a frame: the parentheses of the frame are needed as
well, or they stand at another place. -/
theorem lacks_enclose (h : Readable (frame.fill part)) (hlacks : Lacks part ts place) :
    Lacks (frame.fill part) (frame.encloseTokens (frame.parenthesizes part) ts)
      (plain frame.beforeTokens + place) := by
  obtain ⟨hplain, hlt, hopens, hpos⟩ := hlacks
  -- parentheses in front of the lack are there because the part is loose, not because of a minus
  have hparens : frame.parenthesizes part = true ∧ place = 0 →
      needsParens part.level frame.place = true ∧ place = 0 := by
    rintro ⟨hparens, rfl⟩
    refine ⟨?_, rfl⟩
    cases hneeds : needsParens part.level .unary with
    | false => exact absurd (hpos hneeds) (Nat.lt_irrefl 0)
    | true =>
      cases frame with
      | negate => exact hneeds
      | _ => exact hparens
  have hbare := opensAt_bare_fill h place
  have hinside := opensAt_encloseTokens frame (frame.parenthesizes part) hlt
  refine ⟨?_, ?_, ?_, fun htight => ?_⟩
  · rw [tokens_fill, plain_encloseTokens, plain_encloseTokens, hplain]
  · rw [plain_encloseTokens]
    omega
  · rw [hinside]
    by_cases hfront : frame.parenthesizes part = true ∧ place = 0
    · rw [if_pos (hparens hfront)] at hbare
      rw [if_pos hfront]
      omega
    · rw [if_neg hfront]
      omega
  · have := plain_beforeTokens_pos h htight
    omega

theorem exists_lacks_around (h : Readable (fillAll frames part)) (hlacks : Lacks part ts place) :
    ∃ place, Lacks (fillAll frames part) (aroundTokens frames part ts) place := by
  induction frames with
  | nil => exact ⟨place, hlacks⟩
  | cons frame frames ih =>
    obtain ⟨place, hinner⟩ := ih (readable_part h)
    exact ⟨_, lacks_enclose h hinner⟩

theorem readable_of_fillAll (h : Readable (fillAll frames part)) : Readable part := by
  induction frames with
  | nil => exact h
  | cons frame frames ih => exact ih (readable_part h)

/-- Without a pair of parentheses that a frame puts, the text of an expression is not read as its
tree. -/
theorem read_around_ne (h : Readable (fillAll frames (frame.fill part)))
    (hparens : frame.parenthesizes part = true) :
    Grammar.read (around frames (frame.fill part) (frame.enclose false part.print)) ≠
      some (fillAll frames (frame.fill part)).tree := by
  have hfill := readable_of_fillAll h
  have hpart := readable_part hfill
  have hstands := stands_enclose hfill false (begins_print hpart)
  intro hread
  obtain ⟨ts, htokens, hparse⟩ := Option.bind_eq_some_iff.1 hread
  have hcovers := covers_of_parse hparse
  -- without the pair either two minus signs meet, or parentheses are missing that the tree needs
  by_cases hminus : frame = .negate ∧ startsWithMinus part.print = true
  · obtain ⟨rfl, hminus⟩ := hminus
    have hclashes := clashes_around h hstands (clashes_minus hminus)
    exact hcovers.noDouble (hclashes [] ts (by simpa using htokens))
  · have hneeds : needsParens part.level frame.place = true := by
      cases frame with
      | negate => exact (Bool.or_eq_true_iff.1 hparens).resolve_right fun h => hminus ⟨rfl, h⟩
      | _ => exact hparens
    have hreads : ∀ rest, Ends rest → Reads (frame.enclose false part.print).toList
        (frame.encloseTokens false part.tokens) rest := by
      intro rest hrest
      refine reads_enclose (sound hfill) (begins_print hpart) (fun hnegate _ => ?_)
        (readsAsTokens hpart) hrest
      simpa [hnegate] using hminus
    have htokens' := tokens_of_reads (reads_around h hstands hreads [] ends_nil)
    obtain rfl : aroundTokens frames (frame.fill part) (frame.encloseTokens false part.tokens) = ts :=
      Option.some.inj (htokens'.symm.trans htokens)
    obtain ⟨place, hlacks⟩ := exists_lacks_around h (lacks_enclose_false hfill hneeds)
    have hle := (hcovers.bare le_rfl).opensAt_le place
    exact absurd hlacks.opensAt_lt (Nat.not_lt.2 hle)

end Frame

/-- The text of an expression is read as a tree, and without any one pair of the parentheses that frames
put around operands in it, it is not read as that tree. -/
def Expr.NeedsAllParens (expr : Expr) : Prop :=
  ∃ tree, Grammar.read expr.print = some tree ∧
    ∀ (frames : List Frame) (frame : Frame) (part : Expr),
      expr = Frame.fillAll frames (frame.fill part) → frame.parenthesizes part = true →
        expr.print = Frame.around frames (frame.fill part) (frame.enclose true part.print) ∧
        Grammar.read (Frame.around frames (frame.fill part) (frame.enclose false part.print)) ≠
          some tree

theorem Readable.needsAllParens {expr : Expr} (h : Readable expr) : expr.NeedsAllParens := by
  refine ⟨expr.tree, read_print h, ?_⟩
  rintro frames frame part rfl hparens
  exact ⟨by rw [Frame.print_fillAll, Frame.print_fill, hparens], Frame.read_around_ne h hparens⟩

end RobotBlocks
