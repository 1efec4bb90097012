import RobotBlocks.Proofs.Expr.Frame

/-!
# Expressions are read back

The text of a readable expression, read with the grammar of both targets, is the tree that the
expression stands for (`read_print`): parentheses stand wherever the grammar needs them, and the
minus of a negation never merges with another one.

`ParsesAs ts tree level` says that tokens are read as a tree in every layer from a level on, if
nothing follows that continues the layer. It is preserved by parentheses, by the operators before
an operand and by `?:`. For the operators that group from the left there is one more statement
(`SpineAs`): in their own layer the left operand is read first and the rest of the chain is read with
it as the tree so far. Both are proved by one induction over the expression.
-/

set_option autoImplicit false

namespace RobotBlocks

open Grammar List RobotBlocks.Expr

variable {ts : List Token} {level : Precedence} {tree : Tree} {inner : Parser} {e : Expr}
variable {rest : List Token} {symbol : String} {depth : Nat}

/-! ## Tokens that are read as a tree -/

/-- Tokens that are read as a tree in every layer from a level on. -/
def ParsesAs (ts : List Token) (tree : Tree) (level : Precedence) : Prop :=
  ∀ depth, ts.length ≤ depth → ∀ looser rest, level.rank ≤ looser.rank → Stops looser rest →
    layer (expression depth) looser (ts ++ rest) = some (tree, rest)

/-- It suffices to look at the level itself. -/
theorem parsesAs_of_layer (h : ∀ depth, ts.length ≤ depth → ∀ rest, Stops level rest →
      layer (expression depth) level (ts ++ rest) = some (tree, rest)) :
    ParsesAs ts tree level := by
  intro depth hdepth looser rest hrank hstops
  exact layer_of_rank_le hrank (h depth hdepth rest (hstops.mono hrank)) hstops

theorem ParsesAs.mono {level looser : Precedence} (h : ParsesAs ts tree level)
    (hrank : level.rank ≤ looser.rank) : ParsesAs ts tree looser :=
  fun depth hdepth other rest hother hstops =>
    h depth hdepth other rest (Nat.le_trans hrank hother) hstops

/-- What stands in brackets is read with one level of depth less. -/
theorem ParsesAs.inBrackets (h : ParsesAs ts tree level)
    (hlevel : level.rank ≤ Precedence.conditional.rank) (hdepth : ts.length < depth)
    (hstops : Stops .conditional rest) : expression depth (ts ++ rest) = some (tree, rest) := by
  obtain ⟨depth, rfl⟩ := Nat.exists_eq_add_of_lt hdepth
  exact h _ (by omega) .conditional rest hlevel hstops

/-- The first token is neither a closing bracket nor the name of a type. -/
def Opens (ts : List Token) : Prop :=
  ∃ token, ts.head? = some token ∧ token ∉ typeWords.map .word ∧
    token ∉ [.sign ")", .sign "]"]

theorem opens_sign {symbol : String} (h : symbol ∉ [")", "]"]) (ts : List Token) :
    Opens (.sign symbol :: ts) := by
  refine ⟨.sign symbol, rfl, by simp, ?_⟩
  simpa using h

theorem opens_append (h : Opens ts) (more : List Token) : Opens (ts ++ more) := by
  obtain ⟨token, hhead, htoken⟩ := h
  exact ⟨token, by simp [head?_append, hhead], htoken⟩

theorem opens_wrapTokens (h : Opens ts) (inner outer : Precedence) :
    Opens (wrapTokens ts inner outer) := by
  unfold wrapTokens
  split
  · exact opens_sign (by decide) _
  · exact h

/-! ## Parentheses and operators before an operand -/

theorem suffixes_of_stops (h : Stops level rest) :
    suffixes inner tree rest = some (tree, rest) := by
  have hsymbol : ∀ symbol ∈ [".", "("], (symbol, .atomic) ∈ continuing := by decide
  have hnot := (h.mono (Nat.zero_le _) : Stops .atomic rest).notMem hsymbol
  rw [suffixes.eq_def]
  split
  · next symbol rest =>
    have hne : symbol ≠ "." ∧ symbol ≠ "(" := by simpa using hnot symbol rfl
    rw [if_neg hne.1, if_neg hne.2]
  · rfl

/-- Tokens in parentheses are no cast. -/
theorem unary_inParens (h : Opens ts) (rest : List Token) :
    unary inner (inParens ts ++ rest) = member inner (inParens ts ++ rest) := by
  obtain ⟨token, hhead, htype, -⟩ := h
  obtain ⟨more, rfl⟩ : ∃ more, ts = token :: more := by
    cases ts with
    | nil => simp at hhead
    | cons first more => exact ⟨more, by simpa using hhead⟩
  simp only [inParens, cons_append]
  rw [unary.eq_def]
  simp only [String.reduceEq, if_false, true_and]
  split
  · next word close tail heq =>
    obtain rfl : token = .word word := (List.cons.inj heq).1
    rw [if_neg fun hand => htype (mem_map_of_mem hand.1)]
  · rfl

theorem ParsesAs.inParens (h : ParsesAs ts tree level)
    (hlevel : level.rank ≤ Precedence.conditional.rank) (hopens : Opens ts) :
    ParsesAs (Expr.inParens ts) tree .atomic := by
  refine parsesAs_of_layer fun depth hdepth rest hstops => ?_
  have hlength : ts.length < depth := by
    simp only [Expr.inParens, length_cons, length_append] at hdepth
    omega
  have hinner : expression depth (ts ++ .sign ")" :: rest) = some (tree, .sign ")" :: rest) :=
    h.inBrackets hlevel hlength (stops_close (by decide) _ _)
  show unary _ _ = _
  rw [unary_inParens hopens, member]
  simp only [Expr.inParens, cons_append, append_assoc, nil_append, primary, if_true, hinner]
  exact suffixes_of_stops hstops

theorem ParsesAs.wrap {inner : Precedence} (h : ParsesAs ts tree inner)
    (hinner : inner.rank ≤ Precedence.conditional.rank) (hopens : Opens ts) (outer : Precedence) :
    ParsesAs (wrapTokens ts inner outer) tree outer := by
  unfold wrapTokens Precedence.needsParens
  split
  · exact (h.inParens hinner hopens).mono (Nat.zero_le _)
  · next hrank => exact h.mono (by simpa using hrank)

/-- An operand with a sign before it. -/
theorem ParsesAs.signed {symbol : String} {make : Tree → Tree} (h : ParsesAs ts tree .unary)
    (hsign : (symbol = "-" ∧ make = .negate) ∨ (symbol = "!" ∧ make = .not)) :
    ParsesAs (.sign symbol :: ts) (make tree) .unary := by
  refine parsesAs_of_layer fun depth hdepth rest hstops => ?_
  have hoperand : unary (expression depth) (ts ++ rest) = some (tree, rest) :=
    h depth (Nat.le_of_succ_le hdepth) .unary rest le_rfl hstops
  show unary _ (.sign symbol :: (ts ++ rest)) = _
  rw [unary.eq_def]
  rcases hsign with ⟨rfl, rfl⟩ | ⟨rfl, rfl⟩
  · simp only [if_true, hoperand, Option.map_some]
  · simp only [String.reduceEq, if_true, if_false, hoperand, Option.map_some]

theorem ParsesAs.negate (h : ParsesAs ts tree .unary) :
    ParsesAs (.sign "-" :: ts) (.negate tree) .unary :=
  h.signed (.inl ⟨rfl, rfl⟩)

theorem ParsesAs.cast {type : String} (htype : type ∈ typeWords) (h : ParsesAs ts tree .unary) :
    ParsesAs (.sign "(" :: .word type :: .sign ")" :: ts) (.cast type tree) .unary := by
  refine parsesAs_of_layer fun depth hdepth rest hstops => ?_
  have hoperand : unary (expression depth) (ts ++ rest) = some (tree, rest) := by
    simp only [length_cons] at hdepth
    exact h depth (by omega) .unary rest le_rfl hstops
  show unary _ (.sign "(" :: .word type :: .sign ")" :: (ts ++ rest)) = _
  rw [unary.eq_def]
  simp only [String.reduceEq, if_false, htype, and_self, if_true, hoperand, Option.map_some]

/-! ## Operators between operands -/

/-- The signs of a level whose operators group from the left. -/
def chainSymbols : Precedence → List String
  | .multiplicative => ["*", "/"]
  | .additive => ["+", "-"]
  | .equality => ["==", "!="]
  | .conjunction => ["&&"]
  | .disjunction => ["||"]
  | _ => []

theorem layer_eq_chained (inner : Parser) (h : chainSymbols level ≠ []) :
    layer inner level = chained (chainSymbols level) (layer inner level.tighter) := by
  cases level with
  | multiplicative | additive | equality | conjunction | disjunction => rfl
  | _ => exact absurd rfl h

theorem chainSymbols_continuing (h : symbol ∈ chainSymbols level) :
    (symbol, level) ∈ continuing := by
  revert symbol
  cases level <;> decide

/-- Tokens that are read as the tree so far in the layer of operators that group from the left. -/
def SpineAs (ts : List Token) (tree : Tree) (level : Precedence) : Prop :=
  ∀ depth, ts.length ≤ depth → ∀ rest, Stops level.tighter rest →
    layer (expression depth) level (ts ++ rest) =
      chain (chainSymbols level) (layer (expression depth) level.tighter) tree rest

/-- What is read in a tighter layer is the first operand of a chain. -/
theorem ParsesAs.spineAs {tight level : Precedence} (h : ParsesAs ts tree tight)
    (hlevel : chainSymbols level ≠ []) (hrank : tight.rank ≤ level.tighter.rank) :
    SpineAs ts tree level := by
  intro depth hdepth rest hstops
  rw [layer_eq_chained _ hlevel, chained, h depth hdepth _ rest hrank hstops]
  rfl

/-- One more operand prolongs a chain. -/
theorem SpineAs.binary {left right : List Token} {l r : Tree} (hleft : SpineAs left l level)
    (hright : ParsesAs right r level.tighter) (hsymbol : symbol ∈ chainSymbols level) :
    SpineAs (left ++ .sign symbol :: right) (.binary symbol l r) level := by
  intro depth hdepth rest hstops
  simp only [length_append, length_cons] at hdepth
  have hrank : level.tighter.rank < level.rank := by
    have htighter := Precedence.rank_tighter level
    have hpos : 0 < level.rank := by
      cases level with
      | atomic => simp [chainSymbols] at hsymbol
      | _ => decide
    omega
  have hbefore : Stops level.tighter (.sign symbol :: (right ++ rest)) :=
    stops_operator _ (chainSymbols_continuing hsymbol) hrank
  have hoperand := hright depth (by omega) level.tighter rest le_rfl hstops
  rw [append_assoc, cons_append, hleft depth (by omega) _ hbefore]
  exact chain_sign hsymbol hoperand (by simp)

/-- A chain that nothing continues is read as a whole. -/
theorem SpineAs.parsesAs (h : SpineAs ts tree level) : ParsesAs ts tree level := by
  refine parsesAs_of_layer fun depth hdepth rest hstops => ?_
  have htighter := Precedence.rank_tighter level
  rw [h depth hdepth rest (hstops.mono (by omega))]
  exact chain_of_notMem (hstops.notMem fun _ => chainSymbols_continuing)

theorem ParsesAs.relational {left right : List Token} {l r : Tree}
    (hleft : ParsesAs left l .additive) (hright : ParsesAs right r .additive)
    (hsymbol : symbol ∈ ["<", "<=", ">", ">="]) :
    ParsesAs (left ++ .sign symbol :: right) (.binary symbol l r) .relational := by
  refine parsesAs_of_layer fun depth hdepth rest hstops => ?_
  simp only [length_append, length_cons] at hdepth
  have hlevel : ∀ s ∈ ["<", "<=", ">", ">="], (s, .relational) ∈ continuing := by decide
  have hbefore : Stops .additive (.sign symbol :: (right ++ rest)) :=
    stops_operator _ (hlevel symbol hsymbol) (by decide)
  have hfirst : additive (expression depth) (left ++ .sign symbol :: (right ++ rest)) = _ :=
    hleft depth (by omega) .additive _ le_rfl hbefore
  have hsecond : additive (expression depth) (right ++ rest) = _ :=
    hright depth (by omega) .additive rest le_rfl (hstops.mono (by decide))
  show Grammar.relational _ _ = _
  rw [append_assoc, cons_append, Grammar.relational, unchained, hfirst]
  simp only [hsymbol, if_true, hsecond, Option.map_some]

theorem ParsesAs.conditional {test yes no : List Token} {t y n : Tree}
    (htest : ParsesAs test t .disjunction) (hyes : ParsesAs yes y .conditional)
    (hno : ParsesAs no n .conditional) :
    ParsesAs (test ++ .sign "?" :: (yes ++ .sign ":" :: no)) (.conditional t y n)
      .conditional := by
  refine parsesAs_of_layer fun depth hdepth rest hstops => ?_
  simp only [length_append, length_cons] at hdepth
  have hlevel : ("?", .conditional) ∈ continuing := by decide
  have hfirst : disjunction (expression depth)
      (test ++ .sign "?" :: (yes ++ .sign ":" :: (no ++ rest))) = _ :=
    htest depth (by omega) .disjunction _ le_rfl (stops_operator _ hlevel (by decide))
  have hsecond : expression depth (yes ++ .sign ":" :: (no ++ rest)) = _ :=
    hyes.inBrackets le_rfl (by omega) (stops_close (by decide) _ _)
  have hthird : expression depth (no ++ rest) = _ :=
    hno.inBrackets le_rfl (by omega) hstops
  show choice _ _ _ = _
  simp only [append_assoc, cons_append]
  rw [choice, hfirst]
  simp only [if_true, hsecond, hthird, Option.map_some]

/-! ## Literals, names, lists and calls -/

variable {found : Tree × List Token}

/-- A token that is an expression by itself, with members and calls behind it. -/
theorem layer_of_primary {token : Token} (rest : List Token)
    (hsign : ∀ symbol, token ≠ .sign symbol)
    (h : primary inner (token :: rest) = some (tree, rest))
    (hsuffixes : suffixes inner tree rest = some found) :
    layer inner .atomic (token :: rest) = some found := by
  show unary inner (token :: rest) = _
  rw [unary.eq_def]
  cases token with
  | sign symbol => exact absurd rfl (hsign symbol)
  | _ =>
    show member inner _ = _
    rw [member, h]
    exact hsuffixes

theorem parsesAs_number (literal : String) : ParsesAs [.number literal] (.number literal) .atomic :=
  parsesAs_of_layer fun _ _ rest hstops =>
    layer_of_primary rest (by simp) rfl (suffixes_of_stops hstops)

theorem parsesAs_text (content : String) : ParsesAs [.text content] (.text content) .atomic :=
  parsesAs_of_layer fun _ _ rest hstops =>
    layer_of_primary rest (by simp) rfl (suffixes_of_stops hstops)

theorem parsesAs_word (word : String) : ParsesAs [.word word] (.name word) .atomic :=
  parsesAs_of_layer fun _ _ rest hstops =>
    layer_of_primary rest (by simp) rfl (suffixes_of_stops hstops)

theorem suffixes_members (left : Tree) (members : List String) (rest : List Token) :
    suffixes inner left ((members.flatMap fun word => [.sign ".", .word word]) ++ rest) =
      suffixes inner (members.foldl .member left) rest := by
  induction members generalizing left with
  | nil => rfl
  | cons word members ih =>
    rw [flatMap_cons, append_assoc, cons_append, cons_append, nil_append, suffixes.eq_def]
    simp only [if_true]
    exact ih (.member left word)

variable {code : String}

/-- A name with points in it is read before what follows it. -/
theorem layer_pathTokens (rest : List Token)
    (h : suffixes inner (pathTree code) rest = some found) :
    layer inner .atomic (pathTokens code ++ rest) = some found := by
  obtain ⟨first, members, hwords⟩ := exists_pathWords code
  simp only [pathTokens, pathTree, hwords, map_cons] at h ⊢
  exact layer_of_primary _ (by simp) rfl ((suffixes_members _ _ rest).trans h)

theorem parsesAs_path (code : String) : ParsesAs (pathTokens code) (pathTree code) .atomic :=
  parsesAs_of_layer fun _ _ rest hstops => layer_pathTokens rest (suffixes_of_stops hstops)

structure Parses (e : Expr) : Prop where
  parsesAs : ParsesAs e.tokens e.tree e.level
  opens : Opens e.tokens
  level_le : e.level.rank ≤ Precedence.conditional.rank
  /-- A chain is read from the left in its own layer. -/
  spine : chainSymbols e.level ≠ [] → SpineAs e.tokens e.tree e.level

theorem Parses.wrap (h : Parses e) (place : Precedence) :
    ParsesAs (wrapTokens e.tokens e.level place) e.tree place :=
  h.parsesAs.wrap h.level_le h.opens place

theorem Parses.wrapTokens_comma (h : Parses e) : wrapTokens e.tokens e.level .comma = e.tokens := by
  have hrank : e.level.rank ≤ Precedence.comma.rank := Nat.le_trans h.level_le (by decide)
  simp [wrapTokens, Precedence.needsParens, Nat.not_lt.2 hrank]

theorem items_itemTokens {close : String} (hclose : close = ")" ∨ close = "]") {e : Expr}
    {more : List Expr} (h : ∀ item ∈ e :: more, Parses item) {depth : Nat}
    (hdepth : (itemTokens (e :: more)).length < depth) (rest : List Token) :
    items (expression depth) close (itemTokens (e :: more) ++ .sign close :: rest) =
      some (trees (e :: more), rest) := by
  induction more generalizing e with
  | nil =>
    have he := h e mem_cons_self
    have hmem : close ∈ [")", "]", ",", ":"] := by
      rcases hclose with rfl | rfl <;> decide
    rw [itemTokens, he.wrapTokens_comma] at hdepth ⊢
    rw [items.eq_def, he.parsesAs.inBrackets he.level_le hdepth (stops_close hmem _ _)]
    simp [trees]
  | cons next more ih =>
    have he := h e mem_cons_self
    have hmore := ih (forall_mem_cons.1 h).2
    rw [itemTokens, he.wrapTokens_comma] at hdepth ⊢
    simp only [length_append, length_cons] at hdepth
    have hcomma : "," ≠ close := by rcases hclose with rfl | rfl <;> decide
    rw [append_assoc, cons_append, items.eq_def,
      he.parsesAs.inBrackets he.level_le (by omega) (stops_close (by decide) _ _)]
    simp only [hcomma, if_false, true_and]
    rw [if_pos (by simp only [length_append, length_cons]; omega), hmore (by omega)]
    simp [trees]

theorem opens_itemTokens (h : Parses e) (more : List Expr) : Opens (itemTokens (e :: more)) := by
  cases more with
  | nil => exact opens_wrapTokens h.opens _ _
  | cons next more => exact opens_append (opens_wrapTokens h.opens _ _) _

theorem arguments_itemTokens {close : String} (hclose : close = ")" ∨ close = "]")
    {arguments : List Expr} (h : ∀ argument ∈ arguments, Parses argument) {depth : Nat}
    (hdepth : (itemTokens arguments).length < depth) (rest : List Token) :
    Grammar.arguments (expression depth) close
        (itemTokens arguments ++ .sign close :: rest) =
      some (trees arguments, rest) := by
  unfold Grammar.arguments
  cases arguments with
  | nil => simp [itemTokens, trees]
  | cons e more =>
    obtain ⟨token, hhead, -, hopen⟩ := opens_itemTokens (h e mem_cons_self) more
    have hne : token ≠ .sign close := by
      rintro rfl
      rcases hclose with rfl | rfl <;> simp at hopen
    rw [if_neg (by simpa [head?_append, hhead] using hne)]
    exact items_itemTokens hclose h hdepth rest

theorem suffixes_call {arguments : List Expr} (h : ∀ argument ∈ arguments, Parses argument)
    (hdepth : (itemTokens arguments).length < depth) (left : Tree) (hstops : Stops level rest) :
    suffixes (expression depth) left (inParens (itemTokens arguments) ++ rest) =
      some (.call left (trees arguments), rest) := by
  simp only [inParens, cons_append, append_assoc, nil_append]
  rw [suffixes.eq_def]
  simp only [String.reduceEq, if_false, if_true]
  rw [arguments_itemTokens (.inl rfl) h hdepth]
  simp only
  rw [if_pos (by simp only [length_append, length_cons]; omega)]
  exact suffixes_of_stops hstops

theorem layer_list {items : List Expr} (h : ∀ item ∈ items, Parses item)
    (hdepth : (Expr.itemTokens items).length < depth) (rest : List Token) :
    layer (expression depth) .atomic ((Expr.list items).tokens ++ rest) =
      suffixes (expression depth) (.list (Expr.trees items)) rest := by
  have hunary : ∀ ts, unary (expression depth) (.sign "[" :: ts) =
      member (expression depth) (.sign "[" :: ts) := by
    intro ts
    rw [unary.eq_def]
    simp only [String.reduceEq, if_false, false_and]
    split <;> rfl
  show unary _ _ = _
  simp only [Expr.tokens, cons_append, append_assoc, nil_append]
  rw [hunary, member]
  simp only [primary, String.reduceEq, if_false, if_true,
    arguments_itemTokens (.inr rfl) h hdepth, Option.map_some, Option.bind_some]

/-! ## The round trip -/

theorem opens_pathTokens (h : IsPath code) : Opens (pathTokens code) := by
  obtain ⟨first, members, hwords⟩ := exists_pathWords code
  rw [pathTokens, hwords]
  refine ⟨.word (String.ofList first), rfl, ?_, by simp⟩
  simpa using h.2 first (by simp [hwords])

theorem parsesAs_magnitude (h : IsMagnitude code) :
    ParsesAs (magnitudeTokens code) (magnitudeTree code) .atomic ∧
      Opens (magnitudeTokens code) := by
  rcases magnitude_cases h with ⟨-, htree, htokens⟩ | ⟨h, htree, htokens⟩
  · rw [htree, htokens]
    exact ⟨parsesAs_number code, _, rfl, by simp, by simp⟩
  · rw [htree, htokens]
    exact ⟨parsesAs_path code, opens_pathTokens h⟩

/-- The left operand of a chain is read in the layer of the chain. -/
theorem Parses.spine_wrap (h : Parses e) (hlevel : chainSymbols level ≠ []) :
    SpineAs (wrapTokens e.tokens e.level level) e.tree level := by
  unfold wrapTokens Precedence.needsParens
  split
  · exact (h.parsesAs.inParens h.level_le h.opens).spineAs hlevel (Nat.zero_le _)
  · next hrank =>
    have hle : e.level.rank ≤ level.rank := by simpa using hrank
    by_cases heq : e.level = level
    · exact heq ▸ h.spine (heq ▸ hlevel)
    · have hne : e.level.rank ≠ level.rank := fun hrank => heq (Precedence.rank_inj hrank)
      exact h.parsesAs.spineAs hlevel (by rw [Precedence.rank_tighter]; omega)

/-- What stands on either side of an operator. -/
theorem operator_cases {operator : Operator} (h : operator ∈ Operator.all) :
    (operator.leftContext = operator.level ∧ operator.symbol ∈ chainSymbols operator.level ∧
        operator.level.rank ≤ Precedence.conditional.rank) ∨
      (operator.leftContext = .additive ∧ operator.level = .relational ∧
        operator.symbol ∈ ["<", "<=", ">", ">="]) := by
  revert operator
  decide

/-- Where no operators group from the left there is no chain. -/
theorem Parses.ofLevel (level : Precedence) (hlevel : e.level = level)
    (hnone : level.rank ≤ Precedence.conditional.rank ∧ chainSymbols level = [])
    (h : ParsesAs e.tokens e.tree level) (hopens : Opens e.tokens) : Parses e := by
  subst hlevel
  exact ⟨h, hopens, hnone.1, fun hne => absurd hnone.2 hne⟩

/-- The tokens of an expression are parsed to its tree. -/
theorem parses (h : Readable e) : Parses e := by
  induction h with
  | @number literal h =>
    cases hminus : Expr.startsWithMinus literal with
    | true =>
      refine Parses.ofLevel .unary ?_ (by decide) ?_ ?_ <;>
        simp only [Expr.tokens, Expr.tree, Expr.level, hminus, if_true]
      · exact ((parsesAs_magnitude h).1.mono (Nat.zero_le _)).negate
      · exact opens_sign (by decide) _
    | false =>
      refine Parses.ofLevel .atomic ?_ (by decide) ?_ ?_ <;>
        simp only [Expr.tokens, Expr.tree, Expr.level, hminus, Bool.false_eq_true, if_false]
      · exact (parsesAs_magnitude h).1
      · exact (parsesAs_magnitude h).2
  | text h content =>
    exact Parses.ofLevel .atomic rfl (by decide) (parsesAs_text content) ⟨_, rfl, by simp, by simp⟩
  | @name word h htype =>
    exact Parses.ofLevel .atomic rfl (by decide) (parsesAs_word word)
      ⟨_, rfl, by simpa using htype, by simp⟩
  | @path code h =>
    exact Parses.ofLevel .member rfl (by decide) ((parsesAs_path code).mono (Nat.zero_le _))
      (opens_pathTokens h)
  | list h ih =>
    refine Parses.ofLevel .atomic rfl (by decide) ?_ (opens_sign (by decide) _)
    refine parsesAs_of_layer fun depth hdepth rest hstops => ?_
    simp only [Expr.tokens, length_cons, length_append] at hdepth
    exact (layer_list ih (by omega) rest).trans (suffixes_of_stops hstops)
  | @call function arguments hfunction h ih =>
    refine Parses.ofLevel .member rfl (by decide) ?_ (opens_append (opens_pathTokens hfunction) _)
    refine parsesAs_of_layer fun depth hdepth rest hstops => ?_
    simp only [Expr.tokens, Expr.inParens, length_cons, length_append] at hdepth
    rw [Expr.tokens, append_assoc]
    exact layer_pathTokens _ (suffixes_call ih (by omega) _ hstops)
  | @method items arguments member hitems hmember h ihitems ih =>
    have htokens : (Expr.method (.list items) member arguments).tokens =
        (Expr.list items).tokens ++ (.sign "." :: .word member ::
          Expr.inParens (Expr.itemTokens arguments)) := by
      simp [Expr.tokens, Expr.wrapTokens, Expr.level, Precedence.needsParens, Precedence.rank]
    refine Parses.ofLevel .member rfl (by decide) ?_ (htokens ▸ opens_sign (by decide) _)
    refine parsesAs_of_layer fun depth hdepth rest hstops => ?_
    rw [htokens] at hdepth ⊢
    simp only [Expr.tokens, Expr.inParens, length_cons, length_append] at hdepth
    rw [append_assoc]
    refine (layer_list ihitems (by omega) _).trans ?_
    simp only [cons_append]
    rw [suffixes.eq_def]
    simp only [if_true]
    exact suffixes_call ih (by omega) _ hstops
  | negate h ih =>
    refine Parses.ofLevel .unary rfl (by decide) ?_ (opens_sign (by decide) _)
    unfold Expr.tokens Expr.withMinusTokens
    have hoperand := ih.wrap .unary
    split
    · exact ((hoperand.inParens (by decide) (opens_wrapTokens ih.opens _ _)).mono
        (Nat.zero_le _)).negate
    · exact hoperand.negate
  | not h ih =>
    exact Parses.ofLevel .unary rfl (by decide) ((ih.wrap .unary).signed (.inr ⟨rfl, rfl⟩))
      (opens_sign (by decide) _)
  | cast htype h ih =>
    exact Parses.ofLevel .unary rfl (by decide) ((ih.wrap .unary).cast htype)
      (opens_sign (by decide) _)
  | @binary operator left right hoperator hleft hright ihleft ihright =>
    have hopens : Opens (Expr.binary operator left right).tokens :=
      opens_append (opens_wrapTokens ihleft.opens _ _) _
    rcases operator_cases hoperator with ⟨hcontext, hsymbol, hrank⟩ | ⟨hcontext, hlevel, hsymbol⟩
    · have hchain : chainSymbols operator.level ≠ [] := ne_nil_of_mem hsymbol
      have hspine : SpineAs (Expr.binary operator left right).tokens
          (Expr.binary operator left right).tree operator.level := by
        rw [Expr.tokens, hcontext]
        exact (ihleft.spine_wrap hchain).binary (ihright.wrap _) hsymbol
      exact ⟨hspine.parsesAs, hopens, hrank, fun _ => hspine⟩
    · refine Parses.ofLevel .relational hlevel (by decide) ?_ hopens
      rw [Expr.tokens, hcontext, Operator.rightContext, hlevel]
      exact (ihleft.wrap _).relational (ihright.wrap _) hsymbol
  | conditional htest hyes hno ihtest ihyes ihno =>
    exact Parses.ofLevel .conditional rfl (by decide)
      ((ihtest.wrap _).conditional (ihyes.wrap _) (ihno.wrap _))
      (opens_append (opens_wrapTokens ihtest.opens _ _) _)

theorem read_print (h : Readable e) : Grammar.read e.print = some e.tree := by
  have htokens : Grammar.tokens e.print.toList = some e.tokens :=
    tokens_of_reads (readsAsTokens h [] ends_nil)
  have hexpression : expression (e.tokens.length + 1) e.tokens = some (e.tree, []) := by
    have := (parses h).parsesAs.inBrackets (parses h).level_le (Nat.lt_succ_self _) (stops_nil _)
    simpa using this
  simp [Grammar.read, htokens, parse, hexpression]

end RobotBlocks
