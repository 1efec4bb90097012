import Mathlib.Tactic.SplitIfs
import RobotBlocks.Identifier
import RobotBlocks.Proofs.Lists
import RobotBlocks.Text.Basic

/-!
# Tokens

The lexical grammar that both targets have in common. A text falls into numbers, quoted texts, words
and signs, each as long as possible: two minus signs without a space between them are one sign. The
table of signs has those of either target, the starts of comments among them, so that no sign is
taken for two shorter ones.

`Reads cs ts rest` says that the characters `cs` give the tokens `ts` where `rest` follows. Such
pieces are put together by `Reads.append`; there is one lemma for each kind of token, with what must
not follow it.
-/

set_option autoImplicit false

namespace RobotBlocks.Grammar

open List
open Identifier (isIdentifierChar)

variable {cs rest : List Char} {symbol : String} {mark : Char}

inductive Token where
  /-- A number without a sign, as it is written. -/
  | number (literal : String)
  /-- A quoted text, with what it stands for. -/
  | text (content : String)
  /-- An identifier or a word of the language. -/
  | word (name : String)
  | sign (symbol : String)
  deriving DecidableEq, Repr

/-! ## The lexical grammar -/

/-- The signs of either target, the longer ones first. -/
def signs : List String :=
  [">>>=",
   "===", "!==", "...", ">>>", "<<=", ">>=", "**=", "&&=", "||=",
   "==", "!=", "<=", ">=", "&&", "||", "++", "--", "+=", "-=", "*=", "/=", "%=", "&=", "|=", "^=",
   "<<", ">>", "->", "=>", "::", "**", "??", "?.", "//", "/*",
   "+", "-", "*", "/", "%", "<", ">", "=", "!", "&", "|", "^", "~", "?", ":", ",", ".", ";", "@",
   "(", ")", "[", "]"]

/-- The longest sign at the front, and what follows it. -/
def sign? (cs : List Char) : Option (String × List Char) :=
  (signs.find? (fun symbol => symbol.toList.isPrefixOf cs)).map fun symbol =>
    (symbol, cs.drop symbol.length)

/-- The digits at the front, and what follows them. -/
def spanDigits (cs : List Char) : List Char × List Char :=
  (cs.takeWhile Char.isDigit, cs.dropWhile Char.isDigit)

/-- A point with digits behind it, if there is one at the front. -/
def spanFraction : List Char → List Char × List Char
  | '.' :: rest =>
    match spanDigits rest with
    | ([], _) => ([], '.' :: rest)
    | (digits, tail) => ('.' :: digits, tail)
  | cs => ([], cs)

/-- The sign of an exponent, if there is one at the front. -/
def spanExponentSign : List Char → List Char × List Char
  | '-' :: rest => (['-'], rest)
  | '+' :: rest => (['+'], rest)
  | cs => ([], cs)

/-- An exponent, if there is one at the front. -/
def spanExponent : List Char → List Char × List Char
  | 'e' :: rest =>
    match spanDigits (spanExponentSign rest).2 with
    | ([], _) => ([], 'e' :: rest)
    | (digits, tail) => ('e' :: (spanExponentSign rest).1 ++ digits, tail)
  | cs => ([], cs)

/-- The longest number at the front, and what follows it. -/
def spanNumber (cs : List Char) : List Char × List Char :=
  let (whole, rest) := spanDigits cs
  let (fraction, rest) := spanFraction rest
  let (exponent, rest) := spanExponent rest
  (whole ++ fraction ++ exponent, rest)

/-- The character that a character behind a backslash stands for. -/
def unescaped? : Char → Option Char
  | 'n' => some '\n'
  | 'r' => some '\r'
  | 't' => some '\t'
  | '\\' => some '\\'
  | '\'' => some '\''
  | '"' => some '"'
  | _ => none

/-- What stands before the mark that ends a quoted text, and what follows that mark. A quoted text
stays within its line. -/
def quoted? (mark : Char) : List Char → Option (List Char × List Char)
  | [] => none
  | '\\' :: [] => none
  | '\\' :: c :: rest =>
    match unescaped? c, quoted? mark rest with
    | some c, some (content, tail) => some (c :: content, tail)
    | _, _ => none
  | c :: rest =>
    if c = mark then some ([], rest)
    else if c = '\n' ∨ c = '\r' then none
    else (quoted? mark rest).map fun (content, tail) => (c :: content, tail)

/-- The longest token at the front, and what follows it. -/
def token? : List Char → Option (Token × List Char)
  | [] => none
  | c :: rest =>
    if c.isDigit then
      let (literal, tail) := spanNumber (c :: rest)
      some (.number (String.ofList literal), tail)
    else if isIdentifierChar c then
      some (.word (String.ofList ((c :: rest).takeWhile isIdentifierChar)),
        (c :: rest).dropWhile isIdentifierChar)
    else if c = '\'' ∨ c = '"' then
      (quoted? c rest).map fun (content, tail) => (.text (String.ofList content), tail)
    else (sign? (c :: rest)).map fun (symbol, tail) => (.sign symbol, tail)

/-- The tokens of a text. Spaces only separate them. -/
def tokens (cs : List Char) : Option (List Token) :=
  match cs with
  | [] => some []
  | c :: rest =>
    if c = ' ' then tokens rest
    else
      match token? (c :: rest) with
      | some (token, tail) =>
        if tail.length < (c :: rest).length then (tokens tail).map (token :: ·) else none
      | none => none
termination_by cs.length
decreasing_by
  · exact Nat.lt_succ_self _
  · assumption

/-! ## Pieces of a text -/

/-- The characters `cs` give the tokens `ts` where `rest` follows. -/
def Reads (cs : List Char) (ts : List Token) (rest : List Char) : Prop :=
  tokens (cs ++ rest) = (tokens rest).map (ts ++ ·)

theorem Reads.nil (rest : List Char) : Reads [] [] rest := by
  simp [Reads]

variable {cs rest : List Char}

theorem Reads.append {cs' : List Char} {ts ts' : List Token} (h : Reads cs ts (cs' ++ rest))
    (h' : Reads cs' ts' rest) : Reads (cs ++ cs') (ts ++ ts') rest := by
  unfold Reads at h h' ⊢
  rw [append_assoc, h, h', Option.map_map]
  congr 1
  funext more
  exact (append_assoc ts ts' more).symm

theorem reads_space (rest : List Char) : Reads [' '] [] rest := by
  simp [Reads, tokens.eq_2]

theorem reads_of_token? {c : Char} {token : Token} (hc : c ≠ ' ')
    (h : token? (c :: cs ++ rest) = some (token, rest)) : Reads (c :: cs) [token] rest := by
  unfold Reads
  rw [cons_append, tokens.eq_2, if_neg hc, ← cons_append, h]
  simp only [length_append, length_cons]
  rw [if_pos (by omega)]
  rfl

theorem tokens_of_reads {ts : List Token} (h : Reads cs ts []) : tokens cs = some ts := by
  simpa [Reads, tokens.eq_1] using h

/-- Nothing follows, or a character that belongs to neither a number nor a word. -/
def Ends (rest : List Char) : Prop := ∀ c ∈ rest.head?, c ∈ [' ', ')', ']', ',']

theorem ends_nil : Ends [] := by simp [Ends]

theorem ends_cons {c : Char} (h : c ∈ [' ', ')', ']',
    ',']) : Ends (c :: rest) := by simpa [Ends] using h 
/-! ### Numbers -/

/-- One or more digits. -/
def IsDigits (cs : List Char) : Prop := cs ≠ [] ∧ ∀ c ∈ cs, c.isDigit = true

instance (cs : List Char) : Decidable (IsDigits cs) :=
  decidable_of_iff (cs ≠ [] ∧ cs.all Char.isDigit = true) (by simp [IsDigits])

/-- Nothing, or a point with digits behind it. -/
inductive IsFraction : List Char → Prop
  | absent : IsFraction []
  | digits {ds : List Char} (h : IsDigits ds) : IsFraction ('.' :: ds)

/-- Nothing, or an exponent. -/
inductive IsExponent : List Char → Prop
  | absent : IsExponent []
  | digits {ds : List Char} (h : IsDigits ds) : IsExponent ('e' :: ds)
  | negative {ds : List Char} (h : IsDigits ds) : IsExponent ('e' :: '-' :: ds)

/-- A number without a sign. -/
inductive IsNumber : List Char → Prop
  | intro {whole fraction exponent : List Char} (hwhole : IsDigits whole)
      (hfraction : IsFraction fraction) (hexponent : IsExponent exponent) :
      IsNumber (whole ++ fraction ++ exponent)

theorem spanDigits_append {ds : List Char} (h : IsDigits ds) (rest : List Char)
    (hrest : ∀ c ∈ rest.head?, c.isDigit = false) : spanDigits (ds ++ rest) = (ds, rest) := by
  obtain ⟨htake, hdrop⟩ := takeWhile_dropWhile_append h.2 hrest
  simp [spanDigits, htake, hdrop]

theorem spanExponentSign_of_isDigit (h : ∀ c ∈ cs.head?, c.isDigit = true) :
    spanExponentSign cs = ([], cs) := by
  unfold spanExponentSign
  split
  · exact absurd (h '-' rfl) (by decide)
  · exact absurd (h '+' rfl) (by decide)
  · rfl

theorem IsDigits.head {ds : List Char} (h : IsDigits ds) (rest : List Char) :
    ∀ c ∈ (ds ++ rest).head?, c.isDigit = true := by
  obtain ⟨hne, hdigit⟩ := h
  cases ds with
  | nil => exact absurd rfl hne
  | cons d ds =>
    intro c hc
    simp only [cons_append, head?_cons, Option.mem_def, Option.some.injEq] at hc
    exact hc ▸ hdigit d mem_cons_self

theorem spanFraction_append {fraction : List Char} (h : IsFraction fraction) (rest : List Char)
    (hrest : ∀ c ∈ rest.head?, (c.isDigit || c = '.') = false) :
    spanFraction (fraction ++ rest) = (fraction, rest) := by
  have hdigit : ∀ c ∈ rest.head?, c.isDigit = false := fun c hc => by
    simpa using (Bool.or_eq_false_iff.1 (hrest c hc)).1
  cases h with
  | absent =>
    cases rest with
    | nil => rfl
    | cons c rest =>
      have hc : c ≠ '.' := by simpa using (Bool.or_eq_false_iff.1 (hrest c rfl)).2
      unfold spanFraction
      split
      · exact absurd (List.cons.inj ‹_›).1 hc
      · rfl
  | @digits ds h =>
    obtain ⟨d, ds, rfl⟩ := exists_cons_of_ne_nil h.1
    simp only [cons_append, spanFraction]
    rw [← cons_append, spanDigits_append h rest hdigit]

theorem spanExponent_append {exponent : List Char} (h : IsExponent exponent) (rest : List Char)
    (hrest : ∀ c ∈ rest.head?, (c.isDigit || c = 'e') = false) :
    spanExponent (exponent ++ rest) = (exponent, rest) := by
  have hdigit : ∀ c ∈ rest.head?, c.isDigit = false := fun c hc => by
    simpa using (Bool.or_eq_false_iff.1 (hrest c hc)).1
  cases h with
  | absent =>
    cases rest with
    | nil => rfl
    | cons c rest =>
      have hc : c ≠ 'e' := by simpa using (Bool.or_eq_false_iff.1 (hrest c rfl)).2
      unfold spanExponent
      split
      · exact absurd (List.cons.inj ‹_›).1 hc
      · rfl
  | @digits ds h =>
    have hsign := spanExponentSign_of_isDigit (h.head rest)
    obtain ⟨d, ds, rfl⟩ := exists_cons_of_ne_nil h.1
    simp only [cons_append, spanExponent] at hsign ⊢
    rw [hsign, ← cons_append, spanDigits_append h rest hdigit]
    rfl
  | @negative ds h =>
    obtain ⟨d, ds, rfl⟩ := exists_cons_of_ne_nil h.1
    simp only [cons_append, spanExponent, spanExponentSign]
    rw [← cons_append, spanDigits_append h rest hdigit]
    rfl

theorem Ends.of_all {p : Char → Bool} (hp : [' ', ')', ']', ','].all (fun c => !p c) = true)
    {rest : List Char} (h : Ends rest) : ∀ c ∈ rest.head?, p c = false :=
  fun c hc => by simpa using all_eq_true.1 hp c (h c hc)

/-- What follows a part of a number is the next part or, if that is absent, what follows the
number. -/
theorem head?_append_eq_false {p : Char → Bool} (h : ∀ c ∈ cs.head?, p c = false)
    (hrest : ∀ c ∈ rest.head?, p c = false) : ∀ c ∈ (cs ++ rest).head?, p c = false := by
  cases cs with
  | nil => exact hrest
  | cons c cs => exact h

theorem spanNumber_append (h : IsNumber cs) (hrest : Ends rest) :
    spanNumber (cs ++ rest) = (cs, rest) := by
  obtain ⟨hwhole, hfraction, hexponent⟩ := h
  rename_i whole fraction exponent
  have hexponentHead : ∀ c ∈ exponent.head?, (c.isDigit || c = '.') = false := by
    cases hexponent <;> simp [Option.mem_def]
  have hfractionHead : ∀ c ∈ fraction.head?, c.isDigit = false := by
    cases hfraction <;> simp [Option.mem_def]
  have hexponentDigit : ∀ c ∈ exponent.head?, c.isDigit = false := fun c hc => by
    simpa using (Bool.or_eq_false_iff.1 (hexponentHead c hc)).1
  have hdigits := spanDigits_append hwhole (fraction ++ (exponent ++ rest))
    (head?_append_eq_false hfractionHead
      (head?_append_eq_false hexponentDigit (hrest.of_all (by decide))))
  have hpoint := spanFraction_append hfraction (exponent ++ rest)
    (head?_append_eq_false hexponentHead (hrest.of_all (by decide)))
  have hpower := spanExponent_append hexponent rest (hrest.of_all (by decide))
  unfold spanNumber
  simp only [append_assoc, hdigits, hpoint, hpower]

theorem reads_number (h : IsNumber cs) (hrest : Ends rest) :
    Reads cs [.number (String.ofList cs)] rest := by
  have hspan := spanNumber_append h hrest
  have hhead : ∀ c ∈ cs.head?, c.isDigit = true := by
    obtain ⟨hwhole, -, -⟩ := h
    rw [append_assoc]
    exact hwhole.head _
  have hne : cs ≠ [] := by
    obtain ⟨hwhole, -, -⟩ := h
    simp [hwhole.1]
  obtain ⟨c, cs, rfl⟩ := exists_cons_of_ne_nil hne
  have hc : c.isDigit = true := hhead c rfl
  refine reads_of_token? (fun hspace => by simp [hspace] at hc) ?_
  rw [cons_append] at hspan ⊢
  simp only [token?, hc, if_true, hspan]

/-! ### Words, quoted texts and signs -/

/-- A word: characters of identifiers, the first of them no digit. -/
structure IsWord (cs : List Char) : Prop where
  ne_nil : cs ≠ []
  chars : ∀ c ∈ cs, isIdentifierChar c = true
  head : ∀ c ∈ cs.head?, c.isDigit = false

theorem isWord_iff :
    IsWord cs ↔ cs ≠ [] ∧ cs.all isIdentifierChar = true ∧
      cs.head?.all (fun c => !c.isDigit) = true := by
  rw [all_eq_true, Option.all_eq_true]
  constructor
  · intro h
    exact ⟨h.ne_nil, h.chars, fun c hc => by simpa using h.head c hc⟩
  · rintro ⟨hne, hchars, hhead⟩
    exact ⟨hne, hchars, fun c hc => by simpa using hhead c hc⟩

instance (cs : List Char) : Decidable (IsWord cs) := decidable_of_iff _ isWord_iff.symm

theorem reads_word (h : IsWord cs) (hrest : ∀ c ∈ rest.head?, isIdentifierChar c = false) :
    Reads cs [.word (String.ofList cs)] rest := by
  obtain ⟨htake, hdrop⟩ := takeWhile_dropWhile_append h.chars hrest
  obtain ⟨c, cs, rfl⟩ := exists_cons_of_ne_nil h.ne_nil
  have hchar : isIdentifierChar c = true := h.chars c mem_cons_self
  have hdigit : c.isDigit = false := h.head c rfl
  refine reads_of_token? (fun hspace => by simp [hspace] at hchar; contradiction) ?_
  rw [cons_append] at htake hdrop ⊢
  simp only [token?, hdigit, hchar, htake, hdrop, if_true, Bool.false_eq_true, if_false]

section

variable (hmark : mark = '\'' ∨ mark = '"')

include hmark

theorem quoted?_escapeChar (c : Char) (rest : List Char) :
    quoted? mark (Text.escapeChar mark c ++ rest) =
      (quoted? mark rest).map fun (content, tail) => (c :: content, tail) := by
  have hmap : ∀ d : Char, unescaped? d = some c →
      quoted? mark ('\\' :: d :: rest) =
        (quoted? mark rest).map fun (content, tail) => (c :: content, tail) := by
    intro d hd
    rw [quoted?.eq_3, hd]
    cases quoted? mark rest <;> rfl
  unfold Text.escapeChar
  split_ifs with hbackslash hline hreturn htab hquote
  · exact hmap _ (by rw [hbackslash]; rfl)
  · exact hmap _ (by rw [hline]; rfl)
  · exact hmap _ (by rw [hreturn]; rfl)
  · exact hmap _ (by rw [htab]; rfl)
  · refine hmap _ ?_
    rcases hmark with rfl | rfl <;> rw [hquote] <;> rfl
  · rw [singleton_append, quoted?.eq_4 _ _ _ (by simp [hbackslash]) (by simp [hbackslash]),
      if_neg hquote, if_neg (by simp [hline, hreturn])]

theorem quoted?_flatMap_escapeChar (content rest : List Char) :
    quoted? mark (content.flatMap (Text.escapeChar mark) ++ mark :: rest) =
      some (content, rest) := by
  induction content with
  | nil => rcases hmark with rfl | rfl <;> simp [quoted?]
  | cons c content ih => simp [quoted?_escapeChar hmark, ih]

theorem reads_quote (content : String) (rest : List Char) :
    Reads (Text.quote mark content).toList [.text content] rest := by
  have hchars : (Text.quote mark content).toList =
      mark :: (content.toList.flatMap (Text.escapeChar mark) ++ [mark]) := by
    simp [Text.quote, Text.quoteChars]
  rw [hchars]
  have hquoted := quoted?_flatMap_escapeChar hmark content.toList rest
  rcases hmark with rfl | rfl <;>
  · refine reads_of_token? (by decide) ?_
    simp [token?, isIdentifierChar, hquoted]

end

/-- The characters that prolong a sign to another one, or to the beginning of another one. -/
def prolonging (symbol : String) : List Char :=
  signs.filterMap fun longer =>
    if symbol.toList <+: longer.toList then longer.toList[symbol.toList.length]? else none

theorem pairwise_signs :
    signs.Pairwise fun earlier later => later.length ≤ earlier.length ∧ earlier ≠ later := by
  decide

/-- The longest sign in front is the one that the following character does not prolong. -/
theorem sign?_append (hmem : symbol ∈ signs) (hrest : ∀ c ∈ rest.head?, c ∉ prolonging symbol) :
    sign? (symbol.toList ++ rest) = some (symbol, rest) := by
  obtain ⟨before, behind, hsigns⟩ := append_of_mem hmem
  have hpairwise := pairwise_signs
  rw [hsigns, pairwise_append] at hpairwise
  have hfind : signs.find? (fun s => s.toList.isPrefixOf (symbol.toList ++ rest)) = some symbol := by
    refine find?_eq_some_iff_append.2 ⟨by simp, before, behind, hsigns, ?_⟩
    intro longer hlonger
    obtain ⟨hlength, hne⟩ := hpairwise.2.2 longer hlonger symbol mem_cons_self
    rw [← String.length_toList, ← String.length_toList] at hlength
    rw [Bool.not_eq_true', Bool.eq_false_iff, Ne, isPrefixOf_iff_prefix]
    intro hprefix
    have hsymbol : symbol.toList <+: longer.toList :=
      prefix_of_prefix_length_le (prefix_append _ _) hprefix hlength
    obtain ⟨more, hmore⟩ := id hsymbol
    rw [← hmore, prefix_append_right_inj] at hprefix
    cases more with
    | nil => exact hne (String.toList_inj.1 (by simpa using hmore.symm))
    | cons c more =>
      obtain ⟨tail, htail⟩ := hprefix
      have hin : longer ∈ signs := by rw [hsigns]; exact mem_append_left _ hlonger
      refine hrest c (by simp [← htail]) (mem_filterMap.2 ⟨longer, hin, ?_⟩)
      rw [if_pos hsymbol, ← hmore, getElem?_append_right le_rfl]
      simp
  rw [sign?, hfind, Option.map_some, ← String.length_toList, drop_left]

/-- A sign is read by itself if the next character does not make it longer. -/
theorem reads_sign (hmem : symbol ∈ signs) (hrest : ∀ c ∈ rest.head?, c ∉ prolonging symbol) :
    Reads symbol.toList [.sign symbol] rest := by
  have hfirst : ∀ s ∈ signs, s.toList.head?.any (fun c => c ≠ ' ' ∧ c.isDigit = false ∧
      isIdentifierChar c = false ∧ c ≠ '\'' ∧ c ≠ '"') = true := by
    decide
  obtain ⟨c, hhead, hplain⟩ := (Option.any_eq_true _ _).1 (hfirst symbol hmem)
  obtain ⟨hspace, hdigit, hchar, hsingle, hdouble⟩ := of_decide_eq_true hplain
  have hsign := sign?_append hmem hrest
  cases hchars : symbol.toList with
  | nil => simp [hchars] at hhead
  | cons d cs =>
    obtain rfl : d = c := by simpa [hchars] using hhead
    refine reads_of_token? hspace ?_
    rw [hchars, cons_append] at hsign
    rw [cons_append]
    simp [token?, hdigit, hchar, hsingle, hdouble, hsign]

theorem reads_sign_space (hmem : symbol ∈ signs) (rest : List Char) :
    Reads symbol.toList [.sign symbol] (' ' :: rest) := by
  have hspace : ∀ s ∈ signs, ' ' ∉ prolonging s := by decide
  exact reads_sign hmem (by simpa using hspace symbol hmem)

/-- Brackets and commas are never part of a longer sign. -/
theorem reads_bracket (hmem : symbol ∈ ["(", ")", "[", "]", ","]) (rest : List Char) :
    Reads symbol.toList [.sign symbol] rest := by
  have hbracket : ∀ s ∈ ["(", ")", "[", "]", ","], s ∈ signs ∧ prolonging s = [] := by decide
  obtain ⟨hsign, hnone⟩ := hbracket symbol hmem
  exact reads_sign hsign (by simp [hnone])

end RobotBlocks.Grammar
