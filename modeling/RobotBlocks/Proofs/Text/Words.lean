import RobotBlocks.Proofs.Numeral.Literal
import RobotBlocks.Proofs.Render.Layout

/-!
# The words of a text

A word of a text is a longest run of characters of identifiers, wherever it stands: names are words,
numbers consist of words, and so do comments and quoted texts. Texts are put together from pieces, and
their words add up wherever a word ends (`words_append`). A piece that ends behind a word is closed.
-/

set_option autoImplicit false

namespace RobotBlocks.Text

open Grammar Identifier List

variable {soFar cs rest : List Char} {c : Char} {front back text : String}

/-- A word that some characters make up, if there are any. -/
def wordOf : List Char → List String
  | [] => []
  | c :: cs => [String.ofList (c :: cs)]

/-- The words that are read if some characters of the first one are read already. -/
def wordsFrom : List Char → List Char → List String
  | soFar, [] => wordOf soFar
  | soFar, c :: cs =>
    if isIdentifierChar c then wordsFrom (soFar ++ [c]) cs else wordOf soFar ++ wordsFrom [] cs

/-- The words of a text: the longest runs of characters of identifiers. -/
def words (text : String) : List String := wordsFrom [] text.toList

/-- No word goes on with the text. -/
def startsApart (text : String) : Bool := text.toList.head?.all fun c => !isIdentifierChar c

/-- No word goes on behind the text. -/
def endsApart (text : String) : Bool := text.toList.getLast?.all fun c => !isIdentifierChar c

/-- A text that separates others and has no words itself. -/
def isSign (text : String) : Bool := !text.isEmpty && text.toList.all fun c => !isIdentifierChar c

example : words "Math.max(5e3, color2.red) // \"Telemetry\"" =
    ["Math", "max", "5e3", "color2", "red", "Telemetry"] := by
  decide

/-! ## Texts behind one another -/

theorem wordsFrom_cons_apart (h : isIdentifierChar c = false) (soFar cs : List Char) :
    wordsFrom soFar (c :: cs) = wordOf soFar ++ wordsFrom [] cs := by
  rw [wordsFrom, h]
  rfl

/-- Characters of identifiers go on with a word. -/
theorem wordsFrom_append_run (h : ∀ c ∈ cs, isIdentifierChar c = true) (soFar rest : List Char) :
    wordsFrom soFar (cs ++ rest) = wordsFrom (soFar ++ cs) rest := by
  induction cs generalizing soFar with
  | nil => rw [nil_append, append_nil]
  | cons c cs ih =>
    obtain ⟨hc, hcs⟩ := forall_mem_cons.1 h
    rw [cons_append, wordsFrom, if_pos hc, ih hcs, append_assoc, singleton_append]

/-- A text that begins apart starts a word of its own. -/
theorem wordsFrom_append (h : ∀ c ∈ rest.head?, isIdentifierChar c = false) (soFar cs : List Char) :
    wordsFrom soFar (cs ++ rest) = wordsFrom soFar cs ++ wordsFrom [] rest := by
  induction cs generalizing soFar with
  | nil =>
    cases rest with
    | nil => exact (append_nil _).symm
    | cons c rest =>
      rw [nil_append, wordsFrom_cons_apart (h c rfl), wordsFrom_cons_apart (h c rfl)]
      rfl
  | cons c cs ih =>
    rw [cons_append, wordsFrom, wordsFrom]
    split
    · exact ih _
    · rw [ih, append_assoc]

/-- Words add up where one text ends or the other starts apart from words. -/
theorem words_append (h : endsApart front = true ∨ startsApart back = true) :
    words (front ++ back) = words front ++ words back := by
  unfold words
  rw [String.toList_append]
  rcases h with h | h
  · cases hlast : front.toList.getLast? with
    | none =>
      rw [getLast?_eq_none_iff.1 hlast]
      rfl
    | some c =>
      obtain ⟨chars, hchars⟩ := getLast?_eq_some_iff.1 hlast
      have hc : isIdentifierChar c = false := by simpa [endsApart, hlast] using h
      have happend := fun rest => @wordsFrom_append (c :: rest) (by simpa using hc) [] chars
      rw [hchars, append_assoc, singleton_append, happend, happend,
        wordsFrom_cons_apart hc, wordsFrom_cons_apart hc]
      simp [wordOf, wordsFrom]
  · refine wordsFrom_append (fun c hc => ?_) _ _
    simpa [startsApart, Option.mem_def.1 hc] using h

theorem endsApart_append (h : back ≠ "") : endsApart (front ++ back) = endsApart back := by
  have hback : back.toList.getLast?.isSome = true := by simpa using h
  rw [endsApart, String.toList_append, getLast?_append, endsApart]
  cases hlast : back.toList.getLast? with
  | none => simp [hlast] at hback
  | some c => rfl

/-- All words of a text are of a kind. -/
def Refers (P : String → Prop) (text : String) : Prop := ∀ word ∈ words text, P word

/-- All words of a text are of a kind, and no word goes on behind it. -/
structure Closed (P : String → Prop) (text : String) : Prop where
  refers : Refers P text
  apart : endsApart text = true

variable {P Q : String → Prop} {texts : List String}

theorem Refers.mono (h : Refers P text) (hsub : ∀ word, P word → Q word) : Refers Q text :=
  fun word hword => hsub word (h word hword)

theorem Closed.mono (h : Closed P text) (hsub : ∀ word, P word → Q word) : Closed Q text :=
  ⟨h.refers.mono hsub, h.apart⟩

theorem closed_empty : Closed P "" := ⟨forall_mem_nil _, rfl⟩

theorem Refers.append (hfront : Refers P front) (hback : Refers P back)
    (h : endsApart front = true ∨ startsApart back = true) : Refers P (front ++ back) := by
  rw [Refers, words_append h]
  exact forall_mem_append.2 ⟨hfront, hback⟩

theorem Closed.follow (hfront : Closed P front) (hback : Refers P back) : Refers P (front ++ back) :=
  hfront.refers.append hback (.inl hfront.apart)

theorem Refers.close (hfront : Refers P front) (hback : Closed P back) (h : startsApart back = true)
    (hne : back ≠ "") : Closed P (front ++ back) :=
  ⟨hfront.append hback.refers (.inr h), by rw [endsApart_append hne, hback.apart]⟩

theorem closed_of_isSign (h : isSign text = true) : Closed P text := by
  simp only [isSign, Bool.and_eq_true, all_eq_true, Bool.not_eq_true'] at h
  have hnone : ∀ cs : List Char, (∀ c ∈ cs, isIdentifierChar c = false) → wordsFrom [] cs = [] := by
    intro cs hcs
    induction cs with
    | nil => rfl
    | cons c cs ih =>
      obtain ⟨hc, hcs⟩ := forall_mem_cons.1 hcs
      rw [wordsFrom_cons_apart hc, ih hcs]
      rfl
  constructor
  · rw [Refers, words, hnone _ h.2]
    exact forall_mem_nil _
  · rw [endsApart, Option.all_eq_true]
    exact fun c hc => by rw [h.2 c (mem_of_getLast? hc)]; rfl

theorem Refers.sign (hfront : Refers P front) (h : isSign back = true) : Closed P (front ++ back) := by
  refine hfront.close (closed_of_isSign h) ?_ ?_
  · simp only [isSign, Bool.and_eq_true, all_eq_true] at h
    rw [startsApart, Option.all_eq_true]
    exact fun c hc => h.2 c (mem_of_head? hc)
  · rintro rfl
    cases h

theorem Closed.append (hfront : Closed P front) (hback : Closed P back) : Closed P (front ++ back) := by
  refine ⟨hfront.follow hback.refers, ?_⟩
  by_cases hempty : back = ""
  · rw [hempty, String.append_empty]
    exact hfront.apart
  · rw [endsApart_append hempty, hback.apart]

theorem Closed.join (h : ∀ text ∈ texts, Closed P text) : Closed P (String.join texts) := by
  induction texts with
  | nil => exact closed_empty
  | cons text rest ih =>
    rw [String.join_cons]
    exact (h text mem_cons_self).append (ih (forall_mem_cons.1 h).2)

theorem Refers.intercalate {separator : String} (hseparator : isSign separator = true)
    (h : ∀ text ∈ texts, Refers P text) : Refers P (separator.intercalate texts) := by
  induction texts with
  | nil => exact closed_empty.refers
  | cons first rest ih =>
    obtain ⟨hfirst, hrest⟩ := forall_mem_cons.1 h
    cases rest with
    | nil => exact hfirst
    | cons second rest =>
      rw [String.intercalate_cons_cons]
      exact (hfirst.sign hseparator).follow (ih hrest)

/-! ## Lines -/

theorem endsApart_of_ended (h : Ended text.toList) : endsApart text = true := by
  rcases h with h | h <;> rw [endsApart, h] <;> decide

/-- A text is read line by line. -/
theorem wordsFrom_eq_lines (soFar cs : List Char) :
    wordsFrom soFar cs = (lineChars cs).head?.elim (wordOf soFar) (wordsFrom soFar) ++
      (lineChars cs).tail.flatMap (wordsFrom []) := by
  have hlines : ∀ lines : List (List Char), (lines.head?.elim (wordOf []) (wordsFrom [])) ++
      lines.tail.flatMap (wordsFrom []) = lines.flatMap (wordsFrom []) := by
    rintro (_ | ⟨line, lines⟩) <;> rfl
  fun_induction lineChars cs generalizing soFar with
  | case1 => exact (append_nil _).symm
  | case2 rest ih =>
    rw [wordsFrom_cons_apart (by decide), ih, hlines]
    rfl
  | case3 rest ih =>
    rw [wordsFrom_cons_apart (by decide), wordsFrom_cons_apart (by decide), ih, hlines]
    rfl
  | case4 c rest hfeed hpair hrest ih =>
    obtain rfl := lineChars_eq_nil_iff.1 hrest
    simp
  | case5 c rest hfeed hpair line lines hrest ih =>
    rw [hrest] at ih
    simp only [head?_cons, Option.elim_some, tail_cons] at ih ⊢
    rw [wordsFrom, wordsFrom]
    split
    · exact ih _
    · rw [ih, append_assoc]

/-- Moving lines to the right changes no word. -/
theorem words_indent (text : String) : words (indent text) = words text := by
  have hline : ∀ line rest,
      wordsFrom [] (indentLine line ++ rest) = wordsFrom [] line ++ wordsFrom [] rest := by
    intro line rest
    have hfeed := @wordsFrom_append ('\n' :: rest) (by simp [isIdentifierChar]) [] line
    rw [wordsFrom_cons_apart (by decide)] at hfeed
    unfold indentLine
    split
    · next hempty =>
      rw [isEmpty_iff.1 hempty]
      exact wordsFrom_cons_apart (by decide) [] rest
    · rw [cons_append, cons_append, append_assoc, wordsFrom_cons_apart (by decide),
        wordsFrom_cons_apart (by decide)]
      exact hfeed
  have hlines : ∀ lines : List (List Char),
      wordsFrom [] (lines.flatMap indentLine) = lines.flatMap (wordsFrom []) := by
    intro lines
    induction lines with
    | nil => rfl
    | cons line lines ih => rw [flatMap_cons, flatMap_cons, hline, ih]
  rw [words, indent, String.toList_ofList, indentChars, hlines, words, wordsFrom_eq_lines]
  cases lineChars text.toList <;> rfl

theorem Refers.indent (h : Refers P text) : Closed P (indent text) where
  refers := by
    rw [Refers, words_indent]
    exact h
  apart := endsApart_of_ended (ended_indent text)

/-! ## Words and numbers -/

theorem words_of_isWord (h : IsWord text.toList) : words text = [text] := by
  obtain ⟨hne, hchars, -⟩ := h
  have hrun := wordsFrom_append_run hchars [] []
  rw [append_nil, nil_append] at hrun
  obtain ⟨c, cs, hcs⟩ := exists_cons_of_ne_nil hne
  rw [words, hrun, wordsFrom, hcs, wordOf, ← hcs, String.ofList_toList]

theorem refers_word (h : IsWord text.toList) (hP : P text) : Refers P text := by
  rw [Refers, words_of_isWord h]
  exact forall_mem_singleton.2 hP

/-- The word begins with a digit. -/
def isDigital (word : String) : Bool := word.toList.head?.any Char.isDigit

theorem isDigital_wordOf (h : IsDigits cs) (rest : List Char) :
    ∀ word ∈ wordOf (cs ++ rest), isDigital word = true := by
  obtain ⟨c, cs, rfl⟩ := exists_cons_of_ne_nil h.1
  have hc := h.2 c mem_cons_self
  simpa [wordOf, isDigital] using hc

/-- Digits with an exponent and a mark behind them. -/
theorem isDigital_exponent {exponent mark : List Char} (h : IsDigits cs) (hexponent : IsExponent exponent)
    (hmark : ∀ c ∈ mark, isIdentifierChar c = true) :
    ∀ word ∈ wordsFrom cs (exponent ++ mark), isDigital word = true := by
  have hrun : ∀ {ds : List Char}, IsDigits ds → ∀ c ∈ ds ++ mark, isIdentifierChar c = true := fun hds =>
    forall_mem_append.2 ⟨fun c hc => isIdentifierChar_of_isDigit (hds.2 c hc), hmark⟩
  have hread : ∀ {run : List Char}, (∀ c ∈ run, isIdentifierChar c = true) → ∀ soFar,
      wordsFrom soFar run = wordOf (soFar ++ run) := by
    intro run hrun soFar
    simpa [wordsFrom] using wordsFrom_append_run hrun soFar []
  cases hexponent with
  | absent =>
    rw [nil_append, hread hmark]
    exact isDigital_wordOf h mark
  | digits hds =>
    rw [cons_append, hread (forall_mem_cons.2 ⟨by decide, hrun hds⟩)]
    exact isDigital_wordOf h _
  | negative hds =>
    rw [cons_append, cons_append, wordsFrom, if_pos (by decide),
      wordsFrom_cons_apart (by decide), hread (hrun hds)]
    exact forall_mem_append.2 ⟨isDigital_wordOf h _, isDigital_wordOf hds mark⟩

theorem isDigital_number {mark : List Char} (h : IsNumber cs)
    (hmark : ∀ c ∈ mark, isIdentifierChar c = true) :
    ∀ word ∈ wordsFrom [] (cs ++ mark), isDigital word = true := by
  obtain ⟨hwhole, hfraction, hexponent⟩ := h
  have hdigits : ∀ {ds : List Char}, IsDigits ds → ∀ c ∈ ds, isIdentifierChar c = true :=
    fun hds c hc => isIdentifierChar_of_isDigit (hds.2 c hc)
  rw [append_assoc, append_assoc, wordsFrom_append_run (hdigits hwhole), nil_append]
  cases hfraction with
  | absent =>
    rw [nil_append]
    exact isDigital_exponent hwhole hexponent hmark
  | digits hds =>
    rw [cons_append, wordsFrom_cons_apart (by decide), wordsFrom_append_run (hdigits hds)]
    refine forall_mem_append.2 ⟨?_, isDigital_exponent hds hexponent hmark⟩
    simpa using isDigital_wordOf hwhole []

/-- A number with a mark of its type behind it. -/
theorem refers_literal {mark : String} (h : IsLiteral text)
    (hmark : ∀ c ∈ mark.toList, isIdentifierChar c = true)
    (hP : ∀ word, isDigital word = true → P word) : Refers P (text ++ mark) := by
  intro word hword
  rw [words, String.toList_append] at hword
  refine hP word ?_
  cases h with
  | positive hnumber => exact isDigital_number hnumber hmark word hword
  | negative hnumber htext =>
    rw [htext, cons_append, wordsFrom_cons_apart (by decide)] at hword
    exact isDigital_number hnumber hmark word hword

end RobotBlocks.Text
