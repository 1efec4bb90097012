import RobotBlocks.Xml.Token

/-!
# The text that is left to read

The text of an entity is read in place of a reference to it, and it may hold references in turn. So the
text that is left consists of text of entities and, behind it, of the document. While text of entities
is left, only so many entities can be put in; that bounds how often entities refer to each other, also
to themselves.

`Source.measure` decreases with every token, whether or not an entity is put in behind it. This is why
reading comes to an end.
-/

set_option autoImplicit false

namespace RobotBlocks.Xml

structure Source where
  chars : List Char
  /-- How many of the characters, counted from the first, are text of entities. -/
  expanded : Nat := 0
  /-- How many entities were put in since no text of entities was left. -/
  depth : Nat := 0

namespace Source

/-- How many entities can be put in while text of entities is left. -/
def maxDepth : Nat := 10

/-- With how much text of entities left another one can be put in. -/
def maxExpanded : Nat := 1000000

def drop (source : Source) (count : Nat) : Source :=
  if count ≤ source.expanded then
    { source with chars := source.chars.drop count, expanded := source.expanded - count }
  else { chars := source.chars.drop count }

/-- The text with that of an entity before it. -/
def insert? (source : Source) (text : List Char) : Option Source :=
  if text.isEmpty then some source
  else if source.depth < maxDepth ∧ source.expanded ≤ maxExpanded then
    some
      { chars := text ++ source.chars
        expanded := source.expanded + text.length
        depth := source.depth + 1 }
  else none

/-- How much is left: text of the document, entities that can be put in, and text of entities. -/
def measure (source : Source) : Nat × Nat × Nat :=
  (source.chars.length - source.expanded, maxDepth - source.depth, source.expanded)

/-- The order of what is left: the text of the document counts most. -/
abbrev Before : Nat × Nat × Nat → Nat × Nat × Nat → Prop :=
  Prod.Lex (· < ·) (Prod.Lex (· < ·) (· < ·))

theorem measure_drop (source : Source) (count : Nat) (hpos : 0 < count)
    (hle : count ≤ source.chars.length) : Before (source.drop count).measure source.measure := by
  by_cases hexp : count ≤ source.expanded
  · have hdoc : (source.chars.drop count).length - (source.expanded - count) =
        source.chars.length - source.expanded := by
      rw [List.length_drop]
      omega
    have hless : source.expanded - count < source.expanded := by omega
    simp only [drop, hexp, if_true, measure, hdoc]
    exact Prod.Lex.right _ (Prod.Lex.right _ hless)
  · have hless : (source.chars.drop count).length - 0 < source.chars.length - source.expanded := by
      rw [List.length_drop]
      omega
    simp only [drop, hexp, if_false, measure]
    exact Prod.Lex.left _ _ hless

/-- Putting an entity in leaves as much text of the document and fewer entities, or it changes
nothing. -/
theorem measure_insert? {source source' : Source} {text : List Char}
    (h : source.insert? text = some source') :
    source' = source ∨ Before source'.measure source.measure := by
  unfold insert? at h
  split at h
  · exact Or.inl (Option.some.inj h).symm
  · split at h
    · rename_i hroom
      have heq := (Option.some.inj h).symm
      have hdoc : (text ++ source.chars).length - (source.expanded + text.length) =
          source.chars.length - source.expanded := by
        rw [List.length_append]
        omega
      have hless : maxDepth - (source.depth + 1) < maxDepth - source.depth := by omega
      refine Or.inr ?_
      rw [heq]
      simp only [measure, hdoc]
      exact Prod.Lex.right _ (Prod.Lex.left _ _ hless)
    · cases h

theorem Before.trans {a b c : Nat × Nat × Nat} (hab : Before a b) (hbc : Before b c) :
    Before a c := by
  obtain ⟨a1, a2, a3⟩ := a
  obtain ⟨b1, b2, b3⟩ := b
  obtain ⟨c1, c2, c3⟩ := c
  simp only [Before, Prod.lex_def] at *
  omega

/-- Less is left behind a token, also if an entity is put in there. -/
theorem measure_next {source source' : Source} {scanner scanner' : Scanner} {token : Token}
    {text : List Char} (hnext : scanner.next? source.chars = some (token, scanner'))
    (hins : (source.drop token.chars.length).insert? text = some source') :
    Before source'.measure source.measure := by
  have hdrop := measure_drop source token.chars.length token.chars_length_pos
    (Scanner.next?_isPrefix hnext).length_le
  cases measure_insert? hins with
  | inl heq => rw [heq]; exact hdrop
  | inr hless => exact hless.trans hdrop

end Source

end RobotBlocks.Xml
