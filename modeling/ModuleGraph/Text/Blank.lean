/-!
# Blank characters

A line of a source file is read past its blank characters, and a tag made of blank characters
only is no tag. Blank means the 25 code points of the Unicode property White_Space: the ASCII
blanks, next line, the no-break spaces, the Ogham space, the typographic spaces, the line and
paragraph separators and the ideographic space.

`trimStart` and `trimEnd` drop blanks from one end of a text; `trim` from both.
-/

namespace ModuleGraph.Text

/-- A character with the Unicode property White_Space. -/
def isBlank (c : Char) : Bool :=
  let n := c.toNat
  (0x9 ≤ n && n ≤ 0xD) || n == 0x20 || n == 0x85 || n == 0xA0 || n == 0x1680 ||
    (0x2000 ≤ n && n ≤ 0x200A) || n == 0x2028 || n == 0x2029 || n == 0x202F || n == 0x205F ||
    n == 0x3000

/-- The text from its first character that is not blank. -/
def trimStart (cs : List Char) : List Char :=
  cs.dropWhile isBlank

/-- The text up to its last character that fails `drop`. -/
def dropEndWhile (drop : Char → Bool) (cs : List Char) : List Char :=
  (cs.reverse.dropWhile drop).reverse

/-- The text up to its last character that is not blank. -/
def trimEnd (cs : List Char) : List Char :=
  dropEndWhile isBlank cs

/-- The text without the blanks at its two ends. -/
def trim (cs : List Char) : List Char :=
  trimEnd (trimStart cs)

/-- A run of items of one kind ends at the first one of another kind. -/
theorem takeWhile_dropWhile_append {α : Type} {p : α → Bool} {as bs : List α}
    (has : ∀ a ∈ as, p a = true) (hbs : ∀ b ∈ bs.head?, p b = false) :
    (as ++ bs).takeWhile p = as ∧ (as ++ bs).dropWhile p = bs := by
  rw [List.takeWhile_append_of_pos has, List.dropWhile_append_of_pos has]
  cases bs with
  | nil => exact ⟨List.append_nil as, rfl⟩
  | cons b bs => simp [hbs b rfl]

theorem trimStart_append {as bs : List Char} (has : ∀ c ∈ as, isBlank c = true)
    (hbs : ∀ c ∈ bs.head?, isBlank c = false) : trimStart (as ++ bs) = bs :=
  (takeWhile_dropWhile_append has hbs).2

/-- Nothing is dropped up to a character that is not to be dropped. -/
theorem dropEndWhile_append {drop : Char → Bool} {c : Char} {cs ds : List Char}
    (hc : drop c = false) :
    dropEndWhile drop (cs ++ c :: ds) = cs ++ c :: dropEndWhile drop ds := by
  simp only [dropEndWhile, List.reverse_append, List.reverse_cons, List.append_assoc,
    List.singleton_append]
  rw [List.dropWhile_append]
  split
  · next hempty =>
    rw [List.isEmpty_iff] at hempty
    simp [hempty, hc]
  · simp

/-- Every character that is white space in the ASCII sense is blank. -/
theorem isBlank_of_isWhitespace {c : Char} (h : c.isWhitespace = true) : isBlank c = true := by
  simp only [Char.isWhitespace, Bool.or_eq_true, decide_eq_true_eq] at h
  rcases h with ((rfl | rfl) | rfl) | rfl <;> decide

end ModuleGraph.Text
