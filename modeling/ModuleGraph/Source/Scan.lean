import ModuleGraph.Failure
import ModuleGraph.Source.Literal
import ModuleGraph.Text.Alphanumeric
import ModuleGraph.Text.Blank
import ModuleGraph.Text.Utf8

/-!
# Module statements

A module is declared on a line of its own: blanks, `module`, blanks, a symbol, blanks, and a path
literal. Whatever follows on the line is ignored, and so is every line of another form. A
statement whose path is missing or is no literal is found all the same, with the failure in place
of the path.

`Statement.ofLine?` reads one line and `scan` a whole text. A statement's span is the bytes of its
path token, or of the statement where there is no token.
-/

namespace ModuleGraph

/-- A statement that declares a module, as it stands in a text. -/
structure Statement where
  /-- The name of the module in the declaring file. -/
  symbol : String
  /-- The path, or why there is none. -/
  path : Except Failure String
  span : Span
  deriving Repr

namespace Statement

/-- The word that a statement starts with. -/
def keyword : List Char := "module".toList

/-- A character that ends a line. -/
def isLineEnd (c : Char) : Bool :=
  c == '\n' || c == '\r'

/-- The path that a text starts with, and the size of its token. -/
def readPath (text : List Char) : Except Failure String × Nat :=
  match text with
  | [] => (.error .pathNotString, 0)
  | c :: body =>
    if c = Literal.quote then
      match Literal.inner? body with
      | some inner =>
        let path :=
          if Literal.isInterpolated inner then .error .pathInterpolated
          else .ok (String.ofList (Literal.unescape inner))
        (path, Utf8.size inner + 2)
      | none => (.error .pathNotString, Utf8.size text)
    else (.error .pathNotString, Utf8.size (text.takeWhile (!Text.isBlank ·)))

/-- The statement on a line, with its span counted from the start of the line. -/
def ofLine? (line : List Char) : Option Statement :=
  let content := Text.dropEndWhile isLineEnd line
  let statement := Text.trimStart content
  let offset (suffix : List Char) : Nat := Utf8.size content - Utf8.size suffix
  if keyword.isPrefixOf statement then
    let rest := statement.drop keyword.length
    let afterKeyword := Text.trimStart rest
    let symbol := afterKeyword.takeWhile Text.isSymbolChar
    if rest.head?.any Text.isBlank && !symbol.isEmpty then
      let afterSymbol := afterKeyword.dropWhile Text.isSymbolChar
      let token := Text.trimStart afterSymbol
      let (path, size) := readPath token
      let span : Span :=
        if size = 0 then ⟨offset statement, offset afterSymbol⟩
        else ⟨offset token, offset token + size⟩
      some ⟨String.ofList symbol, path, span⟩
    else none
  else none

/-- The statement moved on by a number of bytes. -/
def shift (s : Statement) (n : Nat) : Statement :=
  { s with span := s.span.shift n }

end Statement

/-! ## Lines -/

/-- Puts a character before the lines that follow it. -/
def consLine (c : Char) (lines : List (List Char)) : List (List Char) :=
  if c = '\n' then [c] :: lines
  else
    match lines with
    | [] => [[c]]
    | line :: more => (c :: line) :: more

/-- The lines of a text, each with the line feed that ends it. -/
def linesOf (cs : List Char) : List (List Char) :=
  cs.foldr consLine []

theorem linesOf_cons (c : Char) (cs : List Char) : linesOf (c :: cs) = consLine c (linesOf cs) :=
  rfl

theorem flatten_consLine (c : Char) (lines : List (List Char)) :
    (consLine c lines).flatten = c :: lines.flatten := by
  unfold consLine
  split
  · rfl
  · cases lines <;> rfl

/-- The lines put together are the text. -/
theorem flatten_linesOf (cs : List Char) : (linesOf cs).flatten = cs := by
  induction cs with
  | nil => rfl
  | cons c cs ih => rw [linesOf_cons, flatten_consLine, ih]

theorem linesOf_ne_nil {cs : List Char} (h : cs ≠ []) : linesOf cs ≠ [] := by
  intro he
  have := flatten_linesOf cs
  rw [he] at this
  exact h (by simpa using this.symm)

/-- A text that ends in a line feed ends a line. -/
theorem linesOf_append {a b : List Char} (h : a = [] ∨ a.getLast? = some '\n') :
    linesOf (a ++ b) = linesOf a ++ linesOf b := by
  induction a with
  | nil => rfl
  | cons c a ih =>
    rw [List.cons_append, linesOf_cons, linesOf_cons]
    cases a with
    | nil =>
      have hc : c = '\n' := by simpa using h
      simp [consLine, hc, linesOf]
    | cons d a =>
      rw [ih (.inr (by simpa [List.getLast?_cons] using h))]
      unfold consLine
      split
      · rfl
      · cases hl : linesOf (d :: a) with
        | nil => exact absurd hl (linesOf_ne_nil (by simp))
        | cons line more => rfl

/-- The statements on lines of which the first starts at a byte offset. -/
def scanLines (offset : Nat) : List (List Char) → List Statement
  | [] => []
  | line :: lines =>
    ((Statement.ofLine? line).map (·.shift offset)).toList ++
      scanLines (offset + Utf8.size line) lines

/-- The statements of a text, in order. -/
def scan (text : String) : List Statement :=
  scanLines 0 (linesOf text.toList)

end ModuleGraph
