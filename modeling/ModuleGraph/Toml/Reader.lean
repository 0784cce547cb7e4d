import ModuleGraph.Toml.DateTime
import ModuleGraph.Toml.Quoted
import ModuleGraph.Toml.Table

/-!
# Reading TOML

`Toml.parse?` reads a whole file. A line holds a header, an assignment or nothing, and may end
with a comment. A value may go over several lines only inside square brackets and in strings of
several lines.

Every call consumes a character before it calls another, so that the number of characters bounds
the depth of calls.
-/

namespace ModuleGraph.Toml

/-- The text without the spaces before it. -/
def skipSpace (cs : List Char) : List Char :=
  cs.dropWhile isSpace

/-- The text without the comment before it. -/
def skipComment : List Char → List Char
  | [] => []
  | c :: rest => if c = '#' then rest.dropWhile isPlain else c :: rest

/-- What follows a line on which nothing but a comment is left. -/
def lineEnd? (cs : List Char) : Option (List Char) :=
  match skipComment (skipSpace cs) with
  | [] => some []
  | cs => newline? cs

/-- The text without the spaces, comments and ends of lines before it. -/
def skipBlank : (fuel : Nat) → List Char → List Char
  | 0, cs => cs
  | fuel + 1, cs =>
    match newline? (skipComment (skipSpace cs)) with
    | some rest => skipBlank fuel rest
    | none => skipSpace cs

/-! ## Keys -/

/-- How deep arrays and tables may be nested, and how many parts a key may have. -/
def maxDepth : Nat := 79

/-- The character may stand in a key without quotes. -/
def isKeyChar (c : Char) : Bool :=
  c.isAlphanum || c == '_' || c == '-'

/-- One part of a key, and what follows. -/
def keyPart? (cs : List Char) : Option (String × List Char) :=
  match cs with
  | [] => none
  | c :: rest =>
    if c = '"' ∨ c = '\x27' then lineString? c rest
    else
      let key := cs.takeWhile isKeyChar
      if key.isEmpty then none else some (String.ofList key, cs.dropWhile isKeyChar)

/-- The parts of a key, and what follows the spaces after it. -/
def keyFrom? : (fuel : Nat) → List Char → Option (List String × List Char)
  | 0, _ => none
  | fuel + 1, cs => do
    let (part, rest) ← keyPart? (skipSpace cs)
    let rest := skipSpace rest
    match after? '.' rest with
    | none => return ([part], rest)
    | some rest =>
      let (parts, rest) ← keyFrom? fuel rest
      return (part :: parts, rest)

/-- A key, and what follows the spaces after it. -/
def key? (cs : List Char) : Option (List String × List Char) :=
  keyFrom? maxDepth cs

/-! ## Values -/

/-- What follows a word. -/
def afterWord? (word : String) (cs : List Char) : Option (List Char) :=
  if word.toList.isPrefixOf cs then some (cs.drop word.length) else none

/-- A truth value, and what follows. -/
def boolean? (cs : List Char) : Option (TomlValue × List Char) :=
  match afterWord? "true" cs with
  | some rest => some (.boolean true, rest)
  | none => (afterWord? "false" cs).map (.boolean false, ·)

/-- A value without quotes or brackets, and what follows. -/
def scalar? (cs : List Char) : Option (TomlValue × List Char) :=
  dateTime? cs <|> float? cs <|> integer? cs <|> boolean? cs

mutual

/-- The value that a text starts with, and what follows. -/
def valueFrom? : (fuel depth : Nat) → List Char → Option (TomlValue × List Char)
  | 0, _, _ => none
  | _ + 1, _, [] => none
  | fuel + 1, depth, c :: rest =>
    if c = '"' ∨ c = '\x27' then (quoted? c rest).map fun (s, rest) => (.string s, rest)
    else if c = '[' then
      if depth = 0 then none
      else (elementsFrom? fuel (depth - 1) rest).map fun (xs, rest) => (.array xs, rest)
    else if c = '\x7b' then
      if depth = 0 then none
      else
        match after? '\x7d' (skipSpace rest) with
        | some rest => some (.table .inline [], rest)
        | none =>
          match assignmentsFrom? fuel (depth - 1) rest with
          | none => none
          | some (as, rest) => (assignAll? [] as).map fun ms => (.table .inline ms, rest)
    else scalar? (c :: rest)

/-- The elements of an array up to its end, and what follows. -/
def elementsFrom? : (fuel depth : Nat) → List Char → Option (List TomlValue × List Char)
  | 0, _, _ => none
  | fuel + 1, depth, cs =>
    let cs := skipBlank fuel cs
    match after? ']' cs with
    | some rest => some ([], rest)
    | none =>
      match valueFrom? fuel depth cs with
      | none => none
      | some (x, rest) =>
        let rest := skipBlank fuel rest
        match after? ']' rest, after? ',' rest with
        | some rest, _ => some ([x], rest)
        | none, some rest => (elementsFrom? fuel depth rest).map fun (xs, rest) => (x :: xs, rest)
        | none, none => none

/-- The assignments in braces up to their end, and what follows. -/
def assignmentsFrom? : (fuel depth : Nat) → List Char → Option (List Assignment × List Char)
  | 0, _, _ => none
  | fuel + 1, depth, cs =>
    match assignmentFrom? fuel depth cs with
    | none => none
    | some (a, rest) =>
      let rest := skipSpace rest
      match after? '\x7d' rest, after? ',' rest with
      | some rest, _ => some ([a], rest)
      | none, some rest => (assignmentsFrom? fuel depth rest).map fun (as, rest) => (a :: as, rest)
      | none, none => none

/-- The assignment that a text starts with, and what follows. -/
def assignmentFrom? : (fuel depth : Nat) → List Char → Option (Assignment × List Char)
  | 0, _, _ => none
  | fuel + 1, depth, cs =>
    match key? cs with
    | none => none
    | some (path, rest) =>
      match (after? '=' rest).bind fun rest => valueFrom? fuel depth (skipSpace rest) with
      | none => none
      | some (v, rest) => some ((path, v), rest)

end

/-! ## Files -/

/-- The header that a text starts with, and what follows. -/
def header? (cs : List Char) : Option (Header × List Char) := do
  let cs ← after? '[' cs
  match after? '[' cs with
  | some cs =>
    let (path, rest) ← key? cs
    return (.element path, ← after? ']' (← after? ']' rest))
  | none =>
    let (path, rest) ← key? cs
    return (.table path, ← after? ']' rest)

/-- The assignments up to the first header, and the sections. -/
def sectionsFrom? : (fuel : Nat) → List Char → Option (List Assignment × List Section)
  | 0, _ => none
  | _ + 1, [] => some ([], [])
  | fuel + 1, cs =>
    match lineEnd? cs with
    | some rest => sectionsFrom? fuel rest
    | none =>
      let cs := skipSpace cs
      if cs.head? = some '[' then do
        let (header, rest) ← header? cs
        let (own, sections) ← sectionsFrom? fuel (← lineEnd? rest)
        return ([], ⟨header, own⟩ :: sections)
      else do
        let (a, rest) ← assignmentFrom? (2 * cs.length + 2) maxDepth cs
        let (own, sections) ← sectionsFrom? fuel (← lineEnd? rest)
        return (a :: own, sections)

/-- The file without a byte order mark before it. -/
def skipMark : List Char → List Char
  | [] => []
  | c :: rest => if c = '\uFEFF' then rest else c :: rest

/-- The table that a file writes. -/
def parse? (text : String) : Option TomlValue := do
  let cs := skipMark text.toList
  let (own, sections) ← sectionsFrom? (cs.length + 1) cs
  return .table .header (← ofSections? own sections)

end ModuleGraph.Toml
