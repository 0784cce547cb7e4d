import ModuleGraph.Text.Hex

/-!
# Strings in TOML

A string stands between double quotes, where a backslash starts an escape, or between single
quotes, where every character stands for itself. Three quotes at each end make a string of several
lines: a line's end right after the opening quotes is left out, and one or two quotes that are not
followed by a third belong to the text, also just before the closing ones. No other control
character than a tab stands in a string.
-/

namespace ModuleGraph.Toml

/-- The character may stand on a line. -/
def isPlain (c : Char) : Bool :=
  c == '\t' || (0x20 ≤ c.toNat && c.toNat != 0x7F)

/-- A space or a tab. -/
def isSpace (c : Char) : Bool :=
  c == ' ' || c == '\t'

/-- What follows the end of a line. -/
def newline? : List Char → Option (List Char)
  | '\n' :: rest => some rest
  | '\r' :: '\n' :: rest => some rest
  | _ => none

/-- What follows the end of a line, if one is there. -/
def skipNewline (cs : List Char) : List Char :=
  (newline? cs).getD cs

/-! ## Escapes -/

/-- The character of a number, unless it is half of one. -/
def charOf? (n : Nat) : Option Char :=
  if h : n.isValidChar then some (Char.ofNatAux n h) else none

/-- The character that a number of hexadecimal digits stands for, and what follows. -/
def codePoint? (count : Nat) (cs : List Char) : Option (Char × List Char) := do
  let digits ← (cs.take count).mapM Hex.digitValue?
  if digits.length ≠ count then none
  else return (← charOf? (digits.foldl (· * 16 + ·) 0), cs.drop count)

/-- The character that one letter after a backslash stands for. -/
def escaped? (c : Char) : Option Char :=
  if c = '"' ∨ c = '\x5c' then some c
  else if c = 'b' then some '\x08'
  else if c = 'f' then some '\x0c'
  else if c = 'n' then some '\n'
  else if c = 'r' then some '\r'
  else if c = 't' then some '\t'
  else none

/-- The character that an escape stands for after its backslash, and what follows. -/
def escape? : List Char → Option (Char × List Char)
  | [] => none
  | c :: rest =>
    if c = 'u' then codePoint? 4 rest
    else if c = 'U' then codePoint? 8 rest
    else (escaped? c).map (·, rest)

/-- What follows a backslash at the end of a line, with all blank that follows. -/
def joinedLine? (cs : List Char) : Option (List Char) :=
  (newline? (cs.dropWhile isSpace)).map skipBlankLines
where
  skipBlankLines (cs : List Char) : List Char :=
    match cs with
    | '\n' :: rest => skipBlankLines rest
    | '\r' :: '\n' :: rest => skipBlankLines rest
    | c :: rest => if isSpace c then skipBlankLines rest else c :: rest
    | [] => []

/-! ## Bodies -/

/-- The text up to a double quote, last character first in `read`, and what follows the quote. -/
def basicFrom? : (fuel : Nat) → (read : List Char) → List Char → Option (String × List Char)
  | 0, _, _ => none
  | _ + 1, _, [] => none
  | fuel + 1, read, c :: rest =>
    if c = '"' then some (String.ofList read.reverse, rest)
    else if c = '\x5c' then
      match escape? rest with
      | some (x, rest) => basicFrom? fuel (x :: read) rest
      | none => none
    else if isPlain c then basicFrom? fuel (c :: read) rest
    else none

/-- The text up to a single quote, and what follows the quote. -/
def literal? (cs : List Char) : Option (String × List Char) :=
  let isText (c : Char) := isPlain c && c != '\x27'
  match cs.dropWhile isText with
  | '\x27' :: rest => some (String.ofList (cs.takeWhile isText), rest)
  | _ => none

/-- The quotes that belong to the text of a string of several lines when more than three quotes
close it, and what follows the closing ones. -/
def closing? (quote : Char) (cs : List Char) : Option (List Char × List Char) :=
  let extra := cs.takeWhile (· == quote)
  if extra.length ≤ 2 then some (extra, cs.drop extra.length) else none

/-- The text of a string of several lines, last character first in `read`, and what follows the
closing quotes. -/
def linesFrom? (quote : Char) : (fuel : Nat) → (read : List Char) → List Char →
    Option (String × List Char)
  | 0, _, _ => none
  | _ + 1, _, [] => none
  | fuel + 1, read, c :: rest =>
    if [quote, quote, quote].isPrefixOf (c :: rest) then
      (closing? quote (rest.drop 2)).map fun (extra, rest) =>
        (String.ofList (read.reverse ++ extra), rest)
    else if quote = '"' ∧ c = '\x5c' then
      match joinedLine? rest, escape? rest with
      | some rest, _ => linesFrom? quote fuel read rest
      | none, some (x, rest) => linesFrom? quote fuel (x :: read) rest
      | none, none => none
    else
      match newline? (c :: rest) with
      | some rest => linesFrom? quote fuel ('\n' :: read) rest
      | none => if isPlain c then linesFrom? quote fuel (c :: read) rest else none

/-- The text of a string of one line after its opening quote, and what follows it. -/
def lineString? (quote : Char) (cs : List Char) : Option (String × List Char) :=
  if quote = '"' then basicFrom? (cs.length + 1) [] cs else literal? cs

/-- The text of a string after its opening quote, and what follows it. -/
def quoted? (quote : Char) (cs : List Char) : Option (String × List Char) :=
  if [quote, quote].isPrefixOf cs then
    linesFrom? quote (cs.length + 1) [] (skipNewline (cs.drop 2))
  else lineString? quote cs

end ModuleGraph.Toml
