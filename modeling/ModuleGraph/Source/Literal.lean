/-!
# Path literals

A module's path is written as a literal between single quotes in which a backslash takes the
next character as it is. `inner?` cuts off what stands before the closing quote, `unescape` drops
the backslashes, and `escape` writes a text so that it can stand between quotes and is read back.

A literal that holds the two characters which open an interpolation is no plain path.
-/

namespace ModuleGraph.Literal

/-- The character around a literal. -/
def quote : Char := '\x27'

/-- The character that takes the next one as it is. -/
def backslash : Char := '\x5c'

/-- The text before the closing quote, for what follows an opening quote. -/
def inner? : List Char → Option (List Char)
  | [] => none
  | [c] => if c = quote then some [] else none
  | c :: d :: rest =>
    if c = backslash then (inner? rest).map (fun inner => c :: d :: inner)
    else if c = quote then some []
    else (inner? (d :: rest)).map (c :: ·)

/-- The text that a literal means. A backslash at the very end means nothing. -/
def unescape : List Char → List Char
  | [] => []
  | [c] => if c = backslash then [] else [c]
  | c :: d :: rest => if c = backslash then d :: unescape rest else c :: unescape (d :: rest)

/-- The literal's inner text for a text that is meant. -/
def escape : List Char → List Char
  | [] => []
  | c :: rest =>
    if c = backslash ∨ c = quote then backslash :: c :: escape rest else c :: escape rest

/-- An interpolation is opened somewhere. -/
def isInterpolated : List Char → Bool
  | [] => false
  | [_] => false
  | c :: d :: rest => (c == '$' && d == '\x7b') || isInterpolated (d :: rest)

end ModuleGraph.Literal
