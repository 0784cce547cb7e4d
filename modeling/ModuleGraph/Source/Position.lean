import ModuleGraph.Source.Scan

/-!
# Editor positions

An editor counts lines from zero, and columns in UTF-16 code units. `positionAt` turns a byte
offset into such a position: an offset inside a character counts as the end of the character, and
one past the end as the end of the text. `EditorDiagnostic` is a diagnostic as an editor shows it:
positions in place of offsets, notes and help in the message.
-/

namespace ModuleGraph

/-- A place in a text as an editor counts it. -/
structure Position where
  line : Nat
  character : Nat
  deriving DecidableEq, Repr

/-- The number of UTF-16 code units of a character. -/
def utf16Units (c : Char) : Nat :=
  if 0x10000 ≤ c.toNat then 2 else 1

/-- The position after a character. -/
def Position.after (p : Position) (c : Char) : Position :=
  if c = '\n' then ⟨p.line + 1, 0⟩ else ⟨p.line, p.character + utf16Units c⟩

/-- The position a number of bytes after `p`, where the text `cs` starts. -/
def positionFrom (p : Position) : List Char → Nat → Position
  | [], _ => p
  | c :: cs, offset =>
    if offset = 0 then p else positionFrom (p.after c) cs (offset - c.utf8Size)

/-- The position of a byte offset. -/
def positionAt (text : String) (offset : Nat) : Position :=
  positionFrom ⟨0, 0⟩ text.toList offset

/-- The part of a text between two positions. -/
structure Range where
  start : Position
  stop : Position
  deriving DecidableEq, Repr

/-- The range of a span. -/
def rangeOf (text : String) (span : Span) : Range :=
  ⟨positionAt text span.start, positionAt text span.stop⟩

/-- A diagnostic as an editor shows it. -/
structure EditorDiagnostic where
  range : Range
  severity : Severity
  code : String
  message : String
  deriving DecidableEq, Repr

/-- The diagnostic as an editor shows it over a text. -/
def Diagnostic.inEditor (d : Diagnostic) (text : String) : EditorDiagnostic :=
  ⟨rangeOf text d.span, d.severity, d.code, d.fullMessage⟩

end ModuleGraph
