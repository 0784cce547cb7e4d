import ModuleGraph.Source.Span

/-!
# Diagnostics

A diagnostic is a failure put at a position: a severity, a code that tells the kind of failure, a
message, the span it is about, and optional notes and help.
-/

namespace ModuleGraph

/-- How bad a diagnostic is. -/
inductive Severity where
  | error
  | warning
  deriving DecidableEq, Repr

/-- A message about one span of a source file. -/
structure Diagnostic where
  severity : Severity
  code : String
  message : String
  span : Span
  notes : List String
  help : Option String
  deriving DecidableEq, Repr

namespace Diagnostic

/-- A diagnostic without notes and help. -/
def plain (severity : Severity) (code message : String) (span : Span) : Diagnostic :=
  ⟨severity, code, message, span, [], none⟩

/-- The diagnostic with one more note at the end. -/
def withNote (d : Diagnostic) (note : String) : Diagnostic :=
  { d with notes := d.notes ++ [note] }

/-- The diagnostic with this help, in place of any it had. -/
def withHelp (d : Diagnostic) (help : String) : Diagnostic :=
  { d with help := some help }

/-- An error, not a warning. -/
def isError (d : Diagnostic) : Bool :=
  d.severity == .error

/-- The message followed by the notes and the help, each on lines of its own, for a reader that
shows one text only. -/
def fullMessage (d : Diagnostic) : String :=
  let notes := d.notes.map ("\nnote: " ++ ·)
  let help := d.help.toList.map ("\nhelp: " ++ ·)
  d.message ++ String.join (notes ++ help)

end Diagnostic

end ModuleGraph
