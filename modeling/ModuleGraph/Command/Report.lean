import ModuleGraph.Graph.Basic
import ModuleGraph.Source.Position
import ModuleGraph.Url.File

/-!
# Reports

A command writes lines of output, shows diagnostics at their places in the source files, closes
with messages, and ends with an exit code. A `Report` is all of that.
-/

namespace ModuleGraph

/-- A diagnostic in a file. -/
structure Finding where
  file : SourceFile
  diagnostic : Diagnostic

/-- What a command writes and how it ends. -/
structure Report where
  output : List String
  findings : List Finding
  messages : List String
  exitCode : Nat

namespace Report

/-- Lines of output and nothing else. -/
def ofOutput (output : List String) : Report := ⟨output, [], [], 0⟩

/-- The exit code of a command that failed. -/
def failureCode : Nat := 1

/-- The exit code of arguments that are no command line. -/
def usageCode : Nat := 2

/-- The report of an error that ends a command. -/
def ofError (message : String) : Report := ⟨[], [], ["error: " ++ message], failureCode⟩

end Report

namespace Finding

/-- The lines that show a diagnostic: where it is, what it says, and its notes and help. -/
def lines (f : Finding) : List String :=
  let place := positionAt f.file.text f.diagnostic.span.start
  let severity :=
    match f.diagnostic.severity with
    | .error => "error"
    | .warning => "warning"
  (f.file.uri.displayPath ++ ":" ++ toString (place.line + 1) ++ ":" ++
      toString (place.character + 1) ++ ": " ++ severity ++ "[" ++ f.diagnostic.code ++ "]") ::
    ("  " ++ f.diagnostic.message) ::
    (f.diagnostic.notes.map ("  note: " ++ ·) ++ f.diagnostic.help.toList.map ("  help: " ++ ·))

end Finding

namespace Graph

/-- The line of a declaration: its symbol, its path, and what came of it. -/
def declarationLine (g : Graph) (d : Declaration) : String :=
  let result :=
    match g.resolution? d.id, g.failure? d.id with
    | some target, _ => "-> " ++ target.displayPath
    | none, some f => "[" ++ f.code ++ "]"
    | none, none => "(pending)"
  "  " ++ d.symbol ++ " '" ++ d.path.toOption.getD "?" ++ "' " ++ result

/-- The lines of a graph: each file with its declarations. -/
def lines (g : Graph) : List String :=
  g.files.values.flatMap fun f =>
    f.uri.displayPath :: f.declarations.map g.declarationLine

/-- The diagnostics of a graph that are to be shown. -/
def findings (g : Graph) (isShown : Diagnostic → Bool) : List Finding :=
  g.files.values.flatMap fun f =>
    ((g.diagnosticsFor f.uri).filter isShown).map fun d => ⟨f, d⟩

end Graph

end ModuleGraph
