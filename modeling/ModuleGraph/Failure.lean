import ModuleGraph.Diagnostic

/-!
# Failures of module declarations

Whatever goes wrong between a declaration and the file it means is recorded as a `Failure`
against that declaration. A failure holds its causes and no position; `Failure.placedAt` makes a
diagnostic of it at the span of the declaration.

`Failure.code` names the kind of failure and `Failure.message` is its text.
-/

namespace ModuleGraph

/-- Why a module declaration has no file. -/
inductive Failure where
  /-- The path is not a closed string literal. -/
  | pathNotString
  /-- The path literal asks for interpolation. -/
  | pathInterpolated
  /-- The path is empty. -/
  | pathNotSpecified
  /-- No registry answers for the scheme; `available` are those that have one. -/
  | unknownScheme (scheme : String) (available : List String)
  /-- The address is not `<registry>/<repository>:<tag>`. -/
  | invalidOciReference (raw : String)
  /-- The address is not `<package-id>@<version>`. -/
  | invalidNugetReference (raw : String)
  /-- The module has no local copy yet. -/
  | restoreRequired (reference : String)
  /-- The registry said why it could not fetch the module. -/
  | restoreFailed (reference message : String)
  /-- The registry reported no error, and still there is no local copy. -/
  | restoreOutcomeMissing (reference : String)
  /-- The local copy lacks its entry file. -/
  | entryPointMissing (reference path : String)
  /-- The reference gives no location of an entry file. -/
  | entryPointUnresolvable (reference reason : String)
  /-- The file meant could not be read. -/
  | fileRead (path message : String)
  /-- The module is a file that imports itself. -/
  | cyclicSelfReference
  /-- The module lies on a cycle of imports, listed from the module on. -/
  | cycle (path : List String)
  deriving DecidableEq, Repr

namespace Failure

/-- The stable name of the kind of failure. -/
def code : Failure → String
  | pathNotString => "module-path-not-string"
  | pathInterpolated => "module-path-interpolated"
  | pathNotSpecified => "module-path-not-specified"
  | unknownScheme .. => "module-unknown-scheme"
  | invalidOciReference .. => "module-invalid-oci-reference"
  | invalidNugetReference .. => "module-invalid-nuget-reference"
  | restoreRequired .. => "module-restore-required"
  | restoreFailed .. => "module-restore-failed"
  | restoreOutcomeMissing .. => "module-restore-unexpected"
  | entryPointMissing .. => "module-entry-point-missing"
  | entryPointUnresolvable .. => "module-entry-point-unresolvable"
  | fileRead .. => "module-file-read"
  | cyclicSelfReference => "module-cycle-self"
  | cycle .. => "module-cycle"

/-- A text between double quotes. -/
def quoted (s : String) : String :=
  "\"" ++ s ++ "\""

/-- The text of the failure. -/
def message : Failure → String
  | pathNotString => "the module path must be a string literal"
  | pathInterpolated => "string interpolation is not supported in module paths"
  | pathNotSpecified => "the module path has not been specified"
  | unknownScheme scheme available =>
    "the module reference scheme " ++ quoted scheme ++
      " is not recognized; specify a path to a local module file or a module reference using " ++
      "one of the following schemes: " ++ ", ".intercalate (available.map quoted)
  | invalidOciReference raw =>
    quoted raw ++ " is not a valid OCI artifact reference; expected " ++
      quoted "oci:<registry>/<repository>:<tag>"
  | invalidNugetReference raw =>
    quoted raw ++ " is not a valid NuGet package reference; expected " ++
      quoted "nuget:<package-id>@<version>"
  | restoreRequired reference =>
    "the module with reference " ++ quoted reference ++ " has not been restored"
  | restoreFailed reference message =>
    "unable to restore the module with reference " ++ quoted reference ++ ": " ++ message
  | restoreOutcomeMissing reference =>
    "restore of the module with reference " ++ quoted reference ++ " failed unexpectedly"
  | entryPointMissing reference path =>
    "the module with reference " ++ quoted reference ++ " is restored but its entry point " ++
      quoted path ++ " was not found"
  | entryPointUnresolvable reference reason =>
    "unable to locate the module with reference " ++ quoted reference ++ ": " ++ reason
  | fileRead path message => "unable to read file " ++ quoted path ++ ": " ++ message
  | cyclicSelfReference => "this module references itself, which is not allowed"
  | cycle path =>
    "the module is involved in a cycle (" ++ " -> ".intercalate (path.map quoted) ++ ")"

/-- The failure comes from a cycle of imports. -/
def isCycle : Failure → Bool
  | cyclicSelfReference | cycle .. => true
  | _ => false

/-- The failure of a module that has no local copy, whether or not a restore was tried. -/
def isRestore : Failure → Bool
  | restoreRequired .. | restoreFailed .. | restoreOutcomeMissing .. => true
  | _ => false

/-- What the reader can do about the failure, where there is a general answer. -/
def help? : Failure → Option String
  | restoreRequired .. =>
    some ("run " ++ backquoted "modlink restore" ++
      " or wait for the background restore to finish")
  | cycle .. | cyclicSelfReference =>
    some "break the cycle by extracting shared declarations into a separate module"
  | pathInterpolated => some "use a plain single-quoted string for the module path"
  | _ => none
where
  /-- A command between back quotes. -/
  backquoted (s : String) : String := "\x60" ++ s ++ "\x60"

/-- The failure as an error at a span. -/
def placedAt (f : Failure) (span : Span) : Diagnostic :=
  { Diagnostic.plain .error f.code f.message span with help := f.help? }

end Failure

end ModuleGraph
