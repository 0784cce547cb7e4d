import ModuleGraph.Toml.Basic

/-!
# Building tables

A file consists of assignments `key = value`. Those before the first header belong to the file's
own table, all others to the table of the header before them. Keys and headers may be dotted, and
tables on the way are made where they are missing.

No key is assigned twice, and no table is made twice. A header may still take over a table that
only longer headers have implied. A dotted key may add to a table that another dotted key made,
and to none that a header names.
-/

namespace ModuleGraph.Toml

/-- The members of a table. -/
abbrev Members := List (String × TomlValue)

/-- The members with a value in place of any other of its key. -/
def put (ms : Members) (key : String) (v : TomlValue) : Members :=
  ms.filter (·.1 != key) ++ [(key, v)]

/-- The elements with the last one changed, if there is one. -/
def changeLast? (change : Members → Option Members) (ts : List Members) :
    Option (List Members) := do
  return ts.dropLast ++ [← change (← ts.getLast?)]

/-- The members with one more assignment. -/
def assign? (ms : Members) (path : List String) (v : TomlValue) : Option Members :=
  match path with
  | [] => none
  | [key] => if (ms.lookup key).isSome then none else some (ms ++ [(key, v)])
  | key :: path =>
    match ms.lookup key with
    | none => do return put ms key (.table .dotted (← assign? [] path v))
    | some (.table .dotted inner) => do return put ms key (.table .dotted (← assign? inner path v))
    | some (.table .implied inner) =>
      if path.length = 1 then none
      else do return put ms key (.table .implied (← assign? inner path v))
    | some (.tables ts) =>
      if path.length = 1 then none
      else do return put ms key (.tables (← changeLast? (assign? · path v) ts))
    | some _ => none

/-- An assignment as it is written. -/
abbrev Assignment := List String × TomlValue

/-- The members with more assignments, in order. -/
def assignAll? (ms : Members) (assignments : List Assignment) : Option Members :=
  assignments.foldlM (fun ms a => assign? ms a.1 a.2) ms

/-- A header. -/
inductive Header where
  /-- The table of a path. -/
  | table (path : List String)
  /-- One more table in the array of a path. -/
  | element (path : List String)
  deriving DecidableEq, Repr

/-- The path of a header. -/
def Header.path : Header → List String
  | table path => path
  | element path => path

/-- What a header and the assignments after it make of what its path names. -/
def Header.fill? (h : Header) (assignments : List Assignment) :
    Option TomlValue → Option TomlValue :=
  match h with
  | table _ => fun
    | none => (assignAll? [] assignments).map (.table .header)
    | some (.table .implied ms) => (assignAll? ms assignments).map (.table .header)
    | some _ => none
  | element _ => fun
    | none => (assignAll? [] assignments).map fun ms => .tables [ms]
    | some (.tables ts) => (assignAll? [] assignments).map fun ms => .tables (ts ++ [ms])
    | some _ => none

/-- The members with what a path names changed. A path goes through the last table of an array. -/
def change? (ms : Members) (path : List String) (change : Option TomlValue → Option TomlValue) :
    Option Members :=
  match path with
  | [] => none
  | [key] => (change (ms.lookup key)).map (put ms key)
  | key :: path =>
    match ms.lookup key with
    | none => do return put ms key (.table .implied (← change? [] path change))
    | some (.table .inline _) => none
    | some (.table origin inner) => do
      return put ms key (.table origin (← change? inner path change))
    | some (.tables ts) => do return put ms key (.tables (← changeLast? (change? · path change) ts))
    | some _ => none

/-- A header with the assignments after it. -/
structure Section where
  header : Header
  assignments : List Assignment

/-- The members of a file's own table. -/
def ofSections? (own : List Assignment) (sections : List Section) : Option Members := do
  sections.foldlM (fun ms s => change? ms s.header.path (s.header.fill? s.assignments))
    (← assignAll? [] own)

end ModuleGraph.Toml
