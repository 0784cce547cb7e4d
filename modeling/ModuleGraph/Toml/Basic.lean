/-!
# TOML values

A configuration file is written in TOML. A value is kept as far as it is asked for here: floats and
dates are kept as they are written, since nothing is computed with them.

The members of a table come from headers, from dotted keys and from tables in braces, and what
made a table decides what may still be added to it; `TableOrigin` keeps that.
-/

namespace ModuleGraph

/-- What made a table. -/
inductive TableOrigin where
  /-- A header that names the table. -/
  | header
  /-- A header that names a table below it. -/
  | implied
  /-- A dotted key. -/
  | dotted
  /-- Braces. -/
  | inline
  deriving DecidableEq, Repr

/-- A TOML value. -/
inductive TomlValue where
  | string (s : String)
  | integer (n : Int)
  | float (text : String)
  | boolean (b : Bool)
  | dateTime (text : String)
  | array (elements : List TomlValue)
  | table (origin : TableOrigin) (members : List (String × TomlValue))
  /-- An array whose elements are tables with a header each. -/
  | tables (elements : List (List (String × TomlValue)))

namespace TomlValue

/-- The text of a string. -/
def string? : TomlValue → Option String
  | string s => some s
  | _ => none

/-- The value of an integer that is not negative. -/
def natural? : TomlValue → Option Nat
  | integer n => if 0 ≤ n then some n.toNat else none
  | _ => none

/-- The elements of an array. -/
def elements? : TomlValue → Option (List TomlValue)
  | array xs => some xs
  | tables ts => some (ts.map (table .header))
  | _ => none

/-! ## Records -/

/-- The values of a record's fields, in the order of the fields: from a table that has no other
members, or from the elements of an array, of which those after the last field are left out. A
field that is not there has no value. -/
def fields? (names : List String) (v : TomlValue) : Option (List (Option TomlValue)) :=
  match v with
  | table _ members =>
    if members.all fun m => names.contains m.1 then
      some (names.map fun name => members.lookup name)
    else none
  | v => v.elements?.map fun xs => names.zipIdx.map fun (_, i) => xs[i]?

end TomlValue

end ModuleGraph
