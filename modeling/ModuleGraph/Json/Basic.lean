import ModuleGraph.Text.Hex
import ModuleGraph.Text.Utf8

/-!
# JSON values

A JSON value as it is read from bytes that anyone may have written. A number is kept when it is
written as a natural number, which is all that is asked for here; a string is kept when it is a
text, for it may hold bytes or escapes that are none. An object keeps its members in order, with
repeated keys.

`quote` writes a text as a JSON string.
-/

namespace ModuleGraph

/-- A JSON value. -/
inductive JsonValue where
  | null
  | bool (b : Bool)
  | number (n : Option Nat)
  | string (s : Option String)
  | array (elements : List JsonValue)
  | object (members : List (Option String × JsonValue))

namespace JsonValue

/-- A character as it stands in a JSON string. -/
def escapeChar (c : Char) : List Char :=
  if c = '"' then ['\x5c', '"']
  else if c = '\x5c' then ['\x5c', '\x5c']
  else if c.toNat = 0x08 then ['\x5c', 'b']
  else if c.toNat = 0x0C then ['\x5c', 'f']
  else if c = '\n' then ['\x5c', 'n']
  else if c = '\r' then ['\x5c', 'r']
  else if c = '\t' then ['\x5c', 't']
  else if c.toNat < 0x20 then
    ['\x5c', 'u', '0', '0', Hex.digit (c.toNat / 16), Hex.digit (c.toNat % 16)]
  else [c]

/-- A text as a JSON string, with its quotes. -/
def quote (s : String) : String :=
  String.ofList ('"' :: s.toList.flatMap escapeChar ++ ['"'])

/-- An object over several lines, two spaces before each member; the members are keys with their
written values. -/
def renderObject (members : List (String × String)) : String :=
  "\x7b\n" ++ ",\n".intercalate (members.map fun (k, v) => "  " ++ quote k ++ ": " ++ v) ++ "\n\x7d"

/-- The text of a string. -/
def string? : JsonValue → Option String
  | string s => s
  | _ => none

/-- A natural number below a bound. -/
def natBelow? (bound : Nat) : JsonValue → Option Nat
  | number (some n) => if n < bound then some n else none
  | _ => none

/-- The elements of an array. -/
def elements? : JsonValue → Option (List JsonValue)
  | array xs => some xs
  | _ => none

/-! ## Records -/

/-- The values of a record's fields, in the order of the fields: from an object that has no field
twice and whose keys are texts, or from an array of as many values. Members that are no fields are
left out, and a field that is not there has no value. -/
def fields? (names : List String) : JsonValue → Option (List (Option JsonValue))
  | object members => do
    let keyed ← members.mapM fun (k, v) => k.map (·, v)
    names.mapM fun name =>
      match keyed.filter (·.1 == name) with
      | [] => some none
      | [(_, v)] => some (some v)
      | _ => none
  | array xs => if xs.length = names.length then some (xs.map some) else none
  | _ => none

end JsonValue

end ModuleGraph
