import ModuleGraph.Url.File

/-!
# Paths on a disk

A path is the bytes of its text. Slashes part it into names; an empty name and a single dot say
nothing, and a path that starts with a slash is absolute. `join` puts one path after another and
`parent?` takes the last name away.
-/

namespace ModuleGraph

/-- The text of a path as bytes. -/
abbrev DiskPath := List UInt8

namespace DiskPath

/-- The byte of a dot. -/
def dotByte : UInt8 := 0x2E

/-- The path that a text writes. -/
def ofString (text : String) : DiskPath :=
  Utf8.bytesOf text

/-- The path as people read it. -/
def render (p : DiskPath) : String :=
  Utf8.stringLossy p

/-- The path starts at the root. -/
def isAbsolute (p : DiskPath) : Bool :=
  p.head? == some slashByte

/-- The second path after the first, or the second alone when it is absolute. -/
def join (base p : DiskPath) : DiskPath :=
  if p.isAbsolute then p
  else if base.isEmpty || base.getLast? == some slashByte then base ++ p
  else base ++ slashByte :: p

/-- A name that says nothing. -/
def isSilent (name : List UInt8) : Bool :=
  name.isEmpty || name == [dotByte]

/-- The start of a path that no name can be taken from: a slash, or a dot that is a name. -/
def anchor (p : DiskPath) : DiskPath :=
  match p with
  | [] => []
  | b :: rest =>
    if b == slashByte then [b]
    else if b == dotByte && rest.head?.all (· == slashByte) then [b]
    else []

/-- Names without silent ones at the end. -/
def dropSilent (names : List (List UInt8)) : List (List UInt8) :=
  (names.reverse.dropWhile isSilent).reverse

/-- The path without its last name. The root has no parent, and neither has the empty path. -/
def parent? (p : DiskPath) : Option DiskPath :=
  let start := p.anchor
  let names := dropSilent ((p.drop start.length).splitOn slashByte)
  if names.isEmpty then
    if start == [dotByte] then some [] else none
  else some (start ++ [slashByte].intercalate (dropSilent names.dropLast))

/-- The path, its parent, and so on, at most `n` of them. -/
def ancestorsUpTo : (n : Nat) → DiskPath → List DiskPath
  | 0, _ => []
  | n + 1, p => p :: (p.parent?.map (ancestorsUpTo n)).getD []

/-- The path and all its ancestors, the nearest first. Every ancestor is shorter. -/
def ancestors (p : DiskPath) : List DiskPath :=
  ancestorsUpTo (p.length + 1) p

/-- The names between the slashes. -/
def names (p : DiskPath) : List (List UInt8) :=
  (p.splitOn slashByte).filter (!·.isEmpty)

end DiskPath

end ModuleGraph
