import ModuleGraph.Url.Basic

/-!
# URLs of files

A `file` URL without a host, or with the host `localhost`, names a file on this machine. Its path
is the bytes that the URL's segments decode to, with a slash before each. The other way, an
absolute path becomes the URL whose segments are its encoded components.

`displayPath` shows a URL to people: the path when there is one, the URL's text otherwise.
-/

namespace ModuleGraph

/-- The byte of a slash. -/
def slashByte : UInt8 := 0x2F

/-- The components of a path between its slashes. Empty ones and single dots say nothing and are
left out. -/
def pathComponents (path : List UInt8) : List (List UInt8) :=
  (path.splitOn slashByte).filter fun c => !c.isEmpty && c != [0x2E]

namespace Url

/-- The bytes end with a letter and a colon or a bar. -/
def endsWithDrive (bytes : List UInt8) : Bool :=
  match bytes.reverse with
  | mark :: letter :: _ :: _ =>
    (Char.ofNat letter.toNat).isAlpha && (mark == 0x3A || mark == 0x7C)
  | _ => false

/-- The path of the file that the parts of a URL name, when its segments are a path and the host
is this machine. -/
def filePathOfParts? (p : UrlParts) : Option (List UInt8) :=
  let host := (p.authority.map (·.host)).getD ""
  if p.hasOpaquePath || !(host == "" || host == "localhost") then none
  else
    let segments := (p.path.toList.drop 1).splitOn '/'
    let bytes := segments.flatMap fun s => slashByte :: Percent.decode s
    some (if endsWithDrive bytes then bytes ++ [slashByte] else bytes)

/-- The path of the file that the URL names on this machine. -/
def toFilePath? (u : Url) : Option (List UInt8) :=
  filePathOfParts? u.parts

/-- The URL of an absolute path. -/
def ofFilePath? (path : List UInt8) : Option Url :=
  if path.head? == some slashByte then
    let segments := (pathComponents path).map (Percent.encodeBytes Percent.fileName)
    let text := segments.flatMap ('/' :: ·)
    some (ofParts (UrlParts.finish "file" .file (UrlParts.fileHost "")
      (if text.isEmpty then ['/'] else text) []))
  else none

/-- The URL as people read it. -/
def displayPath (u : Url) : String :=
  let p := u.parts
  if p.scheme == "file" then
    match filePathOfParts? p with
    | some bytes => Utf8.stringLossy bytes
    | none => u.text
  else u.text

end Url

end ModuleGraph
