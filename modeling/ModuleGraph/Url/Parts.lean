/-!
# The parts of a URL

A URL is a scheme, an authority unless it has none, a path, and perhaps a query and a fragment.
Every part is kept as the text that stands in the URL. `render` puts the parts together, and
`ofText` takes a URL's text apart again.

A path that starts with two slashes would be read as an authority where there is none, so `/.` is
put before it.
-/

namespace ModuleGraph

/-- Who and where: the part between `//` and the path. An empty host is no host. -/
structure Authority where
  username : String
  password : Option String
  host : String
  port : Option Nat
  deriving DecidableEq, Repr

/-- The parts of a URL, each as it stands in the text. -/
structure UrlParts where
  scheme : String
  authority : Option Authority
  path : String
  query : Option String
  fragment : Option String
  deriving DecidableEq, Repr

/-- The authority as it stands after `//`. -/
def Authority.render (a : Authority) : String :=
  let password := a.password.elim "" (":" ++ ·)
  let at_ := if a.username.isEmpty && a.password.isNone then "" else "@"
  let port := a.port.elim "" (":" ++ toString ·)
  a.username ++ password ++ at_ ++ a.host ++ port

namespace UrlParts

/-- The text of the URL. -/
def render (p : UrlParts) : String :=
  let authority := match p.authority with
    | some a => "//" ++ a.render
    | none => if p.path.startsWith "//" then "/." else ""
  let query := p.query.elim "" ("?" ++ ·)
  let fragment := p.fragment.elim "" ("#" ++ ·)
  p.scheme ++ ":" ++ authority ++ p.path ++ query ++ fragment

/-- A URL whose path is one piece of text, to which nothing can be relative. -/
def hasOpaquePath (p : UrlParts) : Bool :=
  p.authority.isNone && !p.path.startsWith "/"

/-- The same URL without its fragment. -/
def withoutFragment (p : UrlParts) : UrlParts :=
  { p with fragment := none }

end UrlParts

/-! ## Taking a text apart -/

/-- The text before the first character that satisfies `stop`, and the rest from it on. -/
def cutAt (stop : Char → Bool) (cs : List Char) : List Char × List Char :=
  (cs.takeWhile (!stop ·), cs.dropWhile (!stop ·))

/-- The text before and after the first character `c`, if there is one. -/
def cutAround? (c : Char) (cs : List Char) : Option (List Char × List Char) :=
  match cutAt (· == c) cs with
  | (_, []) => none
  | (before, _ :: after) => some (before, after)

/-- The text before and after the last character `c`, if there is one. -/
def cutAroundLast? (c : Char) (cs : List Char) : Option (List Char × List Char) :=
  (cutAround? c cs.reverse).map fun (after, before) => (before.reverse, after.reverse)

/-- The number that a list of decimal digits writes. -/
def decimalValue (cs : List Char) : Nat :=
  cs.foldl (fun n c => n * 10 + (c.toNat - 48)) 0

/-- The parts of an authority's text. -/
def Authority.ofText (cs : List Char) : Authority :=
  let (userInfo, server) := (cutAroundLast? '@' cs).getD ([], cs)
  let (username, password) := match cutAround? ':' userInfo with
    | some (name, word) => (name, some (String.ofList word))
    | none => (userInfo, none)
  let (host, port) :=
    if server.head? == some '[' then
      let (inner, rest) := cutAt (· == ']') server
      (inner ++ rest.take 1, rest.drop 1)
    else cutAt (· == ':') server
  ⟨String.ofList username, password, String.ofList host,
    if port.isEmpty then none else some (decimalValue (port.drop 1))⟩

/-- The parts of a URL's text. -/
def UrlParts.ofText (text : String) : UrlParts :=
  let (scheme, rest) := cutAt (· == ':') text.toList
  let (body, fragment) := cutAt (· == '#') (rest.drop 1)
  let (front, query) := cutAt (· == '?') body
  let part? (cs : List Char) := if cs.isEmpty then none else some (String.ofList (cs.drop 1))
  let (authority, path) := match front with
    | '/' :: '/' :: more =>
      let (server, path) := cutAt (· == '/') more
      (some (Authority.ofText server), path)
    | '/' :: '.' :: '/' :: '/' :: more => (none, '/' :: '/' :: more)
    | path => (none, path)
  ⟨String.ofList scheme, authority, String.ofList path, part? query, part? fragment⟩

end ModuleGraph
