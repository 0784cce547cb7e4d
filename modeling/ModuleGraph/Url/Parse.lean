import ModuleGraph.Url.Host
import ModuleGraph.Url.Segments
import ModuleGraph.Text.Blank

/-!
# Reading a URL

A text is read with or without a base, another URL that it may be relative to. Control characters
and spaces at its ends and tabs and line breaks anywhere are left out first.

A text that starts with a scheme is read by the kind of the scheme. Otherwise it is relative: a
fragment, a query, a path from the root, a path beside the base's last segment, or a new authority
after two slashes. `UrlParts.parse` is the whole reading; the functions before it read one part
each and give what follows it.
-/

namespace ModuleGraph

namespace UrlParts

/-- The characters of a text that are read. -/
def significant (text : String) : List Char :=
  let isOuter (c : Char) : Bool := c.toNat ≤ 0x20
  let cs := Text.dropEndWhile isOuter (text.toList.dropWhile isOuter)
  cs.filter fun c => c != '\t' && c != '\n' && c != '\r'

/-- The scheme in lower case, and what follows its colon. -/
def scheme? : List Char → Option (String × List Char)
  | [] => none
  | c :: rest =>
    if c.isAlpha then
      match cutAt (fun d => !(d.isAlphanum || d == '+' || d == '-' || d == '.')) rest with
      | (more, ':' :: body) => some (String.ofList ((c :: more).map Char.toLower), body)
      | _ => none
    else none

/-- The query and the fragment at the end of a URL. -/
def queryAndFragment (kind : SchemeKind) (cs : List Char) : Option String × Option String :=
  let (front, back) := cutAt (· == '#') cs
  let reserved := if kind == .other then Percent.query else Percent.specialQuery
  let query := match front with
    | '?' :: text => some (String.ofList (Percent.encode reserved text))
    | _ => none
  let fragment := match back with
    | '#' :: text => some (String.ofList (Percent.encode Percent.fragment text))
    | _ => none
  (query, fragment)

/-- The URL with the given authority and path and the query and fragment that follow. -/
def finish (scheme : String) (kind : SchemeKind) (authority : Option Authority)
    (path rest : List Char) : UrlParts :=
  let (query, fragment) := queryAndFragment kind rest
  ⟨scheme, authority, String.ofList path, query, fragment⟩

/-! ## Authorities -/

/-- A character that ends an authority. -/
def endsAuthority (kind : SchemeKind) (c : Char) : Bool :=
  kind.isSeparator c || endsPath c

/-- The host's text, up to a colon outside brackets or the end of the authority. -/
def cutHost (kind : SchemeKind) (inBrackets : Bool) : List Char → List Char × List Char
  | [] => ([], [])
  | c :: rest =>
    if (c == ':' && !inBrackets) || endsAuthority kind c then ([], c :: rest)
    else
      let (host, more) := cutHost kind (if c == '[' then true else c != ']' && inBrackets) rest
      (c :: host, more)

/-- The port that a text starts with. A scheme's own port is left out. -/
def port (scheme : String) : List Char → Except UrlError (Option Nat × List Char)
  | ':' :: cs =>
    let digits := cs.takeWhile Char.isDigit
    let rest := cs.dropWhile Char.isDigit
    let number := decimalValue digits
    if 65535 < number || rest.head?.any (fun c => c != '/' && c != '\x5c' && !endsPath c) then
      .error .invalidPort
    else if digits.isEmpty || defaultPort? scheme == some number then .ok (none, rest)
    else .ok (some number, rest)
  | cs => .ok (none, cs)

/-- The host and the port that follow the given credentials. -/
def server (scheme : String) (kind : SchemeKind) (username : String) (password : Option String)
    (cs : List Char) : Except UrlError (Authority × List Char) := do
  let (text, rest) := cutHost kind false cs
  if kind == .special && text.isEmpty then throw .emptyHost
  let host ← if kind == .other then Host.opaqueHost text else Host.special text
  if host.isEmpty && rest.head? == some ':' then throw .emptyHost
  let (number, rest) ← port scheme rest
  if host.isEmpty && (!username.isEmpty || password.isSome) then throw .emptyHost
  return (⟨username, password, host, number⟩, rest)

/-- The user name and the password written before the `@`. An empty password is none. -/
def credentials (cs : List Char) : String × Option String :=
  let encoded (cs : List Char) : String := String.ofList (Percent.encode Percent.userInfo cs)
  match cutAround? ':' cs with
  | some (name, word) => (encoded name, if word.isEmpty then none else some (encoded word))
  | none => (encoded cs, none)

/-- The authority that a text starts with. -/
def readAuthority (scheme : String) (kind : SchemeKind) (cs : List Char) :
    Except UrlError (Authority × List Char) :=
  let (front, rest) := cutAt (endsAuthority kind) cs
  match cutAroundLast? '@' front with
  | none => server scheme kind "" none cs
  | some (userInfo, text) =>
    if userInfo.isEmpty && text.isEmpty && !rest.isEmpty then .error .emptyHost
    else
      let (username, password) := credentials userInfo
      server scheme kind username password (text ++ rest)

/-- The path after an authority. -/
def pathAfterAuthority (kind : SchemeKind) (cs : List Char) : List Char × List Char :=
  let walked :=
    if kind != .other then
      Segments.walk kind ['/'] (if cs.head?.any kind.isSeparator then cs.drop 1 else cs)
    else
      match cs with
      | [] => ([], false, [])
      | c :: _ =>
        if endsPath c then ([], false, cs)
        else Segments.walk kind (if c == '/' then [] else ['/']) cs
  (walked.1, walked.2.2)

/-- A URL from the text after the two slashes. -/
def afterSlashes (scheme : String) (kind : SchemeKind) (cs : List Char) :
    Except UrlError UrlParts := do
  let (a, rest) ← readAuthority scheme kind cs
  let (path, rest) := pathAfterAuthority kind rest
  return finish scheme kind (some a) path rest

/-! ## Files -/

/-- The authority of a file, which is a host or nothing. -/
def fileHost (host : String) : Option Authority :=
  some ⟨"", none, host, none⟩

/-- A file's URL from the text after two slashes. The text is a host and a path, or a path alone
when it starts with a drive letter. -/
def fileAfterSlashes (cs : List Char) : Except UrlError UrlParts := do
  let (text, rest) := cutAt (endsAuthority .file) cs
  let isDrive := Segments.isDriveLetter text
  let host ← if text.isEmpty || isDrive then pure "" else Host.special text
  let host := if host == "localhost" then "" else host
  let (path, dropsHost, rest) :=
    if host.isEmpty then Segments.walk .file ['/'] (if isDrive then cs else rest)
    else
      Segments.walk .file ['/']
        (if rest.head?.any SchemeKind.file.isSeparator then rest.drop 1 else rest)
  return finish "file" .file (fileHost (if dropsHost then "" else host)) path rest

/-- A file's URL from a text that starts with exactly one slash. The drive or the host is the
base's, unless the text names a drive. -/
def fileFromRoot (cs : List Char) (base : Option UrlParts) : UrlParts :=
  let (host, start) :=
    match base with
    | some b =>
      let first := (cutAt (· == '/') (b.path.toList.drop 1)).1
      if Segments.startsWithDriveLetter (cs.drop 1) then ("", [])
      else if Segments.isNormalDriveLetter first then ("", '/' :: first)
      else ((b.authority.map (·.host)).getD "", [])
    | none => ("", [])
  let (path, _, rest) := Segments.walk .file start cs
  finish "file" .file (fileHost host) path rest

/-- The base with another query, or another fragment, for a text that starts with one. -/
def withTail (base : UrlParts) (kind : SchemeKind) (cs : List Char) : UrlParts :=
  let (query, fragment) := queryAndFragment kind cs
  if cs.head? == some '?' then { base with query := query, fragment := fragment }
  else { base with fragment := fragment }

/-- A file's URL from the text after the scheme, or from a relative text. -/
def file (cs : List Char) (base : Option UrlParts) : Except UrlError UrlParts :=
  let fromDrive :=
    let (path, _, rest) := Segments.walk .file ['/'] cs
    finish "file" .file (fileHost "") path rest
  let isSlash (c : Char) : Bool := SchemeKind.file.isSeparator c
  match cs with
  | [] => .ok (base.elim fromDrive withoutFragment)
  | c :: rest =>
    if isSlash c then
      if rest.head?.any isSlash then fileAfterSlashes (rest.drop 1)
      else .ok (fileFromRoot cs base)
    else
      match base with
      | none => .ok fromDrive
      | some b =>
        if endsPath c then .ok (b.withTail .file cs)
        else if Segments.startsWithDriveLetter cs then .ok fromDrive
        else
          let (path, _, rest) := Segments.walk .file (Segments.dropLast .file b.path.toList) cs
          .ok (finish "file" .file b.authority path rest)

/-! ## Relative texts and whole URLs -/

/-- A URL from a text relative to a base that is no file. -/
def relative (kind : SchemeKind) (base : UrlParts) (cs : List Char) : Except UrlError UrlParts :=
  let isSlash (c : Char) : Bool := c == '/' || c == '\x5c'
  let below (start rest : List Char) : UrlParts :=
    let (path, _, rest) := Segments.walk kind start rest
    finish base.scheme kind base.authority path rest
  match cs with
  | [] => .ok base.withoutFragment
  | c :: rest =>
    if endsPath c then .ok (base.withTail kind cs)
    else if isSlash c then
      if rest.head?.any isSlash then
        let text := if cs.take 2 == ['/', '/'] then cs.drop 2 else cs.dropWhile isSlash
        afterSlashes base.scheme kind text
      else .ok (below ['/'] rest)
    else
      let start := Segments.dropLast kind base.path.toList
      .ok (below (if start.isEmpty then ['/'] else start) cs)

/-- A URL of a scheme that is neither special nor `file`, from the text after the scheme. -/
def otherScheme (scheme : String) (cs : List Char) : Except UrlError UrlParts :=
  match cs with
  | '/' :: '/' :: rest => afterSlashes scheme .other rest
  | '/' :: rest =>
    let (path, _, rest) := Segments.walk .other ['/'] rest
    .ok (finish scheme .other none path rest)
  | _ =>
    let (path, rest) := cutAt endsPath cs
    .ok (finish scheme .other none (Percent.encode Percent.control path) rest)

/-- A URL of one of the special schemes, from the text after the scheme. -/
def specialScheme (scheme : String) (cs : List Char) (base : Option UrlParts) :
    Except UrlError UrlParts :=
  let isSlash (c : Char) : Bool := c == '/' || c == '\x5c'
  let absolute := afterSlashes scheme .special (cs.dropWhile isSlash)
  match base with
  | some b =>
    if (cs.takeWhile isSlash).length < 2 && b.scheme == scheme then relative .special b cs
    else absolute
  | none => absolute

/-- The URL that a text means, where there is a base relative to it. -/
def parse (text : String) (base : Option UrlParts) : Except UrlError UrlParts :=
  let cs := significant text
  match scheme? cs with
  | some (scheme, body) =>
    match SchemeKind.ofScheme scheme with
    | .file => file body (base.filter (·.scheme == "file"))
    | .special => specialScheme scheme body base
    | .other => otherScheme scheme body
  | none =>
    match base with
    | none => .error .relativeWithoutBase
    | some b =>
      let kind := SchemeKind.ofScheme b.scheme
      if cs.head? == some '#' then .ok (b.withTail kind cs)
      else if b.hasOpaquePath then .error .relativeWithOpaqueBase
      else if kind == .file then file cs (some b)
      else relative kind b cs

end UrlParts

end ModuleGraph
