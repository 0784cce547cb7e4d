import ModuleGraph.Url.Parts
import ModuleGraph.Url.Percent

/-!
# Paths of URLs

A path is read segment by segment. A segment `.` adds nothing and a segment `..` takes the last
one back; both may be written with `%2e`. Every other segment is percent-encoded and appended.

Three kinds of scheme differ. Under the special schemes and `file` a backslash separates segments
like a slash. Under `file` a first segment that is a drive letter is written with a colon, is
never taken back, and does without a host; one that goes on after its drive letter is parted
there; and a file's path starts with exactly one slash.

`walk` reads a whole path: it is given the path so far and gives the path and what follows it.
-/

namespace ModuleGraph

/-- How a scheme treats authority and path. -/
inductive SchemeKind where
  | file
  | special
  | other
  deriving DecidableEq, Repr

/-- The schemes with a host that is a domain name, and their ports. -/
def defaultPort? (scheme : String) : Option Nat :=
  match scheme with
  | "http" | "ws" => some 80
  | "https" | "wss" => some 443
  | "ftp" => some 21
  | _ => none

/-- The kind of a scheme. -/
def SchemeKind.ofScheme (scheme : String) : SchemeKind :=
  if scheme == "file" then .file
  else if (defaultPort? scheme).isSome then .special
  else .other

/-- A character that separates segments. -/
def SchemeKind.isSeparator (kind : SchemeKind) (c : Char) : Bool :=
  c == '/' || (c == '\x5c' && kind != .other)

/-- A character that ends a path. -/
def endsPath (c : Char) : Bool :=
  c == '?' || c == '#'

namespace Segments

/-- A letter and then a colon or a bar. -/
def isDriveLetter : List Char → Bool
  | [c, d] => c.isAlpha && (d == ':' || d == '|')
  | _ => false

/-- A letter and then a colon. -/
def isNormalDriveLetter (cs : List Char) : Bool :=
  isDriveLetter cs && cs.getLast? == some ':'

/-- The text starts with a drive letter that is a whole segment. -/
def startsWithDriveLetter : List Char → Bool
  | c :: d :: rest =>
    isDriveLetter [c, d] && rest.head?.all (fun e => e == '/' || e == '\x5c' || endsPath e)
  | _ => false

/-- A segment that adds nothing. -/
def isSingleDot (seg : List Char) : Bool :=
  [".", "%2e", "%2E"].contains (String.ofList seg)

/-- A segment that takes the last one back. -/
def isDoubleDot (seg : List Char) : Bool :=
  ["..", ".%2e", ".%2E", "%2e.", "%2E.", "%2e%2e", "%2e%2E", "%2E%2e", "%2E%2E"].contains
    (String.ofList seg)

/-- The path up to its last slash, and the text after it. -/
def cutLast (path : List Char) : List Char × List Char :=
  let last := (path.reverse.takeWhile (· != '/')).reverse
  (path.take (path.length - last.length), last)

/-- The path without its last segment. A drive letter is not taken back from a file's path. -/
def dropLast (kind : SchemeKind) (path : List Char) : List Char :=
  let (front, last) := cutLast path
  if kind == .file && isNormalDriveLetter last then path else front

/-- The path with a slash at its end. -/
def closed (path : List Char) : List Char :=
  if path.getLast? == some '/' then path else path ++ ['/']

/-- The path ends with a slash that closes a segment to be taken back. -/
def closesSegment (path : List Char) : Bool :=
  path.getLast? == some '/' &&
    let (front, last) := cutLast path.dropLast
    !front.isEmpty && !(isDriveLetter last)

/-- The path after a segment `..`. -/
def up (kind : SchemeKind) (path : List Char) : List Char :=
  dropLast kind (if closesSegment path then path.dropLast else path)

/-- What reading one segment makes of the path: a new path, and whether a host has to go. -/
def add (kind : SchemeKind) (path seg : List Char) (isClosed : Bool) : List Char × Bool :=
  if isDoubleDot seg then
    let path := up kind path
    (if isClosed then closed path else path, false)
  else if isSingleDot seg then (closed path, false)
  else
    let isFirst := kind == .file && path.length == 1
    let slash := if isClosed then ['/'] else []
    if isFirst && isDriveLetter seg then (path ++ seg.take 1 ++ [':'] ++ slash, true)
    else if isFirst && isNormalDriveLetter (seg.take 2) then
      (path ++ seg.take 2 ++ ['/'] ++ Percent.encode Percent.path (seg.drop 2) ++ slash, false)
    else (path ++ Percent.encode Percent.path seg ++ slash, false)

/-- One segment, whether a separator closes it, and what follows. -/
def next (kind : SchemeKind) : List Char → List Char × Bool × List Char
  | [] => ([], false, [])
  | c :: rest =>
    if kind.isSeparator c then ([], true, rest)
    else if endsPath c then ([], false, c :: rest)
    else
      let (seg, isClosed, more) := next kind rest
      (c :: seg, isClosed, more)

/-- After a closed segment less is left. -/
theorem length_next_of_closed {kind : SchemeKind} {cs : List Char}
    (h : (next kind cs).2.1 = true) : (next kind cs).2.2.length < cs.length := by
  induction cs with
  | nil => simp [next] at h
  | cons c cs ih =>
    rw [next] at h ⊢
    by_cases hs : kind.isSeparator c = true
    · simp [hs]
    · rw [if_neg hs] at h ⊢
      by_cases he : endsPath c = true
      · simp [he] at h
      · rw [if_neg he] at h ⊢
        exact Nat.lt_succ_of_lt (ih h)

/-- Reads segments to the end of the path. Gives the path, whether a host has to go, and what
follows the path. -/
def walkFrom (kind : SchemeKind) (path cs : List Char) : List Char × Bool × List Char :=
  match h : next kind cs with
  | (seg, isClosed, rest) =>
    let (path, dropsHost) := add kind path seg isClosed
    if hc : isClosed = true then
      have : rest.length < cs.length := by
        have := @length_next_of_closed kind cs (by rw [h]; exact hc)
        rwa [h] at this
      let (path, dropsLater, rest) := walkFrom kind path rest
      (path, dropsHost || dropsLater, rest)
    else (path, dropsHost, rest)
termination_by cs.length

/-- Reads a path after `path`, the part of it that is there already. -/
def walk (kind : SchemeKind) (path cs : List Char) : List Char × Bool × List Char :=
  let isDrive := kind == .file && isNormalDriveLetter (path.drop 1) &&
    cs.head?.any (fun c => !kind.isSeparator c && !endsPath c)
  let (path, dropsHost, rest) := walkFrom kind (if isDrive then path ++ ['/'] else path) cs
  let path := if kind == .file then '/' :: path.dropWhile (· == '/') else path
  (path, dropsHost, rest)

end Segments

end ModuleGraph
