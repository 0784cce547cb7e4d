import ModuleGraph.Url.Domain
import ModuleGraph.Url.Ipv4
import ModuleGraph.Url.Ipv6
import ModuleGraph.Url.Percent

/-!
# Hosts

A host is read in one of two ways. Under the special schemes it is a domain name or an address,
and is brought into its one form: `special`. Under all other schemes it is kept as written, with
control characters and everything outside ASCII percent-encoded: `opaqueHost`. An address between
brackets is read the same way under both.

Both give the host's text as it stands in the URL.
-/

namespace ModuleGraph.Host

/-- A character that cannot stand in a host under any scheme. -/
def isForbidden (c : Char) : Bool :=
  "\x00\t\n\r #/:<>?@[\\]^|".toList.contains c

/-- The text between brackets, for a host that opens one. -/
def bracketed? (cs : List Char) : Option (Except UrlError String) :=
  match cs with
  | '[' :: rest =>
    if rest.getLast? == some ']' then some ((Ipv6.parse rest.dropLast).map Ipv6.render)
    else some (.error .invalidIpv6)
  | _ => none

/-- The host under a special scheme. -/
def special (cs : List Char) : Except UrlError String :=
  match bracketed? cs with
  | some host => host
  | none => do
    let name ← Domain.toAscii (Percent.decode cs)
    if name.isEmpty then .error .emptyHost
    else if Ipv4.endsInNumber name then return Ipv4.render (← Ipv4.parse name)
    else return String.ofList name

/-- The host under any other scheme. -/
def opaqueHost (cs : List Char) : Except UrlError String :=
  match bracketed? cs with
  | some host => host
  | none =>
    if cs.any isForbidden then .error .invalidHostCharacter
    else .ok (String.ofList (Percent.encode Percent.control cs))

end ModuleGraph.Host
