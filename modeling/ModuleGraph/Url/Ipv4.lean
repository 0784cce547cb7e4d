import ModuleGraph.Text.Hex
import ModuleGraph.Url.Error

/-!
# IPv4 hosts

A domain whose last label is a number is an IPv4 address, and nothing else. Its numbers may be
decimal, octal after a `0` or hexadecimal after `0x`, and there may be fewer than four of them:
the last one fills what the others leave.
-/

namespace ModuleGraph.Ipv4

/-- The value of digits in a radix of at most sixteen, if all of them are digits of it. -/
def valueIn? (radix : Nat) (cs : List Char) : Option Nat :=
  cs.foldl (fun acc c =>
    match acc, Hex.digitValue? c with
    | some n, some d => if d < radix then some (n * radix + d) else none
    | _, _ => none) (some 0)

/-- The number of one part: decimal, or octal or hexadecimal by its first characters. A mark
without digits after it is zero. -/
def number? : List Char → Option Nat
  | [] => none
  | ['0'] => some 0
  | '0' :: 'x' :: rest => valueIn? 16 rest
  | '0' :: 'X' :: rest => valueIn? 16 rest
  | '0' :: rest => valueIn? 8 rest
  | cs => valueIn? 10 cs

/-- The parts between dots, without an empty last one. -/
def parts (domain : List Char) : List (List Char) :=
  let ps := domain.splitOn '.'
  if ps.getLast? == some [] then ps.dropLast else ps

/-- The domain's last label is a number, so that the domain has to be an address. -/
def endsInNumber (domain : List Char) : Bool :=
  match (parts domain).getLast? with
  | none => false
  | some last => (!last.isEmpty && last.all Char.isDigit) || (number? last).isSome

/-- The 32 bits of the address. -/
def parse (domain : List Char) : Except UrlError Nat :=
  match (parts domain).mapM number? with
  | none => .error .invalidIpv4
  | some ns =>
    let leading := ns.dropLast
    let last := ns.getLastD 0
    if 4 < ns.length || leading.any (255 < ·) || 1 <<< (8 * (4 - leading.length)) ≤ last then
      .error .invalidIpv4
    else
      .ok (leading.zipIdx.foldl (fun address p => address + p.1 <<< (8 * (3 - p.2))) last)

/-- The four bytes of an address as decimal numbers with dots between them. -/
def render (address : Nat) : String :=
  ".".intercalate ([3, 2, 1, 0].map fun i => toString (address >>> (8 * i) % 256))

end ModuleGraph.Ipv4
