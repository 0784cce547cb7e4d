import ModuleGraph.Proofs.Containment
import ModuleGraph.Proofs.Ipv6Text
import ModuleGraph.Proofs.SettledPaths
import ModuleGraph.Routing.Routes

/-!
# References are read back from their text

A reference is shown by its address, and the address is meant to be one that
reads as the same reference. For paths and packages it is the address that was
read. For an artifact it is put together from what the URL of the address came
to, so each part has to be one that is read as it is: the host (`IsHost`), the
port, the path (`Segments.Settled`) and the query. They are, and since nothing
in them ends one part early, so is the whole text (`parse_of_readsAsWritten`).

What stands in the way is the check for dots alone, which looks at the pieces of
the address between slashes before the URL is read. A registry can be dots
although no piece was (`Sample.not_readsBack`), and a query can have dots between
its slashes when a tab, a line break or a blank at its end parted them from what
they became. So a reference is read back exactly when no piece of its own address
is dots (`readsBack_iff`).
-/

namespace ModuleGraph

/-! ## Cutting a text -/

section Cuts

variable {stop : Char → Bool} {c : Char} {cs front back : List Char}

theorem cutAt_append (hfront : ∀ d ∈ front, stop d = false)
    (hback : ∀ d, back.head? = some d → stop d = true) :
    cutAt stop (front ++ back) = (front, back) := by
  have hkept : ∀ d ∈ front, (!stop d) = true := fun d hd => by rw [hfront d hd]; rfl
  have hstop : ∀ d ∈ back.head?, (!stop d) = false := fun d hd => by rw [hback d hd]; rfl
  obtain ⟨htake, hdrop⟩ := Text.takeWhile_dropWhile_append hkept hstop
  rw [cutAt, htake, hdrop]

theorem cutAt_eq_iff : cutAt stop cs = (front, back) ↔ cs = front ++ back ∧
    (∀ d ∈ front, stop d = false) ∧ ∀ d, back.head? = some d → stop d = true := by
  constructor
  · intro h
    obtain ⟨rfl, rfl⟩ := Prod.mk.inj h
    refine ⟨List.takeWhile_append_dropWhile.symm, fun d hd => ?_, fun d hd => ?_⟩
    · simpa using List.all_eq_true.1 List.all_takeWhile d hd
    · have hstop := List.head?_dropWhile_not (fun d => !stop d) cs
      rw [hd] at hstop
      simpa using hstop
  · rintro ⟨rfl, hfront, hback⟩
    exact cutAt_append hfront hback

theorem cutAround?_eq_some_iff :
    cutAround? c cs = some (front, back) ↔ cs = front ++ c :: back ∧ c ∉ front := by
  constructor
  · intro h
    have hparts := List.takeWhile_append_dropWhile (p := fun d => !(d == c)) (l := cs)
    have hstop := List.head?_dropWhile_not (fun d => !(d == c)) cs
    rw [cutAround?, cutAt] at h
    generalize hdrop : cs.dropWhile (fun d => !(d == c)) = rest at h hparts hstop
    cases rest with
    | nil => cases h
    | cons d rest =>
      obtain rfl : d = c := by simpa using hstop
      obtain ⟨rfl, rfl⟩ := Prod.mk.inj (Option.some.inj h)
      exact ⟨hparts.symm, fun hmem => by simpa using List.all_eq_true.1 List.all_takeWhile _ hmem⟩
  · rintro ⟨rfl, hc⟩
    have hfront : ∀ d ∈ front, (d == c) = false := by
      rintro d hd
      rw [beq_eq_false_iff_ne]
      rintro rfl
      exact hc hd
    rw [cutAround?, cutAt_append hfront (by simp)]

theorem cutAround?_eq_none (h : c ∉ cs) : cutAround? c cs = none := by
  cases hcut : cutAround? c cs with
  | none => rfl
  | some parts =>
    rw [(cutAround?_eq_some_iff.1 hcut).1] at h
    simp at h

theorem cutAroundLast?_eq_some_iff :
    cutAroundLast? c cs = some (front, back) ↔ cs = front ++ c :: back ∧ c ∉ back := by
  have hreverse : cs.reverse = back.reverse ++ c :: front.reverse ↔ cs = front ++ c :: back := by
    rw [← List.reverse_inj]
    simp
  rw [cutAroundLast?, Option.map_eq_some_iff]
  constructor
  · rintro ⟨⟨after, before⟩, hcut, heq⟩
    obtain ⟨rfl, rfl⟩ := Prod.mk.inj heq
    rw [cutAround?_eq_some_iff] at hcut
    exact ⟨hreverse.1 (by simpa using hcut.1), by simpa using hcut.2⟩
  · rintro ⟨hcs, hc⟩
    exact ⟨(back.reverse, front.reverse),
      cutAround?_eq_some_iff.2 ⟨hreverse.2 hcs, by simpa using hc⟩, by simp⟩

theorem cutAroundLast?_eq_none (h : c ∉ cs) : cutAroundLast? c cs = none := by
  rw [cutAroundLast?, cutAround?_eq_none (by simpa using h), Option.map_none]

end Cuts

/-! ## Hosts -/

open Percent (IsPlain)

/-- A host that is read as it is written. -/
structure IsHost (host : List Char) : Prop where
  opaqueHost : Host.opaqueHost host = .ok (String.ofList host)
  cutHost : ∀ rest, (∀ c, rest.head? = some c → c = ':' ∨ c = '/') →
    UrlParts.cutHost .other false (host ++ rest) = (host, rest)
  visible : ∀ c ∈ host, 0x20 < c.toNat
  no_at : '@' ∉ host
  no_end : ∀ c ∈ host, UrlParts.endsAuthority .other c = false

namespace UrlParts

variable {cs rest host : List Char}

theorem cutHost_of_stop {inBrackets : Bool} (hbrackets : inBrackets = false)
    (hrest : ∀ c, rest.head? = some c → c = ':' ∨ c = '/') :
    cutHost .other inBrackets rest = ([], rest) := by
  subst hbrackets
  cases rest with
  | nil => rfl
  | cons c rest =>
    rw [cutHost, if_pos]
    rcases hrest c rfl with rfl | rfl <;> decide

/-- Outside brackets, what is neither a bracket nor a stop belongs to the host. -/
theorem cutHost_append (hcs : ∀ c ∈ cs, c ≠ ':' ∧ c ≠ '[' ∧ endsAuthority .other c = false)
    (hrest : ∀ c, rest.head? = some c → c = ':' ∨ c = '/') :
    cutHost .other false (cs ++ rest) = (cs, rest) := by
  induction cs with
  | nil => exact cutHost_of_stop rfl hrest
  | cons c cs ih =>
    obtain ⟨⟨hcolon, hopen, hend⟩, hcs⟩ := List.forall_mem_cons.1 hcs
    rw [List.cons_append, cutHost, if_neg (by simp [hcolon, hend])]
    simp [hopen, ih hcs]

/-- Between brackets, colons belong to the host as well. -/
theorem cutHost_brackets (hcs : ∀ c ∈ cs, c ≠ '[' ∧ c ≠ ']' ∧ endsAuthority .other c = false)
    (hrest : ∀ c, rest.head? = some c → c = ':' ∨ c = '/') :
    cutHost .other true (cs ++ ']' :: rest) = (cs ++ [']'], rest) := by
  induction cs with
  | nil =>
    rw [List.nil_append, cutHost, if_neg (by decide)]
    simp [cutHost_of_stop rfl hrest]
  | cons c cs ih =>
    obtain ⟨⟨hopen, hclose, hend⟩, hcs⟩ := List.forall_mem_cons.1 hcs
    have hclose : (c != ']') = true := by simpa using hclose
    rw [List.cons_append, cutHost, if_neg (by simp [hend])]
    simp [hopen, hclose, ih hcs]

end UrlParts

namespace Host

open UrlParts (endsAuthority)

variable {text : List Char} {host : String}

theorem isHost_of_kept {cs : List Char} (hplain : ∀ c ∈ cs, IsPlain Percent.control c)
    (hforbidden : ∀ c ∈ cs, isForbidden c = false) : IsHost cs := by
  have hne : ∀ d, isForbidden d = true → ∀ c ∈ cs, c ≠ d := by
    rintro d hd c hc rfl
    rw [hforbidden c hc] at hd
    cases hd
  have hend : ∀ c ∈ cs, endsAuthority .other c = false := fun c hc => by
    simp [endsAuthority, SchemeKind.isSeparator, endsPath, hne '/' (by decide) c hc,
      hne '?' (by decide) c hc, hne '#' (by decide) c hc]
  refine ⟨?_, fun rest => UrlParts.cutHost_append fun c hc => ⟨hne ':' (by decide) c hc,
    hne '[' (by decide) c hc, hend c hc⟩, fun c hc => ?_,
    fun hat => hne '@' (by decide) _ hat rfl, hend⟩
  · have hbracketed : bracketed? cs = none := by
      cases cs with
      | nil => rfl
      | cons c cs =>
        have hopen := hne '[' (by decide) c (List.mem_cons_self ..)
        rw [bracketed?]
        rintro rest heq
        exact hopen (List.cons.inj heq).1
    have hany : cs.any isForbidden = false := by
      rw [List.any_eq_false]
      exact fun c hc => by simp [hforbidden c hc]
    rw [opaqueHost, hbracketed]
    simp [hany, Percent.encode_of_plain hplain]
  · have hkept := (hplain c hc).kept
    have hblank : c.toNat ≠ 0x20 := fun he => hne ' ' (by decide) c hc (Char.toNat_inj.1 he)
    simp only [Percent.control, Bool.or_eq_false_iff, decide_eq_false_iff_not, Nat.not_lt] at hkept
    omega

theorem isHost_render {ps : List Nat} (h : Ipv6.IsAddress ps) :
    IsHost (Ipv6.render ps).toList := by
  have htext : (Ipv6.render ps).toList = '[' :: Ipv6.body ps ++ [']'] := by
    rw [Ipv6.render_eq, String.toList_ofList]
  have hwritten : ∀ c, Ipv6.IsWritten c → 0x20 < c.toNat ∧ c ≠ '@' ∧ c ≠ '[' ∧ c ≠ ']' ∧
      endsAuthority .other c = false := by
    rintro c (rfl | ⟨d, hd, rfl⟩)
    · decide
    · exact (by decide : ∀ d < 16, 0x20 < (Nat.digitChar d).toNat ∧ Nat.digitChar d ≠ '@' ∧
        Nat.digitChar d ≠ '[' ∧ Nat.digitChar d ≠ ']' ∧
        endsAuthority .other (Nat.digitChar d) = false) d hd
  have hbody : ∀ c ∈ Ipv6.body ps, _ := fun c hc => hwritten c (Ipv6.isWritten_of_mem_body hc)
  have hall {P : Char → Prop} (hopen : P '[') (hclose : P ']') (hP : ∀ c ∈ Ipv6.body ps, P c) :
      ∀ c ∈ '[' :: Ipv6.body ps ++ [']'], P c := by
    simp only [List.cons_append, List.mem_cons, List.mem_append, List.not_mem_nil, or_false]
    rintro c (rfl | hc | rfl)
    · exact hopen
    · exact hP c hc
    · exact hclose
  rw [htext]
  refine ⟨?_, fun rest hrest => ?_, hall (by decide) (by decide) fun c hc => (hbody c hc).1, ?_,
    hall (by decide) (by decide) fun c hc => (hbody c hc).2.2.2.2⟩
  · rw [opaqueHost, List.cons_append, bracketed?, if_pos (by simp), List.dropLast_concat,
      Ipv6.parse_body h]
    rfl
  · have hcut := UrlParts.cutHost_brackets (fun c hc => (hbody c hc).2.2) hrest
    rw [List.cons_append, List.cons_append, UrlParts.cutHost, if_neg (by decide),
      if_pos (by decide), List.append_assoc, List.singleton_append, hcut]
  · exact fun hat => hall (P := (· ≠ '@')) (by decide) (by decide) (fun c hc => (hbody c hc).2.1) _
      hat rfl

theorem not_alphanum_of_isForbidden {c : Char} (h : isForbidden c = true) :
    c ≠ '%' ∧ c.isAlphanum = false := by
  have hall : "\x00\t\n\r #/:<>?@[\\]^|".toList.all (fun c => c != '%' && !c.isAlphanum) := by
    decide
  rw [isForbidden, List.contains_iff_mem] at h
  simpa using List.all_eq_true.1 hall c h

/-- The host of a URL is read as it is written. -/
theorem isHost_of_opaqueHost (h : opaqueHost text = .ok host) : IsHost host.toList := by
  rw [opaqueHost] at h
  split at h
  · next hbracketed =>
    unfold bracketed? at hbracketed
    split at hbracketed
    · split at hbracketed
      · obtain rfl := Option.some.inj hbracketed
        cases hparse : Ipv6.parse _ with
        | error e => rw [hparse] at h; cases h
        | ok ps =>
          rw [hparse] at h
          cases h
          exact isHost_render (Ipv6.isAddress_of_parse hparse)
      · obtain rfl := Option.some.inj hbracketed
        cases h
    · cases hbracketed
  · split at h
    · cases h
    · next hany =>
      cases h
      rw [String.toList_ofList]
      refine isHost_of_kept (fun c hc => Percent.isPlain_of_mem_encode
        Percent.keepsTriples_control hc) fun c hc => ?_
      rw [Bool.not_eq_true, List.any_eq_false] at hany
      rw [← Bool.not_eq_true]
      intro hforbidden
      have hkept : c ≠ '%' ∧ c.isAlphanum = false := not_alphanum_of_isForbidden hforbidden
      exact hany c (Percent.mem_of_mem_encode hkept.1 hkept.2 hc).1 hforbidden

end Host

/-! ## Addresses -/

namespace UrlParts

variable {cs rest host text : List Char} {scheme username path : String}
  {password query : Option String} {a : Authority} {port : Option Nat}

theorem port_le (h : UrlParts.port scheme cs = .ok (port, rest)) (n : Nat) (hn : port = some n) :
    n ≤ 65535 := by
  subst hn
  unfold UrlParts.port at h
  split at h
  · dsimp only at h
    split at h
    · cases h
    · next hfits =>
      split at h
      · cases h
      · cases h
        rw [Bool.or_eq_true, not_or, decide_eq_true_eq, Nat.not_lt] at hfits
        exact hfits.1
  · cases h

/-- The port as it is written after the host. -/
def portText (port : Option Nat) : List Char :=
  (port.elim "" (":" ++ toString ·)).toList

theorem portText_some (n : Nat) : portText (some n) = ':' :: Nat.toDigits 10 n := by
  simp [portText]

theorem decimalValue_toDigits (n : Nat) : decimalValue (Nat.toDigits 10 n) = n := by
  have hvalue := @Nat.ofDigitChars_ten_toDigits n
  rw [Nat.ofDigitChars] at hvalue
  rw [decimalValue]
  simpa [Nat.mul_comm] using hvalue

theorem port_portText (hport : ∀ n, port = some n → n ≤ 65535)
    (hrest : rest.head? = some '/') :
    UrlParts.port "oci" (portText port ++ rest) = .ok (port, rest) := by
  obtain ⟨more, rfl⟩ := List.head?_eq_some_iff.1 hrest
  cases port with
  | none => rfl
  | some n =>
    have hle := hport n rfl
    have hdigit : ∀ c ∈ Nat.toDigits 10 n, c.isDigit = true :=
      fun c hc => Nat.isDigit_of_mem_toDigits (by decide) (by decide) hc
    have hslash : ∀ c ∈ ('/' :: more).head?, c.isDigit = false := by
      rintro c ⟨⟩
      decide
    obtain ⟨htake, hdrop⟩ := Text.takeWhile_dropWhile_append hdigit hslash
    have hfits : ¬ 65535 < n := Nat.not_lt.2 hle
    rw [portText_some, List.cons_append, UrlParts.port]
    simp [htake, hdrop, decimalValue_toDigits, hfits, Nat.toDigits_ne_nil, defaultPort?]

theorem toNat_of_isDigit {c : Char} (h : c.isDigit = true) : 48 ≤ c.toNat ∧ c.toNat ≤ 57 := by
  simpa [Char.isDigit, UInt32.le_iff_toNat_le] using h

theorem of_mem_portText {c : Char} (h : c ∈ portText port) :
    0x20 < c.toNat ∧ c ≠ '@' ∧ endsAuthority .other c = false := by
  cases port with
  | none => cases h
  | some n =>
    rw [portText_some, List.mem_cons] at h
    rcases h with rfl | h
    · decide
    · have hrange := toNat_of_isDigit (Nat.isDigit_of_mem_toDigits (by decide) (by decide) h)
      have hne : ∀ d : Char, d.toNat < 48 ∨ 57 < d.toNat → c ≠ d := by
        rintro d hd rfl
        omega
      refine ⟨by omega, hne '@' (by decide), ?_⟩
      simp [endsAuthority, SchemeKind.isSeparator, endsPath, hne '/' (by decide),
        hne '?' (by decide), hne '#' (by decide)]

/-- A host and a port before a slash are read as they are written. -/
theorem readAuthority_written (hhost : IsHost host) (hne : host ≠ [])
    (hport : ∀ n, port = some n → n ≤ 65535) (hrest : rest.head? = some '/') :
    readAuthority "oci" .other (host ++ portText port ++ rest) =
      .ok (⟨"", none, String.ofList host, port⟩, rest) := by
  have hfront : ∀ c ∈ host ++ portText port, c ≠ '@' ∧ endsAuthority .other c = false := by
    intro c hc
    rcases List.mem_append.1 hc with hc | hc
    · exact ⟨fun he => hhost.no_at (he ▸ hc), hhost.no_end c hc⟩
    · exact (of_mem_portText hc).2
  have hend : ∀ c, rest.head? = some c → endsAuthority .other c = true := fun c hc => by
    obtain rfl := Option.some.inj (hrest.symm.trans hc)
    decide
  have hstop : ∀ c, (portText port ++ rest).head? = some c → c = ':' ∨ c = '/' := by
    cases port with
    | none => exact fun c hc => .inr (Option.some.inj (hc.symm.trans hrest))
    | some n => exact fun c hc => .inl (by simpa [portText_some, eq_comm] using hc)
  rw [readAuthority, cutAt_append (fun c hc => (hfront c hc).2) hend]
  dsimp only
  rw [cutAroundLast?_eq_none fun hat => (hfront _ hat).1 rfl]
  dsimp only
  rw [server, List.append_assoc, hhost.cutHost _ hstop]
  have hspecial : (SchemeKind.other == .special) = false := by decide
  have hempty : (String.ofList host).isEmpty = false := by
    rw [← Bool.not_eq_true, String.isEmpty_iff]
    exact fun hnil => hne (String.ofList_inj.1 hnil)
  simp [hspecial, hhost.opaqueHost, hempty, port_portText hport hrest, bind, Except.bind,
    pure, Except.pure]

/-! ## Whole URLs -/

/-- The query as it is written after the path. -/
def queryText (query : Option String) : List Char :=
  (query.elim "" ("?" ++ ·)).toList

/-- What the URL of an address is made of. -/
structure IsAddress (a : Authority) (path : String) (query : Option String) : Prop where
  host : IsHost a.host.toList
  port : ∀ n, a.port = some n → n ≤ 65535
  path : Segments.Settled path.toList
  query : ∀ q, query = some q → ∀ c ∈ q.toList, IsPlain Percent.query c

/-- The text of such a URL behind the scheme and the slashes. -/
def addressText (a : Authority) (path : String) (query : Option String) : List Char :=
  a.host.toList ++ portText a.port ++ (path.toList ++ queryText query)

theorem visible_of_mem_queryText {c : Char}
    (h : ∀ q, query = some q → ∀ c ∈ q.toList, IsPlain Percent.query c) (hc : c ∈ queryText query) :
    0x20 < c.toNat := by
  cases query with
  | none => cases hc
  | some q =>
    rw [queryText, Option.elim_some, String.toList_append, List.mem_append] at hc
    rcases hc with hc | hc
    · obtain rfl : c = '?' := by simpa using hc
      decide
    · exact (h q rfl c hc).visible (fun d hd => by simp [Percent.query, hd]) (by decide)

theorem IsAddress.visible (h : IsAddress a path query) :
    ∀ c ∈ addressText a path query, 0x20 < c.toNat := by
  intro c hc
  rw [addressText, List.mem_append, List.mem_append, List.mem_append] at hc
  rcases hc with (hc | hc) | hc | hc
  · exact h.host.visible c hc
  · exact (of_mem_portText hc).1
  · rcases h.path.eq_or_isPlain hc with rfl | hplain
    · decide
    · exact hplain.visible (fun d hd => by simp [Percent.path, Percent.fragment, hd]) (by decide)
  · exact visible_of_mem_queryText h.query hc

theorem readable_eq (h : ∀ c ∈ text, 0x20 < c.toNat) : readable text = text := by
  have hend : Text.dropEndWhile (fun c => c.toNat ≤ 0x20) text = text :=
    dropEndWhile_eq_self fun c hc => by simpa using h c (List.mem_of_getLast? hc)
  rw [readable, hend, List.filter_eq_self]
  intro c hc
  have hne : ∀ d : Char, d.toNat ≤ 0x20 → c ≠ d := by
    rintro d hd rfl
    exact absurd (h c hc) (Nat.not_lt.2 hd)
  simp [hne '\t' (by decide), hne '\n' (by decide), hne '\r' (by decide)]

theorem walk_other (path cs : List Char) :
    Segments.walk .other path cs = Segments.walkFrom .other path cs := by
  have hfile : (SchemeKind.other == .file) = false := by decide
  simp [Segments.walk, hfile]

theorem settled_pathAfterAuthority : Segments.Settled (pathAfterAuthority .other cs).1 := by
  have hother : (SchemeKind.other != .other) = false := by decide
  simp only [pathAfterAuthority, hother, Bool.false_eq_true, if_false, walk_other]
  split
  · exact Segments.settled_nil
  · split
    · exact Segments.settled_nil
    · split
      · exact Segments.settled_walkFrom Segments.settled_nil (.inl rfl)
      · exact Segments.settled_walkFrom (Segments.settled_slash.2 Segments.settled_nil)
          (.inr ⟨[], rfl⟩)

theorem pathAfterAuthority_written {path : List Char} (h : Segments.Settled path)
    (hslash : path.head? = some '/') (htail : Segments.AfterPath rest) :
    pathAfterAuthority .other (path ++ rest) = (path, rest) := by
  obtain ⟨more, rfl⟩ := List.head?_eq_some_iff.1 hslash
  have hend : endsPath '/' = false := by decide
  have hwalk := h.walkFrom_eq htail []
  simp only [List.cons_append, List.nil_append] at hwalk
  simp [pathAfterAuthority, hend, walk_other, hwalk]

theorem queryAndFragment_written
    (h : ∀ q, query = some q → ∀ c ∈ q.toList, IsPlain Percent.query c) :
    queryAndFragment .other (queryText query) = (query, none) := by
  have hother : (SchemeKind.other == .other) = true := by decide
  cases query with
  | none => simp [queryText, queryAndFragment, cutAt]
  | some q =>
    have hq := h q rfl
    have hhash : ∀ c ∈ queryText (some q), (c == '#') = false := by
      intro c hc
      rw [queryText, Option.elim_some, String.toList_append] at hc
      rw [beq_eq_false_iff_ne]
      rintro rfl
      rcases List.mem_append.1 hc with hc | hc
      · exact absurd hc (by decide)
      · exact absurd (hq _ hc).kept (by decide)
    have hcut : cutAt (· == '#') (queryText (some q)) = (queryText (some q), []) := by
      have hcut := @cutAt_append _ _ [] hhash (by simp)
      rwa [List.append_nil] at hcut
    have htext : queryText (some q) = '?' :: q.toList := by simp [queryText]
    rw [queryAndFragment, hcut, htext, if_pos hother]
    simp [Percent.encode_of_plain hq]

theorem isPlain_of_queryAndFragment {q : String}
    (h : (queryAndFragment .other cs).1 = some q) : ∀ c ∈ q.toList, IsPlain Percent.query c := by
  have hother : (SchemeKind.other == .other) = true := by decide
  simp only [queryAndFragment, hother, if_true] at h
  split at h
  · obtain rfl := Option.some.inj h
    rw [String.toList_ofList]
    exact fun c hc => Percent.isPlain_of_mem_encode Percent.keepsTriples_query hc
  · cases h

theorem isAddress_of_parse {fragment : Option String}
    (h : parse ("oci://" ++ String.ofList text) none =
      .ok ⟨scheme, some a, path, query, fragment⟩) : IsAddress a path query := by
  rw [parse_oci, afterSlashes] at h
  cases hauthority : readAuthority "oci" .other (readable text) with
  | error e => rw [hauthority] at h; cases h
  | ok read =>
    obtain ⟨a', rest⟩ := read
    rw [hauthority] at h
    obtain ⟨hostText, more, hhost, hport⟩ := of_readAuthority hauthority
    obtain ⟨-, ha, hpath, hquery, -⟩ := UrlParts.mk.inj (Except.ok.inj h)
    obtain rfl := Option.some.inj ha
    refine ⟨Host.isHost_of_opaqueHost hhost, port_le hport, ?_, ?_⟩
    · rw [← hpath, String.toList_ofList]
      exact settled_pathAfterAuthority
    · rintro q rfl
      exact isPlain_of_queryAndFragment hquery

theorem parse_addressText (h : IsAddress a path query) (husername : a.username = "")
    (hpassword : a.password = none) (hhost : a.host ≠ "")
    (hslash : path.toList.head? = some '/') :
    parse ("oci://" ++ String.ofList (addressText a path query)) none =
      .ok ⟨"oci", some a, path, query, none⟩ := by
  have hvisible := h.visible
  have htail : Segments.AfterPath (queryText query) := by
    cases query with
    | none => simp [Segments.AfterPath, queryText]
    | some q => simp [Segments.AfterPath, queryText, endsPath]
  have hne : a.host.toList ≠ [] := by simpa using hhost
  have hhead : (path.toList ++ queryText query).head? = some '/' := by
    rw [List.head?_append, hslash]
    rfl
  have ha : (⟨"", none, String.ofList a.host.toList, a.port⟩ : Authority) = a := by
    rw [String.ofList_toList, ← husername, ← hpassword]
  rw [parse_oci, readable_eq hvisible, addressText, afterSlashes,
    readAuthority_written h.host hne h.port hhead, ha]
  simp only [bind, Except.bind, pure, Except.pure,
    pathAfterAuthority_written h.path hslash htail, finish, queryAndFragment_written h.query,
    String.ofList_toList]

end UrlParts

/-! ## Artifacts -/

namespace OciReference

open UrlParts (IsAddress addressText portText queryText)

variable {r r' : OciReference} {raw : String} {a : Authority} {registry repository path : String}
  {query : Option String}

/-- No piece of the address between slashes is dots. -/
def Undotted (r : OciReference) : Prop :=
  ∀ piece ∈ (r.registry ++ r.repository).toList.splitOn '/', isDots piece = false

theorem of_registryOf? (h : registryOf? a = some registry) :
    a.username = "" ∧ a.password = none ∧ a.host ≠ "" ∧
      registry.toList = a.host.toList ++ portText a.port := by
  rw [registryOf?] at h
  split at h
  · cases h
  · next hhas =>
    obtain rfl := Option.some.inj h
    simp only [Bool.or_eq_true, Bool.not_eq_true', String.isEmpty_iff, not_or,
      Bool.not_eq_false] at hhas
    exact ⟨hhas.1.2, by simpa using hhas.2, hhas.1.1, String.toList_append⟩

theorem of_repositoryOf? (h : repositoryOf? path query = some repository) :
    path.toList.head? = some '/' ∧ repository.toList = path.toList ++ queryText query := by
  simp only [repositoryOf?] at h
  split at h
  · next hall =>
    obtain rfl := Option.some.inj h
    rw [Bool.and_eq_true, beq_iff_eq] at hall
    exact ⟨hall.1, String.toList_append⟩
  · cases h

/-- What was read of an address is read of its text again, as long as no dots are in it. -/
theorem location?_written {text : List Char} (h : location? text = some (registry, repository))
    (hdots : ∀ piece ∈ (registry ++ repository).toList.splitOn '/', isDots piece = false) :
    location? (registry ++ repository).toList = some (registry, repository) := by
  rw [location?] at h
  split at h
  · cases h
  · split at h
    · next a path query hparse =>
      obtain ⟨registry', hregistry, h⟩ := Option.bind_eq_some_iff.1 h
      obtain ⟨repository', hrepository, h⟩ := Option.bind_eq_some_iff.1 h
      obtain ⟨rfl, rfl⟩ := Prod.mk.inj (Option.some.inj h)
      obtain ⟨husername, hpassword, hhost, hregistryText⟩ := of_registryOf? hregistry
      obtain ⟨hslash, hrepositoryText⟩ := of_repositoryOf? hrepository
      have htext : (registry' ++ repository').toList = addressText a path query := by
        rw [String.toList_append, hregistryText, hrepositoryText, addressText]
      have hnone : ¬ ((registry' ++ repository').toList.splitOn '/').any isDots = true := by
        rw [List.any_eq_true]
        rintro ⟨piece, hpiece, hpieceDots⟩
        rw [hdots piece hpiece] at hpieceDots
        cases hpieceDots
      rw [location?, if_neg hnone, htext,
        UrlParts.parse_addressText (UrlParts.isAddress_of_parse hparse) husername hpassword hhost
          hslash]
      simp [hregistry, hrepository]
    · cases h

/-- A tag that an address can have. -/
structure IsTag (tag : List Char) : Prop where
  no_colon : ':' ∉ tag
  no_slash : '/' ∉ tag
  trim_ne : Text.trim tag ≠ []

theorem parse?_eq_some_iff : parse? raw = some r ↔ IsTag r.tag.toList ∧
    ∃ text, raw.toList = text ++ ':' :: r.tag.toList ∧
      location? text = some (r.registry, r.repository) := by
  constructor
  · intro h
    obtain ⟨⟨text, tag⟩, hcut, h⟩ := Option.bind_eq_some_iff.1 h
    dsimp only at h
    split at h
    · cases h
    · next htag =>
      obtain ⟨⟨registry, repository⟩, hlocation, h⟩ := Option.bind_eq_some_iff.1 h
      obtain rfl := Option.some.inj h
      obtain ⟨hraw, hcolon⟩ := cutAroundLast?_eq_some_iff.1 hcut
      simp only [Bool.or_eq_true, not_or, List.isEmpty_iff, List.contains_iff_mem] at htag
      rw [String.toList_ofList]
      exact ⟨⟨hcolon, htag.2, htag.1⟩, text, hraw, hlocation⟩
  · rintro ⟨htag, text, hraw, hlocation⟩
    have hcut := cutAroundLast?_eq_some_iff.2 ⟨hraw, htag.no_colon⟩
    rw [parse?, hcut]
    simp [htag.trim_ne, htag.no_slash, hlocation]

theorem undotted_of_location? {place : String × String}
    (h : location? (r.registry ++ r.repository).toList = some place) : r.Undotted := by
  rw [location?] at h
  split at h
  · cases h
  · next hdots =>
    rw [Bool.not_eq_true, List.any_eq_false] at hdots
    exact fun piece hpiece => by simpa using hdots piece hpiece

/-- An artifact is read back from its address exactly when no dots are in it. -/
theorem parse_artifact (h : parse raw = .ok r) :
    (r.Undotted → parse r.artifact = .ok r) ∧ ∀ r', parse r.artifact = .ok r' → r.Undotted := by
  simp only [parse_eq_ok_iff] at h ⊢
  obtain ⟨htag, text, -, hlocation⟩ := parse?_eq_some_iff.1 h
  have hartifact : r.artifact.toList =
      (r.registry ++ r.repository).toList ++ ':' :: r.tag.toList := by
    simp [artifact]
  constructor
  · intro hdots
    exact parse?_eq_some_iff.2 ⟨htag, _, hartifact, location?_written hlocation hdots⟩
  · intro r' h'
    obtain ⟨htag', text', hraw', hlocation'⟩ := parse?_eq_some_iff.1 h'
    have hsame := (cutAroundLast?_eq_some_iff.2 ⟨hraw', htag'.no_colon⟩).symm.trans
      (cutAroundLast?_eq_some_iff.2 ⟨hartifact, htag.no_colon⟩)
    obtain ⟨rfl, -⟩ := Prod.mk.inj (Option.some.inj hsame)
    exact undotted_of_location? hlocation'

end OciReference

/-! ## References -/

theorem NugetReference.package_eq {p : NugetReference} {rest : String}
    (h : NugetReference.parse rest = .ok p) : p.package = rest := by
  rw [NugetReference.parse] at h
  split at h
  · next name version hcut =>
    split at h
    · cases h
    · cases h
      rw [← String.toList_inj, (cutAround?_eq_some_iff.1 hcut).1]
      simp [NugetReference.package]
  · cases h

namespace Reference

variable {σ : Type} {routes : Routes σ} {r : Reference} {raw : String}

/-- The reference is read back from its text, with its scheme and without. -/
def ReadsBack (routes : Routes σ) (r : Reference) : Prop :=
  ∃ r', routes.parse r.qualified = .ok r' ∧ r'.same r = true ∧ r'.qualified = r.qualified ∧
    r.scheme.parse r.unqualified = .ok r'

/-- No piece of an artifact's address is dots. -/
def Undotted : Reference → Prop
  | oci a => a.Undotted
  | _ => True

theorem split_name {name text : String} (h : ':' ∉ name.toList) :
    Routes.split (name ++ ":" ++ text) = (some name, text) := by
  have hcut : cutAround? ':' (name ++ ":" ++ text).toList = some (name.toList, text.toList) :=
    cutAround?_eq_some_iff.2 ⟨by simp, h⟩
  rw [Routes.split, hcut]
  simp

theorem parse_name {s : Scheme} {text : String} (hcolon : ':' ∉ s.name.toList)
    (hname : Scheme.ofName? s.name = some s) (hanswers : routes.answersFor s = true) :
    routes.parse (s.name ++ ":" ++ text) = s.parse text := by
  have hne : (s.name ++ ":" ++ text).isEmpty = false := by
    rw [← Bool.not_eq_true, String.isEmpty_iff, ← String.toList_inj]
    simp
  simp [Routes.parse, hne, split_name hcolon, hname, hanswers]

theorem ofName?_ne_relative (name : String) : Scheme.ofName? name ≠ some .relative := by
  rw [Scheme.ofName?]
  split
  · simp
  · split <;> simp

/-- The scheme of a reference has read some text as it; a path is the whole text. -/
theorem exists_parse (h : routes.parse raw = .ok r) :
    ∃ rest, r.scheme.parse rest = .ok r ∧ (r.scheme = .relative → rest = raw) := by
  simp only [Routes.parse] at h
  split at h
  · cases h
  · split at h
    · next s hname =>
      split at h
      · have hscheme := Scheme.scheme_of_parse h
        refine ⟨_, hscheme ▸ h, fun hrelative => ?_⟩
        rw [hscheme.symm.trans hrelative, Routes.split] at hname
        rw [Routes.split]
        split at hname
        · exact absurd hname (ofName?_ne_relative _)
        · rfl
      · cases h
    · cases h

/-- Paths and packages are shown by the text they were read from. -/
theorem unqualified_eq {rest : String} (h : r.scheme.parse rest = .ok r) (hoci : r.scheme ≠ .oci) :
    r.unqualified = rest := by
  cases r with
  | oci a => exact absurd rfl hoci
  | relative path =>
    simp only [scheme, Scheme.parse] at h
    split at h
    · cases h
    · cases h
      rfl
  | nuget p =>
    simp only [scheme, Scheme.parse] at h
    cases hparse : NugetReference.parse rest with
    | error e => rw [hparse] at h; cases h
    | ok p' =>
      rw [hparse] at h
      cases h
      exact NugetReference.package_eq hparse

/-- The text of a reference leads back to its scheme. -/
theorem parse_qualified (h : routes.parse raw = .ok r) :
    routes.parse r.qualified = r.scheme.parse r.unqualified := by
  have hanswers := Routes.answersFor_of_parse h
  cases r with
  | oci a => exact parse_name (s := .oci) (by decide) (by decide) hanswers
  | nuget p => exact parse_name (s := .nuget) (by decide) (by decide) hanswers
  | relative path =>
    obtain ⟨rest, hrest, hwhole⟩ := exists_parse h
    obtain rfl := hwhole rfl
    obtain rfl := unqualified_eq hrest (by simp [scheme])
    exact h.trans hrest.symm

/-- Only artifacts can fail to be read back, and only for dots. -/
theorem readsBack_iff (h : routes.parse raw = .ok r) : r.ReadsBack routes ↔ r.Undotted := by
  have hback : r.ReadsBack routes ↔ ∃ r', r.scheme.parse r.unqualified = .ok r' ∧
      r'.same r = true ∧ r'.qualified = r.qualified := by
    simp only [ReadsBack, parse_qualified h]
    exact exists_congr fun r' => ⟨fun hr => ⟨hr.1, hr.2.1, hr.2.2.1⟩,
      fun hr => ⟨hr.1, hr.2.1, hr.2.2, hr.1⟩⟩
  have hself : r.scheme.parse r.unqualified = .ok r → r.ReadsBack routes := fun hr =>
    hback.2 ⟨r, hr, same_iff.2 rfl, rfl⟩
  obtain ⟨rest, hrest, -⟩ := exists_parse h
  cases r with
  | relative | nuget =>
    have hunqualified := unqualified_eq hrest (by simp [scheme])
    exact ⟨fun _ => trivial, fun _ => hself (hunqualified ▸ hrest)⟩
  | oci a =>
    have hparse : OciReference.parse rest = .ok a := by
      simp only [scheme, Scheme.parse] at hrest
      cases hparse : OciReference.parse rest with
      | error e => rw [hparse] at hrest; cases hrest
      | ok a' =>
        rw [hparse] at hrest
        cases hrest
        rfl
    obtain ⟨hwritten, hdots⟩ := OciReference.parse_artifact hparse
    constructor
    · intro hreads
      obtain ⟨r', hr', -⟩ := hback.1 hreads
      simp only [scheme, Scheme.parse, unqualified] at hr'
      cases hparse' : OciReference.parse a.artifact with
      | error e => rw [hparse'] at hr'; cases hr'
      | ok a' => exact hdots a' hparse'
    · intro hundotted
      exact hself (by simp only [scheme, Scheme.parse, unqualified, hwritten hundotted]; rfl)

end Reference

namespace Sample

/-- A registry that answers for a scheme. -/
def clerkOf (s : Scheme) : Registry Unit where
  scheme := s
  restoreRequired _ _ := false
  entryPoint _ _ r := .error (.entryPointUnresolvable r.qualified "nothing is here")
  restore _ _ := ([], ())

/-- Routes for every scheme. -/
def everyRoute : Routes Unit where
  registry? s := some (clerkOf s)
  scheme_eq h := by
    cases h
    rfl

theorem parse_host : everyRoute.parse "oci:LOCALHOST:05000/foo bar/a?b:v1.0" =
    .ok (.oci ⟨"LOCALHOST:5000", "/foo%20bar/a?b", "v1.0"⟩) := by
  decide +kernel

theorem readsBack_host :
    everyRoute.parse "oci:LOCALHOST:05000/foo bar/a?b:v1.0" =
      .ok (.oci ⟨"LOCALHOST:5000", "/foo%20bar/a?b", "v1.0"⟩) ∧
    Reference.ReadsBack everyRoute (.oci ⟨"LOCALHOST:5000", "/foo%20bar/a?b", "v1.0"⟩) := by
  refine ⟨parse_host, (Reference.readsBack_iff parse_host).2 ?_⟩
  simp only [Reference.Undotted, OciReference.Undotted]
  decide +kernel

/-- A registry that is dots is not read back. -/
theorem not_readsBack : ¬ ∀ (routes : Routes Unit) (raw : String) (r : Reference),
    (∀ s, routes.answersFor s = true) → routes.parse raw = .ok r → r.ReadsBack routes := by
  intro h
  have hdots : everyRoute.parse "oci:@../a:v1" = .ok (.oci ⟨"..", "/a", "v1"⟩) := by
    decide +kernel
  obtain ⟨r', -, -, -, hparse⟩ := h everyRoute _ _ (fun s => rfl) hdots
  have hnone : (Scheme.oci.parse "../a:v1").toOption = none := by
    decide +kernel
  rw [show Scheme.oci.parse "../a:v1" = .ok r' from hparse] at hnone
  cases hnone

end Sample

end ModuleGraph
