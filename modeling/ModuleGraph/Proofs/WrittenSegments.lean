import ModuleGraph.Proofs.ReadingBack

/-!
# Repositories as they are written

Whether the repository of a reference has the segments that its address is written
with. An address is checked for dots as it is written, then it is read as a URL, and
the path of the URL is checked for empty segments behind the slashes at its start.
Three things fall between: dots that are written with `%2e`, which the URL takes as
moves; slashes right behind the registry; and the tabs, line breaks and blanks that
are left out when a URL is read. `keepsSegments_iff` says that there is nothing else:
a repository keeps its segments exactly when none of the three is in its text.

That a text without them keeps its segments follows the walk along the path. For
the other way, lengths are enough: a segment brings at most its own characters into
a path, so that what has been left out of a text is missing in the segments
(`nameLength_repositoryText_le`).
-/

namespace ModuleGraph

/-! ## Lengths of names -/

namespace Percent

variable {c : Char} {cs ds : List Char} {keep : Char → Bool}

theorem eq_nil_of_encode {reserved : Char → Bool} (h : encode reserved cs = []) : cs = [] := by
  by_contra hne
  obtain ⟨-, b, -, -, htriple⟩ := exists_triple_of_encode_ne (h.trans_ne (Ne.symm hne))
  rw [h, List.infix_nil] at htriple
  cases htriple

/-- How many characters the names of a text have when it is part of a path. -/
def nameLength (cs : List Char) : Nat :=
  (encode path cs).countP (· != '/')

theorem nameLength_append (cs ds : List Char) :
    nameLength (cs ++ ds) = nameLength cs + nameLength ds := by
  rw [nameLength, encode, List.flatMap_append, List.countP_append]
  rfl

theorem nameLength_cons (c : Char) (cs : List Char) :
    nameLength (c :: cs) = nameLength [c] + nameLength cs :=
  nameLength_append [c] cs

theorem nameLength_pos (hc : c ≠ '/') : 0 < nameLength [c] := by
  rw [nameLength, List.countP_pos_iff]
  by_cases hplain : IsPlain path c
  · rw [encode_of_plain (by simpa using hplain)]
    exact ⟨c, List.mem_singleton_self c, by simpa using hc⟩
  · have hchanged : encode path [c] ≠ [c] := fun hsame =>
      hplain (isPlain_of_mem_encode keepsTriples_path (hsame.symm ▸ List.mem_singleton_self c))
    obtain ⟨-, b, -, -, htriple⟩ := exists_triple_of_encode_ne hchanged
    exact ⟨'%', htriple.mem (List.mem_cons_self ..), by decide⟩

theorem nameLength_filter_le (keep : Char → Bool) (cs : List Char) :
    nameLength (cs.filter keep) ≤ nameLength cs := by
  induction cs with
  | nil => simp
  | cons c cs ih =>
    rw [nameLength_cons, List.filter_cons]
    split
    · rw [nameLength_cons]
      omega
    · omega

/-- Whatever is left out of a name makes it shorter. -/
theorem all_of_nameLength_le (hkeep : keep '/' = true)
    (h : nameLength cs ≤ nameLength (cs.filter keep)) : ∀ c ∈ cs, keep c = true := by
  induction cs with
  | nil => simp
  | cons c cs ih =>
    have hle := nameLength_filter_le keep cs
    rw [nameLength_cons, List.filter_cons] at h
    split at h
    · next hc =>
      rw [nameLength_cons c (cs.filter keep)] at h
      exact List.forall_mem_cons.2 ⟨hc, ih (by omega)⟩
    · next hc =>
      have hpos := nameLength_pos (c := c) fun he => hc (he ▸ hkeep)
      omega

end Percent

/-! ## What is read of a text -/

namespace UrlParts

variable {cs rest text : List Char} {c : Char} {scheme username : String}
  {password : Option String} {a : Authority} {port : Option Nat} {kind : SchemeKind}
  {stop : Char → Bool}

/-- A character that is left out wherever it stands. -/
def isStripped (c : Char) : Bool :=
  c == '\t' || c == '\n' || c == '\r'

theorem readable_eq_filter (text : List Char) : readable text =
    (Text.dropEndWhile (fun c => c.toNat ≤ 0x20) text).filter (!isStripped ·) := by
  rw [readable]
  congr 1
  funext c
  simp [isStripped, bne]

theorem isStripped_of_visible (h : 0x20 < c.toNat) : isStripped c = false := by
  have hne : ∀ d : Char, d.toNat ≤ 0x20 → c ≠ d := by
    rintro d hd rfl
    omega
  simp [isStripped, hne '\t' (by decide), hne '\n' (by decide), hne '\r' (by decide)]

/-- Up to a character that is seen, only what is stripped is left out. -/
theorem readable_append (hc : 0x20 < c.toNat) (front back : List Char) :
    readable (front ++ c :: back) = front.filter (!isStripped ·) ++ c :: readable back := by
  have hdrop : decide (c.toNat ≤ 0x20) = false := by simpa using hc
  rw [readable_eq_filter, readable_eq_filter, Text.dropEndWhile_append hdrop, List.filter_append,
    List.filter_cons, if_pos (by simp [isStripped_of_visible hc])]

theorem mem_of_mem_readable (h : c ∈ readable text) : c ∈ text := by
  rw [readable_eq_filter] at h
  have h := List.mem_of_mem_filter h
  rw [Text.dropEndWhile, List.mem_reverse] at h
  exact List.mem_reverse.1 (List.dropWhile_subset _ h)

/-- What is read of a text is cut where the text is. -/
theorem cutAt_readable (stop : Char → Bool) (hstop : ∀ c, stop c = true → 0x20 < c.toNat)
    (text : List Char) :
    cutAt stop (readable text) =
      (if (cutAt stop text).2 = [] then readable (cutAt stop text).1
        else (cutAt stop text).1.filter (!isStripped ·), readable (cutAt stop text).2) := by
  generalize hcut : cutAt stop text = cut
  obtain ⟨front, back⟩ := cut
  obtain ⟨rfl, hfront, hback⟩ := cutAt_eq_iff.1 hcut
  dsimp only
  rw [cutAt_eq_iff]
  cases back with
  | nil =>
    rw [if_pos rfl, List.append_nil]
    exact ⟨(List.append_nil _).symm, fun d hd => hfront d (mem_of_mem_readable hd),
      fun d hd => by cases hd⟩
  | cons c back =>
    have hc := hback c rfl
    have hempty := readable_append (hstop c hc) [] back
    rw [List.nil_append, List.filter_nil, List.nil_append] at hempty
    rw [if_neg (List.cons_ne_nil c back), readable_append (hstop c hc), hempty]
    refine ⟨rfl, fun d hd => hfront d (List.mem_of_mem_filter hd), fun d hd => ?_⟩
    obtain rfl : c = d := by simpa using hd
    exact hc

end UrlParts

/-! ## Authorities -/

namespace Ipv6

variable {cs : List Char} {c : Char} {p q : Progress} {ps : List Nat}

/-- A character that an address can be written with. -/
def isLetter (c : Char) : Bool :=
  (Hex.digitValue? c).isSome || c == ':' || c == '.'

theorem all_of_takeHex (k value : Nat) (cs : List Char) :
    ∃ digits, cs = digits ++ (takeHex k value cs).2 ∧ digits.all isLetter = true := by
  fun_induction takeHex k value cs with
  | case1 => exact ⟨[], rfl, rfl⟩
  | case2 => exact ⟨[], rfl, rfl⟩
  | case3 k value c cs d hd ih =>
    obtain ⟨digits, hcs, hdigits⟩ := ih
    exact ⟨c :: digits, congrArg (c :: ·) hcs, by simp [isLetter, hd, hdigits]⟩
  | case4 => exact ⟨[], rfl, rfl⟩

theorem all_of_byte? {n : Nat} (h : byte? cs = some n) : cs.all isLetter = true := by
  have hdigit : ∀ c : Char, c.isDigit = true → isLetter c = true := by
    intro c hc
    simp [isLetter, Hex.digitValue?, UrlParts.toNat_of_isDigit hc]
  simp only [byte?] at h
  split at h
  · cases h
  · next hnot =>
    simp only [Bool.or_eq_true, not_or, Bool.not_eq_true', Bool.not_eq_false] at hnot
    exact List.all_eq_true.2 fun c hc => hdigit c (List.all_eq_true.1 hnot.1.1.2 c hc)

theorem all_of_mapM_byte? {texts : List (List Char)} {ns : List Nat}
    (h : texts.mapM byte? = some ns) : ∀ text ∈ texts, text.all isLetter = true := by
  induction texts generalizing ns with
  | nil => simp
  | cons text texts ih =>
    rw [List.mapM_cons] at h
    obtain ⟨n, hn, h⟩ := Option.bind_eq_some_iff.1 h
    obtain ⟨ns, hns, -⟩ := Option.bind_eq_some_iff.1 h
    exact List.forall_mem_cons.2 ⟨all_of_byte? hn, ih hns⟩

theorem all_of_embedded? {value : Nat × Nat} (h : embedded? cs = some value) :
    cs.all isLetter = true := by
  rw [embedded?] at h
  split at h
  · next hbytes =>
    rw [List.all_eq_true]
    refine fun c hc => Classical.byContradiction fun hother => ?_
    have hdot : c ≠ '.' := fun he => hother (he ▸ by decide)
    have hwhole : ['.'].intercalate (cs.splitOn '.') = cs := List.intercalate_splitOn '.'
    refine not_mem_intercalate hdot (fun piece hpiece hmem => ?_) (hwhole.symm ▸ hc)
    exact hother (List.all_eq_true.1 (all_of_mapM_byte? hbytes piece hpiece) c hmem)
  · cases h

theorem all_of_pieces? (h : pieces? p cs = some q) : cs.all isLetter = true := by
  induction hlength : cs.length using Nat.strongRecOn generalizing p cs with
  | ind m ih =>
    subst hlength
    cases cs with
    | nil => rfl
    | cons c rest =>
      rw [pieces?] at h
      split at h
      · cases h
      · split at h
        · next hc =>
          split at h
          · cases h
          · rw [List.all_cons, ih _ (by simp) h rfl, hc]
            rfl
        · have hread := all_of_takeHex 4 0 (c :: rest)
          split at h
          · next value heq =>
            rw [heq] at hread
            obtain ⟨digits, hcs, hdigits⟩ := hread
            rw [hcs, List.append_nil, hdigits]
          · next value d more heq =>
            have hmore := length_takeHex 4 0 (c :: rest)
            rw [heq] at hread hmore
            obtain ⟨digits, hcs, hdigits⟩ := hread
            split at h
            · split at h
              · obtain ⟨value, hembedded, -⟩ := Option.map_eq_some_iff.1 h
                exact all_of_embedded? hembedded
              · cases h
            · split at h
              · next hcolon =>
                rw [Bool.and_eq_true, decide_eq_true_eq] at hcolon
                rw [hcs, List.all_append, List.all_cons, hdigits, ih _ hmore h rfl, hcolon.1]
                rfl
              · cases h

theorem all_of_parse (h : parse cs = .ok ps) : cs.all isLetter = true := by
  simp only [parse] at h
  split at h
  · next hread =>
    obtain ⟨p, hp, -⟩ := Option.bind_eq_some_iff.1 hread
    split at hp
    · rw [List.all_cons, List.all_cons, all_of_pieces? hp]
      rfl
    · cases hp
    · cases hp
    · cases hp
    · exact all_of_pieces? hp
  · cases h

end Ipv6

namespace Host

/-- A host is written without a backslash. -/
theorem backslash_not_mem_of_opaqueHost {text : List Char} {host : String}
    (h : opaqueHost text = .ok host) : '\x5c' ∉ text := by
  rw [opaqueHost] at h
  split at h
  · next hbracketed =>
    unfold bracketed? at hbracketed
    split at hbracketed
    · next rest =>
      split at hbracketed
      · next hlast =>
        obtain rfl := Option.some.inj hbracketed
        obtain ⟨inner, rfl⟩ := List.getLast?_eq_some_iff.1 (beq_iff_eq.1 hlast)
        cases hparse : Ipv6.parse (inner ++ [']']).dropLast with
        | error e => rw [hparse] at h; cases h
        | ok ps =>
          rw [List.dropLast_concat] at hparse
          have hletters := List.all_eq_true.1 (Ipv6.all_of_parse hparse) '\x5c'
          simp only [List.mem_cons, List.mem_append, List.not_mem_nil, or_false, not_or]
          exact ⟨by decide, fun hmem => absurd (hletters hmem) (by decide), by decide⟩
      · obtain rfl := Option.some.inj hbracketed
        cases h
    · cases hbracketed
  · split at h
    · cases h
    · next hany =>
      exact fun hmem => hany (List.any_eq_true.2 ⟨_, hmem, by decide⟩)

end Host

namespace UrlParts

variable {cs rest text more : List Char} {c : Char} {scheme username : String}
  {password : Option String} {a : Authority} {number : Option Nat}

/-- A character that ends an authority. After a port a backslash is one as well. -/
def endsServer (c : Char) : Bool :=
  c == '\x5c' || endsAuthority .other c

theorem endsServer_iff : endsServer c = true ↔ c = '/' ∨ c = '\x5c' ∨ endsPath c = true := by
  simp [endsServer, endsAuthority, SchemeKind.isSeparator]
  tauto

theorem endsServer_of_endsAuthority {kind : SchemeKind} (h : endsAuthority kind c = true) :
    endsServer c = true := by
  rw [endsServer_iff]
  simp only [endsAuthority, SchemeKind.isSeparator, Bool.or_eq_true, Bool.and_eq_true,
    beq_iff_eq] at h
  tauto

theorem endsServer_of_isDigit (h : c.isDigit = true) : endsServer c = false := by
  have hrange := toNat_of_isDigit h
  have hne : ∀ d : Char, d.toNat < 48 ∨ 57 < d.toNat → c ≠ d := by
    rintro d hd rfl
    omega
  rw [Bool.eq_false_iff, ne_eq, endsServer_iff, endsPath]
  simp [hne '/' (by decide), hne '\x5c' (by decide), hne '?' (by decide), hne '#' (by decide)]

theorem of_cutHost {kind : SchemeKind} {inBrackets : Bool}
    (h : cutHost kind inBrackets cs = (text, more)) :
    cs = text ++ more ∧ (∀ c ∈ text, endsAuthority kind c = false) ∧
      ∀ c, more.head? = some c → c = ':' ∨ endsServer c = true := by
  induction cs generalizing inBrackets text with
  | nil =>
    obtain ⟨rfl, rfl⟩ := Prod.mk.inj h
    simp
  | cons c cs ih =>
    rw [cutHost] at h
    split at h
    · next hstop =>
      obtain ⟨rfl, rfl⟩ := Prod.mk.inj h
      refine ⟨rfl, by simp, fun d hd => ?_⟩
      obtain rfl : c = d := by simpa using hd
      rw [Bool.or_eq_true, Bool.and_eq_true, beq_iff_eq] at hstop
      exact hstop.imp And.left endsServer_of_endsAuthority
    · next hgoes =>
      rw [Bool.or_eq_true, not_or, Bool.not_eq_true, Bool.not_eq_true] at hgoes
      obtain ⟨rfl, rfl⟩ := Prod.mk.inj h
      obtain ⟨hcs, htext, hmore⟩ := ih rfl
      exact ⟨congrArg (c :: ·) hcs, List.forall_mem_cons.2 ⟨hgoes.2, htext⟩, hmore⟩

theorem of_port (h : port scheme more = .ok (number, rest))
    (hmore : ∀ c, more.head? = some c → c = ':' ∨ endsServer c = true) :
    ∃ digits, more = digits ++ rest ∧ (∀ c ∈ digits, endsServer c = false) ∧
      ∀ c, rest.head? = some c → endsServer c = true := by
  unfold port at h
  split at h
  · next cs =>
    dsimp only at h
    split at h
    · cases h
    · next hstops =>
      have hrest : rest = cs.dropWhile Char.isDigit := by
        split at h <;> cases h <;> rfl
      subst hrest
      refine ⟨':' :: cs.takeWhile Char.isDigit, ?_,
        List.forall_mem_cons.2 ⟨by decide, fun c hc => ?_⟩,
        fun c hc => ?_⟩
      · rw [List.cons_append, List.takeWhile_append_dropWhile]
      · exact endsServer_of_isDigit (List.all_eq_true.1 List.all_takeWhile c hc)
      · rw [Bool.or_eq_true, not_or, hc, Option.any_some] at hstops
        have hstops := hstops.2
        rw [endsServer_iff]
        simp only [Bool.and_eq_true, bne_iff_ne, Bool.not_eq_true', not_and,
          Bool.not_eq_false] at hstops
        tauto
  · next hcolon =>
    cases h
    refine ⟨[], rfl, by simp, fun c hc => ?_⟩
    refine (hmore c hc).resolve_left ?_
    rintro rfl
    obtain ⟨cs, rfl⟩ := List.head?_eq_some_iff.1 hc
    exact hcolon cs rfl

theorem rest_of_server (h : server scheme .other username password cs = .ok (a, rest)) :
    ∃ front, cs = front ++ rest ∧ (∀ c ∈ front, endsServer c = false) ∧
      ∀ c, rest.head? = some c → endsServer c = true := by
  obtain ⟨hhost, hport, -⟩ := of_server h
  generalize hcut : cutHost .other false cs = cut at hhost hport
  obtain ⟨text, more⟩ := cut
  obtain ⟨rfl, htext, hmore⟩ := of_cutHost hcut
  obtain ⟨digits, rfl, hdigits, hrest⟩ := of_port hport hmore
  refine ⟨text ++ digits, (List.append_assoc ..).symm,
    List.forall_mem_append.2 ⟨fun c hc => ?_, hdigits⟩,
    hrest⟩
  have hne : c ≠ '\x5c' := fun he => Host.backslash_not_mem_of_opaqueHost hhost (he ▸ hc)
  rw [endsServer, htext c hc, Bool.or_false]
  simpa using hne

theorem of_credentials (h : credentials cs = ("", none)) : ∀ c ∈ cs, c = ':' := by
  have hnil : ∀ {cs : List Char},
      String.ofList (Percent.encode Percent.userInfo cs) = "" → cs = [] :=
    fun h => Percent.eq_nil_of_encode (String.ofList_eq_empty_iff.1 h)
  simp only [credentials] at h
  split at h
  · next name word hcut =>
    obtain ⟨hname, hword⟩ := Prod.mk.inj h
    split at hword
    · next hempty =>
      rw [(cutAround?_eq_some_iff.1 hcut).1, hnil hname, List.isEmpty_iff.1 hempty]
      simp
    · cases hword
  · rw [hnil (Prod.mk.inj h).1]
    simp

/-- An authority without credentials is all that stands before the first character that ends one. -/
theorem rest_of_readAuthority (h : readAuthority scheme .other cs = .ok (a, rest))
    (husername : a.username = "") (hpassword : a.password = none) :
    (cutAt endsServer cs).2 = rest := by
  suffices hparts : ∃ front, cs = front ++ rest ∧ (∀ c ∈ front, endsServer c = false) ∧
      ∀ c, rest.head? = some c → endsServer c = true by
    obtain ⟨front, hcs, hfront, hrest⟩ := hparts
    rw [cutAt_eq_iff.2 ⟨hcs, hfront, hrest⟩]
  rw [readAuthority] at h
  dsimp only at h
  split at h
  · exact rest_of_server h
  · next userInfo text hcut =>
    split at h
    · cases h
    · obtain ⟨-, -, hname, hword⟩ := of_server h
      obtain ⟨front, hserver, hfront, hrest⟩ := rest_of_server h
      have hcs : cs = userInfo ++ '@' :: text ++ (cutAt (endsAuthority .other) cs).2 := by
        rw [← (cutAroundLast?_eq_some_iff.1 hcut).1]
        exact List.takeWhile_append_dropWhile.symm
      have huser := of_credentials <|
        Prod.ext (hname.symm.trans husername) (hword.symm.trans hpassword)
      refine ⟨userInfo ++ '@' :: front, ?_, ?_, hrest⟩
      · rw [hcs, List.append_assoc, List.cons_append, hserver]
        simp
      · refine List.forall_mem_append.2 ⟨fun c hc => ?_, List.forall_mem_cons.2 ⟨by decide, hfront⟩⟩
        rw [huser c hc]
        decide

end UrlParts

/-! ## Paths -/

namespace Segments

variable {path seg cs rest : List Char} {isClosed : Bool}

theorem countP_closed : (closed path).countP (· != '/') = path.countP (· != '/') := by
  obtain ⟨front, hfront, rfl | rfl⟩ := closed_eq_append path
  · rw [hfront, List.countP_append]
    simp
  · rw [hfront]

theorem countP_up_le (kind : SchemeKind) :
    (up kind path).countP (· != '/') ≤ path.countP (· != '/') := by
  have hdrop : ∀ path, (dropLast kind path).countP (· != '/') ≤ path.countP (· != '/') := by
    intro path
    rw [dropLast]
    dsimp only
    split
    · exact Nat.le_refl _
    · exact (List.take_sublist _ path).countP_le
  refine (hdrop _).trans ?_
  split
  · exact (List.dropLast_sublist path).countP_le
  · exact Nat.le_refl _

/-- A segment brings at most its own characters into a path. -/
theorem countP_add_le (path seg : List Char) (isClosed : Bool) :
    (add .other path seg isClosed).1.countP (· != '/') ≤
    path.countP (· != '/') + Percent.nameLength seg := by
  have hfile : (SchemeKind.other == .file) = false := by decide
  rw [add]
  split
  · dsimp only
    split
    · rw [countP_closed]
      exact (countP_up_le .other).trans (Nat.le_add_right ..)
    · exact (countP_up_le .other).trans (Nat.le_add_right ..)
  · split
    · rw [countP_closed]
      exact Nat.le_add_right ..
    · simp only [hfile, Bool.false_and, Bool.false_eq_true, if_false]
      rw [List.countP_append, List.countP_append, ← Percent.nameLength]
      cases isClosed <;> simp

theorem of_next (h : next .other cs = (seg, isClosed, rest)) :
    (cutAt endsPath cs).1 = seg ++ (if isClosed then '/' :: (cutAt endsPath rest).1 else []) ∧
      (cutAt endsPath cs).2 = (cutAt endsPath rest).2 ∧
      (isClosed = false → rest = (cutAt endsPath cs).2) := by
  induction cs generalizing seg with
  | nil =>
    cases h
    exact ⟨rfl, rfl, fun _ => rfl⟩
  | cons c cs ih =>
    rw [next] at h
    split at h
    · next hsep =>
      obtain rfl : c = '/' := by simpa [SchemeKind.isSeparator] using hsep
      cases h
      exact ⟨rfl, rfl, fun hc => by cases hc⟩
    · split at h
      · next hend =>
        cases h
        have hcut : cutAt endsPath (c :: cs) = ([], c :: cs) := by simp [cutAt, hend]
        exact ⟨by simp [hcut], rfl, fun _ => by rw [hcut]⟩
      · next hend =>
        cases h
        have hcut : cutAt endsPath (c :: cs) =
            (c :: (cutAt endsPath cs).1, (cutAt endsPath cs).2) := by
          simp [cutAt, hend]
        obtain ⟨hfront, hback, hrest⟩ := ih rfl
        rw [hcut]
        exact ⟨congrArg (c :: ·) hfront, hback, hrest⟩

/-- A walk stops where the path ends, and has read at most the characters before. -/
theorem of_walkFrom (path cs : List Char) : (walkFrom .other path cs).2.2 = (cutAt endsPath cs).2 ∧
    (walkFrom .other path cs).1.countP (· != '/') ≤
      path.countP (· != '/') + Percent.nameLength (cutAt endsPath cs).1 := by
  induction hn : cs.length using Nat.strongRecOn generalizing path cs with
  | ind n ih =>
    rw [walkFrom]
    split
    next seg isClosed rest hnext =>
    obtain ⟨hfront, hback, hend⟩ := of_next hnext
    have hadd := countP_add_le path seg isClosed
    rw [hfront, Percent.nameLength_append]
    dsimp only
    split
    · next hc =>
      have hlt := @length_next_of_closed .other cs (by rw [hnext]; exact hc)
      rw [hnext, hn] at hlt
      obtain ⟨hrest, hcount⟩ := ih _ hlt (add .other path seg isClosed).1 rest rfl
      rw [Percent.nameLength_cons, show Percent.nameLength ['/'] = 0 by decide]
      refine ⟨hrest.trans hback.symm, ?_⟩
      dsimp only
      omega
    · next hc => exact ⟨hend (Bool.not_eq_true _ ▸ hc), hadd.trans (by omega)⟩

end Segments

/-! ## Addresses -/

theorem cutAt_congr {stop stop' : Char → Bool} {cs : List Char}
    (h : ∀ c ∈ cs, stop c = stop' c) : cutAt stop cs = cutAt stop' cs := by
  obtain ⟨hcs, hfront, hback⟩ := cutAt_eq_iff.1 (Prod.mk.eta (p := cutAt stop' cs)).symm
  refine cutAt_eq_iff.2 ⟨hcs, fun c hc => ?_, fun c hc => ?_⟩
  · rw [h c (hcs ▸ List.mem_append_left _ hc)]
    exact hfront c hc
  · rw [h c (hcs ▸ List.mem_append_right _ (List.mem_of_head? hc))]
    exact hback c hc

/-- What a text is cut at is behind the cut. -/
theorem mem_cutAt (stop : Char → Bool) {c : Char} {cs : List Char} (hc : stop c = true)
    (h : c ∈ cs) : c ∈ (cutAt stop cs).2 := by
  obtain ⟨hcs, hfront, -⟩ := cutAt_eq_iff.1 (Prod.mk.eta (p := cutAt stop cs)).symm
  rw [hcs, List.mem_append] at h
  refine h.resolve_left fun hmem => ?_
  rw [hfront c hmem] at hc
  cases hc

namespace UrlParts

variable {cs text : List Char} {c : Char}

theorem mem_readable (hc : 0x20 < c.toNat) (h : c ∈ text) : c ∈ readable text := by
  obtain ⟨front, back, rfl⟩ := List.append_of_mem h
  rw [readable_append hc]
  exact List.mem_append_right _ (List.mem_cons_self ..)

theorem exists_blanks (cs : List Char) : ∃ blanks,
    cs = Text.dropEndWhile (fun c => c.toNat ≤ 0x20) cs ++ blanks ∧
      ∀ c ∈ blanks, c.toNat ≤ 0x20 := by
  refine ⟨(cs.reverse.takeWhile (fun c => c.toNat ≤ 0x20)).reverse, ?_, fun c hc => ?_⟩
  · rw [Text.dropEndWhile, ← List.reverse_append, List.takeWhile_append_dropWhile,
      List.reverse_reverse]
  · simpa using List.all_eq_true.1 List.all_takeWhile c (List.mem_reverse.1 hc)

/-- A text that is read as it is. -/
theorem readable_eq_self_iff : readable cs = cs ↔
    (∀ c ∈ cs, isStripped c = false) ∧ ∀ c, cs.getLast? = some c → 0x20 < c.toNat := by
  obtain ⟨blanks, hcs, -⟩ := exists_blanks cs
  rw [readable_eq_filter]
  constructor
  · intro h
    have hdrop : Text.dropEndWhile (fun c => c.toNat ≤ 0x20) cs = cs := by
      refine List.IsPrefix.eq_of_length_le ⟨blanks, hcs.symm⟩ ?_
      exact (congrArg List.length h).symm.trans_le (List.length_filter_le ..)
    rw [hdrop, List.filter_eq_self] at h
    refine ⟨by simpa using h, fun c hc => ?_⟩
    have hlast := List.head?_dropWhile_not (fun c => decide (c.toNat ≤ 0x20)) cs.reverse
    rw [List.reverse_eq_iff.1 hdrop, List.head?_reverse, hc] at hlast
    simpa using hlast
  · rintro ⟨hstripped, hlast⟩
    rw [dropEndWhile_eq_self fun c hc => by simpa using hlast c hc, List.filter_eq_self]
    simpa using hstripped

/-- When what is read of a text brings as many characters as the text into a path, it is the
text. -/
theorem readable_eq_of_nameLength_le
    (h : Percent.nameLength cs ≤ Percent.nameLength (readable cs)) : readable cs = cs := by
  obtain ⟨blanks, hcs, hblanks⟩ := exists_blanks cs
  rw [readable_eq_filter] at h ⊢
  generalize Text.dropEndWhile (fun c => c.toNat ≤ 0x20) cs = front at h hcs ⊢
  subst hcs
  have hle := Percent.nameLength_filter_le (!isStripped ·) front
  rw [Percent.nameLength_append] at h
  cases blanks with
  | nil =>
    rw [List.append_nil, List.filter_eq_self]
    exact Percent.all_of_nameLength_le (by decide) (by omega)
  | cons c blanks =>
    have hne : c ≠ '/' := by
      rintro rfl
      exact absurd (hblanks '/' (List.mem_cons_self ..)) (by decide)
    have hpos := Percent.nameLength_pos hne
    rw [Percent.nameLength_cons] at h
    omega

/-- What follows the slash that a path starts with. -/
def afterSlash (cs : List Char) : List Char :=
  if cs.head? == some '/' then cs.drop 1 else cs

theorem mem_of_mem_afterSlash (h : c ∈ afterSlash cs) : c ∈ cs := by
  rw [afterSlash] at h
  split at h
  · exact List.mem_of_mem_drop h
  · exact h

theorem cutAt_afterSlash {stop : Char → Bool} (hslash : stop '/' = false) (cs : List Char) :
    cutAt stop (afterSlash cs) = (afterSlash (cutAt stop cs).1, (cutAt stop cs).2) := by
  cases cs with
  | nil => rfl
  | cons c cs =>
    by_cases hc : c = '/'
    · subst hc
      simp [afterSlash, cutAt, hslash]
    · by_cases hstop : stop c = true <;> simp [afterSlash, cutAt, hc, hstop]

theorem nameLength_afterSlash (cs : List Char) :
    Percent.nameLength (afterSlash cs) = Percent.nameLength cs := by
  rw [afterSlash]
  split
  · next hhead =>
    obtain ⟨rest, rfl⟩ := List.head?_eq_some_iff.1 (beq_iff_eq.1 hhead)
    rw [List.drop_one, List.tail_cons, Percent.nameLength_cons '/' rest,
      show Percent.nameLength ['/'] = 0 by decide, Nat.zero_add]
  · rfl

theorem of_pathAfterAuthority (h : (pathAfterAuthority .other cs).1 ≠ []) :
    (∃ c more, cs = c :: more ∧ endsPath c = false) ∧
      (pathAfterAuthority .other cs).1 = (Segments.walkFrom .other ['/'] (afterSlash cs)).1 ∧
      (pathAfterAuthority .other cs).2 = (cutAt endsPath cs).2 := by
  have hother : (SchemeKind.other != .other) = false := by decide
  simp only [pathAfterAuthority, hother, Bool.false_eq_true, if_false, walk_other] at h ⊢
  cases cs with
  | nil => exact absurd rfl h
  | cons c cs =>
    dsimp only at h ⊢
    split at h
    · exact absurd rfl h
    · next hend =>
      rw [if_neg hend]
      by_cases hc : c = '/'
      · subst hc
        have hfirst : Segments.walkFrom .other [] ('/' :: cs) =
            Segments.walkFrom .other ['/'] cs := by
          rw [Segments.walkFrom]
          split
          next heq =>
          rw [Segments.next_slash] at heq
          cases heq
          have hadd : Segments.add .other [] [] true = (['/'], false) := by decide
          dsimp only
          rw [hadd]
          rfl
        have hcut : cutAt endsPath ('/' :: cs) =
            ('/' :: (cutAt endsPath cs).1, (cutAt endsPath cs).2) := by
          simp [cutAt, endsPath]
        simp only [beq_self_eq_true, if_true, hfirst, afterSlash, List.head?_cons, List.drop_one,
          List.tail_cons, hcut]
        exact ⟨⟨'/', cs, rfl, by decide⟩, trivial, (Segments.of_walkFrom _ _).1⟩
      · have hwritten : afterSlash (c :: cs) = c :: cs := by simp [afterSlash, hc]
        rw [if_neg (by simpa using hc), hwritten]
        exact ⟨⟨c, cs, rfl, Bool.eq_false_iff.2 hend⟩, rfl, (Segments.of_walkFrom _ _).1⟩

theorem hash_not_mem_of_queryAndFragment {kind : SchemeKind}
    (h : (queryAndFragment kind cs).2 = none) : '#' ∉ cs := by
  obtain ⟨hcs, hfront, hback⟩ :=
    cutAt_eq_iff.1 (Prod.mk.eta (p := cutAt (· == '#') cs)).symm
  simp only [queryAndFragment] at h
  split at h
  · cases h
  · next hnone =>
    cases hrest : (cutAt (· == '#') cs).2 with
    | nil =>
      rw [hrest, List.append_nil] at hcs
      rw [hcs]
      exact fun hmem => by simpa using hfront _ hmem
    | cons c rest =>
      obtain rfl : c = '#' := by simpa using hback c (by rw [hrest]; rfl)
      exact absurd hrest (hnone rest)

/-- The path of an address without credentials and without a fragment is read from what follows
the server, and no `#` stands there. -/
theorem path_of_parse_oci {text : List Char} {scheme path : String} {query : Option String}
    (h : parse ("oci://" ++ String.ofList text) none = .ok ⟨scheme, some a, path, query, none⟩)
    (husername : a.username = "") (hpassword : a.password = none) (hpath : path.toList ≠ []) :
    (∃ c more, (cutAt endsServer (readable text)).2 = c :: more ∧ endsPath c = false) ∧
      path.toList = (Segments.walkFrom .other ['/']
        (afterSlash (cutAt endsServer (readable text)).2)).1 ∧ '#' ∉ text := by
  rw [parse_oci, afterSlashes] at h
  cases hauthority : readAuthority "oci" .other (readable text) with
  | error e => rw [hauthority] at h; cases h
  | ok read =>
    obtain ⟨a', rest⟩ := read
    rw [hauthority] at h
    have ha : some a' = some a := congrArg UrlParts.authority (Except.ok.inj h)
    obtain rfl := Option.some.inj ha
    have hread : String.ofList (pathAfterAuthority .other rest).1 = path :=
      congrArg UrlParts.path (Except.ok.inj h)
    have hfragment : (queryAndFragment .other (pathAfterAuthority .other rest).2).2 = none :=
      congrArg UrlParts.fragment (Except.ok.inj h)
    have hrest := rest_of_readAuthority hauthority husername hpassword
    rw [← hread, String.toList_ofList] at hpath ⊢
    obtain ⟨hhead, hwalked, htail⟩ := of_pathAfterAuthority hpath
    rw [hrest]
    refine ⟨hhead, hwalked, fun hmem => ?_⟩
    have hbehind := mem_cutAt endsServer (by decide) (mem_readable (by decide) hmem)
    rw [hrest] at hbehind
    refine hash_not_mem_of_queryAndFragment hfragment ?_
    rw [htail]
    exact mem_cutAt _ (by decide) hbehind

end UrlParts

namespace OciReference

open UrlParts (readable afterSlash isStripped)

variable {r : OciReference} {raw : String} {path text : List Char}

/-- The text before the tag. -/
def untagged (raw : String) : List Char :=
  ((cutAroundLast? ':' raw.toList).getD ([], [])).1

/-- A character that ends the registry. -/
def endsRegistry (c : Char) : Bool :=
  c == '/' || c == '\x5c' || c == '?'

/-- The repository as it is written: what follows the registry, up to a query. -/
def repositoryText (text : List Char) : List Char :=
  (cutAt (· == '?') (cutAt endsRegistry text).2).1

/-- What stands between the slashes of a repository, without the slash that it starts with. -/
def pieces (text : List Char) : List (List Char) :=
  (afterSlash (repositoryText text)).splitOn '/'

/-- Every piece is a name: none is empty, and none is dots in a spelling that is read as a move. -/
structure HasNames (text : List Char) : Prop where
  ne_nil : ∀ piece ∈ pieces text, piece ≠ []
  single : ∀ piece ∈ pieces text, Segments.isSingleDot piece = false
  double : ∀ piece ∈ pieces text, Segments.isDoubleDot piece = false

/-- The repository of a reference has the segments that are written, each one encoded. -/
structure KeepsSegments (raw : String) (r : OciReference) : Prop
    extends HasNames (untagged raw) where
  segments : r.segments =
    ((pieces (untagged raw)).map (Percent.encode Percent.path)).map String.ofList

/-- Nothing of a repository is left out when it is read: no tabs and line breaks, and no blanks at
the end where no query follows. -/
structure PlainlyWritten (raw : String) : Prop extends HasNames (untagged raw) where
  stripped : ∀ c ∈ repositoryText (untagged raw), isStripped c = false
  blank : '?' ∉ untagged raw →
    ∀ c, (repositoryText (untagged raw)).getLast? = some c → 0x20 < c.toNat

/-- What an address is read as. -/
structure ReadFrom (text : List Char) (path : List Char) : Prop where
  hash : '#' ∉ text
  head : ∃ c rest, (cutAt endsRegistry (readable text)).2 = c :: rest ∧ c ≠ '?'
  path_eq : path = (Segments.walkFrom .other ['/']
    (afterSlash (cutAt endsRegistry (readable text)).2)).1

theorem untagged_eq (h : parse raw = .ok r) :
    location? (untagged raw) = some (r.registry, r.repository) := by
  obtain ⟨htag, text, hraw, hlocation⟩ := parse?_eq_some_iff.1 (parse_eq_ok_iff.1 h)
  rw [untagged, cutAroundLast?_eq_some_iff.2 ⟨hraw, htag.no_colon⟩]
  exact hlocation

/-- A server without a `#` behind it is the registry. -/
theorem cutAt_endsServer (hhash : '#' ∉ text) :
    cutAt UrlParts.endsServer (readable text) = cutAt endsRegistry (readable text) := by
  refine cutAt_congr fun c hc => ?_
  have hne : c ≠ '#' := fun he => hhash (he ▸ UrlParts.mem_of_mem_readable hc)
  rw [Bool.eq_iff_iff, UrlParts.endsServer_iff]
  simp [endsRegistry, endsPath, hne]
  tauto

/-- A reference has the segments of the path that its address is read as. -/
theorem exists_path (h : parse raw = .ok r) : ∃ path, ReadFrom (untagged raw) path ∧
    r.segments = (segmentsOf path).map String.ofList := by
  have hlocation := untagged_eq h
  generalize untagged raw = text at hlocation
  rw [location?] at hlocation
  split at hlocation
  · cases hlocation
  · split at hlocation
    · next a path query hparse =>
      obtain ⟨registry, hregistry, hlocation⟩ := Option.bind_eq_some_iff.1 hlocation
      obtain ⟨repository, hrepository, hlocation⟩ := Option.bind_eq_some_iff.1 hlocation
      obtain ⟨rfl, rfl⟩ := Prod.mk.inj (Option.some.inj hlocation)
      obtain ⟨husername, hpassword, -, -⟩ := of_registryOf? hregistry
      obtain ⟨hslash, hrepositoryText⟩ := of_repositoryOf? hrepository
      have hquestion := (UrlParts.of_parse_oci hparse).2
      have hsome : path.toList ≠ [] := fun hnil => by
        rw [hnil] at hslash
        cases hslash
      obtain ⟨⟨c, more, hmore, hc⟩, hwalked, hhash⟩ :=
        UrlParts.path_of_parse_oci hparse husername hpassword hsome
      rw [cutAt_endsServer hhash] at hmore hwalked
      refine ⟨path.toList, ⟨hhash, ⟨c, more, hmore, ?_⟩, hwalked⟩, ?_⟩
      · rintro rfl
        exact absurd hc (by decide)
      · have hquery : ∀ c, (UrlParts.queryText query).head? = some c → (c == '?') = true := by
          cases query with
          | none => simp [UrlParts.queryText]
          | some q => simp [UrlParts.queryText]
        rw [segments, hrepositoryText, cutAt_append (fun c hc => ?_) hquery]
        rw [beq_eq_false_iff_ne]
        rintro rfl
        exact hquestion hc
    · cases hlocation

theorem endsRegistry_iff {c : Char} : endsRegistry c = true ↔ c = '/' ∨ c = '\x5c' ∨ c = '?' := by
  simp [endsRegistry, or_assoc]

/-- A query follows the repository exactly when there is a question mark. -/
theorem query_eq_nil_iff :
    (cutAt (· == '?') (cutAt endsRegistry text).2).2 = [] ↔ '?' ∉ text := by
  constructor
  · intro hnil hmem
    have hquery := mem_cutAt (· == '?') (by decide)
      (mem_cutAt endsRegistry (by decide) hmem)
    rw [hnil] at hquery
    cases hquery
  · intro hnot
    have hnone : ∀ c ∈ (cutAt endsRegistry text).2, (c == '?') = false := fun c hc => by
      rw [beq_eq_false_iff_ne]
      rintro rfl
      exact hnot (List.dropWhile_subset _ hc)
    rw [cutAt_eq_iff.2 ⟨(List.append_nil _).symm, hnone, by simp⟩]

theorem repositoryText_readable (text : List Char) : repositoryText (readable text) =
    if '?' ∈ text then (repositoryText text).filter (!isStripped ·)
    else readable (repositoryText text) := by
  have hregistry := UrlParts.cutAt_readable endsRegistry (fun c hc => by
    rcases endsRegistry_iff.1 hc with rfl | rfl | rfl <;> decide) text
  have hquery := UrlParts.cutAt_readable (· == '?') (fun c hc => by
    rw [eq_of_beq hc]
    decide) (cutAt endsRegistry text).2
  rw [repositoryText, hregistry]
  dsimp only
  rw [hquery]
  by_cases h : '?' ∈ text
  · rw [if_neg (fun hnil => query_eq_nil_iff.1 hnil h), if_pos h, repositoryText]
  · rw [if_pos (query_eq_nil_iff.2 h), if_neg h, repositoryText]

theorem cutAt_afterSlash_read (text : List Char) :
    cutAt (· == '?') (afterSlash (cutAt endsRegistry (readable text)).2) =
      (afterSlash (repositoryText (readable text)),
        (cutAt (· == '?') (cutAt endsRegistry (readable text)).2).2) := by
  rw [UrlParts.cutAt_afterSlash (by decide), repositoryText]

theorem intercalate_pieces (text : List Char) :
    ['/'].intercalate (pieces text) = afterSlash (repositoryText text) :=
  List.intercalate_splitOn '/'

theorem HasNames.isPiece (h : HasNames text) (hhash : '#' ∉ text) :
    ∀ piece ∈ pieces text, Segments.IsPiece piece := by
  intro piece hpiece
  refine ⟨h.single piece hpiece, h.double piece hpiece, fun c hc => ⟨?_, ?_⟩⟩
  · have hne : c ≠ '/' := fun he => not_mem_of_mem_splitOn hpiece (he ▸ hc)
    simp [SchemeKind.isSeparator, hne]
  · have hwritten : c ∈ repositoryText text := by
      refine UrlParts.mem_of_mem_afterSlash ?_
      rw [← intercalate_pieces]
      exact mem_intercalate hpiece hc
    obtain ⟨-, hquery, -⟩ :=
      cutAt_eq_iff.1 (Prod.mk.eta (p := cutAt (· == '?') (cutAt endsRegistry text).2)).symm
    have hne : c ≠ '#' := by
      rintro rfl
      exact hhash (List.dropWhile_subset _ (List.takeWhile_subset _ hwritten))
    rw [endsPath, hquery c hwritten, beq_eq_false_iff_ne.2 hne, Bool.or_false]

theorem segmentsOf_intercalate {segs : List (List Char)} (hne : segs ≠ [])
    (hsegs : ∀ seg ∈ segs, seg ≠ [] ∧ '/' ∉ seg) :
    segmentsOf ('/' :: ['/'].intercalate segs) = segs := by
  have hfirst : ('/' :: ['/'].intercalate segs).dropWhile (· == '/') = ['/'].intercalate segs := by
    cases segs with
    | nil => exact absurd rfl hne
    | cons seg segs =>
      obtain ⟨hseg, hslash⟩ := hsegs seg (List.mem_cons_self ..)
      obtain ⟨c, cs, rfl⟩ := List.exists_cons_of_ne_nil hseg
      have hc : c ≠ '/' := fun he => hslash (he ▸ List.mem_cons_self ..)
      cases segs <;> simp [List.intercalate_cons_cons, hc]
  rw [segmentsOf, hfirst, List.splitOn_intercalate '/' (fun seg hseg => (hsegs seg hseg).2) hne]

theorem segmentsOf_of_plain (h : ReadFrom text path) (hnames : HasNames text)
    (hplain : repositoryText (readable text) = repositoryText text) :
    segmentsOf path = (pieces text).map (Percent.encode Percent.path) := by
  obtain ⟨hcs, -, htail⟩ := cutAt_eq_iff.1 (cutAt_afterSlash_read text)
  have hne : pieces text ≠ [] := List.splitOn_ne_nil '/' _
  have hafter : Segments.AfterPath (cutAt (· == '?') (cutAt endsRegistry (readable text)).2).2 := by
    intro c hc
    rw [eq_of_beq (htail c hc)]
    decide
  have hwalk := Segments.walkFrom_intercalate hne (hnames.isPiece h.hash) hafter ['/']
  rw [intercalate_pieces, ← hplain, ← hcs] at hwalk
  rw [h.path_eq, hwalk]
  refine segmentsOf_intercalate (by simpa using hne) fun seg hseg => ?_
  obtain ⟨piece, hpiece, rfl⟩ := List.mem_map.1 hseg
  exact ⟨fun hnil => hnames.ne_nil piece hpiece (Percent.eq_nil_of_encode hnil), fun hmem =>
    not_mem_of_mem_splitOn hpiece (Percent.mem_of_mem_encode (by decide) (by decide) hmem).1⟩

theorem encode_intercalate (segs : List (List Char)) :
    Percent.encode Percent.path (['/'].intercalate segs) =
      ['/'].intercalate (segs.map (Percent.encode Percent.path)) := by
  have hslash : Percent.encode Percent.path ['/'] = ['/'] := by decide
  induction segs with
  | nil => rfl
  | cons seg segs ih =>
    cases segs with
    | nil => simp
    | cons seg' segs =>
      rw [List.intercalate_cons_cons, List.map_cons, List.map_cons, List.intercalate_cons_cons,
        ← List.map_cons, ← ih, Percent.encode, List.flatMap_append, List.flatMap_append,
        ← Percent.encode, ← Percent.encode, ← Percent.encode, hslash]

theorem countP_segmentsOf (path : List Char) :
    (['/'].intercalate (segmentsOf path)).countP (· != '/') = path.countP (· != '/') := by
  have hslashes : (path.takeWhile (· == '/')).countP (· != '/') = 0 := by
    rw [List.countP_eq_zero]
    exact fun c hc => by simpa using List.all_eq_true.1 List.all_takeWhile c hc
  have hparts := List.takeWhile_append_dropWhile (p := (· == '/')) (l := path)
  conv_rhs => rw [← hparts, List.countP_append, hslashes, Nat.zero_add]
  rw [segmentsOf, List.intercalate_splitOn]

theorem nameLength_repositoryText_le (h : ReadFrom text path)
    (hsegments : segmentsOf path = (pieces text).map (Percent.encode Percent.path)) :
    Percent.nameLength (repositoryText text) ≤
      Percent.nameLength (repositoryText (readable text)) := by
  have hpaths : cutAt endsPath (afterSlash (cutAt endsRegistry (readable text)).2) =
      cutAt (· == '?') (afterSlash (cutAt endsRegistry (readable text)).2) := by
    refine cutAt_congr fun c hc => ?_
    have hread := List.dropWhile_subset _ (UrlParts.mem_of_mem_afterSlash hc)
    have hne : c ≠ '#' := fun he => h.hash (he ▸ UrlParts.mem_of_mem_readable hread)
    rw [endsPath, beq_eq_false_iff_ne.2 hne, Bool.or_false]
  have hcount := (Segments.of_walkFrom ['/']
    (afterSlash (cutAt endsRegistry (readable text)).2)).2
  rw [hpaths, cutAt_afterSlash_read, ← h.path_eq, UrlParts.nameLength_afterSlash] at hcount
  calc Percent.nameLength (repositoryText text)
    _ = Percent.nameLength (afterSlash (repositoryText text)) :=
        (UrlParts.nameLength_afterSlash _).symm
    _ = (['/'].intercalate (segmentsOf path)).countP (· != '/') := by
        rw [← intercalate_pieces, Percent.nameLength, encode_intercalate, hsegments]
    _ = path.countP (· != '/') := countP_segmentsOf path
    _ ≤ Percent.nameLength (repositoryText (readable text)) := by simpa using hcount

theorem repositoryText_eq_iff : repositoryText (readable text) = repositoryText text ↔
    (∀ c ∈ repositoryText text, isStripped c = false) ∧
      ('?' ∉ text → ∀ c, (repositoryText text).getLast? = some c → 0x20 < c.toNat) := by
  rw [repositoryText_readable]
  split
  · next hquery => simp [hquery, List.filter_eq_self]
  · next hquery => simp [hquery, UrlParts.readable_eq_self_iff]

theorem repositoryText_eq_of_nameLength_le (h : Percent.nameLength (repositoryText text) ≤
    Percent.nameLength (repositoryText (readable text))) :
    repositoryText (readable text) = repositoryText text := by
  rw [repositoryText_readable] at h ⊢
  split at h
  · next hquery =>
    rw [if_pos hquery, List.filter_eq_self]
    exact Percent.all_of_nameLength_le (by decide) h
  · next hquery =>
    rw [if_neg hquery]
    exact UrlParts.readable_eq_of_nameLength_le h

/-- A reference keeps the segments of its address exactly when they are all names and nothing of
them is left out when they are read. -/
theorem keepsSegments_iff (h : parse raw = .ok r) : KeepsSegments raw r ↔ PlainlyWritten raw := by
  obtain ⟨path, hpath, hsegments⟩ := exists_path h
  have hsame : r.segments =
      ((pieces (untagged raw)).map (Percent.encode Percent.path)).map String.ofList ↔
      segmentsOf path = (pieces (untagged raw)).map (Percent.encode Percent.path) := by
    rw [hsegments]
    exact (List.map_injective_iff.2 fun _ _ => String.ofList_inj.1).eq_iff
  constructor
  · intro hkeeps
    have hlength := nameLength_repositoryText_le hpath (hsame.1 hkeeps.segments)
    obtain ⟨hstripped, hblank⟩ :=
      repositoryText_eq_iff.1 (repositoryText_eq_of_nameLength_le hlength)
    exact ⟨hkeeps.toHasNames, hstripped, hblank⟩
  · intro hplain
    exact ⟨hplain.toHasNames, hsame.2 (segmentsOf_of_plain hpath hplain.toHasNames
      (repositoryText_eq_iff.2 ⟨hplain.stripped, hplain.blank⟩))⟩

end OciReference

namespace Sample

open OciReference

theorem parse_blank : parse "r.io:50/a b/%2ec:v1" =
    .ok ⟨"r.io:50", "/a%20b/%2ec", "v1"⟩ := by
  decide +kernel

/-- Characters are encoded in their segments. -/
theorem keepsSegments_blank :
    parse "r.io:50/a b/%2ec:v1" = .ok ⟨"r.io:50", "/a%20b/%2ec", "v1"⟩ ∧
      KeepsSegments "r.io:50/a b/%2ec:v1" ⟨"r.io:50", "/a%20b/%2ec", "v1"⟩ := by
  refine ⟨parse_blank, (keepsSegments_iff parse_blank).2 ⟨⟨?_, ?_, ?_⟩, ?_, fun _ c hc => ?_⟩⟩
  · decide +kernel
  · decide +kernel
  · decide +kernel
  · have hnone : (repositoryText (untagged "r.io:50/a b/%2ec:v1")).any UrlParts.isStripped =
        false := by
      decide +kernel
    simpa using hnone
  · have hlast : (repositoryText (untagged "r.io:50/a b/%2ec:v1")).getLast? = some 'c' := by
      decide +kernel
    rw [hlast] at hc
    cases hc
    decide

/-- An address that names another repository than is written. -/
theorem not_keepsSegments : ¬ ∀ (raw : String) (r : OciReference),
    parse raw = .ok r → KeepsSegments raw r := by
  intro h
  have hparse : parse "r.io/a/%2e%2e/b:v1" = .ok ⟨"r.io", "/b", "v1"⟩ := by
    decide +kernel
  have hmoves : ¬ ∀ piece ∈ pieces (untagged "r.io/a/%2e%2e/b:v1"),
      Segments.isDoubleDot piece = false := by
    decide +kernel
  exact hmoves (h _ _ hparse).double

end Sample

end ModuleGraph
