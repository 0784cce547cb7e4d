import ModuleGraph.Proofs.Places
import ModuleGraph.Reference.Oci

/-!
# What an OCI address is read as

The address of an artifact is read as the authority and the path of a URL. This
file says what such a reading is made of: a host without a slash and perhaps a
port, a path whose segments are ordinary names and which no query hides in, and
a tag without a slash. What it does not say is that the host is no dots: the
check for dots sees the address as it is written and the path as it was read,
and the host is read from between the two.
-/

namespace ModuleGraph

/-! ## Characters that a reading does not bring in -/

theorem not_mem_of_mem_splitOn {α : Type} [BEq α] [LawfulBEq α] {x : α} {xs s : List α}
    (h : s ∈ xs.splitOn x) : x ∉ s := by
  induction xs generalizing s with
  | nil =>
    rw [List.splitOn_nil, List.mem_singleton] at h
    simp [h]
  | cons y xs ih =>
    rw [List.splitOn_cons_eq_if_modifyHead] at h
    split at h
    · rcases List.mem_cons.1 h with rfl | h
      · simp
      · exact ih h
    · next hy =>
      obtain ⟨t, ts, hsplit⟩ := List.exists_cons_of_ne_nil (List.splitOn_ne_nil x xs)
      rw [hsplit] at h ih
      rcases List.mem_cons.1 h with rfl | h
      · have ht := ih (List.mem_cons_self ..)
        simp only [beq_iff_eq] at hy
        simp [ht, Ne.symm hy]
      · exact ih (List.mem_cons_of_mem _ h)

theorem not_mem_intercalate {α : Type} {x sep : α} {ls : List (List α)} (hsep : x ≠ sep)
    (h : ∀ l ∈ ls, x ∉ l) : x ∉ [sep].intercalate ls := by
  induction ls with
  | nil => simp [List.intercalate]
  | cons l ls ih =>
    have hl := h l (List.mem_cons_self ..)
    have hls := ih fun l hl => h l (List.mem_cons_of_mem _ hl)
    cases ls with
    | nil => simpa [List.intercalate] using hl
    | cons m ms =>
      rw [List.intercalate_cons_cons]
      simp [hl, hls, hsep]

theorem mem_intercalate {α : Type} {x : α} {sep l : List α} {ls : List (List α)} (hl : l ∈ ls)
    (h : x ∈ l) : x ∈ sep.intercalate ls := by
  induction ls with
  | nil => cases hl
  | cons m ms ih =>
    cases ms with
    | nil =>
      rw [List.intercalate_singleton]
      exact List.mem_singleton.1 hl ▸ h
    | cons m' ms =>
      rw [List.intercalate_cons_cons, List.mem_append, List.mem_append]
      rcases List.mem_cons.1 hl with rfl | hl
      · exact .inl (.inl h)
      · exact .inr (ih hl)

namespace Percent

variable {reserved : Char → Bool} {c : Char} {b : UInt8} {cs : List Char}

theorem isAlphanum_upperDigit : ∀ n < 16, (Hex.upperDigit n).isAlphanum = true := by
  decide

theorem eq_or_isAlphanum_of_mem_triple (h : c ∈ triple b) : c = '%' ∨ c.isAlphanum = true := by
  have hb := b.toNat_lt
  simp only [triple, List.mem_cons, List.not_mem_nil, or_false] at h
  rcases h with rfl | rfl | rfl
  · exact .inl rfl
  · exact .inr (isAlphanum_upperDigit _ (by omega))
  · exact .inr (isAlphanum_upperDigit _ (by omega))

/-- A character that is neither a percent sign nor a digit or a letter is in an
encoded text only if it was in the text and is not reserved. -/
theorem mem_of_mem_encode (hsign : c ≠ '%') (hplain : c.isAlphanum = false)
    (h : c ∈ encode reserved cs) : c ∈ cs ∧ reserved c = false := by
  obtain ⟨d, hd, hc⟩ := List.mem_flatMap.1 h
  split at hc
  · obtain ⟨b, -, hb⟩ := List.mem_flatMap.1 hc
    rcases eq_or_isAlphanum_of_mem_triple hb with rfl | halpha
    · exact absurd rfl hsign
    · rw [hplain] at halpha
      cases halpha
  · next hkept =>
    obtain rfl := List.mem_singleton.1 hc
    rw [Bool.or_eq_true, not_or, Bool.not_eq_true] at hkept
    exact ⟨hd, hkept.1⟩

end Percent

/-! ## Paths -/

namespace Segments

variable {kind : SchemeKind} {path seg cs : List Char} {c : Char} {isClosed : Bool}

theorem mem_of_mem_dropLast (h : c ∈ dropLast kind path) : c ∈ path := by
  rw [dropLast, cutLast] at h
  dsimp only at h
  split at h
  · exact h
  · exact List.mem_of_mem_take h

theorem mem_of_mem_up (h : c ∈ up kind path) : c ∈ path := by
  have h := mem_of_mem_dropLast h
  split at h
  · exact List.dropLast_subset _ h
  · exact h

theorem mem_of_mem_closed (hslash : c ≠ '/') (h : c ∈ closed path) : c ∈ path := by
  rw [closed] at h
  split at h
  · exact h
  · exact (List.mem_append.1 h).resolve_right (by simpa using hslash)

/-- What a segment brings into a path is in the segment, and nothing that a path reserves. -/
theorem mem_of_mem_add (hkind : kind ≠ .file) (hslash : c ≠ '/') (hsign : c ≠ '%')
    (hplain : c.isAlphanum = false) (h : c ∈ (add kind path seg isClosed).1) :
    c ∈ path ∨ c ∈ seg ∧ Percent.path c = false := by
  rw [add] at h
  split at h
  · dsimp only at h
    split at h
    · exact .inl (mem_of_mem_up (mem_of_mem_closed hslash h))
    · exact .inl (mem_of_mem_up h)
  · split at h
    · exact .inl (mem_of_mem_closed hslash h)
    · have hfile : (kind == .file) = false := by simpa using hkind
      simp only [hfile, Bool.false_and, Bool.false_eq_true, if_false] at h
      rcases List.mem_append.1 h with h | h
      · exact (List.mem_append.1 h).imp_right (Percent.mem_of_mem_encode hsign hplain)
      · split at h
        · exact absurd (List.mem_singleton.1 h) hslash
        · cases h

theorem not_mem_next (hc : kind.isSeparator c = true) : c ∉ (next kind cs).1 := by
  induction cs with
  | nil => simp [next]
  | cons d cs ih =>
    rw [next]
    split
    · simp
    · split
      · simp
      · next hd _ =>
        simp only [List.mem_cons, not_or]
        refine ⟨?_, ih⟩
        rintro rfl
        exact hd hc

/-- A walk does not bring a character into a path that separates segments or is reserved. -/
theorem mem_of_mem_walkFrom (hkind : kind ≠ .file) (hslash : c ≠ '/') (hsign : c ≠ '%')
    (hplain : c.isAlphanum = false) (hout : kind.isSeparator c = true ∨ Percent.path c = true)
    (h : c ∈ (walkFrom kind path cs).1) : c ∈ path := by
  induction hn : cs.length using Nat.strongRecOn generalizing path cs with
  | ind n ih =>
    have hnot : c ∉ (next kind cs).1 ∨ Percent.path c = true := hout.imp_left not_mem_next
    have hadd : ∀ isClosed, c ∈ (add kind path (next kind cs).1 isClosed).1 → c ∈ path := by
      intro isClosed hmem
      refine (mem_of_mem_add hkind hslash hsign hplain hmem).resolve_right fun hseg => ?_
      rcases hnot with hnot | hreserved
      · exact hnot hseg.1
      · rw [hseg.2] at hreserved
        cases hreserved
    rw [walkFrom] at h
    split at h
    next seg isClosed rest hnext =>
    rw [hnext] at hadd
    dsimp only at h
    split at h
    · next hclosed =>
      have hlt : rest.length < n := by
        have := @length_next_of_closed kind cs (by rw [hnext]; exact hclosed)
        rw [hnext] at this
        exact hn ▸ this
      exact hadd _ (ih _ hlt h rfl)
    · exact hadd _ h

end Segments

namespace UrlParts

variable {scheme : String} {cs rest : List Char} {a : Authority}

theorem question_not_mem_pathAfterAuthority : '?' ∉ (pathAfterAuthority .other cs).1 := by
  intro h
  unfold pathAfterAuthority at h
  have hother : (SchemeKind.other != .other) = false := by decide
  have hfile : (SchemeKind.other == .file) = false := by decide
  simp only [hother, Bool.false_eq_true, if_false] at h
  split at h
  · cases h
  · split at h
    · cases h
    · simp only [Segments.walk, hfile, Bool.false_and, Bool.false_eq_true, if_false] at h
      have h := Segments.mem_of_mem_walkFrom (by decide) (by decide) (by decide) (by decide)
        (.inr (by decide)) h
      split at h
      · cases h
      · exact absurd (List.mem_singleton.1 h) (by decide)

end UrlParts

/-! ## Hosts -/

theorem slash_ne_digitChar (n : Nat) : '/' ≠ Nat.digitChar n := by
  by_cases hn : n < 16
  · exact (by decide : ∀ n < 16, '/' ≠ Nat.digitChar n) n hn
  · rw [Nat.digitChar]
    repeat rw [if_neg (by omega)]
    decide

theorem slash_not_mem_toDigits {b : Nat} (hb : 1 < b) (n : Nat) : '/' ∉ Nat.toDigits b n := by
  induction n using Nat.strongRecOn with
  | ind n ih =>
    rw [Nat.toDigits_eq_if hb]
    split
    · simp [slash_ne_digitChar]
    · next hn =>
      have hlt : n / b < n := Nat.div_lt_self (by omega) hb
      simp [ih _ hlt, slash_ne_digitChar]

theorem slash_not_mem_toString (n : Nat) : '/' ∉ (toString n).toList := by
  rw [Nat.toString_eq_ofList_toDigits, String.toList_ofList]
  exact slash_not_mem_toDigits (by decide) n

theorem Ipv6.slash_not_mem_render (ps : List Nat) : '/' ∉ (render ps).toList := by
  have hpieces : ∀ ps, '/' ∉ joinPieces ps := fun ps => by
    refine not_mem_intercalate (by decide) fun l hl => ?_
    obtain ⟨n, -, rfl⟩ := List.mem_map.1 hl
    exact slash_not_mem_toDigits (by decide) n
  rw [render]
  dsimp only
  rw [String.toList_ofList]
  split <;> simp [hpieces]

theorem Host.slash_not_mem_opaqueHost {cs : List Char} {host : String}
    (h : opaqueHost cs = .ok host) : '/' ∉ host.toList := by
  rw [opaqueHost] at h
  split at h
  · next hbracketed =>
    unfold bracketed? at hbracketed
    split at hbracketed
    · split at hbracketed
      · obtain rfl := Option.some.inj hbracketed
        cases hparse : Ipv6.parse _ with
        | error e => rw [hparse] at h; cases h
        | ok ps =>
          rw [hparse] at h
          cases h
          exact Ipv6.slash_not_mem_render ps
      · obtain rfl := Option.some.inj hbracketed
        cases h
    · cases hbracketed
  · split at h
    · cases h
    · next hforbidden =>
      cases h
      rw [String.toList_ofList]
      intro hslash
      obtain ⟨hslash, -⟩ := Percent.mem_of_mem_encode (by decide) (by decide) hslash
      exact hforbidden (List.any_eq_true.2 ⟨'/', hslash, by decide⟩)

namespace UrlParts

variable {scheme username : String} {password : Option String} {cs rest : List Char}
  {a : Authority}

theorem of_server (h : server scheme .other username password cs = .ok (a, rest)) :
    Host.opaqueHost (cutHost .other false cs).1 = .ok a.host ∧
      port scheme (cutHost .other false cs).2 = .ok (a.port, rest) ∧
      a.username = username ∧ a.password = password := by
  rw [server] at h
  dsimp only at h
  have hspecial : (SchemeKind.other == .special) = false := by decide
  have hother : (SchemeKind.other == .other) = true := by decide
  simp only [hspecial, hother, Bool.false_and, Bool.false_eq_true, if_false, if_true] at h
  cases hhost : Host.opaqueHost (cutHost .other false cs).1 with
  | error e => rw [hhost] at h; cases h
  | ok host =>
    rw [hhost] at h
    simp only [bind, Except.bind, pure, Except.pure] at h
    split at h
    · cases h
    · split at h
      · cases h
      · next read hport =>
        split at h
        · cases h
        · cases h
          exact ⟨rfl, hport, rfl, rfl⟩

theorem of_readAuthority (h : readAuthority scheme .other cs = .ok (a, rest)) :
    ∃ text more, Host.opaqueHost text = .ok a.host ∧ port scheme more = .ok (a.port, rest) := by
  rw [readAuthority] at h
  dsimp only at h
  split at h
  · obtain ⟨hhost, hport, -⟩ := of_server h
    exact ⟨_, _, hhost, hport⟩
  · split at h
    · cases h
    · obtain ⟨hhost, hport, -⟩ := of_server h
      exact ⟨_, _, hhost, hport⟩

/-! ## Addresses as URLs -/

variable {text : List Char} {p : UrlParts} {kind : SchemeKind}

theorem dropEndWhile_eq_self {drop : Char → Bool} {cs : List Char}
    (h : ∀ c, cs.getLast? = some c → drop c = false) : Text.dropEndWhile drop cs = cs := by
  rw [Text.dropEndWhile, List.reverse_eq_iff]
  cases hlast : cs.reverse with
  | nil => rfl
  | cons c rest =>
    have hc := h c (by rw [List.getLast?_eq_head?_reverse, hlast]; rfl)
    rw [List.dropWhile_cons, if_neg (by simp [hc])]

/-- What is read of an address: no blanks at its end, no tabs and no line breaks. -/
def readable (text : List Char) : List Char :=
  (Text.dropEndWhile (fun c => c.toNat ≤ 0x20) text).filter
    fun c => c != '\t' && c != '\n' && c != '\r'

/-- An address behind the scheme and two slashes is read as an authority and what follows it. -/
theorem parse_oci (text : List Char) :
    parse ("oci://" ++ String.ofList text) none = afterSlashes "oci" .other (readable text) := by
  let isOuter (c : Char) : Bool := c.toNat ≤ 0x20
  have hsignificant : significant ("oci://" ++ String.ofList text) =
      ['o', 'c', 'i', ':', '/', '/'] ++ readable text := by
    have htext : ("oci://" ++ String.ofList text).toList =
        ['o', 'c', 'i', ':', '/'] ++ '/' :: text := by simp
    have hstart : (['o', 'c', 'i', ':', '/'] ++ '/' :: text).dropWhile isOuter =
        ['o', 'c', 'i', ':', '/'] ++ '/' :: text := by simp [isOuter]
    rw [significant, htext, hstart, Text.dropEndWhile_append (by decide), List.filter_append]
    rfl
  have hscheme : scheme? (['o', 'c', 'i', ':', '/', '/'] ++ readable text) =
      some ("oci", '/' :: '/' :: readable text) := by
    rfl
  rw [parse, hsignificant, hscheme]
  rfl

/-- An address read as a URL has a host without a slash, and a path that no query hides in. -/
theorem of_parse_oci {path : String} {query fragment : Option String}
    (h : parse ("oci://" ++ String.ofList text) none =
      .ok ⟨scheme, some a, path, query, fragment⟩) :
    '/' ∉ a.host.toList ∧ '?' ∉ path.toList := by
  rw [parse_oci, afterSlashes] at h
  cases hauthority : readAuthority "oci" .other (readable text) with
  | error e => rw [hauthority] at h; cases h
  | ok read =>
    obtain ⟨a', rest⟩ := read
    rw [hauthority] at h
    obtain ⟨hostText, -, hhost, -⟩ := of_readAuthority hauthority
    obtain ⟨-, ha, hpath, -⟩ := UrlParts.mk.inj (Except.ok.inj h)
    obtain rfl := Option.some.inj ha
    refine ⟨Host.slash_not_mem_opaqueHost hhost, ?_⟩
    rw [← hpath, String.toList_ofList]
    exact question_not_mem_pathAfterAuthority

end UrlParts

/-! ## References -/

namespace OciReference

open DiskPath (IsName IsOrdinary)

variable {r : OciReference} {a : Authority} {path registry repository : String}
  {query : Option String} {text : List Char} {raw : String}

/-- What every reference is that was read from an address. -/
structure WellFormed (r : OciReference) : Prop where
  registry : IsName r.registry
  slash : r.repository.toList.head? = some '/'
  segments : ∀ s ∈ r.segments, IsOrdinary s
  tag_ne : r.tag ≠ ""
  tag_slash : '/' ∉ r.tag.toList

theorem isName_of_registryOf? (hhost : '/' ∉ a.host.toList) (h : registryOf? a = some registry) :
    IsName registry := by
  rw [registryOf?] at h
  split at h
  · cases h
  · next hhas =>
    obtain rfl := Option.some.inj h
    simp only [Bool.or_eq_true, not_or, String.isEmpty_iff] at hhas
    refine ⟨fun hnil => hhas.1.1 (String.append_eq_empty_iff.1 hnil).1, ?_⟩
    rw [String.toList_append, List.mem_append, not_or]
    refine ⟨hhost, ?_⟩
    cases a.port with
    | none => simp
    | some n => simpa [String.toList_append] using slash_not_mem_toString n

theorem isOrdinary_of_mem_segmentsOf {seg : List Char} (hseg : seg ∈ segmentsOf text)
    (hne : seg.isEmpty = false) (hdots : isDots seg = false) : IsOrdinary (String.ofList seg) where
  ne_empty := by simpa using hne
  no_slash := by
    rw [String.toList_ofList]
    exact not_mem_of_mem_splitOn hseg
  ne_dot h := by
    obtain rfl : seg = ['.'] := String.ofList_inj.1 h
    cases hdots
  ne_dots h := by
    obtain rfl : seg = ['.', '.'] := String.ofList_inj.1 h
    cases hdots

/-- A query is not part of the segments. -/
theorem cutAt_question (hpath : '?' ∉ path.toList) :
    (cutAt (· == '?') (path ++ query.elim "" ("?" ++ ·)).toList).1 = path.toList := by
  have hkept : ∀ c ∈ path.toList, (!(c == '?')) = true := fun c hc => by
    simpa using fun h : c = '?' => hpath (h ▸ hc)
  rw [cutAt, String.toList_append, List.takeWhile_append_of_pos hkept]
  cases query with
  | none => simp
  | some q => simp [String.toList_append]

theorem segments_of_repositoryOf? (registry tag : String) (hpath : '?' ∉ path.toList)
    (h : repositoryOf? path query = some repository) :
    repository.toList.head? = some '/' ∧
      ∀ s ∈ segments ⟨registry, repository, tag⟩, IsOrdinary s := by
  simp only [repositoryOf?] at h
  split at h
  · next hall =>
    obtain rfl := Option.some.inj h
    rw [Bool.and_eq_true, beq_iff_eq, List.all_eq_true] at hall
    obtain ⟨hhead, hall⟩ := hall
    refine ⟨by rw [String.toList_append, List.head?_append, hhead]; rfl, fun s hs => ?_⟩
    rw [segments, cutAt_question hpath] at hs
    obtain ⟨seg, hseg, rfl⟩ := List.mem_map.1 hs
    have hseg' := hall seg hseg
    rw [Bool.and_eq_true, Bool.not_eq_true', Bool.not_eq_true'] at hseg'
    exact isOrdinary_of_mem_segmentsOf hseg hseg'.1 hseg'.2
  · cases h

theorem of_location? (tag : String) (h : location? text = some (registry, repository)) :
    IsName registry ∧ repository.toList.head? = some '/' ∧
      ∀ s ∈ segments ⟨registry, repository, tag⟩, IsOrdinary s := by
  rw [location?] at h
  split at h
  · cases h
  · split at h
    · next a path query hparse =>
      obtain ⟨registry', hregistry, h⟩ := Option.bind_eq_some_iff.1 h
      obtain ⟨repository', hrepository, h⟩ := Option.bind_eq_some_iff.1 h
      obtain ⟨rfl, rfl⟩ := Prod.mk.inj (Option.some.inj h)
      obtain ⟨hhost, hpath⟩ := UrlParts.of_parse_oci hparse
      exact ⟨isName_of_registryOf? hhost hregistry,
        segments_of_repositoryOf? registry' tag hpath hrepository⟩
    · cases h

/-- A reference that was read from an address is well-formed. -/
theorem wellFormed_of_parse? (h : parse? raw = some r) : r.WellFormed := by
  obtain ⟨⟨text, tag⟩, -, h⟩ := Option.bind_eq_some_iff.1 h
  dsimp only at h
  split at h
  · cases h
  · next htag =>
    obtain ⟨⟨registry, repository⟩, hlocation, h⟩ := Option.bind_eq_some_iff.1 h
    obtain rfl := Option.some.inj h
    obtain ⟨hregistry, hslash, hsegments⟩ := of_location? (String.ofList tag) hlocation
    rw [Bool.or_eq_true, not_or] at htag
    refine ⟨hregistry, hslash, hsegments, fun hnil => htag.1 ?_, ?_⟩
    · obtain rfl : tag = [] := String.ofList_inj.1 hnil
      rfl
    · simpa using htag.2

theorem parse_eq_ok_iff : parse raw = .ok r ↔ parse? raw = some r := by
  rw [parse]
  cases parse? raw <;> simp

theorem wellFormed_of_parse (h : parse raw = .ok r) : r.WellFormed :=
  wellFormed_of_parse? (parse_eq_ok_iff.1 h)

end OciReference

end ModuleGraph
