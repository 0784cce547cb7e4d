import ModuleGraph.Proofs.Addresses
import ModuleGraph.Registry.Cache

/-!
# Records are read back from their bytes

The record beside an artifact is written as a JSON object and read as any JSON
is read. This file follows the reader over what was written: the bytes of a
text read as the text (`Utf8.decode?_encode`), a quoted text and a number read as
values whatever follows them (`Written`), and an object of such members reads as
these members (`parse?_renderObject`). So a record reads as itself
(`Cache.Metadata.parse?_render`).

A string is read byte by byte and written character by character. What joins the
two is that no byte of a longer character is a quote, a backslash or a control
character.
-/

namespace ModuleGraph

/-! ## UTF-8 -/

namespace Utf8

variable {c : Char} {b : UInt8} {bs rest : List UInt8} {p : Partial}

theorem toNat_ofNat {n : Nat} (h : n < 256) : (UInt8.ofNat n).toNat = n :=
  UInt8.toNat_ofNat_of_lt' h

theorem parts_of_lead {l : Lead} (h : lead b = l) :
    parts none (b :: rest) = l.decided.1 ++ parts l.decided.2 rest := by
  rw [parts, step, h]

theorem parts_of_whole (h : p.next b = .whole c) :
    parts (some p) (b :: rest) = some c :: parts none rest := by
  rw [parts, step, h]
  rfl

theorem parts_of_begins {p' : Partial} (h : p.next b = .begins p') :
    parts (some p) (b :: rest) = parts (some p') rest := by
  rw [parts, step, h]
  rfl

/-- A byte that the character begun can go on with. -/
theorem next_ofNat {owed bits n : Nat} {low high : UInt8} (hlow : low.toNat ≤ n + 0x80)
    (hhigh : n + 0x80 ≤ high.toNat) :
    Partial.next ⟨owed, low, high, bits⟩ (UInt8.ofNat (n + 0x80)) =
      if owed ≤ 1 then .whole (Char.ofNat (bits * 64 + n))
      else .begins ⟨owed - 1, 0x80, 0xBF, bits * 64 + n⟩ := by
  have hb : (UInt8.ofNat (n + 0x80)).toNat = n + 0x80 :=
    toNat_ofNat (Nat.lt_of_le_of_lt hhigh high.toNat_lt)
  rw [Partial.next, if_pos]
  · simp only [hb, Nat.add_sub_cancel]
  · simp only [UInt8.le_iff_toNat_le, hb]
    exact ⟨hlow, hhigh⟩

theorem parts_last {bits n : Nat} {low high : UInt8} (hlow : low.toNat ≤ n + 0x80)
    (hhigh : n + 0x80 ≤ high.toNat) :
    parts (some ⟨1, low, high, bits⟩) (UInt8.ofNat (n + 0x80) :: rest) =
      some (Char.ofNat (bits * 64 + n)) :: parts none rest :=
  parts_of_whole (next_ofNat hlow hhigh)

theorem parts_more {owed bits n : Nat} {low high : UInt8} (hlow : low.toNat ≤ n + 0x80)
    (hhigh : n + 0x80 ≤ high.toNat) :
    parts (some ⟨owed + 2, low, high, bits⟩) (UInt8.ofNat (n + 0x80) :: rest) =
      parts (some ⟨owed + 1, 0x80, 0xBF, bits * 64 + n⟩) rest :=
  parts_of_begins (next_ofNat hlow hhigh)

/-- The first of three bytes. The second one is bounded by the forms it may not begin. -/
theorem lead_three {v : Nat} (hmin : 0x7FF < v) (hmax : v ≤ 0xFFFF) (h : v < 0xD800 ∨ 0xDFFF < v) :
    ∃ low high, lead (UInt8.ofNat (v / 4096 % 16 + 224)) = .begins ⟨2, low, high, v / 4096⟩ ∧
      low.toNat ≤ v / 64 % 64 + 0x80 ∧ v / 64 % 64 + 0x80 ≤ high.toNat := by
  have hn : (UInt8.ofNat (v / 4096 % 16 + 224)).toNat = v / 4096 + 224 := by
    rw [toNat_ofNat (by omega)]
    omega
  have hbits : v / 4096 + 224 - 0xE0 = v / 4096 := by omega
  rw [lead]
  simp only [hn]
  rw [if_neg (by omega), if_neg (by omega), hbits]
  by_cases hfirst : v / 4096 = 0
  · rw [if_pos (by omega)]
    refine ⟨0xA0, 0xBF, rfl, ?_, ?_⟩
    · show 0xA0 ≤ _
      omega
    · show _ ≤ 0xBF
      omega
  · rw [if_neg (by omega)]
    by_cases hsurrogate : v / 4096 = 13
    · rw [if_pos (by omega)]
      refine ⟨0x80, 0x9F, rfl, ?_, ?_⟩
      · show 0x80 ≤ _
        omega
      · show _ ≤ 0x9F
        omega
    · rw [if_neg (by omega), if_pos (by omega)]
      refine ⟨0x80, 0xBF, rfl, ?_, ?_⟩
      · show 0x80 ≤ _
        omega
      · show _ ≤ 0xBF
        omega

/-- The first of four bytes. -/
theorem lead_four {v : Nat} (hmin : 0xFFFF < v) (hmax : v < 0x110000) :
    ∃ low high, lead (UInt8.ofNat (v / 262144 % 8 + 240)) = .begins ⟨3, low, high, v / 262144⟩ ∧
      low.toNat ≤ v / 4096 % 64 + 0x80 ∧ v / 4096 % 64 + 0x80 ≤ high.toNat := by
  have hn : (UInt8.ofNat (v / 262144 % 8 + 240)).toNat = v / 262144 + 240 := by
    rw [toNat_ofNat (by omega)]
    omega
  have hbits : v / 262144 + 240 - 0xF0 = v / 262144 := by omega
  rw [lead]
  simp only [hn]
  rw [if_neg (by omega), if_neg (by omega), if_neg (by omega), if_neg (by omega),
    if_neg (by omega), hbits]
  by_cases hfirst : v / 262144 = 0
  · rw [if_pos (by omega)]
    refine ⟨0x90, 0xBF, rfl, ?_, ?_⟩
    · show 0x90 ≤ _
      omega
    · show _ ≤ 0xBF
      omega
  · rw [if_neg (by omega)]
    by_cases hlast : v / 262144 = 4
    · rw [if_pos (by omega)]
      refine ⟨0x80, 0x8F, rfl, ?_, ?_⟩
      · show 0x80 ≤ _
        omega
      · show _ ≤ 0x8F
        omega
    · rw [if_neg (by omega), if_pos (by omega)]
      refine ⟨0x80, 0xBF, rfl, ?_, ?_⟩
      · show 0x80 ≤ _
        omega
      · show _ ≤ 0xBF
        omega

/-- The bytes of a character read as the character. -/
theorem parts_utf8EncodeChar (c : Char) (rest : List UInt8) :
    parts none (String.utf8EncodeChar c ++ rest) = some c :: parts none rest := by
  have hvalid : c.val.toNat < 0xD800 ∨ 0xDFFF < c.val.toNat ∧ c.val.toNat < 0x110000 := c.valid
  have hc : ∀ v, v = c.val.toNat → Char.ofNat v = c := by
    rintro v rfl
    exact Char.ofNat_toNat c
  have hlow : (0x80 : UInt8).toNat = 0x80 := rfl
  have hhigh : (0xBF : UInt8).toNat = 0xBF := rfl
  simp only [String.utf8EncodeChar]
  generalize c.val.toNat = v at hvalid hc
  split
  · rw [List.singleton_append, parts_of_lead (l := .whole (Char.ofNat v))]
    · rw [hc v rfl]
      rfl
    · rw [lead]
      simp only [toNat_ofNat (show v < 256 by omega)]
      rw [if_pos (by omega)]
  · split
    · have hlead : lead (UInt8.ofNat (v / 64 % 32 + 192)) =
          .begins ⟨1, 0x80, 0xBF, v / 64⟩ := by
        rw [lead]
        simp only [toNat_ofNat (show v / 64 % 32 + 192 < 256 by omega)]
        rw [if_neg (by omega), if_pos (by omega), show v / 64 % 32 + 192 - 0xC0 = v / 64 by omega]
      rw [List.cons_append, parts_of_lead hlead]
      dsimp only [Lead.decided]
      rw [List.nil_append, List.singleton_append, parts_last (by omega) (by omega), hc _ (by omega)]
    · split
      · obtain ⟨low, high, hlead, hlow', hhigh'⟩ :=
          @lead_three v (by omega) (by omega) (by omega)
        rw [List.cons_append, parts_of_lead hlead]
        dsimp only [Lead.decided]
        rw [List.nil_append, List.cons_append, parts_more hlow' hhigh', List.singleton_append,
          parts_last (by omega) (by omega), hc _ (by omega)]
      · obtain ⟨low, high, hlead, hlow', hhigh'⟩ := @lead_four v (by omega) (by omega)
        rw [List.cons_append, parts_of_lead hlead]
        dsimp only [Lead.decided]
        rw [List.nil_append, List.cons_append, parts_more hlow' hhigh', List.cons_append,
          parts_more (by omega) (by omega), List.singleton_append,
          parts_last (by omega) (by omega), hc _ (by omega)]

theorem decode?_encode (cs : List Char) : decode? (encode cs) = some cs := by
  have hparts : parts none (encode cs) = cs.map some := by
    induction cs with
    | nil => rfl
    | cons c cs ih =>
      rw [encode, List.flatMap_cons, ← encode, parts_utf8EncodeChar, ih, List.map_cons]
  rw [decode?, hparts, List.mapM_map]
  exact (List.mapM_pure (m := Option) (f := fun c : Char => c)).trans (by simp)

theorem string?_bytesOf (s : String) : string? (bytesOf s) = some s := by
  rw [string?, bytesOf, decode?_encode, Option.map_some, String.ofList_toList]

end Utf8

/-! ## Strings -/

namespace JsonValue

open Utf8 (bytesOf encode)

variable {fuel n : Nat} {acc bs rest more : List UInt8} {b e x : UInt8} {c : Char}
  {s text : String} {v : JsonValue}

theorem utf8EncodeChar_ascii (h : c.toNat < 0x80) : String.utf8EncodeChar c = [byteOf c] := by
  rw [String.utf8EncodeChar]
  exact if_pos (Nat.le_of_lt_succ h)

/-- A byte that stands for itself in a string. -/
structure IsBare (b : UInt8) : Prop where
  ne_quote : b ≠ byteOf '"'
  ne_backslash : b ≠ byteOf '\x5c'
  visible : ¬ b < 0x20

theorem stringFrom?_bare (h : ∀ b ∈ bs, IsBare b) :
    stringFrom? (bs.length + fuel) (some acc) (bs ++ rest) =
      stringFrom? fuel (some (bs.reverse ++ acc)) rest := by
  induction bs generalizing acc with
  | nil => simp
  | cons b bs ih =>
    obtain ⟨hb, hbs⟩ := List.forall_mem_cons.1 h
    rw [List.length_cons, Nat.add_right_comm, List.cons_append, stringFrom?.eq_def]
    dsimp only
    rw [if_neg hb.ne_quote, if_neg hb.visible, if_neg hb.ne_backslash, Option.map_some, ih hbs]
    simp

theorem stringFrom?_escape (he : e ≠ byteOf 'u') (hx : escaped? e = some x) :
    stringFrom? (fuel + 1) (some acc) (byteOf '\x5c' :: e :: rest) =
      stringFrom? fuel (some (x :: acc)) rest := by
  rw [stringFrom?, if_neg (by decide), if_neg (by decide), if_pos rfl]
  simp only [if_neg he, hx, Option.map_some]

theorem unit?_digits {k : Nat} (hk : k < 16) (hn : n < 16) :
    unit? (byteOf '0' :: byteOf '0' :: byteOf (Hex.digit k) :: byteOf (Hex.digit n) :: rest) =
      some (16 * k + n, rest) := by
  have hdigit : ∀ n < 16, Hex.digitValue? (Char.ofNat (byteOf (Hex.digit n)).toNat) = some n := by
    decide
  have hzero : Hex.digitValue? (Char.ofNat (byteOf '0').toNat) = some 0 := by decide
  simp [unit?, hdigit k hk, hdigit n hn, hzero, Nat.mul_comm]

theorem stringFrom?_control (hc : c.toNat < 0x20) :
    stringFrom? (fuel + 1) (some acc) (encode ['\x5c', 'u', '0', '0', Hex.digit (c.toNat / 16),
        Hex.digit (c.toNat % 16)] ++ rest) =
      stringFrom? fuel (some ((String.utf8EncodeChar c).reverse ++ acc)) rest := by
  have hdigit : ∀ n < 16, (Hex.digit n).toNat < 0x80 := by decide
  have hbytes : encode ['\x5c', 'u', '0', '0', Hex.digit (c.toNat / 16),
      Hex.digit (c.toNat % 16)] = [byteOf '\x5c', byteOf 'u', byteOf '0', byteOf '0',
        byteOf (Hex.digit (c.toNat / 16)), byteOf (Hex.digit (c.toNat % 16))] := by
    simp [encode, utf8EncodeChar_ascii (hdigit (c.toNat / 16) (by omega)),
      utf8EncodeChar_ascii (hdigit (c.toNat % 16) (by omega)),
      utf8EncodeChar_ascii (show ('\x5c' : Char).toNat < 0x80 by decide),
      utf8EncodeChar_ascii (show ('u' : Char).toNat < 0x80 by decide),
      utf8EncodeChar_ascii (show ('0' : Char).toNat < 0x80 by decide)]
  have hunit := @unit?_digits (c.toNat % 16) rest (c.toNat / 16) (by omega) (by omega)
  rw [Nat.div_add_mod] at hunit
  have hescape : unicodeEscape? (byteOf '0' :: byteOf '0' :: byteOf (Hex.digit (c.toNat / 16)) ::
      byteOf (Hex.digit (c.toNat % 16)) :: rest) = some (some (String.utf8EncodeChar c), rest) := by
    rw [unicodeEscape?, hunit]
    simp only [Option.bind_eq_bind, Option.bind_some]
    rw [if_neg (by omega), if_neg (by omega), Char.ofNat_toNat]
    rfl
  rw [hbytes]
  simp only [List.cons_append, List.nil_append]
  rw [stringFrom?, if_neg (by decide), if_neg (by decide), if_pos rfl]
  simp only [if_pos, hescape]
  rfl

theorem isBare_of_mem (hquote : c ≠ '"') (hbackslash : c ≠ '\x5c') (hvisible : ¬ c.toNat < 0x20)
    (hb : b ∈ String.utf8EncodeChar c) : IsBare b := by
  have hnat (hsmall : b.toNat < 0x80) : c.toNat = b.toNat :=
    Utf8.toNat_eq_of_mem_utf8EncodeChar hsmall hb
  have hne (d : Char) (hd : (byteOf d).toNat = d.toNat) (hsmall : d.toNat < 0x80) (hcd : c ≠ d) :
      b ≠ byteOf d := by
    rintro rfl
    exact hcd (Char.toNat_inj.1 ((hnat (by omega)).trans hd))
  refine ⟨hne '"' (by decide) (by decide) hquote,
    hne '\x5c' (by decide) (by decide) hbackslash, fun hlt => ?_⟩
  rw [UInt8.lt_iff_toNat_lt] at hlt
  have hlt : b.toNat < 0x20 := hlt
  exact hvisible (hnat (by omega) ▸ hlt)

/-- A character is read from its bytes in a string, with no more calls than they are. -/
def ReadsChar (c : Char) : Prop :=
  ∀ fuel n, (encode (escapeChar c)).length + n < fuel → ∃ fuel', n < fuel' ∧ ∀ acc rest,
    stringFrom? fuel (some acc) (encode (escapeChar c) ++ rest) =
      stringFrom? fuel' (some ((String.utf8EncodeChar c).reverse ++ acc)) rest

theorem readsChar_escape (letter : Char) (hescape : escapeChar c = ['\x5c', letter])
    (hsmall : letter.toNat < 0x80) (hletter : byteOf letter ≠ byteOf 'u')
    (hx : escaped? (byteOf letter) = some (byteOf c)) (hc : c.toNat < 0x80) : ReadsChar c := by
  intro fuel n hfuel
  have hbytes : encode ['\x5c', letter] = [byteOf '\x5c', byteOf letter] := by
    rw [encode, List.flatMap_cons, List.flatMap_singleton, utf8EncodeChar_ascii hsmall]
    rfl
  rw [hescape, hbytes] at hfuel ⊢
  simp only [List.length_cons, List.length_nil] at hfuel
  obtain ⟨fuel', rfl⟩ : ∃ fuel', fuel = fuel' + 1 := ⟨fuel - 1, by omega⟩
  refine ⟨fuel', by omega, fun acc rest => ?_⟩
  rw [utf8EncodeChar_ascii hc]
  exact stringFrom?_escape hletter hx

theorem readsChar_control (hc : c.toNat < 0x20)
    (hescape : escapeChar c = ['\x5c', 'u', '0', '0', Hex.digit (c.toNat / 16),
      Hex.digit (c.toNat % 16)]) : ReadsChar c := by
  intro fuel n hfuel
  rw [hescape] at hfuel ⊢
  obtain ⟨fuel', rfl⟩ : ∃ fuel', fuel = fuel' + 1 := ⟨fuel - 1, by omega⟩
  have hlength : 0 < (encode ['\x5c', 'u', '0', '0', Hex.digit (c.toNat / 16),
      Hex.digit (c.toNat % 16)]).length := by
    rw [Utf8.length_encode, Utf8.size_cons]
    exact Nat.lt_add_right _ (Char.utf8Size_pos _)
  exact ⟨fuel', by omega, fun acc rest => stringFrom?_control hc⟩

theorem readsChar_bare (hescape : escapeChar c = [c])
    (hbare : ∀ b ∈ String.utf8EncodeChar c, IsBare b) : ReadsChar c := by
  intro fuel n hfuel
  have hbytes : encode [c] = String.utf8EncodeChar c := by
    rw [encode, List.flatMap_singleton]
  rw [hescape, hbytes] at hfuel ⊢
  obtain ⟨fuel', rfl⟩ : ∃ fuel', fuel = (String.utf8EncodeChar c).length + fuel' :=
    ⟨fuel - (String.utf8EncodeChar c).length, by omega⟩
  exact ⟨fuel', by omega, fun acc rest => stringFrom?_bare hbare⟩

theorem readsChar (c : Char) : ReadsChar c := by
  have hnamed (d : Char) (hd : c.toNat = d.toNat) : c = d := Char.toNat_inj.1 hd
  by_cases hquote : c = '"'
  · subst hquote
    exact readsChar_escape '"' (by decide) (by decide) (by decide) (by decide) (by decide)
  by_cases hbackslash : c = '\x5c'
  · subst hbackslash
    exact readsChar_escape '\x5c' (by decide) (by decide) (by decide) (by decide) (by decide)
  by_cases hbackspace : c.toNat = 0x08
  · obtain rfl := hnamed '\x08' hbackspace
    exact readsChar_escape 'b' (by decide) (by decide) (by decide) (by decide) (by decide)
  by_cases hfeed : c.toNat = 0x0C
  · obtain rfl := hnamed '\x0C' hfeed
    exact readsChar_escape 'f' (by decide) (by decide) (by decide) (by decide) (by decide)
  by_cases hnewline : c = '\n'
  · subst hnewline
    exact readsChar_escape 'n' (by decide) (by decide) (by decide) (by decide) (by decide)
  by_cases hreturn : c = '\r'
  · subst hreturn
    exact readsChar_escape 'r' (by decide) (by decide) (by decide) (by decide) (by decide)
  by_cases htab : c = '\t'
  · subst htab
    exact readsChar_escape 't' (by decide) (by decide) (by decide) (by decide) (by decide)
  have hescape : escapeChar c = if c.toNat < 0x20 then
      ['\x5c', 'u', '0', '0', Hex.digit (c.toNat / 16), Hex.digit (c.toNat % 16)] else [c] := by
    rw [escapeChar, if_neg hquote, if_neg hbackslash, if_neg hbackspace, if_neg hfeed,
      if_neg hnewline, if_neg hreturn, if_neg htab]
  by_cases hcontrol : c.toNat < 0x20
  · exact readsChar_control hcontrol (hescape.trans (if_pos hcontrol))
  · exact readsChar_bare (hescape.trans (if_neg hcontrol))
      fun b hb => isBare_of_mem hquote hbackslash hcontrol hb

theorem stringFrom?_quoted (cs : List Char)
    (hfuel : (encode (cs.flatMap escapeChar)).length < fuel) :
    stringFrom? fuel (some acc) (encode (cs.flatMap escapeChar) ++ byteOf '"' :: rest) =
      some (some (acc.reverse ++ encode cs), rest) := by
  induction cs generalizing fuel acc with
  | nil =>
    obtain ⟨fuel', rfl⟩ : ∃ fuel', fuel = fuel' + 1 := ⟨fuel - 1, by simp at hfuel; omega⟩
    simp [encode, stringFrom?.eq_def]
  | cons c cs ih =>
    rw [List.flatMap_cons, Utf8.encode_append, List.length_append] at hfuel
    obtain ⟨fuel', hfuel', hread⟩ := readsChar c fuel _ hfuel
    rw [List.flatMap_cons, Utf8.encode_append, List.append_assoc, hread, ih hfuel']
    simp [encode]

theorem stringBody?_quoted (s : String) (rest : List UInt8) :
    stringBody? (encode (s.toList.flatMap escapeChar) ++ byteOf '"' :: rest) =
      some (some s, rest) := by
  rw [stringBody?, stringFrom?_quoted _ (by simp only [List.length_append]; omega)]
  simp only [Option.map_some, List.reverse_nil, List.nil_append, Option.bind_some]
  exact congrArg (fun t => some (t, rest)) (Utf8.string?_bytesOf s)

theorem bytesOf_quote (s : String) :
    bytesOf (quote s) = byteOf '"' :: (encode (s.toList.flatMap escapeChar) ++ [byteOf '"']) := by
  rw [bytesOf, quote, String.toList_ofList, List.cons_append, encode, List.flatMap_cons,
    List.flatMap_append]
  rfl

/-! ## Values -/

/-- What follows a member's value. -/
def EndsMember (rest : List UInt8) : Prop :=
  ∃ b more, rest = b :: more ∧ (b = byteOf ',' ∨ b = byteOf '\n')

/-- A text that is read as a value where a member ends after it. -/
def Written (text : String) (v : JsonValue) : Prop :=
  ∀ fuel rest, EndsMember rest →
    valueFrom? (fuel + 1) (byteOf ' ' :: (bytesOf text ++ rest)) = some (v, rest)

theorem skipBlank_cons_blank : skipBlank (byteOf ' ' :: bs) = skipBlank bs := by
  rw [skipBlank, List.dropWhile_cons, if_pos (by decide)]
  rfl

theorem skipBlank_of_visible (h : ¬ b ≤ 0x20) : skipBlank (b :: bs) = b :: bs := by
  have hne (x : UInt8) (hx : x ≤ 0x20) : (b == x) = false := by
    rw [beq_eq_false_iff_ne]
    rintro rfl
    exact h hx
  rw [skipBlank, List.dropWhile_cons, if_neg]
  simp [hne 0x20 (by decide), hne 0x0A (by decide), hne 0x0D (by decide), hne 0x09 (by decide)]

theorem written_quote (s : String) : Written (quote s) (.string (some s)) := by
  intro fuel rest _
  rw [valueFrom?, skipBlank_cons_blank, bytesOf_quote, List.cons_append,
    skipBlank_of_visible (by decide)]
  have hbody := stringBody?_quoted s rest
  simp only [List.append_assoc, List.singleton_append, hbody, Option.map_some]
  rfl

/-- The bytes of a number. -/
def digitBytes (n : Nat) : List UInt8 :=
  (Nat.toDigits 10 n).map byteOf

theorem digitBytes_of_lt (hn : n < 10) : digitBytes n = [byteOf (Nat.digitChar n)] := by
  rw [digitBytes, Nat.toDigits_of_lt_base hn, List.map_singleton]

theorem digitBytes_of_le (hn : 10 ≤ n) :
    digitBytes n = digitBytes (n / 10) ++ [byteOf (Nat.digitChar (n % 10))] := by
  rw [digitBytes, Nat.toDigits_of_base_le (by decide) hn, List.map_append, List.map_singleton]
  rfl

theorem digitBytes_spec (n : Nat) : (∀ b ∈ digitBytes n, isDigit b = true) ∧
    decimal (digitBytes n) = n ∧ ∃ b bs, digitBytes n = b :: bs ∧ (b = byteOf '0' → bs = []) := by
  have hdigit : ∀ d < 10, isDigit (byteOf (Nat.digitChar d)) = true ∧
      (byteOf (Nat.digitChar d)).toNat - 0x30 = d ∧
      (byteOf (Nat.digitChar d) = byteOf '0' → d = 0) := by decide
  induction n using Nat.strongRecOn with
  | ind n ih =>
    by_cases hn : n < 10
    · rw [digitBytes_of_lt hn]
      exact ⟨by simpa using (hdigit n hn).1, by simpa [decimal] using (hdigit n hn).2.1,
        _, _, rfl, fun _ => rfl⟩
    · obtain ⟨hall, hvalue, b, bs, hbs, hzero⟩ := ih (n / 10) (by omega)
      obtain ⟨hd, hdvalue, -⟩ := hdigit (n % 10) (by omega)
      rw [digitBytes_of_le (Nat.not_lt.1 hn)]
      refine ⟨?_, ?_, b, bs ++ [byteOf (Nat.digitChar (n % 10))], by rw [hbs, List.cons_append],
        fun hb => ?_⟩
      · simpa [or_imp, forall_and, hd] using hall
      · rw [decimal, List.foldl_append, ← decimal, hvalue, List.foldl_cons, List.foldl_nil, hdvalue]
        omega
      · -- a number that goes on does not start with a zero
        obtain rfl := hzero hb
        rw [hbs, hb] at hvalue
        have hnone : decimal [byteOf '0'] = 0 := by decide
        omega

theorem bytesOf_toString (n : Nat) : bytesOf (toString n) = digitBytes n := by
  have hascii : ∀ c ∈ Nat.toDigits 10 n, c.toNat < 0x80 := fun c hc => by
    have hdigit := Nat.isDigit_of_mem_toDigits (by decide) (by decide) hc
    have hrange : 48 ≤ c.toNat ∧ c.toNat ≤ 57 := by
      simpa [Char.isDigit, UInt32.le_iff_toNat_le] using hdigit
    omega
  rw [bytesOf, Nat.toString_eq_ofList_toDigits, String.toList_ofList, encode, digitBytes]
  generalize Nat.toDigits 10 n = cs at hascii
  induction cs with
  | nil => rfl
  | cons c cs ih =>
    obtain ⟨hc, hcs⟩ := List.forall_mem_cons.1 hascii
    rw [List.flatMap_cons, utf8EncodeChar_ascii hc, ih hcs]
    rfl

theorem ne_of_isDigit (hb : isDigit b = true) (hx : isDigit x = false) : b ≠ x := by
  rintro rfl
  rw [hb] at hx
  cases hx

theorem visible_of_isDigit (hb : isDigit b = true) : ¬ b ≤ 0x20 := by
  rw [isDigit, Bool.and_eq_true, decide_eq_true_eq, UInt8.le_iff_toNat_le] at hb
  have hlow : 0x30 ≤ b.toNat := hb.1
  rw [UInt8.le_iff_toNat_le]
  show ¬ b.toNat ≤ 0x20
  omega

theorem number?_digitBytes (hrest : EndsMember rest) :
    number? (digitBytes n ++ rest) = some (.number (some n), rest) := by
  obtain ⟨hall, hvalue, b, bs, hbs, hzero⟩ := digitBytes_spec n
  have hb : isDigit b = true := hall b (hbs ▸ List.mem_cons_self ..)
  obtain ⟨e, more, rfl, he⟩ := hrest
  have hend : isDigit e = false ∧ e ≠ byteOf '.' ∧ e ≠ byteOf 'e' ∧ e ≠ byteOf 'E' := by
    rcases he with rfl | rfl <;> decide
  have hstop : ∀ b ∈ (e :: more).head?, isDigit b = false := by
    rintro b ⟨⟩
    exact hend.1
  obtain ⟨htake, hdrop⟩ := Text.takeWhile_dropWhile_append hall hstop
  have hsign : ((digitBytes n ++ e :: more).head? == some (byteOf '-')) = false := by
    rw [hbs, List.cons_append, List.head?_cons, beq_eq_false_iff_ne]
    exact fun h => ne_of_isDigit hb (by decide) (Option.some.inj h)
  have hzeros : ((digitBytes n).isEmpty ||
      (digitBytes n).head? == some 0x30 && (digitBytes n).length != 1) = false := by
    by_cases hfirst : b = byteOf '0'
    · rw [hbs, hzero hfirst]
      simp
    · have hfirst : b ≠ 0x30 := hfirst
      simp [hbs, hfirst]
  have hfraction : skipFraction? (e :: more) = some (false, e :: more) := by
    simp [skipFraction?, hend.2.1, hend.2.2]
  rw [number?]
  simp only [hsign, Bool.false_eq_true, if_false, htake, hzeros, hdrop, hfraction, hvalue]
  rfl

theorem written_toString (n : Nat) : Written (toString n) (.number (some n)) := by
  intro fuel rest hrest
  obtain ⟨hall, -, b, bs, hbs, -⟩ := digitBytes_spec n
  have hb : isDigit b = true := hall b (hbs ▸ List.mem_cons_self ..)
  rw [valueFrom?, skipBlank_cons_blank, bytesOf_toString, hbs, List.cons_append,
    skipBlank_of_visible (visible_of_isDigit hb)]
  have hnumber := @number?_digitBytes n rest hrest
  rw [hbs, List.cons_append] at hnumber
  simp only [hnumber]
  rw [if_neg (ne_of_isDigit hb (by decide)), if_neg (ne_of_isDigit hb (by decide)),
    if_neg (ne_of_isDigit hb (by decide)), if_neg (ne_of_isDigit hb (by decide)),
    if_neg (ne_of_isDigit hb (by decide)), if_neg (ne_of_isDigit hb (by decide))]

/-! ## Objects -/

/-- A key, a written value, and the value. -/
abbrev Member := String × String × JsonValue

/-- The members as `renderObject` puts them together. -/
def membersText (ms : List Member) : String :=
  ",\n".intercalate (ms.map fun m => "  " ++ quote m.1 ++ ": " ++ m.2.1)

theorem bytesOf_append (s t : String) : bytesOf (s ++ t) = bytesOf s ++ bytesOf t := by
  rw [bytesOf, String.toList_append, Utf8.encode_append]
  rfl

theorem after?_cons (h : c.toNat < 0x80) :
    after? (String.singleton c) (byteOf c :: bs) = some bs := by
  have hbytes : bytesOf (String.singleton c) = [byteOf c] := by
    simp [bytesOf, encode, utf8EncodeChar_ascii h]
  simp [after?, hbytes]

theorem bytesOf_member (key text : String) (rest : List UInt8) :
    bytesOf (quote key ++ ": " ++ text) ++ rest = byteOf '"' :: (encode
      (key.toList.flatMap escapeChar) ++ byteOf '"' :: byteOf ':' :: byteOf ' ' ::
        (bytesOf text ++ rest)) := by
  have hcolon : bytesOf ": " = [byteOf ':', byteOf ' '] := by decide
  simp [bytesOf_append, bytesOf_quote, hcolon]

/-- One member is read, and the rest goes on after it. -/
theorem membersFrom?_member {key : String} (hwritten : Written text v) (hrest : EndsMember rest)
    (hbs : skipBlank bs = bytesOf (quote key ++ ": " ++ text) ++ rest) :
    membersFrom? (fuel + 2) bs =
      match skipBlank rest with
      | [] => none
      | c :: more =>
        if c = byteOf '\x7d' then some ([(some key, v)], more)
        else if c = byteOf ',' then
          (membersFrom? (fuel + 1) more).map fun (ms, rest) => ((some key, v) :: ms, rest)
        else none := by
  have hkey : (after? "\"" (skipBlank bs)).bind stringBody? = some (some key,
      byteOf ':' :: byteOf ' ' :: (bytesOf text ++ rest)) := by
    rw [hbs, bytesOf_member, show "\"" = String.singleton '"' from rfl, after?_cons (by decide),
      Option.bind_some, stringBody?_quoted]
  have hvalue : (after? ":" (skipBlank (byteOf ':' :: byteOf ' ' :: (bytesOf text ++ rest)))).bind
      (valueFrom? (fuel + 1)) = some (v, rest) := by
    rw [skipBlank_of_visible (by decide), show ":" = String.singleton ':' from rfl,
      after?_cons (by decide), Option.bind_some,
      hwritten fuel rest hrest]
  rw [membersFrom?]
  cases hnext : skipBlank rest with
  | nil => simp [hkey, hvalue, hnext]
  | cons c more => simp [hkey, hvalue, hnext]

/-- The text of a member starts with its key. -/
theorem skipBlank_member (key text : String) (rest : List UInt8) :
    skipBlank (byteOf '\n' :: (bytesOf ("  " ++ quote key ++ ": " ++ text) ++ rest)) =
      bytesOf (quote key ++ ": " ++ text) ++ rest := by
  have hblank : bytesOf "  " = [byteOf ' ', byteOf ' '] := by decide
  have hblanks (bs : List UInt8) : skipBlank (byteOf '\n' :: byteOf ' ' :: byteOf ' ' :: bs) =
      skipBlank bs := rfl
  rw [String.append_assoc, String.append_assoc, bytesOf_append, ← String.append_assoc, hblank,
    List.append_assoc, bytesOf_member]
  exact (hblanks _).trans (skipBlank_of_visible (by decide))

theorem membersText_singleton (m : Member) :
    bytesOf (membersText [m]) = bytesOf ("  " ++ quote m.1 ++ ": " ++ m.2.1) := by
  rw [membersText, List.map_singleton, String.intercalate_singleton]

theorem membersText_cons_cons (m m' : Member) (ms : List Member) :
    bytesOf (membersText (m :: m' :: ms)) = bytesOf ("  " ++ quote m.1 ++ ": " ++ m.2.1) ++
      byteOf ',' :: byteOf '\n' :: bytesOf (membersText (m' :: ms)) := by
  have hcomma : bytesOf ",\n" = [byteOf ',', byteOf '\n'] := by decide
  rw [membersText, List.map_cons, List.map_cons, String.intercalate_cons_cons, bytesOf_append,
    bytesOf_append, hcomma, List.append_assoc]
  rfl

theorem membersFrom?_membersText {ms : List Member} (hne : ms ≠ [])
    (hwritten : ∀ m ∈ ms, Written m.2.1 m.2.2)
    (hfuel : (bytesOf (membersText ms)).length < fuel) (rest : List UInt8) :
    membersFrom? fuel (byteOf '\n' :: (bytesOf (membersText ms) ++
        byteOf '\n' :: byteOf '\x7d' :: rest)) =
      some (ms.map fun m => (some m.1, m.2.2), rest) := by
  induction ms generalizing fuel with
  | nil => exact absurd rfl hne
  | cons m ms ih =>
    obtain ⟨hm, hms⟩ := List.forall_mem_cons.1 hwritten
    have hlength : 2 ≤ (bytesOf ("  " ++ quote m.1 ++ ": " ++ m.2.1)).length := by
      rw [String.append_assoc, String.append_assoc, bytesOf_append, List.length_append]
      exact Nat.le_add_right 2 _
    cases ms with
    | nil =>
      rw [membersText_singleton] at hfuel ⊢
      obtain ⟨fuel, rfl⟩ : ∃ k, fuel = k + 2 := ⟨fuel - 2, by omega⟩
      have hends : EndsMember (byteOf '\n' :: byteOf '\x7d' :: rest) := ⟨_, _, rfl, .inr rfl⟩
      rw [membersFrom?_member hm hends (skipBlank_member m.1 m.2.1 _)]
      rfl
    | cons m' ms =>
      rw [membersText_cons_cons, List.length_append, List.length_cons, List.length_cons] at hfuel
      obtain ⟨fuel, rfl⟩ : ∃ k, fuel = k + 2 := ⟨fuel - 2, by omega⟩
      have hends : EndsMember (byteOf ',' :: byteOf '\n' :: (bytesOf (membersText (m' :: ms)) ++
          byteOf '\n' :: byteOf '\x7d' :: rest)) := ⟨_, _, rfl, .inl rfl⟩
      rw [membersText_cons_cons, List.append_assoc, List.cons_append, List.cons_append,
        membersFrom?_member hm hends (skipBlank_member m.1 m.2.1 _),
        skipBlank_of_visible (by decide)]
      dsimp only
      rw [if_neg (by decide), if_pos rfl, ih (by simp) hms (by omega)]
      rfl

/-- An object is read back, with its members in order. -/
theorem parse?_renderObject {ms : List Member} (hne : ms ≠ [])
    (hwritten : ∀ m ∈ ms, Written m.2.1 m.2.2) :
    parse? (bytesOf (renderObject (ms.map fun m => (m.1, m.2.1)))) =
      some (.object (ms.map fun m => (some m.1, m.2.2))) := by
  have hbytes : bytesOf (renderObject (ms.map fun m => (m.1, m.2.1))) = byteOf '\x7b' ::
      byteOf '\n' :: (bytesOf (membersText ms) ++ [byteOf '\n', byteOf '\x7d']) := by
    rw [renderObject, List.map_map, bytesOf_append, bytesOf_append]
    rfl
  have hquote : ∃ more, skipBlank (byteOf '\n' :: (bytesOf (membersText ms) ++
      [byteOf '\n', byteOf '\x7d'])) = byteOf '"' :: more := by
    obtain ⟨m, ms, rfl⟩ := List.exists_cons_of_ne_nil hne
    cases ms with
    | nil => exact ⟨_, by rw [membersText_singleton, skipBlank_member, bytesOf_member]⟩
    | cons m' ms =>
      exact ⟨_, by rw [membersText_cons_cons, List.append_assoc, skipBlank_member, bytesOf_member]⟩
  obtain ⟨more, hmore⟩ := hquote
  generalize hlength : (bytesOf (renderObject (ms.map fun m => (m.1, m.2.1)))).length = length
  have hmembers := @membersFrom?_membersText (2 * length + 1) ms hne hwritten
    (by
      rw [hbytes, List.length_cons, List.length_cons, List.length_append] at hlength
      omega) []
  rw [parse?, hlength, hbytes, valueFrom?, skipBlank_of_visible (by decide)]
  dsimp only
  rw [if_neg (by decide), if_neg (by decide), if_neg (by decide), if_neg (by decide),
    if_neg (by decide), if_pos rfl, hmore]
  dsimp only
  rw [if_neg (by decide), hmembers]
  rfl

end JsonValue

namespace Cache.Metadata

open JsonValue

/-- The members that a record is written as. -/
def members (m : Metadata) : List Member :=
  [("reference", quote m.reference, .string (some m.reference)),
    ("layer_digest", quote m.layerDigest, .string (some m.layerDigest)),
    ("content_hash", quote m.contentHash, .string (some m.contentHash)),
    ("restored_at", toString m.restoredAt, .number (some m.restoredAt))]

/-- A record is read back. -/
theorem parse?_render (m : Metadata) (hm : m.restoredAt < UInt64.size) :
    parse? (Utf8.bytesOf m.render) = some m := by
  have hrender : m.render = renderObject (m.members.map fun member => (member.1, member.2.1)) := rfl
  have hwritten : ∀ member ∈ m.members, Written member.2.1 member.2.2 := by
    simp only [members, List.forall_mem_cons, List.not_mem_nil, false_imp_iff, implies_true,
      and_true]
    exact ⟨written_quote _, written_quote _, written_quote _, written_toString _⟩
  rw [hrender, parse?, parse?_renderObject (by simp [members]) hwritten]
  simp [members, fields?, keys, JsonValue.string?, natBelow?, hm]

end Cache.Metadata

end ModuleGraph
