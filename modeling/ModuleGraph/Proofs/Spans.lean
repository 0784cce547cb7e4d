import Mathlib.Data.List.Infix
import ModuleGraph.Proofs.Places
import ModuleGraph.Source.Scan

/-!
# Spans of module statements

A statement is found on a line with its path, or with why it has none, and with
the bytes that this is said of. This file says that the bytes are there and that
it is said of them (`scan_sound`): a span covers part of one line, from one
character to another, spans of different statements are on different lines in
the order of the statements, and the path is what the covered text means as a
literal.

The scanner counts from the end: every text that it looks at is what is left of
the line, and so the offset of such a text is the difference of two sizes.
`Span.Covers` says instead what stands before and after a span, and every step
below is a way to write the line as such a sum.
-/

namespace ModuleGraph

/-! ## Slices -/

namespace Utf8

variable {cs as bs text : List Char} {n : Nat}

theorem size_pos (h : cs ≠ []) : 0 < size cs := by
  cases cs with
  | nil => exact absurd rfl h
  | cons c cs =>
    have := c.utf8Size_pos
    rw [size_cons]
    omega

/-- The text cut after a number of bytes, unless that is inside of a character or too many. -/
def splitAt? : Nat → List Char → Option (List Char × List Char)
  | 0, cs => some ([], cs)
  | _ + 1, [] => none
  | n + 1, c :: cs =>
    if c.utf8Size ≤ n + 1 then
      (splitAt? (n + 1 - c.utf8Size) cs).map fun (front, back) => (c :: front, back)
    else none

theorem splitAt?_zero (h : size as = 0) : splitAt? 0 (as ++ bs) = some (as, bs) := by
  cases as with
  | nil => cases bs <;> rfl
  | cons a as => exact absurd h (Nat.ne_of_gt (size_pos (List.cons_ne_nil a as)))

theorem splitAt?_append (as bs : List Char) : splitAt? (size as) (as ++ bs) = some (as, bs) := by
  induction as with
  | nil => exact splitAt?_zero rfl
  | cons a as ih =>
    have hpos := size_pos (List.cons_ne_nil a as)
    obtain ⟨n, hn⟩ := Nat.exists_eq_succ_of_ne_zero (Nat.ne_of_gt hpos)
    have hrest : n + 1 - a.utf8Size = size as := by
      rw [size_cons] at hn
      omega
    rw [hn, List.cons_append, splitAt?, if_pos (by rw [size_cons] at hn; omega), hrest, ih]
    rfl

theorem of_splitAt? (h : splitAt? n cs = some (as, bs)) : cs = as ++ bs ∧ size as = n := by
  induction cs generalizing n as with
  | nil =>
    cases n with
    | zero => cases h; exact ⟨rfl, rfl⟩
    | succ n => cases h
  | cons c cs ih =>
    cases n with
    | zero => cases h; exact ⟨rfl, rfl⟩
    | succ n =>
      rw [splitAt?] at h
      split at h
      · next hle =>
        obtain ⟨⟨front, back⟩, hcut, heq⟩ := Option.map_eq_some_iff.1 h
        cases heq
        obtain ⟨rfl, hsize⟩ := ih hcut
        exact ⟨rfl, by rw [size_cons, hsize]; omega⟩
      · cases h

/-- The text that a span covers, unless one of its ends is inside of a character or too far. -/
def slice? (cs : List Char) (s : Span) : Option (List Char) :=
  if s.start ≤ s.stop then
    ((splitAt? s.start cs).bind fun (_, rest) => splitAt? (s.stop - s.start) rest).map Prod.fst
  else none

end Utf8

/-- The span covers this part of the text. -/
def Span.Covers (s : Span) (cs text : List Char) : Prop :=
  ∃ before after, cs = before ++ text ++ after ∧
    s = ⟨Utf8.size before, Utf8.size before + Utf8.size text⟩

namespace Span

variable {s : Span} {cs ds text : List Char}

theorem slice?_eq_some_iff : Utf8.slice? cs s = some text ↔ s.Covers cs text := by
  rw [Utf8.slice?]
  constructor
  · intro h
    split at h
    · next hle =>
      obtain ⟨⟨middle, after⟩, hcut, rfl⟩ := Option.map_eq_some_iff.1 h
      obtain ⟨⟨before, rest⟩, hfirst, hsecond⟩ := Option.bind_eq_some_iff.1 hcut
      obtain ⟨rfl, hbefore⟩ := Utf8.of_splitAt? hfirst
      obtain ⟨rfl, hmiddle⟩ := Utf8.of_splitAt? hsecond
      refine ⟨before, after, (List.append_assoc ..).symm, ?_⟩
      rw [hbefore, hmiddle, Nat.add_sub_cancel' hle]
    · cases h
  · rintro ⟨before, after, rfl, rfl⟩
    rw [if_pos (Nat.le_add_right ..), List.append_assoc, Utf8.splitAt?_append, Option.bind_some]
    dsimp only
    rw [Nat.add_sub_cancel_left, Utf8.splitAt?_append]
    rfl

theorem Covers.append_right (h : s.Covers cs text) (ds : List Char) :
    s.Covers (cs ++ ds) text := by
  obtain ⟨before, after, rfl, rfl⟩ := h
  exact ⟨before, after ++ ds, List.append_assoc .., rfl⟩

theorem Covers.append_left (h : s.Covers cs text) (ds : List Char) :
    (s.shift (Utf8.size ds)).Covers (ds ++ cs) text := by
  obtain ⟨before, after, rfl, rfl⟩ := h
  refine ⟨ds ++ before, after, by simp, ?_⟩
  simp only [shift, Utf8.size_append, Span.mk.injEq]
  omega

theorem Covers.stop_le (h : s.Covers cs text) : s.stop ≤ Utf8.size cs := by
  obtain ⟨before, after, rfl, rfl⟩ := h
  simp only [Utf8.size_append]
  omega

theorem Covers.start_le_stop (h : s.Covers cs text) : s.start ≤ s.stop := by
  obtain ⟨before, after, rfl, rfl⟩ := h
  exact Nat.le_add_right ..

theorem Covers.start_lt_stop (h : s.Covers cs text) (hne : text ≠ []) : s.start < s.stop := by
  obtain ⟨before, after, rfl, rfl⟩ := h
  exact Nat.lt_add_of_pos_right (Utf8.size_pos hne)

end Span

/-! ## Literals -/

namespace Literal

variable {inner rest body : List Char} {meant : List Char}

/-- What may stand between the quotes of a literal, and what it means: a backslash stands with the
character that it takes as it is, and a quote does not stand alone. -/
inductive Spells : List Char → List Char → Prop where
  | nil : Spells [] []
  | plain {c : Char} {inner meant : List Char} (hb : c ≠ backslash) (hq : c ≠ quote)
      (h : Spells inner meant) : Spells (c :: inner) (c :: meant)
  | taken {c : Char} {inner meant : List Char} (h : Spells inner meant) :
      Spells (backslash :: c :: inner) (c :: meant)

theorem Spells.inner?_eq (h : Spells inner meant) (rest : List Char) :
    inner? (inner ++ quote :: rest) = some inner := by
  induction h with
  | nil => cases rest <;> simp [inner?, quote, backslash]
  | @plain c inner meant hb hq _ ih =>
    obtain ⟨d, ds, hcons⟩ := List.exists_cons_of_ne_nil
      (List.append_ne_nil_of_right_ne_nil inner (List.cons_ne_nil quote rest))
    rw [List.cons_append, hcons, inner?, if_neg hb, if_neg hq, ← hcons, ih]
    rfl
  | taken _ ih =>
    rw [List.cons_append, List.cons_append, inner?, if_pos rfl, ih]
    rfl

theorem Spells.unescape_eq (h : Spells inner meant) : unescape inner = meant := by
  induction h with
  | nil => rfl
  | @plain c inner meant hb _ _ ih =>
    cases inner with
    | nil => rw [unescape, if_neg hb, ← ih]; rfl
    | cons d ds => rw [unescape, if_neg hb, ih]
  | taken _ ih => rw [unescape, if_pos rfl, ih]

/-- What is cut off before the closing quote spells what it is unescaped to. -/
theorem of_inner? (h : inner? body = some inner) :
    ∃ rest, body = inner ++ quote :: rest ∧ Spells inner (unescape inner) := by
  fun_induction inner? body generalizing inner with
  | case1 => cases h
  | case2 => cases h; exact ⟨[], rfl, .nil⟩
  | case3 => cases h
  | case4 d rest ih =>
    obtain ⟨more, hmore, rfl⟩ := Option.map_eq_some_iff.1 h
    obtain ⟨tail, rfl, hspells⟩ := ih hmore
    refine ⟨tail, rfl, ?_⟩
    rw [unescape, if_pos rfl]
    exact .taken hspells
  | case5 d rest hb => cases h; exact ⟨_, rfl, .nil⟩
  | case6 c d rest hb hq ih =>
    obtain ⟨more, hmore, rfl⟩ := Option.map_eq_some_iff.1 h
    obtain ⟨tail, heq, hspells⟩ := ih hmore
    refine ⟨tail, congrArg (c :: ·) heq, ?_⟩
    have hunescape := (Spells.plain hb hq hspells).unescape_eq
    rw [hunescape]
    exact .plain hb hq hspells

/-- A literal with this text between its quotes. -/
def closed (inner : List Char) : List Char :=
  quote :: inner ++ [quote]

theorem closed_injective {inner other : List Char} (h : closed inner = closed other) :
    inner = other :=
  List.append_cancel_right (List.tail_eq_of_cons_eq h)

theorem isInterpolated_iff (cs : List Char) :
    isInterpolated cs = true ↔ ['$', '{'] <:+: cs := by
  fun_induction isInterpolated cs with
  | case1 => simp
  | case2 c =>
    refine iff_of_false (by simp) fun h => ?_
    have := h.length_le
    simp at this
  | case3 c d rest ih =>
    rw [List.infix_cons_iff, ← ih, Bool.or_eq_true, Bool.and_eq_true, beq_iff_eq, beq_iff_eq,
      List.cons_prefix_cons, List.cons_prefix_cons, and_iff_left List.nil_prefix,
      eq_comm, @eq_comm _ d]

/-! The closing quote can be looked for among the bytes of a text as well. A backslash then takes
one byte, which may be the first of several that a character has. -/

/-- The number of bytes before the closing quote, for what follows the opening one. -/
def closing? : List UInt8 → Option Nat
  | [] => none
  | [b] => if b = 0x27 then some 0 else none
  | b :: b' :: rest =>
    if b = 0x5c then (closing? rest).map (· + 2)
    else if b = 0x27 then some 0
    else (closing? (b' :: rest)).map (· + 1)

theorem closing?_append {bs : List UInt8} (h : ∀ b ∈ bs, b ≠ 0x5c ∧ b ≠ 0x27)
    (rest : List UInt8) : closing? (bs ++ rest) = (closing? rest).map (· + bs.length) := by
  induction bs with
  | nil => simp
  | cons b bs ih =>
    obtain ⟨hb, hq⟩ := h b (List.mem_cons_self ..)
    have hcons : closing? (b :: (bs ++ rest)) = (closing? (bs ++ rest)).map (· + 1) := by
      cases bs ++ rest with
      | nil => simp [closing?, hq]
      | cons b' more => rw [closing?, if_neg hb, if_neg hq]
    rw [List.cons_append, hcons, ih fun e he => h e (List.mem_cons_of_mem b he), Option.map_map]
    rfl

/-- The bytes of a character after its first one are none that the search stops at. -/
theorem closing?_backslash (c : Char) (rest : List UInt8) :
    closing? (0x5c :: (String.utf8EncodeChar c ++ rest)) =
      (closing? rest).map (· + (c.utf8Size + 1)) := by
  have hlength := String.length_utf8EncodeChar c
  have hascii : ∀ b ∈ String.utf8EncodeChar c, b.toNat < 0x80 → c.utf8Size = 1 := by
    intro b hmem hb
    rw [Char.utf8Size_eq_one_iff, UInt32.le_iff_toNat_le]
    have hnat := Utf8.toNat_eq_of_mem_utf8EncodeChar hb hmem
    rw [Char.toNat] at hnat
    exact Nat.le_of_lt_succ (hnat ▸ hb)
  cases hbytes : String.utf8EncodeChar c with
  | nil =>
    have := c.utf8Size_pos
    rw [hbytes, List.length_nil] at hlength
    omega
  | cons b more =>
    rw [hbytes] at hlength hascii
    have hmore : ∀ e ∈ more, e ≠ 0x5c ∧ e ≠ 0x27 := by
      refine fun e he => not_or.1 fun hspecial => ?_
      have hsize := hascii e (List.mem_cons_of_mem b he)
        (by rcases hspecial with rfl | rfl <;> decide)
      rw [hsize, List.length_cons] at hlength
      exact List.ne_nil_of_mem he (List.length_eq_zero_iff.1 (by omega))
    rw [List.cons_append, closing?, if_pos rfl, closing?_append hmore, Option.map_map, ← hlength]
    rfl

/-- Looking for the quote among bytes finds the quote that ends the inner text. -/
theorem closing?_encode (body : List Char) :
    closing? (Utf8.encode body) = (inner? body).map Utf8.size := by
  have hplain : ∀ c, c ≠ backslash → c ≠ quote → ∀ cs,
      closing? (Utf8.encode (c :: cs)) = (closing? (Utf8.encode cs)).map (· + c.utf8Size) := by
    intro c hb hq cs
    rw [← String.length_utf8EncodeChar]
    refine closing?_append (fun b hmem => ⟨?_, ?_⟩) _
    · rintro rfl
      exact hb (Char.toNat_inj.1 (Utf8.toNat_eq_of_mem_utf8EncodeChar (by decide) hmem))
    · rintro rfl
      exact hq (Char.toNat_inj.1 (Utf8.toNat_eq_of_mem_utf8EncodeChar (by decide) hmem))
  fun_induction inner? body with
  | case1 => rfl
  | case2 => decide
  | case3 c hq =>
    by_cases hb : c = backslash
    · rw [hb]
      decide
    · rw [hplain c hb hq]
      rfl
  | case4 d rest ih =>
    have hencode : Utf8.encode (backslash :: d :: rest) =
        0x5c :: (String.utf8EncodeChar d ++ Utf8.encode rest) := rfl
    rw [hencode, closing?_backslash, ih, Option.map_map, Option.map_map]
    congr 1
    funext inner
    simp only [Function.comp, Utf8.size_cons, show backslash.utf8Size = 1 from rfl]
    omega
  | case5 d rest hb =>
    have hencode : Utf8.encode (quote :: d :: rest) = 0x27 :: Utf8.encode (d :: rest) := rfl
    rw [hencode]
    cases Utf8.encode (d :: rest) <;> simp [closing?]
  | case6 c d rest hb hq ih =>
    rw [hplain c hb hq, ih, Option.map_map, Option.map_map]
    congr 1
    funext inner
    exact Nat.add_comm ..

end Literal

/-! ## Lines -/

theorem Text.isBlank_of_head?_trimStart {cs : List Char} {c : Char}
    (h : (trimStart cs).head? = some c) : isBlank c = false := by
  have hnot := List.head?_dropWhile_not isBlank cs
  rw [show (cs.dropWhile isBlank).head? = some c from h] at hnot
  exact hnot

namespace Statement

variable {line text content : List Char} {path : Except Failure String} {s t : Statement}

/-- The path is what a text means as a literal: a literal with no interpolation means what it
spells, and no other text has a path. -/
structure Means (text : List Char) (path : Except Failure String) : Prop where
  ok : ∀ p, path = .ok p ↔ ∃ inner, text = Literal.closed inner ∧
    Literal.Spells inner p.toList ∧ ¬ ['$', '\x7b'] <:+: inner
  interpolated : path = .error .pathInterpolated ↔ ∃ inner meant, text = Literal.closed inner ∧
    Literal.Spells inner meant ∧ ['$', '\x7b'] <:+: inner
  notString : path = .error .pathNotString ↔ ¬ ∃ inner meant, text = Literal.closed inner ∧
    Literal.Spells inner meant

theorem means_notString (h : ∀ inner meant, Literal.Spells inner meant →
    text ≠ Literal.closed inner) : Means text (.error .pathNotString) where
  ok p := by
    refine iff_of_false nofun ?_
    rintro ⟨inner, rfl, hspells, -⟩
    exact h inner _ hspells rfl
  interpolated := by
    refine iff_of_false nofun ?_
    rintro ⟨inner, meant, rfl, hspells, -⟩
    exact h inner meant hspells rfl
  notString := by
    refine iff_of_true rfl ?_
    rintro ⟨inner, meant, rfl, hspells⟩
    exact h inner meant hspells rfl

theorem means_closed {inner meant : List Char} (h : Literal.Spells inner meant) :
    Means (Literal.closed inner) (if Literal.isInterpolated inner then .error .pathInterpolated
      else .ok (String.ofList (Literal.unescape inner))) := by
  have hsame : ∀ other, Literal.closed inner = Literal.closed other ↔ other = inner := fun other =>
    ⟨fun heq => (Literal.closed_injective heq).symm, fun heq => heq ▸ rfl⟩
  have hspelt : ∀ other, Literal.Spells inner other ↔ other = meant := fun other =>
    ⟨fun hother => hother.unescape_eq.symm.trans h.unescape_eq, fun heq => heq ▸ h⟩
  have hinterpolated := Literal.isInterpolated_iff inner
  constructor
  · intro p
    simp only [hsame, exists_eq_left, hspelt, ← hinterpolated]
    split
    · next hi => exact iff_of_false nofun fun hp => hp.2 hi
    · next hi =>
      rw [Except.ok.injEq, h.unescape_eq, and_iff_left hi, ← String.toList_inj,
        String.toList_ofList, eq_comm]
  · simp only [hsame, exists_and_left, exists_eq_left, hspelt, ← hinterpolated]
    split <;> simp_all
  · simp only [hsame, exists_and_left, exists_eq_left, hspelt]
    split <;> simp

/-- The token that a path is read from, for a text that does not start with a blank. -/
theorem readPath_token (h : ∀ c ∈ text.head?, Text.isBlank c = false) :
    ∃ token rest, text = token ++ rest ∧ (readPath text).2 = Utf8.size token ∧
      Means token (readPath text).1 ∧ (token = [] → text = []) := by
  cases text with
  | nil =>
    exact ⟨[], [], rfl, rfl, means_notString fun _ _ _ => nofun, fun _ => rfl⟩
  | cons c body =>
    rw [readPath]
    split
    · next hc =>
      subst hc
      cases hinner : Literal.inner? body with
      | some inner =>
        obtain ⟨rest, rfl, hspells⟩ := Literal.of_inner? hinner
        refine ⟨Literal.closed inner, rest, by simp [Literal.closed], ?_, means_closed hspells,
          nofun⟩
        simp only [Literal.closed, List.cons_append, Utf8.size_cons, Utf8.size_append,
          Utf8.size_nil]
        have hquote : Literal.quote.utf8Size = 1 := by decide
        omega
      | none =>
        refine ⟨_, [], (List.append_nil _).symm, rfl, means_notString ?_, nofun⟩
        intro inner meant hspells heq
        -- a literal that is closed would have been cut off
        have hbody : body = inner ++ [Literal.quote] := List.tail_eq_of_cons_eq heq
        rw [hbody, hspells.inner?_eq] at hinner
        cases hinner
    · next hc =>
      have hblank : Text.isBlank c = false := h c rfl
      refine ⟨_, _, (List.takeWhile_append_dropWhile (p := (!Text.isBlank ·))).symm, rfl,
        means_notString fun inner meant _ heq => ?_, fun hnil => ?_⟩
      · rw [List.takeWhile_cons_of_pos (by rw [hblank]; rfl)] at heq
        exact hc (List.head_eq_of_cons_eq heq)
      · rw [List.takeWhile_cons_of_pos (by rw [hblank]; rfl)] at hnil
        cases hnil

/-- How a line is read: after `lead` it has the words `words`, a gap, and what the path is read
from. -/
structure Cut (content : List Char) (s : Statement) (lead words gap rest : List Char) : Prop where
  content : content = lead ++ words ++ gap ++ rest
  starts : keyword <+: words
  head : ∀ c ∈ rest.head?, Text.isBlank c = false
  path : s.path = (readPath rest).1
  span : s.span =
    if (readPath rest).2 = 0 then ⟨Utf8.size lead, Utf8.size lead + Utf8.size words⟩
    else ⟨Utf8.size (lead ++ words ++ gap), Utf8.size (lead ++ words ++ gap) + (readPath rest).2⟩

theorem exists_cut (h : ofLine? line = some s) :
    ∃ lead words gap rest, Cut (Text.dropEndWhile isLineEnd line) s lead words gap rest := by
  rw [ofLine?] at h
  generalize Text.dropEndWhile isLineEnd line = content at h ⊢
  -- every text that is looked at is the end of the content
  have hoffset : ∀ front back : List Char, content = front ++ back →
      Utf8.size content - Utf8.size back = Utf8.size front := by
    intro front back hcut
    rw [hcut, Utf8.size_append, Nat.add_sub_cancel]
  dsimp only at h
  split at h
  · next hkey =>
    obtain ⟨body, hbody⟩ := List.isPrefixOf_iff_prefix.1 hkey
    have hlead : content = content.takeWhile Text.isBlank ++ Text.trimStart content :=
      List.takeWhile_append_dropWhile.symm
    generalize content.takeWhile Text.isBlank = lead at hlead
    rw [← hbody] at h hlead
    rw [List.drop_left] at h
    split at h
    · have hblanks : body = body.takeWhile Text.isBlank ++ Text.trimStart body :=
        List.takeWhile_append_dropWhile.symm
      generalize body.takeWhile Text.isBlank = blanks at hblanks
      have hsymbol : Text.trimStart body = (Text.trimStart body).takeWhile Text.isSymbolChar ++
          (Text.trimStart body).dropWhile Text.isSymbolChar := List.takeWhile_append_dropWhile.symm
      generalize (Text.trimStart body).takeWhile Text.isSymbolChar = symbol at h hsymbol
      generalize (Text.trimStart body).dropWhile Text.isSymbolChar = more at h hsymbol
      have hgap : more = more.takeWhile Text.isBlank ++ Text.trimStart more :=
        List.takeWhile_append_dropWhile.symm
      generalize more.takeWhile Text.isBlank = gap at hgap
      have hhead : ∀ c ∈ (Text.trimStart more).head?, Text.isBlank c = false :=
        fun c => Text.isBlank_of_head?_trimStart
      generalize Text.trimStart more = rest at h hgap hhead
      have hmore : content = (lead ++ (keyword ++ blanks ++ symbol)) ++ more := by
        rw [hlead, hblanks, hsymbol]
        simp only [List.append_assoc]
      have hrest : content = (lead ++ (keyword ++ blanks ++ symbol) ++ gap) ++ rest := by
        rw [hmore, hgap, List.append_assoc _ gap rest]
      rw [hoffset _ _ hlead, hoffset _ _ hmore, hoffset _ _ hrest, Utf8.size_append lead] at h
      cases h
      exact ⟨lead, keyword ++ blanks ++ symbol, gap, rest, hrest,
        List.append_assoc keyword .. ▸ List.prefix_append .., hhead, rfl, rfl⟩
    · cases h
  · cases h

/-- A statement on a line says something of the bytes that its span covers, none of which end the
line. -/
theorem of_ofLine? (h : ofLine? line = some s) : ∃ text,
    s.span.Covers (Text.dropEndWhile isLineEnd line) text ∧ text ≠ [] ∧ Means text s.path := by
  obtain ⟨lead, words, gap, rest, hcut⟩ := exists_cut h
  obtain ⟨token, post, hrest, hsize, hmeans, hempty⟩ := readPath_token hcut.head
  rw [hcut.span, hcut.path, hcut.content]
  split
  · next hzero =>
    -- there is no token, and so the words of the statement are covered
    have hnil : token = [] := by
      by_contra hne
      exact Nat.ne_of_gt (Utf8.size_pos hne) (hsize ▸ hzero)
    obtain ⟨more, hwords⟩ := hcut.starts
    rw [hnil] at hmeans
    have hpath : (readPath rest).1 = .error .pathNotString := hmeans.notString.2 (by
      rintro ⟨inner, meant, hclosed, -⟩
      cases hclosed)
    rw [hpath]
    refine ⟨words, ⟨lead, gap ++ rest, List.append_assoc .., rfl⟩, ?_, means_notString ?_⟩
    · rw [← hwords]
      exact List.append_ne_nil_of_left_ne_nil (List.cons_ne_nil _ _) more
    · rw [← hwords]
      intro inner meant _ hclosed
      cases List.head_eq_of_cons_eq hclosed
  · next hpos =>
    refine ⟨token, ⟨lead ++ words ++ gap, post, ?_, ?_⟩, ?_, hmeans⟩
    · rw [hrest, ← List.append_assoc]
    · rw [hsize]
    · rintro rfl
      exact hpos hsize

end Statement

/-! ## Texts -/

variable {cs body rest : List Char} {n : Nat} {s t : Statement}

/-- A text that is not empty has a first line, which ends in the first line feed or is all. -/
theorem linesOf_cases (cs : List Char) :
    (cs = [] ∧ linesOf cs = []) ∨
    (cs ≠ [] ∧ '\n' ∉ cs ∧ linesOf cs = [cs]) ∨
    ∃ body rest, '\n' ∉ body ∧ cs = body ++ '\n' :: rest ∧
      linesOf cs = (body ++ ['\n']) :: linesOf rest := by
  induction cs with
  | nil => exact .inl ⟨rfl, rfl⟩
  | cons c cs ih =>
    refine .inr ?_
    by_cases hc : c = '\n'
    · refine .inr ⟨[], cs, List.not_mem_nil, by rw [hc]; rfl, ?_⟩
      rw [linesOf_cons, consLine.eq_def, if_pos hc, hc]
      rfl
    · have hmem : ∀ ds : List Char, '\n' ∉ ds → '\n' ∉ c :: ds := fun ds hds hd =>
        (List.mem_cons.1 hd).elim (fun h => hc h.symm) hds
      rw [linesOf_cons, consLine.eq_def, if_neg hc]
      obtain ⟨rfl, hlines⟩ | ⟨-, hnot, hlines⟩ | ⟨body, rest, hnot, rfl, hlines⟩ := ih
      · rw [hlines]
        exact .inl ⟨List.cons_ne_nil _ _, hmem _ List.not_mem_nil, rfl⟩
      · rw [hlines]
        exact .inl ⟨List.cons_ne_nil _ _, hmem _ hnot, rfl⟩
      · rw [hlines]
        exact .inr ⟨c :: body, rest, hmem _ hnot, rfl, rfl⟩

theorem Text.dropEndWhile_prefix (drop : Char → Bool) (cs : List Char) :
    dropEndWhile drop cs <+: cs := by
  rw [dropEndWhile, ← List.reverse_suffix, List.reverse_reverse]
  exact List.dropWhile_suffix drop

theorem Text.dropEndWhile_append_singleton {drop : Char → Bool} {c : Char} (hc : drop c = true)
    (cs : List Char) : dropEndWhile drop (cs ++ [c]) = dropEndWhile drop cs := by
  rw [dropEndWhile, dropEndWhile, List.reverse_append, List.reverse_singleton,
    List.singleton_append, List.dropWhile_cons_of_pos hc]

theorem scanLines_add (n m : Nat) (lines : List (List Char)) :
    scanLines (n + m) lines = (scanLines m lines).map (·.shift n) := by
  induction lines generalizing m with
  | nil => rfl
  | cons line lines ih =>
    have hshift : ∀ s : Statement, s.shift (n + m) = (s.shift m).shift n := fun s => by
      simp only [Statement.shift, Span.shift, Nat.add_assoc, Nat.add_comm n m]
    rw [scanLines, scanLines, Nat.add_assoc, ih, List.map_append]
    cases Statement.ofLine? line with
    | none => rfl
    | some s => simp [hshift]

/-- The statements after a line are those of the lines after it, moved on. -/
theorem scanLines_cons (line : List Char) (lines : List (List Char)) :
    scanLines 0 (line :: lines) = (Statement.ofLine? line).toList ++
      (scanLines 0 lines).map (·.shift (Utf8.size line)) := by
  rw [scanLines, ← scanLines_add, Nat.zero_add, Nat.add_zero]
  cases Statement.ofLine? line <;> rfl

namespace Statement

/-- The statement says of some bytes of the text, which are on one line, what path they mean. -/
def Sound (cs : List Char) (s : Statement) : Prop :=
  ∃ text, s.span.Covers cs text ∧ text ≠ [] ∧ '\n' ∉ text ∧ Means text s.path

/-- The second statement is on a later line. -/
def Before (cs : List Char) (s t : Statement) : Prop :=
  ∃ between, (Span.mk s.span.stop t.span.start).Covers cs between ∧ '\n' ∈ between

theorem Sound.append_left (h : Sound cs s) (ds : List Char) :
    Sound (ds ++ cs) (s.shift (Utf8.size ds)) := by
  obtain ⟨text, hcovers, hrest⟩ := h
  exact ⟨text, hcovers.append_left ds, hrest⟩

theorem Sound.append_right (h : Sound cs s) (ds : List Char) : Sound (cs ++ ds) s := by
  obtain ⟨text, hcovers, hrest⟩ := h
  exact ⟨text, hcovers.append_right ds, hrest⟩

theorem Before.append_left (h : Before cs s t) (ds : List Char) :
    Before (ds ++ cs) (s.shift (Utf8.size ds)) (t.shift (Utf8.size ds)) := by
  obtain ⟨between, hcovers, hline⟩ := h
  exact ⟨between, hcovers.append_left ds, hline⟩

theorem before_of_sound (hs : Sound body s) (ht : Sound rest t) :
    Before (body ++ '\n' :: rest) s (t.shift (Utf8.size (body ++ ['\n']))) := by
  obtain ⟨text, ⟨before, after, rfl, hspan⟩, -⟩ := hs
  obtain ⟨text', ⟨before', after', rfl, hspan'⟩, -⟩ := ht
  refine ⟨after ++ '\n' :: before', ⟨before ++ text, text' ++ after', by simp, ?_⟩, by simp⟩
  simp only [shift, Span.shift, hspan, hspan', Utf8.size_append, Utf8.size_cons, Utf8.size_nil,
    Span.mk.injEq, true_and]
  omega

theorem sound_of_ofLine? {line : List Char} (h : ofLine? line = some s)
    (hline : Text.dropEndWhile isLineEnd line <+: body) (hbody : '\n' ∉ body) : Sound body s := by
  obtain ⟨text, hcovers, hne, hmeans⟩ := of_ofLine? h
  obtain ⟨more, rfl⟩ := hline
  obtain ⟨before, after, hcontent, -⟩ := id hcovers
  refine ⟨text, hcovers.append_right more, hne, fun hmem => hbody ?_, hmeans⟩
  rw [hcontent]
  exact List.mem_append_left _ (List.mem_append_left _ (List.mem_append_right _ hmem))

end Statement

/-- The statements of a text. Induction on the text, a line at a time. -/
theorem scanLines_sound (cs : List Char) :
    (∀ s ∈ scanLines 0 (linesOf cs), s.Sound cs) ∧
      (scanLines 0 (linesOf cs)).Pairwise (Statement.Before cs) := by
  induction hlength : cs.length using Nat.strongRecOn generalizing cs with
  | ind n ih =>
    obtain ⟨rfl, hlines⟩ | ⟨-, hnot, hlines⟩ | ⟨body, rest, hnot, rfl, hlines⟩ := linesOf_cases cs
    · rw [hlines]
      exact ⟨nofun, .nil⟩
    · have hsound : ∀ s, Statement.ofLine? cs = some s → s.Sound cs := fun s hs =>
        Statement.sound_of_ofLine? hs (Text.dropEndWhile_prefix ..) hnot
      rw [hlines, scanLines_cons, scanLines, List.map_nil, List.append_nil]
      cases hfirst : Statement.ofLine? cs with
      | none => exact ⟨nofun, .nil⟩
      | some s =>
        refine ⟨fun t ht => ?_, List.pairwise_singleton ..⟩
        rw [List.mem_singleton.1 ht]
        exact hsound s hfirst
    · obtain ⟨hrest, hpairs⟩ := ih rest.length
        (by rw [← hlength, List.length_append, List.length_cons]; omega) rest rfl
      have hsound : ∀ s, Statement.ofLine? (body ++ ['\n']) = some s → s.Sound body := fun s hs =>
        Statement.sound_of_ofLine? hs (by
          rw [Text.dropEndWhile_append_singleton (by decide)]
          exact Text.dropEndWhile_prefix ..) hnot
      have hcut : body ++ '\n' :: rest = (body ++ ['\n']) ++ rest := List.append_cons ..
      rw [hlines, scanLines_cons]
      refine ⟨fun s hs => ?_, List.pairwise_append.2 ⟨?_, ?_, fun s hs t ht => ?_⟩⟩
      · rcases List.mem_append.1 hs with hs | hs
        · exact (hsound s (Option.mem_toList.1 hs)).append_right _
        · obtain ⟨t, ht, rfl⟩ := List.mem_map.1 hs
          rw [hcut]
          exact (hrest t ht).append_left _
      · cases Statement.ofLine? (body ++ ['\n']) with
        | none => exact .nil
        | some s => exact List.pairwise_singleton ..
      · rw [hcut, List.pairwise_map]
        exact hpairs.imp fun hbefore => hbefore.append_left _
      · obtain ⟨u, hu, rfl⟩ := List.mem_map.1 ht
        exact Statement.before_of_sound (hsound s (Option.mem_toList.1 hs)) (hrest u hu)

/-- Every statement of a text says what it says of bytes that can be cut out of the text: some bytes
of one line, from one character to another. The bytes of a later statement are on a later line. -/
theorem scan_sound (source : String) (hsize : Utf8.size source.toList < UInt32.size) :
    (∀ s ∈ scan source, s.span.start < s.span.stop ∧ s.span.stop ≤ Utf8.size source.toList ∧
      s.span.stop < UInt32.size ∧ ∃ text, Utf8.slice? source.toList s.span = some text ∧
        '\n' ∉ text ∧ Statement.Means text s.path) ∧
    (scan source).Pairwise fun s t => s.span.stop ≤ t.span.start ∧ ∃ between,
      Utf8.slice? source.toList ⟨s.span.stop, t.span.start⟩ = some between ∧ '\n' ∈ between := by
  obtain ⟨hsound, hpairs⟩ := scanLines_sound source.toList
  constructor
  · intro s hs
    obtain ⟨text, hcovers, hne, hline, hmeans⟩ := hsound s hs
    have hstop := hcovers.stop_le
    exact ⟨hcovers.start_lt_stop hne, hstop, Nat.lt_of_le_of_lt hstop hsize, text,
      Span.slice?_eq_some_iff.2 hcovers, hline, hmeans⟩
  · refine hpairs.imp fun {s t} hbefore => ?_
    obtain ⟨between, hcovers, hline⟩ := hbefore
    exact ⟨hcovers.start_le_stop, between, Span.slice?_eq_some_iff.2 hcovers, hline⟩

namespace Sample

/-- A module with a quote in its path, and one without a path. -/
def twoLines : String := "module m 'it\\'s.cfg'\r\n  module n\n"

example : (scan twoLines).map (fun s => (s.path.toOption, s.span)) =
    [(some "it's.cfg", ⟨9, 20⟩), (none, ⟨24, 32⟩)] := by
  decide +kernel

theorem scan_sound_twoLines : (scan twoLines).length = 2 ∧ ∀ s ∈ scan twoLines,
    s.span.start < s.span.stop ∧ ∃ text, Utf8.slice? twoLines.toList s.span = some text ∧
      '\n' ∉ text ∧ Statement.Means text s.path :=
  ⟨by decide +kernel, fun s hs =>
    have hsound := (scan_sound twoLines (by decide +kernel)).1 s hs
    ⟨hsound.1, hsound.2.2.2⟩⟩

end Sample

end ModuleGraph
