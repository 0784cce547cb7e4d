import ModuleGraph.Proofs.StatementLines
import ModuleGraph.Source.Position

/-!
# Where an editor finds a position

An editor that is told a position looks for the place by itself: it skips the
lines, and then the UTF-16 code units of the next line (`offsetAt?`). The server
counts the other way, from a byte offset, in one pass over the characters. This
file says that the one undoes the other, whatever mixture of long and short
characters is passed on the way, and that positions are in the order of offsets.

What carries it is the position at the end of a text as a function of the text
alone, `Position.past`: its line is the number of line feeds, and its column the
number of units after the last of them. Both ways of counting are compared with
that one.
-/

namespace ModuleGraph

variable {cs as bs before after rest : List Char} {text : String} {c : Char} {p q r : Position}
  {n m : Nat}

/-! ## Positions -/

/-- The number of UTF-16 code units of a text. -/
def utf16Size : List Char → Nat
  | [] => 0
  | c :: cs => utf16Units c + utf16Size cs

theorem utf16Units_pos (c : Char) : 0 < utf16Units c := by
  rw [utf16Units]
  split <;> omega

theorem utf16Units_le (c : Char) : utf16Units c ≤ c.utf8Size := by
  have hpos := c.utf8Size_pos
  rw [utf16Units]
  split
  · next hbig =>
    have hwide : c.utf8Size ≠ 1 := fun hone => by
      have hsmall : c.toNat ≤ 127 := UInt32.le_iff_toNat_le.1 (Char.utf8Size_eq_one_iff.1 hone)
      omega
    omega
  · exact hpos

namespace Position

/-- Positions are in the order of their lines, and on one line in that of their columns. -/
instance : LT Position where
  lt p q := p.line < q.line ∨ p.line = q.line ∧ p.character < q.character

theorem lt_iff : p < q ↔ p.line < q.line ∨ p.line = q.line ∧ p.character < q.character := Iff.rfl

theorem lt_trans (h : p < q) (h' : q < r) : p < r := by
  rw [lt_iff] at *
  omega

theorem lt_asymm (h : p < q) : ¬ q < p := by
  rw [lt_iff] at *
  omega

/-- The position at the end of a text that starts at `p`. -/
def past (p : Position) (cs : List Char) : Position :=
  cs.foldl Position.after p

@[simp] theorem past_nil (p : Position) : p.past [] = p := rfl

@[simp] theorem past_cons (p : Position) (c : Char) (cs : List Char) :
    p.past (c :: cs) = (p.after c).past cs := rfl

theorem past_append (p : Position) (as bs : List Char) : p.past (as ++ bs) = (p.past as).past bs :=
  List.foldl_append

theorem past_of_not_mem (h : '\n' ∉ cs) (p : Position) :
    p.past cs = ⟨p.line, p.character + utf16Size cs⟩ := by
  induction cs generalizing p with
  | nil => rfl
  | cons c cs ih =>
    have hc : c ≠ '\n' := fun hc => h (hc ▸ List.mem_cons_self ..)
    rw [past_cons, ih fun hmem => h (List.mem_cons_of_mem c hmem), after, if_neg hc,
      utf16Size, Nat.add_assoc]

theorem line_past (p : Position) (cs : List Char) :
    (p.past cs).line = p.line + cs.count '\n' := by
  induction cs generalizing p with
  | nil => rfl
  | cons c cs ih =>
    rw [past_cons, ih, after, List.count_cons]
    split
    · next hc => simp [hc, Nat.add_assoc, Nat.add_comm 1]
    · next hc => simp [hc]

theorem past_of_endsLine (h : EndsLine cs) : (⟨0, 0⟩ : Position).past cs = ⟨cs.count '\n', 0⟩ := by
  rcases h with rfl | h
  · rfl
  · obtain ⟨body, rfl⟩ := List.getLast?_eq_some_iff.1 h
    have hline := line_past ⟨0, 0⟩ (body ++ ['\n'])
    rw [past_append] at hline ⊢
    rw [Nat.zero_add] at hline
    rw [← hline]
    rfl

/-- A character moves a position on. -/
theorem lt_after (p : Position) (c : Char) : p < p.after c := by
  have hunits := utf16Units_pos c
  rw [lt_iff, after]
  split
  · exact .inl (Nat.lt_succ_self _)
  · exact .inr ⟨rfl, Nat.lt_add_of_pos_right hunits⟩

theorem lt_past (p : Position) (hne : cs ≠ []) : p < p.past cs := by
  induction cs generalizing p with
  | nil => exact absurd rfl hne
  | cons c cs ih =>
    cases cs with
    | nil => exact lt_after p c
    | cons d ds => exact lt_trans (lt_after p c) (ih (p.after c) (List.cons_ne_nil d ds))

end Position

/-! ## Counting from an offset -/

/-- The offset is between two characters of the text, or at one of its ends. -/
def Boundary (cs : List Char) (n : Nat) : Prop :=
  ∃ before after, cs = before ++ after ∧ n = Utf8.size before

theorem positionFrom_zero (p : Position) (cs : List Char) : positionFrom p cs 0 = p := by
  cases cs <;> rfl

theorem positionFrom_append (p : Position) (as bs : List Char) (n : Nat) :
    positionFrom p (as ++ bs) (Utf8.size as + n) = positionFrom (p.past as) bs n := by
  induction as generalizing p with
  | nil => rw [List.nil_append, Utf8.size_nil, Nat.zero_add, Position.past_nil]
  | cons a as ih =>
    have ha := a.utf8Size_pos
    rw [List.cons_append, positionFrom, if_neg (by rw [Utf8.size_cons]; omega), Utf8.size_cons,
      Nat.add_assoc, Nat.add_sub_cancel_left, ih, Position.past_cons]

theorem positionFrom_inside (p : Position) (cs : List Char) (hpos : 0 < n) (hle : n ≤ c.utf8Size) :
    positionFrom p (c :: cs) n = p.after c := by
  rw [positionFrom, if_neg (Nat.ne_of_gt hpos), Nat.sub_eq_zero_of_le hle, positionFrom_zero]

/-- No count is larger than the number of bytes. -/
theorem positionFrom_le (p : Position) (cs : List Char) (n : Nat) :
    (positionFrom p cs n).line + (positionFrom p cs n).character ≤
      p.line + p.character + Utf8.size cs := by
  induction cs generalizing p n with
  | nil => exact Nat.le_refl _
  | cons c cs ih =>
    have hunits := utf16Units_le c
    have hpos := c.utf8Size_pos
    rw [positionFrom, Utf8.size_cons]
    split
    · omega
    · have hrest := ih (p.after c) (n - c.utf8Size)
      have hafter : (p.after c).line + (p.after c).character ≤
          p.line + p.character + c.utf8Size := by
        rw [Position.after]
        split
        · dsimp only
          omega
        · dsimp only
          omega
      omega

theorem positionAt_of_append (h : text.toList = before ++ after) :
    positionAt text (Utf8.size before) = (⟨0, 0⟩ : Position).past before := by
  have hcount := positionFrom_append ⟨0, 0⟩ before after 0
  rwa [← h, positionFrom_zero] at hcount

theorem positionAt_of_inside (h : text.toList = before ++ c :: after) (hlt : Utf8.size before < n)
    (hle : n ≤ Utf8.size before + c.utf8Size) :
    positionAt text n = positionAt text (Utf8.size before + c.utf8Size) := by
  obtain ⟨k, rfl⟩ := Nat.exists_eq_add_of_lt hlt
  -- both counts stop after the character, which neither offset is past
  rw [positionAt, positionAt, h, Nat.add_assoc, positionFrom_append, positionFrom_append,
    positionFrom_inside _ _ k.succ_pos (by omega),
    positionFrom_inside _ _ c.utf8Size_pos (Nat.le_refl _)]

theorem positionAt_of_le (h : Utf8.size text.toList ≤ n) :
    positionAt text n = positionAt text (Utf8.size text.toList) := by
  obtain ⟨k, rfl⟩ := Nat.exists_eq_add_of_le h
  have hcount (m : Nat) := positionFrom_append ⟨0, 0⟩ text.toList [] m
  rw [List.append_nil] at hcount
  exact (hcount k).trans (hcount 0).symm

theorem positionAt_lt (hn : Boundary text.toList n) (hm : Boundary text.toList m) (h : n < m) :
    positionAt text n < positionAt text m := by
  obtain ⟨before, after, htext, rfl⟩ := hn
  obtain ⟨before', after', htext', rfl⟩ := hm
  rw [positionAt_of_append htext, positionAt_of_append htext']
  rcases List.append_eq_append_iff.1 (htext.symm.trans htext') with
    ⟨more, rfl, -⟩ | ⟨more, rfl, -⟩
  · rw [Position.past_append]
    refine Position.lt_past _ ?_
    rintro rfl
    rw [List.append_nil] at h
    exact Nat.lt_irrefl _ h
  · rw [Utf8.size_append] at h
    omega

/-! ## Counting from a position -/

/-- What is left of a text after a number of lines. -/
def afterLines? : Nat → List Char → Option (List Char)
  | 0, cs => some cs
  | _ + 1, [] => none
  | n + 1, c :: cs => afterLines? (if c = '\n' then n else n + 1) cs

/-- What is left of a text after a number of UTF-16 code units of its first line. -/
def afterUnits? : Nat → List Char → Option (List Char)
  | 0, cs => some cs
  | _ + 1, [] => none
  | n + 1, c :: cs =>
    if c = '\n' ∨ n + 1 < utf16Units c then none else afterUnits? (n + 1 - utf16Units c) cs

/-- The byte offset of a position, as an editor looks for it: after so many lines, and so many
UTF-16 code units of the next one. -/
def offsetAt? (text : String) (p : Position) : Option Nat :=
  ((afterLines? p.line text.toList).bind (afterUnits? p.character)).map fun rest =>
    Utf8.size text.toList - Utf8.size rest

theorem endsLine_cons_iff : EndsLine (c :: cs) ↔ EndsLine cs ∧ (cs = [] → c = '\n') := by
  cases cs with
  | nil => simp [EndsLine]
  | cons d ds => simp [EndsLine, List.getLast?_cons_cons]

theorem EndsLine.eq_nil (h : EndsLine cs) (hcount : cs.count '\n' = 0) : cs = [] :=
  h.resolve_right fun hlast =>
    List.count_eq_zero.1 hcount (List.mem_of_getLast? hlast)

theorem afterLines?_eq_some_iff : afterLines? n cs = some rest ↔
    ∃ lines, cs = lines ++ rest ∧ EndsLine lines ∧ lines.count '\n' = n := by
  fun_induction afterLines? n cs with
  | case1 cs =>
    constructor
    · rintro ⟨⟩
      exact ⟨[], rfl, .nil, rfl⟩
    · rintro ⟨lines, rfl, hends, hcount⟩
      rw [hends.eq_nil hcount]
      rfl
  | case2 n =>
    refine iff_of_false nofun ?_
    rintro ⟨lines, hnil, -, hcount⟩
    rw [(List.append_eq_nil_iff.1 hnil.symm).1] at hcount
    cases hcount
  | case3 n c cs ih =>
    rw [ih]
    constructor
    · rintro ⟨lines, rfl, hends, hcount⟩
      refine ⟨c :: lines, rfl, endsLine_cons_iff.2 ⟨hends, ?_⟩, ?_⟩
      · rintro rfl
        by_contra hc
        rw [if_neg hc] at hcount
        cases hcount
      · rw [List.count_cons, hcount]
        by_cases hc : c = '\n' <;> simp [hc]
    · rintro ⟨lines, hlines, hends, hcount⟩
      cases lines with
      | nil => cases hcount
      | cons d lines =>
        obtain ⟨rfl, rfl⟩ := List.cons.inj hlines
        refine ⟨lines, rfl, (endsLine_cons_iff.1 hends).1, ?_⟩
        rw [List.count_cons] at hcount
        by_cases hc : c = '\n' <;> simp_all

theorem afterUnits?_eq_some_iff : afterUnits? n cs = some rest ↔
    ∃ front, cs = front ++ rest ∧ '\n' ∉ front ∧ utf16Size front = n := by
  fun_induction afterUnits? n cs with
  | case1 cs =>
    constructor
    · rintro ⟨⟩
      exact ⟨[], rfl, List.not_mem_nil, rfl⟩
    · rintro ⟨front, rfl, -, hsize⟩
      cases front with
      | nil => rfl
      | cons c front =>
        have := utf16Units_pos c
        rw [utf16Size] at hsize
        omega
  | case2 n =>
    refine iff_of_false nofun ?_
    rintro ⟨front, hnil, -, hsize⟩
    rw [(List.append_eq_nil_iff.1 hnil.symm).1] at hsize
    cases hsize
  | case3 n c cs hstop =>
    refine iff_of_false nofun ?_
    rintro ⟨front, hfront, hline, hsize⟩
    cases front with
    | nil => cases hsize
    | cons d front =>
      obtain ⟨rfl, -⟩ := List.cons.inj hfront
      rw [utf16Size] at hsize
      rcases hstop with rfl | hstop
      · exact hline (List.mem_cons_self ..)
      · omega
  | case4 n c cs hgo ih =>
    obtain ⟨hc, hle⟩ := not_or.1 hgo
    rw [ih]
    constructor
    · rintro ⟨front, rfl, hline, hsize⟩
      refine ⟨c :: front, rfl, ?_, ?_⟩
      · rintro (_ | ⟨_, hmem⟩)
        · exact hc rfl
        · exact hline hmem
      · rw [utf16Size, hsize]
        omega
    · rintro ⟨front, hfront, hline, hsize⟩
      cases front with
      | nil => cases hsize
      | cons d front =>
        obtain ⟨rfl, rfl⟩ := List.cons.inj hfront
        rw [utf16Size] at hsize
        exact ⟨front, rfl, fun hmem => hline (List.mem_cons_of_mem c hmem), by omega⟩

/-- Every text is some lines and the part of a line. -/
theorem exists_lines (cs : List Char) :
    ∃ lines front, cs = lines ++ front ∧ EndsLine lines ∧ '\n' ∉ front := by
  induction cs using List.reverseRecOn with
  | nil => exact ⟨[], [], rfl, .nil, List.not_mem_nil⟩
  | append_singleton cs c ih =>
    by_cases hc : c = '\n'
    · exact ⟨cs ++ [c], [], (List.append_nil _).symm, hc ▸ endsLine_append_lineFeed cs,
        List.not_mem_nil⟩
    · obtain ⟨lines, front, rfl, hends, hline⟩ := ih
      refine ⟨lines, front ++ [c], List.append_assoc .., hends, fun hmem => ?_⟩
      rcases List.mem_append.1 hmem with hmem | hmem
      · exact hline hmem
      · exact hc (List.mem_singleton.1 hmem).symm

theorem past_lines (hends : EndsLine as) (hline : '\n' ∉ bs) :
    (⟨0, 0⟩ : Position).past (as ++ bs) = ⟨as.count '\n', utf16Size bs⟩ := by
  rw [Position.past_append, Position.past_of_endsLine hends, Position.past_of_not_mem hline,
    Nat.zero_add]

/-- The places that an editor finds are the boundaries, each by its position. -/
theorem offsetAt?_eq_some_iff : offsetAt? text p = some n ↔
    Boundary text.toList n ∧ positionAt text n = p := by
  constructor
  · intro h
    obtain ⟨rest, hrest, rfl⟩ := Option.map_eq_some_iff.1 h
    obtain ⟨middle, hlines, hunits⟩ := Option.bind_eq_some_iff.1 hrest
    obtain ⟨lines, htext, hends, hcount⟩ := afterLines?_eq_some_iff.1 hlines
    obtain ⟨front, rfl, hline, hsize⟩ := afterUnits?_eq_some_iff.1 hunits
    rw [← List.append_assoc] at htext
    have hoffset : Utf8.size text.toList - Utf8.size rest = Utf8.size (lines ++ front) := by
      rw [htext, Utf8.size_append (lines ++ front), Nat.add_sub_cancel]
    rw [hoffset, positionAt_of_append htext, past_lines hends hline, hcount, hsize]
    exact ⟨⟨lines ++ front, rest, htext, rfl⟩, rfl⟩
  · rintro ⟨⟨before, rest, htext, rfl⟩, rfl⟩
    rw [positionAt_of_append htext]
    -- what is before the offset is cut after its last line feed
    obtain ⟨lines, front, rfl, hends, hline⟩ := exists_lines before
    have hlines : afterLines? (lines.count '\n') text.toList = some (front ++ rest) :=
      afterLines?_eq_some_iff.2 ⟨lines, by rw [htext, List.append_assoc], hends, rfl⟩
    have hunits : afterUnits? (utf16Size front) (front ++ rest) = some rest :=
      afterUnits?_eq_some_iff.2 ⟨front, rfl, hline, rfl⟩
    rw [past_lines hends hline, offsetAt?, hlines, Option.bind_some, hunits, Option.map_some, htext,
      Utf8.size_append (lines ++ front), Nat.add_sub_cancel]

/-! ## What an editor can rely on -/

/-- The part of a text that an editor marks for a range. -/
def Range.marked? (r : Range) (text : String) : Option (List Char) := do
  let start ← offsetAt? text r.start
  let stop ← offsetAt? text r.stop
  Utf8.slice? text.toList ⟨start, stop⟩

/-- Positions and offsets of a text say the same. -/
structure Locates (text : String) : Prop where
  /-- The editor finds the boundaries between characters, each by the position that it has. -/
  found : ∀ p n, offsetAt? text p = some n ↔ Boundary text.toList n ∧ positionAt text n = p
  ordered : ∀ n m, Boundary text.toList n → Boundary text.toList m →
    (positionAt text n < positionAt text m ↔ n < m)
  inside : ∀ before c after n, text.toList = before ++ c :: after → Utf8.size before < n →
    n < Utf8.size before + c.utf8Size →
      positionAt text n = positionAt text (Utf8.size before + c.utf8Size)
  beyond : ∀ n, Utf8.size text.toList < n →
    positionAt text n = positionAt text (Utf8.size text.toList)
  small : ∀ n, (positionAt text n).line < UInt32.size ∧ (positionAt text n).character < UInt32.size
  /-- The range of a statement is on one line, and what is marked is what the statement's span
  covers. -/
  marks : ∀ s ∈ scan text, (rangeOf text s.span).start.line = (rangeOf text s.span).stop.line ∧
    ∃ piece, Utf8.slice? text.toList s.span = some piece ∧
      (rangeOf text s.span).marked? text = some piece

theorem positionAt_lt_iff (hn : Boundary text.toList n) (hm : Boundary text.toList m) :
    positionAt text n < positionAt text m ↔ n < m := by
  refine ⟨fun h => ?_, positionAt_lt hn hm⟩
  rcases Nat.lt_trichotomy n m with hlt | rfl | hgt
  · exact hlt
  · exact absurd h (Position.lt_asymm h)
  · exact absurd (positionAt_lt hm hn hgt) (Position.lt_asymm h)

theorem marked?_of_covers {s : Span} {piece : List Char} (h : s.Covers text.toList piece)
    (hline : '\n' ∉ piece) :
    (rangeOf text s).start.line = (rangeOf text s).stop.line ∧
      (rangeOf text s).marked? text = some piece := by
  have hslice := Span.slice?_eq_some_iff.2 h
  obtain ⟨before, after, htext, rfl⟩ := h
  have htext' : text.toList = before ++ (piece ++ after) := by rw [htext, List.append_assoc]
  constructor
  · have hstop := positionAt_of_append htext
    rw [Utf8.size_append, Position.past_append, ← positionAt_of_append htext',
      Position.past_of_not_mem hline] at hstop
    rw [rangeOf, hstop]
  · have hstart := offsetAt?_eq_some_iff.2 ⟨⟨before, piece ++ after, htext', rfl⟩, rfl⟩
    have hstop := offsetAt?_eq_some_iff.2
      ⟨⟨before ++ piece, after, htext, (Utf8.size_append ..).symm⟩, rfl⟩
    simp only [Range.marked?, rangeOf, hstart, hstop, Option.bind_eq_bind, Option.bind_some,
      hslice]

/-- An editor that is told the position of an offset finds the offset, and marks of a statement what
the scanner meant. -/
theorem locates_of_size_lt (text : String) (hsize : Utf8.size text.toList < UInt32.size) :
    Locates text where
  found _ _ := offsetAt?_eq_some_iff
  ordered _ _ := positionAt_lt_iff
  inside _ _ _ _ htext hlt hle := positionAt_of_inside htext hlt (Nat.le_of_lt hle)
  beyond _ hlt := positionAt_of_le (Nat.le_of_lt hlt)
  small n := by
    have hle := positionFrom_le ⟨0, 0⟩ text.toList n
    rw [← positionAt] at hle
    dsimp only at hle
    omega
  marks s hs := by
    obtain ⟨piece, hcovers, -, hline, -⟩ := (scanLines_sound text.toList).1 s hs
    obtain ⟨hsame, hmarked⟩ := marked?_of_covers hcovers hline
    exact ⟨hsame, piece, Span.slice?_eq_some_iff.2 hcovers, hmarked⟩

namespace Sample

/-- Characters of one to four bytes, some of them in a statement. -/
def wideText : String := "é€\r\nmodule 𝔸 'é'"

theorem locates_wideText : Utf8.size wideText.toList < UInt32.size ∧ Locates wideText ∧
    (scan wideText).map (·.span) = [⟨19, 23⟩] ∧
    rangeOf wideText ⟨19, 23⟩ = ⟨⟨1, 10⟩, ⟨1, 13⟩⟩ := by
  have hsize : Utf8.size wideText.toList < UInt32.size := by decide +kernel
  exact ⟨hsize, locates_of_size_lt wideText hsize, by decide +kernel, by decide +kernel⟩

end Sample

end ModuleGraph
