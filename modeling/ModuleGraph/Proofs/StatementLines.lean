import ModuleGraph.Proofs.Spans

/-!
# Lines of statements

A text is scanned a line at a time, and the lines have nothing to do with each
other. What stands on a line is read from that line alone, and the lines before it
only move it on by their bytes. So texts can be put together at the end of a line
(`scan_append`), however badly formed the lines on both sides are.

On one line, what is written is what is read: a literal in which every backslash
and every quote has a backslash before it means the text that it was made from,
and the scanner finds where it ends whatever comes after it (`scan_written`).
-/

namespace ModuleGraph

variable {as bs cs before line after body : List Char} {s t : Statement}

/-! ## Texts at the end of a line -/

/-- The text ends where a line ends, so that what is put after it starts one. -/
def EndsLine (cs : List Char) : Prop :=
  cs = [] ∨ cs.getLast? = some '\n'

/-- One line of the text that is put together of the three, with the line feed that ends it unless
it is the last. -/
structure IsLine (before line after : List Char) : Prop where
  starts : EndsLine before
  single : ∃ body, '\n' ∉ body ∧ (line = body ++ ['\n'] ∨ line = body ∧ body ≠ [] ∧ after = [])

theorem EndsLine.nil : EndsLine [] := .inl rfl

theorem endsLine_append_lineFeed (cs : List Char) : EndsLine (cs ++ ['\n']) :=
  .inr List.getLast?_concat

theorem EndsLine.append (ha : EndsLine as) (hb : EndsLine bs) : EndsLine (as ++ bs) := by
  rcases hb with rfl | hb
  · rwa [List.append_nil]
  · refine .inr ?_
    rw [List.getLast?_append, hb]
    rfl

theorem linesOf_of_not_mem (hne : cs ≠ []) (h : '\n' ∉ cs) : linesOf cs = [cs] := by
  obtain ⟨rfl, -⟩ | ⟨-, -, hlines⟩ | ⟨body, rest, -, rfl, -⟩ := linesOf_cases cs
  · exact absurd rfl hne
  · exact hlines
  · exact absurd (List.mem_append_right body (List.mem_cons_self ..)) h

theorem linesOf_line_append (h : '\n' ∉ body) (rest : List Char) :
    linesOf (body ++ '\n' :: rest) = (body ++ ['\n']) :: linesOf rest := by
  induction body with
  | nil => rfl
  | cons c body ih =>
    have hc : c ≠ '\n' := fun hc => h (hc ▸ List.mem_cons_self ..)
    have hbody : '\n' ∉ body := fun hmem => h (List.mem_cons_of_mem c hmem)
    rw [List.cons_append, linesOf_cons, ih hbody, consLine.eq_def, if_neg hc]
    rfl

/-! ## Statements line by line -/

namespace Statement

@[simp] theorem shift_shift (s : Statement) (n m : Nat) :
    (s.shift n).shift m = s.shift (n + m) := by
  simp only [shift, Span.shift, Nat.add_assoc]

end Statement

theorem scanLines_append (n : Nat) (ls ms : List (List Char)) :
    scanLines n (ls ++ ms) = scanLines n ls ++ scanLines (n + Utf8.size ls.flatten) ms := by
  induction ls generalizing n with
  | nil => rfl
  | cons l ls ih =>
    rw [List.cons_append, scanLines, scanLines, ih, List.flatten_cons, Utf8.size_append,
      List.append_assoc, Nat.add_assoc]

/-- The statements of two texts put together, unless a line is put together with them. -/
theorem scanLines_linesOf_append (h : EndsLine as) (bs : List Char) :
    scanLines 0 (linesOf (as ++ bs)) =
      scanLines 0 (linesOf as) ++ (scanLines 0 (linesOf bs)).map (·.shift (Utf8.size as)) := by
  rw [linesOf_append h, scanLines_append, flatten_linesOf, Nat.add_comm, scanLines_add]

theorem scanLines_of_isLine (h : IsLine before line after) :
    scanLines 0 (linesOf (line ++ after)) = (Statement.ofLine? line).toList ++
      (scanLines 0 (linesOf after)).map (·.shift (Utf8.size line)) := by
  obtain ⟨body, hbody, rfl | ⟨rfl, hne, rfl⟩⟩ := h.single
  · rw [← List.append_cons, linesOf_line_append hbody, scanLines_cons]
  · rw [List.append_nil, linesOf_of_not_mem hne hbody, scanLines_cons]
    rfl

/-- A statement is what some line says by itself, moved on by the bytes before the line. Induction
on the text, a line at a time. -/
theorem exists_isLine_of_mem (h : s ∈ scanLines 0 (linesOf cs)) :
    ∃ before line after, cs = before ++ line ++ after ∧ IsLine before line after ∧
      ∃ t, Statement.ofLine? line = some t ∧ s = t.shift (Utf8.size before) := by
  induction hlength : cs.length using Nat.strongRecOn generalizing cs s with
  | ind n ih =>
    obtain ⟨rfl, hlines⟩ | ⟨hne, hnot, hlines⟩ | ⟨body, rest, hnot, rfl, hlines⟩ := linesOf_cases cs
    · rw [hlines] at h
      cases h
    · rw [hlines, scanLines_cons] at h
      have hs : Statement.ofLine? cs = some s := by simpa [scanLines] using h
      exact ⟨[], cs, [], (List.append_nil cs).symm, ⟨.nil, cs, hnot, .inr ⟨rfl, hne, rfl⟩⟩, s, hs,
        rfl⟩
    · rw [hlines, scanLines_cons] at h
      rcases List.mem_append.1 h with h | h
      · exact ⟨[], body ++ ['\n'], rest, List.append_cons .., ⟨.nil, body, hnot, .inl rfl⟩, s,
          Option.mem_toList.1 h, rfl⟩
      · obtain ⟨u, hu, rfl⟩ := List.mem_map.1 h
        obtain ⟨before, line, after, rfl, hline, t, ht, rfl⟩ := ih rest.length
          (by rw [← hlength, List.length_append, List.length_cons]; omega) hu rfl
        refine ⟨body ++ ['\n'] ++ before, line, after, by simp,
          ⟨(endsLine_append_lineFeed body).append hline.starts, hline.single⟩, t, ht, ?_⟩
        rw [Statement.shift_shift, Utf8.size_append (body ++ ['\n']), Nat.add_comm]

theorem mem_scanLines_of_isLine (h : IsLine before line after)
    (ht : Statement.ofLine? line = some t) :
    t.shift (Utf8.size before) ∈ scanLines 0 (linesOf (before ++ line ++ after)) := by
  rw [List.append_assoc, scanLines_linesOf_append h.starts, scanLines_of_isLine h, ht]
  refine List.mem_append_right _ (List.mem_map_of_mem ?_)
  exact List.mem_append_left _ (List.mem_singleton_self t)

/-- Two texts of which the first ends a line have the statements of both, those of the second moved
on by the bytes of the first. For every statement of a text is what one line of it says, and what
stands before the line has no part in it but its size. -/
theorem scan_append {a b : String} (ha : EndsLine a.toList)
    (hsize : Utf8.size (a ++ b).toList < UInt32.size) :
    scan (a ++ b) = scan a ++ (scan b).map (·.shift (Utf8.size a.toList)) ∧
      (∀ s ∈ scan (a ++ b), s.span.stop < UInt32.size) ∧
      ∀ s, s ∈ scan (a ++ b) ↔ ∃ before line after,
        (a ++ b).toList = before ++ line ++ after ∧ IsLine before line after ∧
          ∃ t, Statement.ofLine? line = some t ∧
            s = ⟨t.symbol, t.path, t.span.shift (Utf8.size before)⟩ := by
  refine ⟨?_, fun s hs => ?_, fun s => ⟨exists_isLine_of_mem, ?_⟩⟩
  · rw [scan, String.toList_append]
    exact scanLines_linesOf_append ha b.toList
  · obtain ⟨text, hcovers, -⟩ := (scanLines_sound (a ++ b).toList).1 s hs
    exact Nat.lt_of_le_of_lt hcovers.stop_le hsize
  · rintro ⟨before, line, after, htext, hline, t, ht, rfl⟩
    rw [scan, htext]
    exact mem_scanLines_of_isLine hline ht

/-! ## How many statements there are -/

theorem length_linesOf_le (cs : List Char) : (linesOf cs).length ≤ cs.length := by
  induction cs with
  | nil => exact Nat.le_refl 0
  | cons c cs ih =>
    rw [linesOf_cons, consLine.eq_def]
    split
    · exact Nat.succ_le_succ ih
    · split
      · exact Nat.succ_le_succ (Nat.zero_le _)
      · next hlines =>
        rw [hlines] at ih
        exact Nat.le_succ_of_le ih

theorem length_scanLines_le (n : Nat) (lines : List (List Char)) :
    (scanLines n lines).length ≤ lines.length := by
  induction lines generalizing n with
  | nil => exact Nat.le_refl 0
  | cons line lines ih =>
    have hrest := ih (n + Utf8.size line)
    rw [scanLines, List.length_append, List.length_cons]
    cases Statement.ofLine? line with
    | none => simp; omega
    | some s => simp; omega

/-- A text has no more statements than bytes. -/
theorem length_scan_le (text : String) : (scan text).length ≤ Utf8.size text.toList :=
  calc (scan text).length
    _ ≤ (linesOf text.toList).length := length_scanLines_le 0 _
    _ ≤ text.toList.length := length_linesOf_le _
    _ ≤ Utf8.size text.toList := Utf8.length_le_size _

/-! ## Written literals -/

namespace Literal

/-- A backslash is put before every backslash and every quote. -/
theorem escape_eq_flatMap (cs : List Char) :
    escape cs = cs.flatMap fun c => if c = backslash ∨ c = quote then [backslash, c] else [c] := by
  induction cs with
  | nil => rfl
  | cons c cs ih =>
    rw [escape, ih, List.flatMap_cons]
    split <;> rfl

theorem spells_escape (cs : List Char) : Spells (escape cs) cs := by
  induction cs with
  | nil => exact .nil
  | cons c cs ih =>
    rw [escape]
    split
    · exact .taken ih
    · next h =>
      obtain ⟨hb, hq⟩ := not_or.1 h
      exact .plain hb hq ih

theorem mem_of_mem_escape {c : Char} (h : c ∈ escape cs) : c = backslash ∨ c ∈ cs := by
  rw [escape_eq_flatMap] at h
  obtain ⟨d, hd, hc⟩ := List.mem_flatMap.1 h
  split at hc
  · rcases List.mem_cons.1 hc with rfl | hc
    · exact .inl rfl
    · exact .inr (List.mem_singleton.1 hc ▸ hd)
  · exact .inr (List.mem_singleton.1 hc ▸ hd)

theorem isInterpolated_cons (c : Char) (cs : List Char) :
    isInterpolated (c :: cs) = (c == '$' && cs.head? == some '{' || isInterpolated cs) := by
  cases cs with
  | nil => simp [isInterpolated]
  | cons d ds => rfl

/-- No interpolation is opened or taken apart. -/
theorem isInterpolated_escape (cs : List Char) :
    isInterpolated (escape cs) = isInterpolated cs := by
  have hhead (ds : List Char) : ((escape ds).head? == some '{') = (ds.head? == some '{') := by
    cases ds with
    | nil => rfl
    | cons d ds =>
      rw [escape]
      split
      · next h => rcases h with rfl | rfl <;> rfl
      · rfl
  induction cs with
  | nil => rfl
  | cons c cs ih =>
    rw [escape, isInterpolated_cons c]
    split
    · next h =>
      have hc : (c == '$') = false := by rcases h with rfl | rfl <;> rfl
      have hbackslash : (backslash == '$') = false := rfl
      rw [isInterpolated_cons, isInterpolated_cons, ih, hbackslash, hc]
      rfl
    · rw [isInterpolated_cons, ih, hhead]

end Literal

/-! ## Written statements -/

namespace Text

theorem isSymbolChar_of_isBlank {c : Char} (h : isBlank c = true) : isSymbolChar c = false := by
  have hall : ∀ n ∈ [0x9, 0xA, 0xB, 0xC, 0xD, 0x20, 0x85, 0xA0, 0x1680, 0x2000, 0x2001, 0x2002,
      0x2003, 0x2004, 0x2005, 0x2006, 0x2007, 0x2008, 0x2009, 0x200A, 0x2028, 0x2029, 0x202F,
      0x205F, 0x3000], isSymbolChar (Char.ofNat n) = false := by
    decide +kernel
  rw [← Char.ofNat_toNat c]
  refine hall c.toNat ?_
  simp only [isBlank, Bool.or_eq_true, Bool.and_eq_true, decide_eq_true_eq, beq_iff_eq] at h
  simp only [List.mem_cons, List.not_mem_nil, or_false]
  omega

theorem isBlank_of_isSymbolChar {c : Char} (h : isSymbolChar c = true) : isBlank c = false := by
  rw [Bool.eq_false_iff]
  intro hblank
  rw [isSymbolChar_of_isBlank hblank] at h
  exact Bool.false_ne_true h

end Text

namespace Statement

variable {symbol inner meant token : List Char}

/-- What a statement has before its path: the keyword and a symbol, with blanks between them and
perhaps before and after them. -/
structure Introduces (symbol before : List Char) : Prop where
  named : symbol ≠ []
  chars : ∀ c ∈ symbol, Text.isSymbolChar c = true
  layout : ∃ lead blanks gap, before = lead ++ (keyword ++ (blanks ++ (symbol ++ gap))) ∧
    blanks ≠ [] ∧ ∀ c, c ∈ lead ∨ c ∈ blanks ∨ c ∈ gap → Text.isBlank c = true

/-- A statement is read as its symbol and as what is read from there on for its path. -/
theorem ofLine?_of_introduces (h : Introduces symbol before)
    (hline : Text.dropEndWhile isLineEnd line = before ++ token)
    (htoken : ∀ c ∈ token.head?, Text.isBlank c = false ∧ Text.isSymbolChar c = false)
    (hsize : (readPath token).2 ≠ 0) :
    ofLine? line = some ⟨String.ofList symbol, (readPath token).1,
      ⟨Utf8.size before, Utf8.size before + (readPath token).2⟩⟩ := by
  obtain ⟨lead, blanks, gap, hbefore, hapart, hblank⟩ := h.layout
  obtain ⟨b, bs, rfl⟩ := List.exists_cons_of_ne_nil hapart
  obtain ⟨c, cs, rfl⟩ := List.exists_cons_of_ne_nil h.named
  -- what is left of the line after each of its parts, the last part first
  have hgap : Text.trimStart (gap ++ token) = token :=
    Text.trimStart_append (fun d hd => hblank d (.inr (.inr hd))) fun d hd => (htoken d hd).1
  have hafter : ∀ d ∈ (gap ++ token).head?, Text.isSymbolChar d = false := by
    intro d hd
    cases gap with
    | nil => exact (htoken d hd).2
    | cons g gap =>
      obtain rfl := Option.some.inj hd
      exact Text.isSymbolChar_of_isBlank (hblank g (.inr (.inr (List.mem_cons_self ..))))
  obtain ⟨hsymbol, hrest⟩ := Text.takeWhile_dropWhile_append h.chars hafter
  have hblanks : Text.trimStart (b :: bs ++ (c :: cs ++ (gap ++ token))) =
      c :: cs ++ (gap ++ token) := by
    refine Text.trimStart_append (fun d hd => hblank d (.inr (.inl hd))) ?_
    rintro d ⟨⟩
    exact Text.isBlank_of_isSymbolChar (h.chars c (List.mem_cons_self ..))
  have hlead : Text.trimStart (lead ++ (keyword ++ (b :: bs ++ (c :: cs ++ (gap ++ token))))) =
      keyword ++ (b :: bs ++ (c :: cs ++ (gap ++ token))) := by
    refine Text.trimStart_append (fun d hd => hblank d (.inl hd)) ?_
    rintro d ⟨⟩
    decide
  have hcontent : before ++ token =
      lead ++ (keyword ++ (b :: bs ++ (c :: cs ++ (gap ++ token)))) := by
    simp only [hbefore, List.append_assoc]
  have hfirst : (b :: bs ++ (c :: cs ++ (gap ++ token))).head?.any Text.isBlank = true :=
    hblank b (.inr (.inl (List.mem_cons_self ..)))
  rw [← hcontent] at hlead
  rw [ofLine?, hline]
  dsimp only
  rw [hlead, if_pos (List.isPrefixOf_iff_prefix.2 (List.prefix_append ..)), List.drop_left, hblanks,
    hsymbol, hrest, hgap, hfirst, Utf8.size_append, Nat.add_sub_cancel, if_neg hsize]
  rfl

theorem readPath_closed (h : Literal.Spells inner meant) (hplain : ¬ ['$', '{'] <:+: inner)
    (rest : List Char) : readPath (Literal.closed inner ++ rest) =
      (.ok (String.ofList meant), Utf8.size (Literal.closed inner)) := by
  have hquote : Literal.quote.utf8Size = 1 := rfl
  rw [← Literal.isInterpolated_iff] at hplain
  simp only [Literal.closed, List.cons_append, List.append_assoc, List.nil_append, readPath,
    if_true, h.inner?_eq, h.unescape_eq, if_neg hplain, Utf8.size_cons, Utf8.size_append,
    Utf8.size_nil, hquote, Prod.mk.injEq, true_and]
  omega

/-- A statement with a literal for its path is read as one, whatever follows on the line. -/
theorem ofLine?_closed (h : Introduces symbol before) (hspells : Literal.Spells inner meant)
    (hplain : ¬ ['$', '{'] <:+: inner) (rest : List Char) :
    ofLine? (before ++ Literal.closed inner ++ rest) =
      some ⟨String.ofList symbol, .ok (String.ofList meant),
        ⟨Utf8.size before, Utf8.size before + Utf8.size (Literal.closed inner)⟩⟩ := by
  -- the closing quote ends no line, and so nothing before it is dropped
  have hline : Text.dropEndWhile isLineEnd (before ++ Literal.closed inner ++ rest) =
      before ++ (Literal.closed inner ++ Text.dropEndWhile isLineEnd rest) := by
    have hend : Text.dropEndWhile isLineEnd
        ((before ++ Literal.quote :: inner) ++ Literal.quote :: rest) =
          (before ++ Literal.quote :: inner) ++ Literal.quote :: Text.dropEndWhile isLineEnd rest :=
      Text.dropEndWhile_append (by decide)
    simpa [Literal.closed] using hend
  have hread := readPath_closed hspells hplain (Text.dropEndWhile isLineEnd rest)
  have hsize : Utf8.size (Literal.closed inner) ≠ 0 :=
    Nat.ne_of_gt (Utf8.size_pos (List.cons_ne_nil _ _))
  have hline := ofLine?_of_introduces h hline (by rintro c ⟨⟩; decide) (by rwa [hread])
  rwa [hread] at hline

end Statement

/-- How the literal of a path is written. -/
def Literal.write (path : String) : String :=
  String.ofList (Literal.closed (Literal.escape path.toList))

/-- What is written on a line to declare a module is read as just that, whatever follows on the
line, and its span fits into 32 bits when the line does. Where the literal ends can be found byte by
byte as well. -/
theorem scan_written {symbol path rest : String} (hsymbol : symbol ≠ "")
    (hchars : ∀ c ∈ symbol.toList, Text.isSymbolChar c = true) (hpath : '\n' ∉ path.toList)
    (hplain : ¬ ['$', '{'] <:+: path.toList) (hrest : '\n' ∉ rest.toList) :
    scan ("module " ++ symbol ++ " " ++ Literal.write path ++ rest) =
        [⟨symbol, .ok path, ⟨Utf8.size ("module " ++ symbol ++ " ").toList,
          Utf8.size ("module " ++ symbol ++ " ").toList +
            Utf8.size (Literal.write path).toList⟩⟩] ∧
      (Utf8.size ("module " ++ symbol ++ " " ++ Literal.write path ++ rest).toList < UInt32.size →
        ∀ s ∈ scan ("module " ++ symbol ++ " " ++ Literal.write path ++ rest),
          s.span.stop < UInt32.size) ∧
      Literal.closing? (Utf8.encode
        (Literal.escape path.toList ++ Literal.quote :: rest.toList)) =
          some (Utf8.size (Literal.escape path.toList)) := by
  have hintroduces : Statement.Introduces symbol.toList ("module " ++ symbol ++ " ").toList := by
    refine ⟨fun hnil => hsymbol (String.toList_eq_nil_iff.1 hnil), hchars, [], [' '], [' '], ?_,
      nofun, fun c hc => ?_⟩
    · simp [Statement.keyword]
    · obtain rfl : c = ' ' := by simpa using hc
      decide
  have hliteral : (Literal.write path).toList = Literal.closed (Literal.escape path.toList) :=
    String.toList_ofList
  have hescaped : ¬ ['$', '{'] <:+: Literal.escape path.toList := by
    rwa [← Literal.isInterpolated_iff, Literal.isInterpolated_escape, Literal.isInterpolated_iff]
  have hread := Statement.ofLine?_closed hintroduces (Literal.spells_escape path.toList) hescaped
    rest.toList
  rw [← hliteral, ← String.toList_append, ← String.toList_append, String.ofList_toList,
    String.ofList_toList] at hread
  have hline : '\n' ∉ ("module " ++ symbol ++ " " ++ Literal.write path ++ rest).toList := by
    have hin : '\n' ∉ symbol.toList := fun hmem =>
      absurd (Text.isBlank_of_isSymbolChar (hchars _ hmem)) (by decide)
    have hinner : '\n' ∉ Literal.escape path.toList := fun hmem =>
      (Literal.mem_of_mem_escape hmem).elim (by decide) hpath
    simp [hliteral, Literal.closed, Literal.quote, hin, hinner, hrest]
  refine ⟨?_, fun hsize s hs => ((scan_sound _ hsize).1 s hs).2.2.1, ?_⟩
  · rw [scan, linesOf_of_not_mem (by simp) hline, scanLines_cons, hread]
    rfl
  · rw [Literal.closing?_encode, (Literal.spells_escape path.toList).inner?_eq]
    rfl

namespace Sample

/-- A path with everything in it that a literal has to look out for. -/
def oddPath : String := "./it's a \\ d\u00e9j\u00e0\\'.cfg\r"

/-- What looks like the end of a literal once more. -/
def oddRest : String := "\\'$\x7bx\x7d' = \x7b\r"

theorem scan_written_oddPath :
    (∀ c ∈ "m_1".toList, Text.isSymbolChar c = true) ∧ '\n' ∉ oddPath.toList ∧
      ¬ ['$', '{'] <:+: oddPath.toList ∧ '\n' ∉ oddRest.toList ∧
      scan ("module " ++ "m_1" ++ " " ++ Literal.write oddPath ++ oddRest) =
        [⟨"m_1", .ok oddPath, ⟨11, 41⟩⟩] ∧
      ∀ s ∈ scan ("module " ++ "m_1" ++ " " ++ Literal.write oddPath ++ oddRest),
        s.span.stop < UInt32.size := by
  have hchars : ∀ c ∈ "m_1".toList, Text.isSymbolChar c = true := List.all_eq_true.1 (by decide)
  have hpath : '\n' ∉ oddPath.toList := by decide
  have hplain : ¬ ['$', '{'] <:+: oddPath.toList := by decide
  have hrest : '\n' ∉ oddRest.toList := by decide
  obtain ⟨hscan, hbound, -⟩ := scan_written (by decide : "m_1" ≠ "") hchars hpath hplain hrest
  exact ⟨hchars, hpath, hplain, hrest, hscan, hbound (by decide +kernel)⟩

/-- A literal that is not closed, and nothing at the end of the line. -/
def openLiteral : String := "module x './x.cfg\\"

/-- The first text ends a line, and so the second one is read by itself. Its statement is the last
one of three. -/
theorem scan_append_openLiteral : EndsLine twoLines.toList ∧
    Utf8.size (twoLines ++ openLiteral).toList < UInt32.size ∧
    scan (twoLines ++ openLiteral) =
      scan twoLines ++ (scan openLiteral).map (·.shift (Utf8.size twoLines.toList)) ∧
    (scan (twoLines ++ openLiteral)).map (fun s => (s.symbol, s.span)) =
      [("m", ⟨9, 20⟩), ("n", ⟨24, 32⟩), ("x", ⟨42, 51⟩)] := by
  have hends : EndsLine twoLines.toList := .inr (by decide)
  have hsize : Utf8.size (twoLines ++ openLiteral).toList < UInt32.size := by decide +kernel
  exact ⟨hends, hsize, (scan_append hends hsize).1, by decide +kernel⟩

end Sample

end ModuleGraph
