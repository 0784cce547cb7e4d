import ModuleGraph.Proofs.FilePaths

/-!
# Paths beside a file

A path that is written beside a file is read piece by piece, as the path of a URL. What comes
out has the form that the URL of a file has (`Url.join_tidy`) when the path is tidy: nothing in
it is a query or a fragment, no piece between two separators is empty, and every piece is dots
or is written as encoding writes the name that it stands for. A trailing separator gives the path
of a directory.

While the path is read there is always the path of a directory, to which the next piece is added
(`Segments.add_tidy`). Names that look like drives are the exception to much, and need care
throughout: they are not taken back, and one that ends a path is read as a directory.
-/

namespace ModuleGraph

/-! ## Names of files -/

/-- A name that a file can have. -/
def IsFileName (name : List UInt8) : Prop :=
  name ≠ [] ∧ slashByte ∉ name ∧
    name ≠ [DiskPath.dotByte] ∧ name ≠ [DiskPath.dotByte, DiskPath.dotByte]

instance : DecidablePred IsFileName := fun _ => inferInstanceAs (Decidable (_ ∧ _))

/-- All names of a place are names that files can have. -/
def Disk.Ordinary (place : Place) : Prop :=
  ∀ name ∈ place, IsFileName name

theorem Disk.Ordinary.spoken {place : Place} (h : Ordinary place) : Spoken place :=
  fun name hname => ⟨(h name hname).1, (h name hname).2.1⟩

theorem Disk.Ordinary.concat {place : Place} {name : List UInt8} (h : Ordinary place)
    (hname : IsFileName name) : Ordinary (place ++ [name]) := by
  rintro other hother
  rcases List.mem_append.1 hother with hother | hother
  · exact h other hother
  · exact List.mem_singleton.1 hother ▸ hname

/-- A name as a segment. -/
abbrev nameText (name : List UInt8) : List Char :=
  Percent.encodeBytes Percent.fileName name

/-- The path of a URL whose segments are the names of a place, with a slash at the end. -/
def directoryText (place : Place) : List Char :=
  place.flatMap ('/' :: nameText ·) ++ ['/']

theorem directoryText_concat (front : Place) (name : List UInt8) :
    directoryText (front ++ [name]) = directoryText front ++ nameText name ++ ['/'] := by
  simp [directoryText]

theorem pathText_concat (front : Place) (name : List UInt8) :
    pathText (front ++ [name]) = directoryText front ++ nameText name := by
  simp [directoryText, pathText]

theorem slash_not_mem_nameText (name : List UInt8) : '/' ∉ nameText name :=
  Percent.not_mem_encodeBytes (by decide) (by decide) (by decide)

theorem decode_nameText (name : List UInt8) : Percent.decode (nameText name) = name :=
  Percent.decode_encodeBytes (by decide) name

theorem nameText_ne_nil {name : List UInt8} (h : name ≠ []) : nameText name ≠ [] := by
  intro hnil
  have hdecode := decode_nameText name
  rw [hnil] at hdecode
  exact h hdecode.symm

theorem getLast?_directoryText (place : Place) : (directoryText place).getLast? = some '/' := by
  simp [directoryText]

theorem head?_directoryText (place : Place) : (directoryText place).head? = some '/' := by
  cases place <;> rfl

theorem endsPath_of_mem_directoryText {place : Place} {c : Char} (h : c ∈ directoryText place) :
    endsPath c = false := by
  rcases List.mem_append.1 h with h | h
  · have hmem : c ∈ pathText place := by
      rw [pathText, if_neg]
      · exact h
      · intro hempty
        rw [List.isEmpty_iff.1 hempty] at h
        cases h
    exact endsPath_of_mem_pathText hmem
  · rw [List.mem_singleton.1 h]
    decide

namespace Segments

open Disk (Ordinary)

variable {path seg cs front last : List Char} {names : Place} {name : List UInt8}
  {isClosed : Bool}

/-! ## Paths of directories under the steps of reading -/

theorem cutLast_append (front : List Char) (hlast : '/' ∉ last) :
    cutLast (front ++ '/' :: last) = (front ++ ['/'], last) := by
  have hkept : ∀ c ∈ last.reverse, (c != '/') = true := by
    intro c hc
    rw [bne_iff_ne]
    rintro rfl
    exact hlast (List.mem_reverse.1 hc)
  have htake : (front ++ '/' :: last).reverse.takeWhile (· != '/') = last.reverse := by
    rw [List.reverse_append, List.reverse_cons, List.append_assoc,
      List.takeWhile_append_of_pos hkept]
    simp
  rw [cutLast, htake, List.reverse_reverse, List.append_cons,
    List.take_left' (by simp; omega)]

theorem cutLast_directoryText (names : Place) (hlast : '/' ∉ last) :
    cutLast (directoryText names ++ last) = (directoryText names, last) := by
  rw [directoryText, List.append_assoc, List.singleton_append, cutLast_append _ hlast]

theorem dropLast_directoryText : dropLast .file (directoryText names) = directoryText names := by
  have hcut : cutLast (directoryText names ++ []) = (directoryText names, []) :=
    cutLast_directoryText names List.not_mem_nil
  rw [List.append_nil] at hcut
  rw [dropLast, hcut]
  rfl

theorem closed_directoryText : closed (directoryText names) = directoryText names := by
  rw [closed, getLast?_directoryText]
  rfl

/-- What a move up leaves is the path of a directory further up, or of the same one. -/
theorem up_directoryText (names : Place) :
    ∃ names', names' <+: names ∧ up .file (directoryText names) = directoryText names' := by
  rcases List.eq_nil_or_concat names with rfl | ⟨front, name, rfl⟩
  · exact ⟨[], List.nil_prefix, by decide⟩
  · rw [List.concat_eq_append, up]
    split
    · next hcloses =>
      refine ⟨front, List.prefix_append front [name], ?_⟩
      rw [closesSegment, directoryText_concat, List.dropLast_concat,
        cutLast_directoryText _ (slash_not_mem_nameText name)] at hcloses
      simp only [Bool.and_eq_true, Bool.not_eq_true'] at hcloses
      have hdrive : isNormalDriveLetter (nameText name) = false := by
        rw [isNormalDriveLetter, hcloses.2.2]
        rfl
      rw [directoryText_concat, List.dropLast_concat, dropLast,
        cutLast_directoryText _ (slash_not_mem_nameText name)]
      simp [hdrive]
    · exact ⟨_, List.prefix_rfl, dropLast_directoryText⟩

theorem exists_of_isDriveLetter (h : isDriveLetter seg = true) :
    ∃ c sign, seg = [c, sign] ∧ c.isAlpha = true := by
  unfold isDriveLetter at h
  split at h
  · next c sign => exact ⟨c, sign, rfl, (Bool.and_eq_true_iff.1 h).1⟩
  · cases h

/-- The name of a drive is its letter and a colon, as it stands. -/
theorem nameText_drive {c : Char} (h : c.isAlpha = true) :
    c.toNat < 0x80 ∧ IsFileName [UInt8.ofNat c.toNat, 0x3A] ∧
      nameText [UInt8.ofNat c.toNat, 0x3A] = [c, ':'] := by
  have hletters : ∀ n < 0x80, (Char.ofNat n).isAlpha = true →
      IsFileName [UInt8.ofNat n, 0x3A] ∧ nameText [UInt8.ofNat n, 0x3A] = [Char.ofNat n, ':'] := by
    decide +kernel
  have hascii : c.toNat < 0x80 := by
    obtain hupper | hlower := Bool.or_eq_true_iff.1 h
    · have hle := (of_decide_eq_true hupper).2
      exact (UInt32.le_iff_toNat_le.1 hle).trans_lt (by decide)
    · have hle := of_decide_eq_true (Bool.and_eq_true_iff.1 hlower).2
      exact (UInt32.le_iff_toNat_le.1 hle).trans_lt (by decide)
  have hletter := hletters c.toNat hascii
  rw [Char.ofNat_toNat] at hletter
  exact ⟨hascii, hletter h⟩

/-! ## Tidy pieces -/

/-- The name that a piece of a written path stands for. -/
def nameOf (seg : List Char) : List UInt8 :=
  Percent.decode (Percent.encode Percent.path seg)

/-- A piece of a written path that is dots, or that is written as encoding writes its name. -/
def IsTidy (seg : List Char) : Prop :=
  isSingleDot seg = true ∨ isDoubleDot seg = true ∨
    IsFileName (nameOf seg) ∧ Percent.encode Percent.path seg = nameText (nameOf seg)

instance : DecidablePred IsTidy := fun _ => inferInstanceAs (Decidable (_ ∨ _))

/-- A path that the URL of a file or of a directory has. -/
def IsPlain (path : List Char) : Prop :=
  ∃ place, Ordinary place ∧
    (path = directoryText place ∨ place ≠ [] ∧ path = pathText place)

/-- A tidy piece leads from a directory to what it names there. -/
theorem add_tidy (htidy : IsTidy seg) (hcolon : ':' ∉ seg) (hnames : Ordinary names) :
    ∃ names', Ordinary names' ∧
      (add .file (directoryText names) seg true).1 = directoryText names' ∧
      ((add .file (directoryText names) seg false).1 = directoryText names' ∨
        names' ≠ [] ∧ (add .file (directoryText names) seg false).1 = pathText names') := by
  by_cases hdouble : isDoubleDot seg = true
  · obtain ⟨names', hstarts, hup⟩ := up_directoryText names
    refine ⟨names', fun name hname => hnames name (hstarts.subset hname), ?_, .inl ?_⟩
    · rw [add, if_pos hdouble, hup]
      exact closed_directoryText
    · rw [add, if_pos hdouble, hup]
      rfl
  · by_cases hsingle : isSingleDot seg = true
    · refine ⟨names, hnames, ?_, .inl ?_⟩ <;>
      · rw [add, if_neg hdouble, if_pos hsingle]
        exact closed_directoryText
    · obtain ⟨hname, htext⟩ := (htidy.resolve_left hsingle).resolve_left hdouble
      have hnormal : isNormalDriveLetter (seg.take 2) = false := by
        rw [← Bool.not_eq_true, isNormalDriveLetter, Bool.and_eq_true, beq_iff_eq]
        rintro ⟨-, hlast⟩
        exact hcolon (List.mem_of_mem_take (List.mem_of_getLast? hlast))
      simp only [add, if_neg hdouble, if_neg hsingle, hnormal, Bool.and_false, Bool.false_eq_true,
        if_false]
      split
      · next hdrive =>
        -- the name of a drive, which is written with a colon
        rw [Bool.and_eq_true, Bool.and_eq_true, beq_iff_eq, beq_iff_eq] at hdrive
        obtain ⟨⟨-, hlength⟩, hdrive⟩ := hdrive
        obtain rfl : names = [] := by
          cases names with
          | nil => rfl
          | cons name names => simp [directoryText] at hlength
        obtain ⟨c, sign, rfl, halpha⟩ := exists_of_isDriveLetter hdrive
        obtain ⟨-, hname, htext⟩ := nameText_drive halpha
        refine ⟨_, by simpa [Ordinary] using hname, ?_, .inr ⟨List.cons_ne_nil _ [], ?_⟩⟩
        · simp [directoryText, htext]
        · simp [directoryText, pathText, htext]
      · refine ⟨names ++ [nameOf seg], hnames.concat hname, ?_, .inr ⟨by simp, ?_⟩⟩
        · rw [htext, directoryText_concat]
          simp
        · rw [htext, pathText_concat]
          simp

/-! ## Reading tidy pieces -/

/-- What stands before the first separator is read, and the pieces after it are left. -/
theorem next_of_splitOnP {kind : SchemeKind} {more : List (List Char)}
    (hplain : ∀ c ∈ cs, endsPath c = false)
    (h : cs.splitOnP kind.isSeparator = seg :: more) :
    cs = seg ∧ more = [] ∧ next kind cs = (seg, false, []) ∨
      ∃ sep rest, cs = seg ++ sep :: rest ∧ rest.splitOnP kind.isSeparator = more ∧
        next kind cs = (seg, true, rest) := by
  induction cs generalizing seg with
  | nil =>
    rw [List.splitOnP_nil] at h
    cases h
    exact .inl ⟨rfl, rfl, rfl⟩
  | cons c cs ih =>
    obtain ⟨hc, hcs⟩ := List.forall_mem_cons.1 hplain
    rw [List.splitOnP_cons_eq_if_modifyHead] at h
    rw [next]
    split at h
    · next hsep =>
      cases h
      exact .inr ⟨c, cs, rfl, rfl, by rw [if_pos hsep]⟩
    · next hsep =>
      rw [if_neg hsep, if_neg (by simp [hc])]
      obtain ⟨piece, pieces, hpieces⟩ :=
        List.exists_cons_of_ne_nil (List.splitOnP_ne_nil kind.isSeparator cs)
      rw [hpieces, List.modifyHead_cons] at h
      cases h
      rcases ih hcs hpieces with ⟨hpiece, hmore, hnext⟩ | ⟨sep, rest, hparts, hmore, hnext⟩
      · exact .inl ⟨by rw [hpiece], hmore, by rw [hnext]⟩
      · exact .inr ⟨sep, rest, by rw [hparts, List.cons_append], hmore, by rw [hnext]⟩

/-- Characters of a path that is no more than names and separators. -/
def IsPathChar (c : Char) : Prop :=
  c ≠ ':' ∧ endsPath c = false

instance : DecidablePred IsPathChar := fun _ => inferInstanceAs (Decidable (_ ∧ _))

/-- Tidy pieces lead from a directory to a file or to a directory. -/
theorem walkFrom_tidy (hchars : ∀ c ∈ cs, IsPathChar c)
    (htidy : ∀ seg ∈ cs.splitOnP SchemeKind.file.isSeparator, seg = [] ∨ IsTidy seg)
    (hinner : [] ∉ (cs.splitOnP SchemeKind.file.isSeparator).dropLast)
    (hnames : Ordinary names) :
    ∃ path dropsHost, walkFrom .file (directoryText names) cs = (path, dropsHost, []) ∧
      IsPlain path := by
  generalize hpieces : cs.splitOnP SchemeKind.file.isSeparator = pieces at htidy hinner
  induction pieces generalizing cs names with
  | nil => exact absurd hpieces (List.splitOnP_ne_nil _ cs)
  | cons seg more ih =>
    rcases next_of_splitOnP (fun c hc => (hchars c hc).2) hpieces with
      ⟨rfl, rfl, hnext⟩ | ⟨sep, rest, rfl, hmore, hnext⟩
    · rw [walkFrom]
      split
      next heq =>
      rw [hnext] at heq
      cases heq
      refine ⟨_, _, rfl, ?_⟩
      rcases htidy _ (List.mem_cons_self ..) with rfl | hseg
      · have hsame : (add .file (directoryText names) [] false).1 = directoryText names := by
          simp [add, isDriveLetter, isNormalDriveLetter, isSingleDot, isDoubleDot, Percent.encode]
        exact ⟨names, hnames, .inl hsame⟩
      · obtain ⟨names', hnames', -, hpath⟩ :=
          add_tidy hseg (fun hmem => (hchars _ hmem).1 rfl) hnames
        exact ⟨names', hnames', hpath⟩
    · have hne : more ≠ [] := hmore ▸ List.splitOnP_ne_nil _ rest
      rw [List.dropLast_cons_of_ne_nil hne, List.mem_cons, not_or] at hinner
      have hseg := (htidy seg (List.mem_cons_self ..)).resolve_left (Ne.symm hinner.1)
      obtain ⟨names', hnames', hadd, -⟩ := add_tidy hseg
        (fun hmem => (hchars _ (List.mem_append_left _ hmem)).1 rfl) hnames
      obtain ⟨path, dropsHost, hwalk, hplain⟩ := ih
        (fun c hc => hchars c (List.mem_append_right _ (List.mem_cons_of_mem sep hc))) hnames'
        hmore (fun seg hseg => htidy seg (List.mem_cons_of_mem _ hseg)) hinner.2
      rw [walkFrom]
      split
      next heq =>
      rw [hnext] at heq
      cases heq
      dsimp only
      rw [dif_pos rfl, hadd, hwalk]
      exact ⟨path, _, rfl, hplain⟩

/-! ## Whole paths -/

/-- One slash stands at the start. -/
theorem IsPlain.dropWhile (h : IsPlain path) : '/' :: path.dropWhile (· == '/') = path := by
  obtain ⟨place, hplace, hpath⟩ := h
  cases place with
  | nil =>
    rcases hpath with rfl | ⟨hne, -⟩
    · decide
    · exact absurd rfl hne
  | cons name rest =>
    obtain ⟨c, text, htext⟩ :=
      List.exists_cons_of_ne_nil (nameText_ne_nil (hplace name (List.mem_cons_self ..)).1)
    have hc : (c == '/') = false := by
      rw [beq_eq_false_iff_ne]
      rintro rfl
      exact slash_not_mem_nameText name (htext ▸ List.mem_cons_self ..)
    rcases hpath with rfl | ⟨-, rfl⟩
    · simp [directoryText, htext, hc]
    · simp [pathText, htext, hc]

theorem isNormalDriveLetter_directoryText (names : Place) :
    isNormalDriveLetter ((directoryText names).drop 1) = false := by
  cases names with
  | nil => decide
  | cons name names =>
    have hlast : ((directoryText (name :: names)).drop 1).getLast? = some '/' := by
      simp [directoryText]
    rw [isNormalDriveLetter, hlast]
    exact Bool.and_false _

theorem walk_directoryText : walk .file (directoryText names) cs =
    ('/' :: (walkFrom .file (directoryText names) cs).1.dropWhile (· == '/'),
      (walkFrom .file (directoryText names) cs).2) := by
  simp only [walk, isNormalDriveLetter_directoryText, Bool.and_false, Bool.false_and,
    Bool.false_eq_true, if_false]
  rfl

theorem walk_tidy (hchars : ∀ c ∈ cs, IsPathChar c)
    (htidy : ∀ seg ∈ cs.splitOnP SchemeKind.file.isSeparator, seg = [] ∨ IsTidy seg)
    (hinner : [] ∉ (cs.splitOnP SchemeKind.file.isSeparator).dropLast)
    (hnames : Ordinary names) :
    ∃ path dropsHost, walk .file (directoryText names) cs = (path, dropsHost, []) ∧
      IsPlain path := by
  obtain ⟨path, dropsHost, hwalk, hplain⟩ := walkFrom_tidy hchars htidy hinner hnames
  rw [walk_directoryText, hwalk, hplain.dropWhile]
  exact ⟨path, dropsHost, rfl, hplain⟩

/-- A separator at the start closes what is there: nothing, or a drive. -/
theorem walk_separator {c : Char} {start : List Char} {dropsHost : Bool}
    (hsep : SchemeKind.file.isSeparator c = true) (hstart : start ++ ['/'] = directoryText names)
    (hwalk : walk .file (directoryText names) cs = (path, dropsHost, [])) :
    ∃ dropsHost', walk .file start (c :: cs) = (path, dropsHost', []) := by
  have hadd : (add .file start [] true).1 = directoryText names := by
    simp [add, isDriveLetter, isNormalDriveLetter, isSingleDot, isDoubleDot, Percent.encode, hstart]
  have hnext : next .file (c :: cs) = ([], true, cs) := by
    rw [next, if_pos hsep]
  have hfrom : ∃ dropsHost', walkFrom .file start (c :: cs) =
      ((walkFrom .file (directoryText names) cs).1, dropsHost',
        (walkFrom .file (directoryText names) cs).2.2) := by
    rw [walkFrom]
    split
    next heq =>
    rw [hnext] at heq
    cases heq
    dsimp only
    rw [dif_pos rfl, hadd]
    exact ⟨_, rfl⟩
  obtain ⟨dropsHost', hfrom⟩ := hfrom
  rw [walk_directoryText] at hwalk
  obtain ⟨hpath, hrest⟩ := Prod.mk.inj hwalk
  refine ⟨dropsHost', ?_⟩
  simp only [walk, List.head?_cons, Option.any_some, hsep, Bool.not_true, Bool.false_and,
    Bool.and_false, Bool.false_eq_true, if_false, hfrom, hrest]
  rw [if_pos (by decide), hpath]

theorem dropLast_pathText {front : Place}
    (hdrive : isNormalDriveLetter (nameText name) = false) :
    dropLast .file (pathText (front ++ [name])) = directoryText front := by
  rw [pathText_concat, dropLast, cutLast_directoryText _ (slash_not_mem_nameText name)]
  simp [hdrive]

end Segments

/-! ## The URL of a path beside a file -/

namespace UrlParts

open Disk (Ordinary)
open Segments (IsTidy IsPlain IsPathChar isNormalDriveLetter)

variable {text : String} {cs : List Char} {path : List Char} {place : Place}

/-- The pieces of a written path. -/
def pieces (cs : List Char) : List (List Char) :=
  cs.splitOnP SchemeKind.file.isSeparator

/-- A written path of tidy pieces. Only the first and the last one may be empty. -/
structure Tidy (text : String) : Prop where
  chars : ∀ c ∈ significant text, IsPathChar c
  pieces : ∀ seg ∈ pieces (significant text), seg = [] ∨ IsTidy seg
  inner : [] ∉ (UrlParts.pieces (significant text)).tail.dropLast

theorem tidy_iff : Tidy text ↔ (∀ c ∈ significant text, IsPathChar c) ∧
    (∀ seg ∈ pieces (significant text), seg = [] ∨ IsTidy seg) ∧
      [] ∉ (pieces (significant text)).tail.dropLast :=
  ⟨fun h => ⟨h.chars, h.pieces, h.inner⟩,
    fun ⟨hchars, hpieces, hinner⟩ => ⟨hchars, hpieces, hinner⟩⟩

instance : Decidable (Tidy text) :=
  -- The characters of the text are gone through, not all the characters there are.
  have : Decidable (∀ c ∈ significant text, IsPathChar c) :=
    List.decidableBAll IsPathChar (significant text)
  decidable_of_iff _ tidy_iff.symm

theorem pieces_separator {c : Char} (hsep : SchemeKind.file.isSeparator c = true) :
    pieces (c :: cs) = [] :: pieces cs := by
  rw [pieces, List.splitOnP_cons_eq_if_modifyHead, if_pos hsep]
  rfl

/-- A text whose pieces are names does not start with a separator. -/
theorem not_separator_of_pieces (h : [] ∉ (pieces cs).dropLast) :
    cs.head?.any SchemeKind.file.isSeparator ≠ true := by
  intro hany
  cases cs with
  | nil => cases hany
  | cons c cs =>
    have hne : pieces cs ≠ [] := List.splitOnP_ne_nil _ cs
    rw [pieces_separator (by simpa using hany), List.dropLast_cons_of_ne_nil hne] at h
    exact h (List.mem_cons_self ..)

/-- The first piece is not empty when the text does not start with a separator. -/
theorem nil_not_mem_dropLast_pieces {c : Char} (hsep : ¬ SchemeKind.file.isSeparator c = true)
    (h : [] ∉ (pieces (c :: cs)).tail.dropLast) : [] ∉ (pieces (c :: cs)).dropLast := by
  obtain ⟨piece, more, hmore⟩ :=
    List.exists_cons_of_ne_nil (List.splitOnP_ne_nil SchemeKind.file.isSeparator cs)
  have hsplit : pieces (c :: cs) = (c :: piece) :: more := by
    rw [pieces, List.splitOnP_cons_eq_if_modifyHead, if_neg hsep, hmore, List.modifyHead_cons]
  rw [hsplit] at h ⊢
  cases more with
  | nil => simp
  | cons piece' more => simpa using h

theorem scheme?_of_no_colon (h : ':' ∉ cs) : scheme? cs = none := by
  rw [← Option.not_isSome_iff_eq_none]
  intro hsome
  cases cs with
  | nil => cases hsome
  | cons c rest =>
    rw [scheme?] at hsome
    split at hsome
    · split at hsome
      · next body heq =>
        have hparts := (cutAt_eq_iff.1 heq).1
        exact h (List.mem_cons_of_mem c (hparts ▸ by simp))
      · cases hsome
    · cases hsome

/-- A path without a colon is read beside a file. -/
theorem parse_ofPath (hchars : ∀ c ∈ significant text, IsPathChar c) :
    parse text (some (.ofPath path)) = file (significant text) (some (.ofPath path)) := by
  have hcolon : ':' ∉ significant text := fun hmem => (hchars _ hmem).1 rfl
  have hmark : ((significant text).head? == some '#') = false := by
    rw [beq_eq_false_iff_ne]
    intro he
    have hend := (hchars _ (List.mem_of_head? he)).2
    cases hend
  rw [parse, scheme?_of_no_colon hcolon]
  dsimp only
  rw [if_neg (by simp [hmark]), if_neg (by simp [hasOpaquePath, UrlParts.ofPath])]
  exact if_pos (by decide : (SchemeKind.ofScheme "file" == .file) = true)

theorem first_pathText (name : List UInt8) (more : Place) :
    (cutAt (· == '/') ((pathText (name :: more)).drop 1)).1 = nameText name := by
  have htext : (pathText (name :: more)).drop 1 =
      nameText name ++ more.flatMap ('/' :: nameText ·) := by
    simp [pathText]
  rw [htext, cutAt_append]
  · intro c hc
    rw [beq_eq_false_iff_ne]
    rintro rfl
    exact slash_not_mem_nameText name hc
  · intro c hc
    cases more with
    | nil => cases hc
    | cons other more => simpa using hc.symm

theorem fileFromRoot_tidy {c : Char} (hplace : Ordinary place) (hne : place ≠ [])
    (hsep : SchemeKind.file.isSeparator c = true) (hchars : ∀ c ∈ cs, IsPathChar c)
    (hpieces : ∀ seg ∈ pieces cs, seg = [] ∨ IsTidy seg) (hinner : [] ∉ (pieces cs).dropLast) :
    ∃ path, IsPlain path ∧
      fileFromRoot (c :: cs) (some (.ofPath (pathText place))) = .ofPath path := by
  obtain ⟨name, more, rfl⟩ := List.exists_cons_of_ne_nil hne
  have hgives (start : List Char) (names : Place) (hnames : Ordinary names)
      (hstart : start ++ ['/'] = directoryText names) : ∃ path, IsPlain path ∧
        finish "file" .file (fileHost "") (Segments.walk .file start (c :: cs)).1
          (Segments.walk .file start (c :: cs)).2.2 = .ofPath path := by
    obtain ⟨path, dropsHost, hwalk, hplain⟩ := Segments.walk_tidy hchars hpieces hinner hnames
    obtain ⟨dropsHost', hwalk'⟩ := Segments.walk_separator hsep hstart hwalk
    rw [hwalk']
    exact ⟨path, hplain, rfl⟩
  have hroot := hgives [] [] (by simp [Ordinary]) rfl
  have hname : Ordinary [name] := by
    intro other hother
    exact List.mem_singleton.1 hother ▸ hplace name (List.mem_cons_self ..)
  have hpath : (UrlParts.ofPath (pathText (name :: more))).path.toList =
      pathText (name :: more) := String.toList_ofList
  rw [fileFromRoot]
  dsimp only
  rw [hpath, first_pathText]
  -- the path starts at the root, or at the drive that the file is on
  split
  · exact hroot
  · split
    · exact hgives ('/' :: nameText name) [name] hname (by simp [directoryText])
    · exact hroot

/-- Tidy text beside a file gives the URL of a file or of a directory. -/
theorem file_tidy {front : Place} {name : List UInt8} (hplace : Ordinary (front ++ [name]))
    (hdrive : isNormalDriveLetter (nameText name) = false) (h : Tidy text) :
    ∃ path, IsPlain path ∧
      file (significant text) (some (.ofPath (pathText (front ++ [name])))) =
        .ok (.ofPath path) := by
  obtain ⟨hchars, hpieces, hinner⟩ := h
  have hfront : Ordinary front := fun other hother => hplace other (List.mem_append_left _ hother)
  generalize significant text = cs at hchars hpieces hinner
  cases cs with
  | nil => exact ⟨_, ⟨_, hplace, .inr ⟨by simp, rfl⟩⟩, rfl⟩
  | cons c rest =>
    rw [file]
    split
    · next hsep =>
      rw [pieces_separator hsep] at hpieces hinner
      obtain ⟨path, hplain, hpath⟩ := fileFromRoot_tidy hplace (by simp) hsep
        (fun c hc => hchars c (List.mem_cons_of_mem _ hc))
        (fun seg hseg => hpieces seg (List.mem_cons_of_mem _ hseg)) hinner
      exact ⟨path, hplain, by rw [if_neg (not_separator_of_pieces hinner), hpath]⟩
    · next hsep =>
      have hwalk (names : Place) (hnames : Ordinary names) :=
        Segments.walk_tidy hchars hpieces (nil_not_mem_dropLast_pieces hsep hinner) hnames
      have hend : endsPath c = false := (hchars c (List.mem_cons_self ..)).2
      have hpath : (UrlParts.ofPath (pathText (front ++ [name]))).path.toList =
          pathText (front ++ [name]) := String.toList_ofList
      dsimp only
      rw [if_neg (by simp [hend]), hpath, Segments.dropLast_pathText hdrive]
      split
      · obtain ⟨path, dropsHost, hwalk, hplain⟩ := hwalk [] (by simp [Ordinary])
        refine ⟨path, hplain, ?_⟩
        rw [show Segments.walk .file ['/'] (c :: rest) = _ from hwalk]
        rfl
      · obtain ⟨path, dropsHost, hwalk, hplain⟩ := hwalk front hfront
        refine ⟨path, hplain, ?_⟩
        rw [hwalk]
        rfl

end UrlParts

/-- Tidy text beside a file leads to a file or to a directory, under the URL that it has. -/
theorem Url.join_tidy {text : String} {front : Place} {name : List UInt8}
    (hplace : Disk.Ordinary (front ++ [name]))
    (hdrive : Segments.isNormalDriveLetter (nameText name) = false) (h : UrlParts.Tidy text) :
    ∃ path, Segments.IsPlain path ∧
      (ofPlace (front ++ [name])).join text = .ok (ofParts (.ofPath path)) := by
  obtain ⟨path, hplain, hfile⟩ := UrlParts.file_tidy hplace hdrive h
  refine ⟨path, hplain, ?_⟩
  rw [join, parts_ofPlace, UrlParts.parse_ofPath h.chars, hfile]
  rfl

end ModuleGraph
