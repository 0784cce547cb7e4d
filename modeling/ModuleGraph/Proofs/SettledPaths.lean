import ModuleGraph.Proofs.Addresses

/-!
# Paths that stay as they are

Reading a path changes it: segments are percent-encoded, and dots move up. What
comes out does not change when it is read again. Its segments consist of
characters that encoding leaves alone, and none of them is dots, also not dots
written with `%2e` (`settled_walkFrom`); and such a path is read as it is written
(`Settled.walkFrom_eq`).

That encoding a segment does not make dots of it has one reason: it writes no
triple for a dot, since no part of a URL reserves dots.
-/

namespace ModuleGraph

theorem infix_flatMap {α β : Type} {f : α → List β} {a : α} {as : List α} (h : a ∈ as) :
    f a <:+: as.flatMap f := by
  obtain ⟨front, back, rfl⟩ := List.append_of_mem h
  exact ⟨front.flatMap f, back.flatMap f, by simp⟩

/-! ## Encoding twice -/

namespace Percent

variable {reserved : Char → Bool} {c : Char} {cs seg : List Char}

/-- A character that encoding leaves as it is. -/
structure IsPlain (reserved : Char → Bool) (c : Char) : Prop where
  kept : reserved c = false
  ascii : c.toNat < 0x80

/-- What every set of reserved characters leaves out that triples can be read from. -/
structure KeepsTriples (reserved : Char → Bool) : Prop where
  sign : reserved '%' = false
  digit : ∀ n < 16, reserved (Hex.upperDigit n) = false

theorem keepsTriples_control : KeepsTriples control := ⟨by decide, by decide⟩

theorem keepsTriples_path : KeepsTriples path := ⟨by decide, by decide⟩

theorem keepsTriples_query : KeepsTriples query := ⟨by decide, by decide⟩

theorem IsPlain.visible (h : IsPlain reserved c)
    (hcontrol : ∀ d, control d = true → reserved d = true) (hblank : reserved ' ' = true) :
    0x20 < c.toNat := by
  have hkept : control c = false := Bool.eq_false_iff.2 fun hc => by
    have hreserved := hcontrol c hc
    rw [h.kept] at hreserved
    cases hreserved
  have hne : c.toNat ≠ 0x20 := fun he => by
    obtain rfl : c = ' ' := Char.toNat_inj.1 he
    exact absurd h.kept (by simp [hblank])
  simp only [control, Bool.or_eq_false_iff, decide_eq_false_iff_not, Nat.not_lt] at hkept
  omega

theorem encode_of_plain (h : ∀ c ∈ cs, IsPlain reserved c) : encode reserved cs = cs := by
  induction cs with
  | nil => rfl
  | cons c cs ih =>
    obtain ⟨hc, hcs⟩ := List.forall_mem_cons.1 h
    have hkept : (reserved c || decide (0x80 ≤ c.toNat)) = false := by
      simpa [hc.kept] using hc.ascii
    rw [encode, List.flatMap_cons, if_neg (by simp [hkept]), ← encode, ih hcs,
      List.singleton_append]

theorem isPlain_of_mem_triple {b : UInt8} (hreserved : KeepsTriples reserved)
    (h : c ∈ triple b) : IsPlain reserved c := by
  have hb := b.toNat_lt
  have hascii : ∀ n < 16, (Hex.upperDigit n).toNat < 0x80 := by decide
  simp only [triple, List.mem_cons, List.not_mem_nil, or_false] at h
  rcases h with rfl | rfl | rfl
  · exact ⟨hreserved.sign, by decide⟩
  · exact ⟨hreserved.digit _ (by omega), hascii _ (by omega)⟩
  · exact ⟨hreserved.digit _ (by omega), hascii _ (by omega)⟩

theorem isPlain_of_mem_encode (hreserved : KeepsTriples reserved) (h : c ∈ encode reserved cs) :
    IsPlain reserved c := by
  obtain ⟨d, -, hc⟩ := List.mem_flatMap.1 h
  split at hc
  · obtain ⟨b, -, hb⟩ := List.mem_flatMap.1 hc
    exact isPlain_of_mem_triple hreserved hb
  · next hkept =>
    obtain rfl := List.mem_singleton.1 hc
    rw [Bool.or_eq_true, not_or, decide_eq_true_eq, Nat.not_le] at hkept
    exact ⟨Bool.not_eq_true _ ▸ hkept.1, hkept.2⟩

/-- A text that changes has a character whose bytes are written as triples. -/
theorem exists_triple_of_encode_ne (h : encode reserved cs ≠ cs) :
    ∃ c b, ¬ IsPlain reserved c ∧ b ∈ String.utf8EncodeChar c ∧
      triple b <:+: encode reserved cs := by
  obtain ⟨c, hc, hplain⟩ : ∃ c ∈ cs, ¬ IsPlain reserved c := by
    simpa using mt encode_of_plain h
  obtain ⟨b, hb⟩ : ∃ b, b ∈ String.utf8EncodeChar c := by
    refine List.exists_mem_of_length_pos ?_
    rw [String.length_utf8EncodeChar]
    exact Char.utf8Size_pos c
  refine ⟨c, b, hplain, hb, ?_⟩
  have hreplaced : (reserved c || decide (0x80 ≤ c.toNat)) = true := by
    rw [← Bool.not_eq_false]
    intro hkept
    rw [Bool.or_eq_false_iff, decide_eq_false_iff_not, Nat.not_le] at hkept
    exact hplain ⟨hkept.1, hkept.2⟩
  have hchar := infix_flatMap (f := fun c =>
    if reserved c || 0x80 ≤ c.toNat then (String.utf8EncodeChar c).flatMap triple else [c]) hc
  rw [if_pos hreplaced] at hchar
  exact (infix_flatMap hb).trans hchar

end Percent

/-! ## Segments -/

namespace Segments

open Percent (IsPlain)

variable {path seg cs more tail start front back : List Char} {isClosed : Bool}

/-- A segment that is read as it is written. -/
structure IsStable (seg : List Char) : Prop where
  plain : ∀ c ∈ seg, IsPlain Percent.path c
  single : isSingleDot seg = false
  double : isDoubleDot seg = false

/-- What holds of every spelling of dots. -/
theorem of_dots {P : List Char → Prop} (hall : ∀ text ∈ [".", "%2e", "%2E", "..", ".%2e",
      ".%2E", "%2e.", "%2E.", "%2e%2e", "%2e%2E", "%2E%2e", "%2E%2E"], P text.toList)
    (hdots : isSingleDot seg = true ∨ isDoubleDot seg = true) : P seg := by
  rw [← String.toList_ofList (l := seg)]
  refine hall _ ?_
  rcases hdots with hdots | hdots
  · exact List.mem_append_left _ (List.contains_iff_mem.1 hdots)
  · exact List.mem_append_right [".", "%2e", "%2E"] (List.contains_iff_mem.1 hdots)

/-- No triple in a spelling of dots stands for another byte than a dot. -/
theorem eq_dot_of_triple_infix (hdots : isSingleDot seg = true ∨ isDoubleDot seg = true)
    {b : UInt8} (h : Percent.triple b <:+: seg) : b = 0x2E := by
  have hcheck := of_dots
    (P := fun seg => ∀ n < 256, Percent.triple (UInt8.ofNat n) <:+: seg → n = 0x2E)
    (by decide +kernel) hdots
  rw [← UInt8.ofNat_toNat (x := b)] at h ⊢
  rw [hcheck b.toNat b.toNat_lt h]
  rfl

/-- Encoding does not make dots of a segment that is none. -/
theorem isStable_encode (hsingle : isSingleDot seg = false) (hdouble : isDoubleDot seg = false) :
    IsStable (Percent.encode Percent.path seg) := by
  have hdots : ¬ (isSingleDot (Percent.encode Percent.path seg) = true ∨
      isDoubleDot (Percent.encode Percent.path seg) = true) := by
    intro hdots
    by_cases hsame : Percent.encode Percent.path seg = seg
    · rw [hsame, hsingle, hdouble] at hdots
      simp at hdots
    · obtain ⟨c, b, hplain, hb, htriple⟩ := Percent.exists_triple_of_encode_ne hsame
      obtain rfl := eq_dot_of_triple_infix hdots htriple
      have hc : c = '.' := by
        rw [Char.ext_iff, ← UInt32.toNat_inj]
        exact Utf8.toNat_eq_of_mem_utf8EncodeChar (by decide) hb
      subst hc
      exact hplain ⟨by decide, by decide⟩
  rw [not_or, Bool.not_eq_true, Bool.not_eq_true] at hdots
  exact ⟨fun c hc => Percent.isPlain_of_mem_encode Percent.keepsTriples_path hc, hdots.1, hdots.2⟩

/-- A path all of whose segments are stable. -/
def Settled (path : List Char) : Prop :=
  ∀ seg ∈ path.splitOn '/', IsStable seg

/-- A path that a segment can be added to. -/
def Open (path : List Char) : Prop :=
  path = [] ∨ ∃ front, path = front ++ ['/']

theorem isStable_nil : IsStable [] := ⟨by simp, by decide, by decide⟩

theorem settled_nil : Settled [] := by
  simpa [Settled] using isStable_nil

theorem settled_append : Settled (front ++ '/' :: back) ↔ Settled front ∧ Settled back := by
  simp only [Settled, List.splitOn_append_cons_self, List.forall_mem_append]

theorem settled_slash : Settled (front ++ ['/']) ↔ Settled front := by
  rw [settled_append]
  exact and_iff_left settled_nil

theorem IsStable.settled (h : IsStable seg) (hslash : '/' ∉ seg) : Settled seg := by
  simpa [Settled, List.splitOn_eq_singleton hslash] using h

theorem Settled.eq_or_isPlain {c : Char} (h : Settled path) (hc : c ∈ path) :
    c = '/' ∨ IsPlain Percent.path c := by
  by_cases hslash : c = '/'
  · exact .inl hslash
  · refine .inr (Classical.byContradiction fun hplain => ?_)
    have hnot := not_mem_intercalate hslash fun seg hseg hmem => hplain ((h seg hseg).plain c hmem)
    rw [List.intercalate_splitOn] at hnot
    exact hnot hc

theorem Open.settled_append (hopen : Open path) (hpath : Settled path) (hback : Settled back) :
    Settled (path ++ back) := by
  rcases hopen with rfl | ⟨front, rfl⟩
  · exact hback
  · rw [List.append_assoc, List.singleton_append, Segments.settled_append]
    exact ⟨settled_slash.1 hpath, hback⟩

/-! ## What is read is settled -/

theorem closed_eq_append (path : List Char) : ∃ front, closed path = front ++ ['/'] ∧
    (path = front ∨ path = front ++ ['/']) := by
  rw [closed]
  split
  · next hlast =>
    obtain ⟨front, hfront⟩ := List.getLast?_eq_some_iff.1 (beq_iff_eq.1 hlast)
    exact ⟨front, hfront, .inr hfront⟩
  · exact ⟨path, rfl, .inl rfl⟩

theorem open_closed : Open (closed path) :=
  let ⟨front, hfront, _⟩ := closed_eq_append path
  .inr ⟨front, hfront⟩

theorem Settled.closed (h : Settled path) : Settled (closed path) := by
  obtain ⟨front, hfront, rfl | rfl⟩ := closed_eq_append path
  · rwa [hfront, settled_slash]
  · rwa [hfront]

/-- The last slash parts a path from its last segment. -/
theorem cutLast_spec (path : List Char) :
    (cutLast path).1 ++ (cutLast path).2 = path ∧ Open (cutLast path).1 := by
  have hparts := List.takeWhile_append_dropWhile (p := (· != '/')) (l := path.reverse)
  have hslash := List.head?_dropWhile_not (· != '/') path.reverse
  rw [cutLast]
  generalize path.reverse.takeWhile (· != '/') = last at hparts ⊢
  generalize path.reverse.dropWhile (· != '/') = front at hparts hslash
  obtain rfl : path = front.reverse ++ last.reverse := by
    rw [← List.reverse_append, List.reverse_eq_iff.1 hparts.symm]
  have hfront : (front.reverse ++ last.reverse).take
      ((front.reverse ++ last.reverse).length - last.reverse.length) = front.reverse :=
    List.take_left' (by simp)
  rw [hfront]
  refine ⟨rfl, ?_⟩
  cases front with
  | nil => exact .inl rfl
  | cons c front =>
    obtain rfl : c = '/' := by simpa using hslash
    exact .inr ⟨front.reverse, List.reverse_cons⟩

theorem Settled.dropLast (h : Settled path) : Settled (dropLast .other path) := by
  obtain ⟨hpath, hopen⟩ := cutLast_spec path
  have hfile : (SchemeKind.other == .file) = false := by decide
  rw [Segments.dropLast]
  simp only [hfile, Bool.false_and, Bool.false_eq_true, if_false]
  rcases hopen with hnil | ⟨front, hfront⟩
  · rw [hnil]
    exact settled_nil
  · rw [hfront, List.append_assoc, List.singleton_append] at hpath
    rw [← hpath, settled_append] at h
    rw [hfront, settled_slash]
    exact h.1

theorem Settled.up (h : Settled path) : Settled (up .other path) := by
  rw [Segments.up]
  split
  · next hcloses =>
    rw [closesSegment, Bool.and_eq_true, beq_iff_eq] at hcloses
    obtain ⟨front, rfl⟩ := List.getLast?_eq_some_iff.1 hcloses.1
    rw [List.dropLast_concat]
    exact (settled_slash.1 h).dropLast
  · exact h.dropLast

theorem Settled.add (h : Settled path) (hopen : Open path) (hslash : '/' ∉ seg)
    (isClosed : Bool) : Settled (add .other path seg isClosed).1 ∧
      (isClosed = true → Open (add .other path seg isClosed).1) := by
  rw [Segments.add]
  split
  · dsimp only
    split
    · exact ⟨h.up.closed, fun _ => open_closed⟩
    · next hclosed => exact ⟨h.up, fun hc => absurd hc hclosed⟩
  · split
    · exact ⟨h.closed, fun _ => open_closed⟩
    · next hdouble hsingle =>
      have hfile : (SchemeKind.other == .file) = false := by decide
      simp only [hfile, Bool.false_and, Bool.false_eq_true, if_false]
      rw [Bool.not_eq_true] at hdouble hsingle
      have hstable := isStable_encode hsingle hdouble
      have hslash : '/' ∉ Percent.encode Percent.path seg := fun hmem =>
        hslash (Percent.mem_of_mem_encode (by decide) (by decide) hmem).1
      have hseg := hopen.settled_append h (hstable.settled hslash)
      cases isClosed with
      | false => exact ⟨by simpa using hseg, fun hc => by cases hc⟩
      | true => exact ⟨settled_slash.2 hseg, fun _ => .inr ⟨_, rfl⟩⟩

theorem settled_walkFrom (h : Settled path) (hopen : Open path) :
    Settled (walkFrom .other path cs).1 := by
  induction hn : cs.length using Nat.strongRecOn generalizing path cs with
  | ind n ih =>
    rw [walkFrom]
    split
    next seg isClosed rest hnext =>
    have hslash : '/' ∉ seg := by
      have := @not_mem_next .other cs '/' (by decide)
      rwa [hnext] at this
    obtain ⟨hadd, hclosed⟩ := h.add hopen hslash isClosed
    dsimp only
    split
    · next hc =>
      have hlt := @length_next_of_closed .other cs (by rw [hnext]; exact hc)
      rw [hnext, hn] at hlt
      exact ih _ hlt hadd (hclosed hc) rfl
    · exact hadd

/-! ## What is settled is read as it is -/

/-- What can follow a path. -/
def AfterPath (tail : List Char) : Prop :=
  ∀ c, tail.head? = some c → endsPath c = true

theorem next_append (kind : SchemeKind)
    (hseg : ∀ c ∈ seg, kind.isSeparator c = false ∧ endsPath c = false) (more : List Char) :
    next kind (seg ++ more) =
      (seg ++ (next kind more).1, (next kind more).2.1, (next kind more).2.2) := by
  induction seg with
  | nil => rfl
  | cons c seg ih =>
    obtain ⟨⟨hsep, hend⟩, hseg⟩ := List.forall_mem_cons.1 hseg
    rw [List.cons_append, next, hsep, hend, ih hseg]
    rfl

theorem next_slash : next .other ('/' :: more) = ([], true, more) := by
  rw [next, if_pos (by decide)]

theorem next_of_afterPath (h : AfterPath tail) : next .other tail = ([], false, tail) := by
  cases tail with
  | nil => rfl
  | cons c tail =>
    have hend := h c rfl
    have hsep : SchemeKind.isSeparator .other c = false := by
      rw [endsPath, Bool.or_eq_true, beq_iff_eq, beq_iff_eq] at hend
      rcases hend with rfl | rfl <;> decide
    rw [next, if_neg (by simp [hsep]), if_pos hend]

/-- A piece of a text that is read as one segment, and not as a move. -/
structure IsPiece (seg : List Char) : Prop where
  single : isSingleDot seg = false
  double : isDoubleDot seg = false
  within : ∀ c ∈ seg, SchemeKind.isSeparator .other c = false ∧ endsPath c = false

theorem IsPiece.add_eq (h : IsPiece seg) : add .other path seg isClosed =
    (path ++ Percent.encode Percent.path seg ++ if isClosed then ['/'] else [], false) := by
  have hfile : (SchemeKind.other == .file) = false := by decide
  simp [add, h.single, h.double, hfile]

/-- Pieces are encoded and appended. -/
theorem walkFrom_intercalate {segs : List (List Char)} (hne : segs ≠ [])
    (hsegs : ∀ seg ∈ segs, IsPiece seg) (htail : AfterPath tail) (start : List Char) :
    walkFrom .other start (['/'].intercalate segs ++ tail) =
      (start ++ ['/'].intercalate (segs.map (Percent.encode Percent.path)), false, tail) := by
  induction segs generalizing start with
  | nil => exact absurd rfl hne
  | cons seg segs ih =>
    obtain ⟨hseg, hsegs⟩ := List.forall_mem_cons.1 hsegs
    have hnext := next_append .other hseg.within
    cases segs with
    | nil =>
      have hnext := hnext tail
      rw [next_of_afterPath htail, List.append_nil] at hnext
      rw [List.intercalate_singleton, walkFrom]
      split
      next heq =>
      rw [hnext] at heq
      cases heq
      rw [hseg.add_eq]
      simp
    | cons seg' segs =>
      have hnext := hnext ('/' :: (['/'].intercalate (seg' :: segs) ++ tail))
      rw [next_slash, List.append_nil] at hnext
      rw [List.intercalate_cons_cons, List.append_assoc, List.append_assoc, List.singleton_append,
        walkFrom]
      split
      next heq =>
      rw [hnext] at heq
      cases heq
      rw [hseg.add_eq]
      simp [ih (by simp) hsegs, List.intercalate_cons_cons]

theorem IsStable.isPiece (h : IsStable seg) (hslash : '/' ∉ seg) : IsPiece seg := by
  refine ⟨h.single, h.double, fun c hc => ⟨?_, ?_⟩⟩
  · have hne : c ≠ '/' := fun he => hslash (he ▸ hc)
    simp [SchemeKind.isSeparator, hne]
  · have hkept := (h.plain c hc).kept
    rw [endsPath, Bool.or_eq_false_iff, beq_eq_false_iff_ne, beq_eq_false_iff_ne]
    constructor <;> rintro rfl <;> exact absurd hkept (by decide)

/-- A settled path is read as it is written. -/
theorem Settled.walkFrom_eq (h : Settled path) (htail : AfterPath tail) (start : List Char) :
    walkFrom .other start (path ++ tail) = (start ++ path, false, tail) := by
  have hpath : ['/'].intercalate (path.splitOn '/') = path := List.intercalate_splitOn '/'
  have hplain : (path.splitOn '/').map (Percent.encode Percent.path) = path.splitOn '/' :=
    (List.map_congr_left fun seg hseg => Percent.encode_of_plain (h seg hseg).plain).trans
      (List.map_id _)
  have hwalk := walkFrom_intercalate (List.splitOn_ne_nil '/' path)
    (fun seg hseg => (h seg hseg).isPiece (not_mem_of_mem_splitOn hseg)) htail start
  rwa [hplain, hpath] at hwalk

end Segments

end ModuleGraph
