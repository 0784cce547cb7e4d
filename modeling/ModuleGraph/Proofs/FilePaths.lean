import ModuleGraph.Proofs.ReadingBack
import ModuleGraph.Proofs.Ways
import ModuleGraph.Disk.Reading

/-!
# URLs of files

A path on this machine becomes a URL by its names, each encoded as a segment of the URL's
path; what the path says by repeated separators and by dots is left out. Read back, the URL
gives the path of the same names, which finds the file that the first path finds
(`Disk.find_pathOf`). Only a path that ends like the name of a drive comes back with a separator
more (`Url.toFilePath?_ofPlace`).
-/

namespace ModuleGraph

/-- A list of texts, each after a separator, is a separator and the texts with separators
between. -/
theorem flatMap_cons_eq {α : Type} (x : α) {ls : List (List α)} (hne : ls ≠ []) :
    ls.flatMap (x :: ·) = x :: [x].intercalate ls := by
  induction ls with
  | nil => exact absurd rfl hne
  | cons l ls ih =>
    cases ls with
    | nil => simp
    | cons m ms =>
      rw [List.flatMap_cons, ih (List.cons_ne_nil m ms), List.intercalate_cons_cons]
      simp

/-! ## Names as segments -/

namespace Percent

variable {reserved : Char → Bool} {c : Char} {bs : List UInt8}

/-- A reserved character is not in an encoded name, unless encoding writes it. -/
theorem not_mem_encodeBytes (hreserved : reserved c = true) (hsign : c ≠ '%')
    (hplain : c.isAlphanum = false) : c ∉ encodeBytes reserved bs := by
  intro h
  obtain ⟨b, -, hb⟩ := List.mem_flatMap.1 h
  simp only [encodeByte] at hb
  split at hb
  · rcases eq_or_isAlphanum_of_mem_triple hb with rfl | halpha
    · exact hsign rfl
    · rw [hplain] at halpha
      cases halpha
  · next hkept =>
    obtain rfl := List.mem_singleton.1 hb
    rw [hreserved, Bool.or_true] at hkept
    exact hkept rfl

end Percent

/-- The path of a URL whose segments are the names of a place. -/
def pathText (place : Place) : List Char :=
  if place.isEmpty then ['/'] else place.flatMap ('/' :: Percent.encodeBytes Percent.fileName ·)

theorem pathText_of_ne_nil {place : Place} (hne : place ≠ []) :
    pathText place =
      '/' :: ['/'].intercalate (place.map (Percent.encodeBytes Percent.fileName)) := by
  rw [pathText, if_neg (by simpa using hne), ← flatMap_cons_eq '/' (by simpa using hne),
    List.flatMap_map]

theorem head?_pathText (place : Place) : (pathText place).head? = some '/' := by
  by_cases hne : place = []
  · rw [hne]
    rfl
  · rw [pathText_of_ne_nil hne]
    rfl

theorem endsPath_of_mem_pathText {place : Place} {c : Char} (h : c ∈ pathText place) :
    endsPath c = false := by
  rw [pathText] at h
  split at h
  · rw [List.mem_singleton.1 h]
    decide
  · obtain ⟨name, -, hc⟩ := List.mem_flatMap.1 h
    rcases List.mem_cons.1 hc with rfl | hc
    · decide
    · rw [endsPath, Bool.or_eq_false_iff, beq_eq_false_iff_ne, beq_eq_false_iff_ne]
      constructor <;> rintro rfl <;>
        exact Percent.not_mem_encodeBytes (by decide) (by decide) (by decide) hc

/-! ## The URL of a path -/

/-- The parts of a URL that is nothing but a path on this machine. -/
def UrlParts.ofPath (cs : List Char) : UrlParts :=
  ⟨"file", some ⟨"", none, "", none⟩, String.ofList cs, none, none⟩

namespace Url

variable {cs : List Char} {p q : DiskPath} {place : Place}

theorem parts_ofPath (hhead : cs.head? = some '/') (hplain : ∀ c ∈ cs, endsPath c = false) :
    (ofParts (.ofPath cs)).parts = .ofPath cs := by
  obtain ⟨rest, rfl⟩ := List.head?_eq_some_iff.1 hhead
  have htext : (ofParts (.ofPath ('/' :: rest))).text.toList =
      ['f', 'i', 'l', 'e'] ++ ':' :: '/' :: '/' :: '/' :: rest := by
    simp [ofParts, UrlParts.render, UrlParts.ofPath, Authority.render]
  have hscheme : cutAt (· == ':') (ofParts (.ofPath ('/' :: rest))).text.toList =
      (['f', 'i', 'l', 'e'], ':' :: '/' :: '/' :: '/' :: rest) :=
    cutAt_eq_iff.2 ⟨htext, by simp, by simp⟩
  have hend (stop : Char → Bool) (hstop : ∀ c, stop c = true → endsPath c = true) :
      cutAt stop ('/' :: '/' :: '/' :: rest) = ('/' :: '/' :: '/' :: rest, []) := by
    refine cutAt_eq_iff.2 ⟨(List.append_nil _).symm, fun c hc => ?_, by simp⟩
    rw [← Bool.not_eq_true]
    intro hc'
    have hends := hstop c hc'
    rw [hplain c (by simpa using hc)] at hends
    cases hends
  have hbody : (':' :: '/' :: '/' :: '/' :: rest).drop 1 = '/' :: '/' :: '/' :: rest := rfl
  rw [parts, UrlParts.ofText, hscheme]
  dsimp only
  rw [hbody, hend (· == '#') (by simp [endsPath])]
  dsimp only
  rw [hend (· == '?') (by simp [endsPath])]
  rfl

/-- The URL of the file at a place. -/
def ofPlace (place : Place) : Url :=
  ofParts (.ofPath (pathText place))

theorem parts_ofPlace (place : Place) : (ofPlace place).parts = .ofPath (pathText place) :=
  parts_ofPath (head?_pathText place) fun _ hc => endsPath_of_mem_pathText hc

theorem scheme_ofPlace (place : Place) : (ofPlace place).scheme = "file" := by
  rw [scheme, parts_ofPlace]
  rfl

theorem ofFilePath?_eq (h : p.isAbsolute = true) :
    ofFilePath? p = some (ofPlace (pathComponents p)) := by
  have htext : (if (((pathComponents p).map (Percent.encodeBytes Percent.fileName)).flatMap
      ('/' :: ·)).isEmpty then ['/'] else ((pathComponents p).map
        (Percent.encodeBytes Percent.fileName)).flatMap ('/' :: ·)) =
      pathText (pathComponents p) := by
    rw [pathText, List.flatMap_map]
    cases pathComponents p <;> rfl
  rw [DiskPath.isAbsolute] at h
  rw [ofFilePath?, if_pos h]
  dsimp only
  rw [htext]
  rfl

/-- Bytes that end with a letter and a colon are a directory's, as it were. -/
def closeDrive (bytes : List UInt8) : List UInt8 :=
  if endsWithDrive bytes then bytes ++ [slashByte] else bytes

theorem toFilePath?_ofPath (hhead : cs.head? = some '/') (hplain : ∀ c ∈ cs, endsPath c = false) :
    (ofParts (.ofPath cs)).toFilePath? =
      some (closeDrive (((cs.drop 1).splitOn '/').flatMap (slashByte :: Percent.decode ·))) := by
  rw [toFilePath?, parts_ofPath hhead hplain, filePathOfParts?,
    if_neg (by simp [UrlParts.ofPath, UrlParts.hasOpaquePath])]
  simp only [UrlParts.ofPath, String.toList_ofList]
  rfl

theorem toFilePath?_ofPlace (place : Place) :
    (ofPlace place).toFilePath? = some (closeDrive (Disk.pathOf place)) := by
  have hsegments : ((pathText place).drop 1).splitOn '/' =
      if place = [] then [[]] else place.map (Percent.encodeBytes Percent.fileName) := by
    split
    · next hnil =>
      rw [hnil]
      rfl
    · next hne =>
      rw [pathText_of_ne_nil hne, List.drop_one, List.tail_cons]
      refine List.splitOn_intercalate '/' (fun seg hseg => ?_) (by simpa using hne)
      obtain ⟨name, -, rfl⟩ := List.mem_map.1 hseg
      exact Percent.not_mem_encodeBytes (by decide) (by decide) (by decide)
  have hbytes : (((pathText place).drop 1).splitOn '/').flatMap (slashByte :: Percent.decode ·) =
      Disk.pathOf place := by
    rw [hsegments, Disk.pathOf]
    split
    · next hnil =>
      rw [hnil]
      rfl
    · next hne =>
      rw [if_neg (by simpa using hne), List.flatMap_map]
      congr 1
      funext name
      rw [Percent.decode_encodeBytes (by decide)]
  rw [ofPlace, toFilePath?_ofPath (head?_pathText place) fun c hc => endsPath_of_mem_pathText hc,
    hbytes]

end Url

/-! ## The place that the URL names -/

namespace DiskPath

theorem pathComponents_eq (p : DiskPath) :
    pathComponents p = p.names.filter (· != [dotByte]) := by
  rw [pathComponents, names, List.filter_filter]
  congr 1
  funext name
  rw [Bool.and_comm]
  rfl

end DiskPath

namespace Disk

variable {d : Disk} {cwd here place : Place} {p : DiskPath} {names : List (List UInt8)}

/-- Names that stay where they are can be left out. -/
theorem walk_filter (h : d.walk here names = .ok place) :
    d.walk here (names.filter (· != [DiskPath.dotByte])) = .ok place := by
  induction names generalizing here with
  | nil => exact h
  | cons name names ih =>
    rw [walk] at h
    split at h
    · cases h
    · next hthere =>
      split at h
      · next hdot =>
        rw [hdot, List.filter_cons_of_neg (by simp)]
        exact ih h
      · next hdot =>
        rw [List.filter_cons_of_pos (by simpa using hdot), walk, if_neg hthere, if_neg hdot]
        split at h
        · next hdots =>
          rw [if_pos hdots]
          exact ih h
        · next hdots =>
          rw [if_neg hdots]
          split at h
          · cases h
          · next hshort =>
            rw [if_neg hshort]
            split at h
            · next hsome =>
              rw [if_pos hsome]
              exact ih h
            · cases h

/-- Leaving out names that say nothing leaves out bytes of the path. -/
theorem sublist_pathOf (h : p.isAbsolute = true) : (pathOf (pathComponents p)).Sublist p := by
  obtain ⟨rest, rfl⟩ := List.head?_eq_some_iff.1 (beq_iff_eq.1 h)
  have hsplit : (slashByte :: rest).splitOn slashByte = [] :: rest.splitOn slashByte := by
    have happend := List.splitOn_append_cons_self (a := slashByte) [] rest
    rwa [List.nil_append, List.splitOn_nil, List.singleton_append] at happend
  have hwhole : (rest.splitOn slashByte).flatMap (slashByte :: ·) = slashByte :: rest := by
    rw [flatMap_cons_eq slashByte (List.splitOn_ne_nil slashByte rest), List.intercalate_splitOn]
  rw [pathOf]
  split
  · exact List.singleton_sublist.2 (List.mem_cons_self ..)
  · rw [pathComponents, hsplit, List.filter_cons_of_neg (by simp)]
    conv_rhs => rw [← hwhole]
    exact List.filter_sublist.flatMap _

theorem checkPath_of_sublist {q : DiskPath} (h : q.Sublist p) (hne : q ≠ [])
    (hp : checkPath p = .ok ()) : checkPath q = .ok () := by
  rw [checkPath_eq_ok_iff] at hp ⊢
  exact ⟨fun hmem => hp.1 (h.subset hmem), hne, h.length_le.trans_lt hp.2.2⟩

/-- The names of a place can stand in a path. -/
def Spoken (place : Place) : Prop :=
  ∀ name ∈ place, name ≠ [] ∧ slashByte ∉ name

theorem spoken_pathComponents (p : DiskPath) : Spoken (pathComponents p) := by
  intro name hname
  rw [pathComponents, List.mem_filter, Bool.and_eq_true] at hname
  exact ⟨by simpa using hname.2.1, not_mem_of_mem_splitOn hname.1⟩

theorem pathOf_of_ne_nil (hne : place ≠ []) :
    pathOf place = slashByte :: [slashByte].intercalate place := by
  rw [pathOf, if_neg (by simpa using hne), flatMap_cons_eq slashByte hne]

theorem pathOf_ne_nil (place : Place) : pathOf place ≠ [] := by
  by_cases hne : place = []
  · rw [hne]
    decide
  · rw [pathOf_of_ne_nil hne]
    simp

theorem isAbsolute_pathOf (place : Place) : (pathOf place).isAbsolute = true := by
  by_cases hne : place = []
  · rw [hne]
    rfl
  · rw [pathOf_of_ne_nil hne]
    rfl

theorem names_pathOf (h : Spoken place) : (pathOf place).names = place := by
  by_cases hne : place = []
  · rw [hne]
    decide
  · have hnames := DiskPath.names_append_slash [] ([slashByte].intercalate place)
    rw [List.nil_append, DiskPath.names_nil, List.nil_append] at hnames
    rw [pathOf_of_ne_nil hne, hnames, DiskPath.names,
      List.splitOn_intercalate slashByte (fun name hname => (h name hname).2) hne,
      List.filter_eq_self]
    exact fun name hname => by simpa using (h name hname).1

theorem meansDirectory_pathOf (h : Spoken place) (hne : place ≠ []) :
    meansDirectory (pathOf place) = false := by
  obtain hnil | ⟨front, last, hplace⟩ := List.eq_nil_or_concat place
  · exact absurd hnil hne
  · rw [List.concat_eq_append] at hplace
    subst hplace
    obtain ⟨hlast, hslash⟩ := h last (by simp)
    rw [pathOf, if_neg (by simp), meansDirectory, List.flatMap_append, List.flatMap_singleton,
      List.getLast?_append, List.getLast?_cons, List.getLast?_eq_some_getLast hlast]
    have hend : last.getLast hlast ≠ slashByte := fun he => hslash (he ▸ List.getLast_mem hlast)
    simpa using hend

theorem find_eq_ok_iff : d.find cwd p = .ok place ↔ checkPath p = .ok () ∧
    d.walk (origin cwd p) p.names = .ok place ∧
      (meansDirectory p = true → d.isDirectory place = true) := by
  rw [find]
  cases checkPath p with
  | error e => simp [bind, Except.bind]
  | ok u =>
    cases d.walk (origin cwd p) p.names with
    | error e => simp [bind, Except.bind]
    | ok found =>
      simp only [bind, Except.bind, pure, Except.pure, true_and]
      split
      · next hrefused =>
        rw [Bool.and_eq_true, Bool.not_eq_true'] at hrefused
        constructor
        · intro h
          cases h
        · rintro ⟨hfound, hmeans⟩
          cases hfound
          rw [hmeans hrefused.1] at hrefused
          cases hrefused.2
      · next hkept =>
        rw [Bool.and_eq_true, Bool.not_eq_true', not_and, Bool.not_eq_false] at hkept
        constructor
        · intro h
          cases h
          exact ⟨rfl, hkept⟩
        · exact fun h => h.1

theorem find_of_readBytes {bytes : List UInt8} (h : d.readBytes cwd p = .ok bytes) :
    ∃ place, d.find cwd p = .ok place ∧ d.node? place = some (.file bytes) := by
  have hfile := readBytes_eq h
  rw [readBytes] at h
  cases hfind : d.find cwd p with
  | error e => rw [hfind] at h; cases h
  | ok place =>
    obtain rfl := find_eq hfind
    exact ⟨_, rfl, file?_eq_some_iff.1 hfile⟩

/-- The path that a URL gives back leads to the file that the path leads to. -/
theorem find_pathOf (h : p.isAbsolute = true) (hfind : d.find cwd p = .ok place)
    (hfile : d.isDirectory place = false) :
    d.find cwd (pathOf (pathComponents p)) = .ok place := by
  have hspoken := spoken_pathComponents p
  obtain ⟨hcheck, hwalk, -⟩ := find_eq_ok_iff.1 hfind
  have hsame := walk_filter hwalk
  rw [← DiskPath.pathComponents_eq, origin, if_pos h] at hsame
  rw [find_eq_ok_iff, names_pathOf hspoken, origin, if_pos (isAbsolute_pathOf _)]
  refine ⟨checkPath_of_sublist (sublist_pathOf h) (pathOf_ne_nil _) hcheck, hsame, fun hmeans => ?_⟩
  rw [meansDirectory_pathOf hspoken fun hnil => ?_] at hmeans
  · cases hmeans
  · -- no names lead to the root, which is a directory
    rw [hnil, walk] at hsame
    cases hsame
    cases hfile

end Disk

end ModuleGraph
