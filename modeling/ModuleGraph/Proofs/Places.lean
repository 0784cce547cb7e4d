import ModuleGraph.Disk.Change

/-!
# Where paths lead

On a disk without links a path leads where its names say, or nowhere: a name
goes one directory down, a single dot stays, and two dots go one directory up.
So the place that a path can lead to is known from its text, whatever stands on
the disk. A path that goes on with ordinary names, those that are neither dots
nor hold a slash, can only lead below the place it had before.

Paths are compared by their components, which are the names in order without
single dots, except for one at the start.
-/

namespace ModuleGraph

/-! ## Bytes of a name -/

namespace Utf8

/-- All bytes of a longer character have their highest bit set. -/
theorem toNat_eq_of_mem_utf8EncodeChar {c : Char} {b : UInt8} (hb : b.toNat < 0x80)
    (h : b ∈ String.utf8EncodeChar c) : c.toNat = b.toNat := by
  have hbyte : ∀ n, b = UInt8.ofNat n → n % 256 = b.toNat := by
    rintro n rfl
    exact UInt8.toNat_ofNat'.symm
  have hval : c.toNat = c.val.toNat := rfl
  simp only [String.utf8EncodeChar] at h
  split at h
  · have := hbyte _ (List.mem_singleton.1 h)
    omega
  · split at h
    · simp only [List.mem_cons, List.not_mem_nil, or_false] at h
      rcases h with h | h <;> exact absurd (hbyte _ h) (by omega)
    · split at h
      · simp only [List.mem_cons, List.not_mem_nil, or_false] at h
        rcases h with h | h | h <;> exact absurd (hbyte _ h) (by omega)
      · simp only [List.mem_cons, List.not_mem_nil, or_false] at h
        rcases h with h | h | h | h <;> exact absurd (hbyte _ h) (by omega)

theorem mem_utf8EncodeChar_slash {c : Char} : slashByte ∈ String.utf8EncodeChar c ↔ c = '/' := by
  constructor
  · intro h
    have hnat := toNat_eq_of_mem_utf8EncodeChar (by decide) h
    rw [Char.ext_iff, ← UInt32.toNat_inj]
    exact hnat
  · rintro rfl
    decide

theorem encode_injective : Function.Injective encode := by
  intro cs ds h
  have hbytes : cs.utf8Encode = ds.utf8Encode := congrArg List.toByteArray h
  rwa [← String.toByteArray_ofList, ← String.toByteArray_ofList, String.toByteArray_inj,
    String.ofList_inj] at hbytes

end Utf8

namespace DiskPath

theorem ofString_injective : Function.Injective ofString := fun _ _ h =>
  String.toList_inj.1 (Utf8.encode_injective h)

theorem slashByte_mem_ofString {name : String} :
    slashByte ∈ ofString name ↔ '/' ∈ name.toList := by
  rw [ofString, Utf8.bytesOf, Utf8.encode, List.mem_flatMap]
  simp only [Utf8.mem_utf8EncodeChar_slash, exists_eq_right]

/-! ## Names of a path -/

/-- A text that is one name of a path, if perhaps dots. -/
structure IsName (name : String) : Prop where
  ne_empty : name ≠ ""
  no_slash : '/' ∉ name.toList

/-- A name that stands for one step down. -/
structure IsOrdinary (name : String) : Prop extends IsName name where
  ne_dot : name ≠ "."
  ne_dots : name ≠ ".."

variable {base : DiskPath} {name : String} {rest : List String}

theorem names_append_slash (p q : DiskPath) :
    DiskPath.names (p ++ slashByte :: q) = p.names ++ DiskPath.names q := by
  rw [DiskPath.names, List.splitOn_append_cons_self, List.filter_append]
  rfl

theorem names_nil : DiskPath.names [] = [] := by decide

theorem IsName.ofString_ne_nil (h : IsName name) : ofString name ≠ [] := fun hnil =>
  h.ne_empty (ofString_injective hnil)

theorem IsName.names (h : IsName name) : DiskPath.names (ofString name) = [ofString name] := by
  have hslash : slashByte ∉ ofString name := fun hmem =>
    h.no_slash (slashByte_mem_ofString.1 hmem)
  rw [DiskPath.names, List.splitOn_eq_singleton hslash]
  simp [h.ofString_ne_nil]

theorem IsName.isAbsolute (h : IsName name) : isAbsolute (ofString name) = false := by
  rw [DiskPath.isAbsolute, beq_eq_false_iff_ne]
  intro hhead
  exact h.no_slash (slashByte_mem_ofString.1 (List.mem_of_mem_head? hhead))

/-- A name joined to a path is the path's last name. -/
theorem IsName.names_join (h : IsName name) :
    (base.join (ofString name)).names = base.names ++ [ofString name] := by
  rw [join, h.isAbsolute, if_neg Bool.false_ne_true]
  split
  · next hend =>
    rcases List.eq_nil_or_concat base with rfl | ⟨front, last, hbase⟩
    · rw [List.nil_append, names_nil, List.nil_append, h.names]
    · rw [List.concat_eq_append] at hbase
      subst hbase
      obtain rfl : last = slashByte := by simpa using hend
      rw [List.append_assoc, List.singleton_append, names_append_slash, names_append_slash,
        names_nil, List.append_nil, h.names]
  · rw [names_append_slash, h.names]

theorem IsName.isAbsolute_join (h : IsName name) :
    (base.join (ofString name)).isAbsolute = base.isAbsolute := by
  rw [join, h.isAbsolute, if_neg Bool.false_ne_true]
  cases base with
  | nil => exact h.isAbsolute
  | cons b base => split <;> rfl

/-- Names joined to a path one after the other. -/
def joinAll (base : DiskPath) (rest : List String) : DiskPath :=
  rest.foldl (fun p name => p.join (ofString name)) base

theorem names_joinAll (base : DiskPath) (h : ∀ name ∈ rest, IsName name) :
    (base.joinAll rest).names = base.names ++ rest.map ofString ∧
      (base.joinAll rest).isAbsolute = base.isAbsolute := by
  induction rest generalizing base with
  | nil => simp [joinAll]
  | cons name rest ih =>
    have hname := h name (List.mem_cons_self ..)
    obtain ⟨hnames, habsolute⟩ := ih (base.join (ofString name))
      fun n hn => h n (List.mem_cons_of_mem _ hn)
    rw [hname.names_join] at hnames
    rw [hname.isAbsolute_join] at habsolute
    exact ⟨hnames.trans (by simp), habsolute⟩

/-! ## Paths as they are compared -/

/-- The names of a text that say something. -/
def spoken (p : DiskPath) : List (List UInt8) :=
  (p.splitOn slashByte).filter (!isSilent ·)

/-- A path as it is compared with others: its start, and the names after it that say something. -/
def components (p : DiskPath) : DiskPath × List (List UInt8) :=
  (p.anchor, spoken (p.drop p.anchor.length))

theorem spoken_append_slash (p q : DiskPath) :
    spoken (p ++ slashByte :: q) = spoken p ++ spoken q := by
  rw [spoken, List.splitOn_append_cons_self, List.filter_append]
  rfl

theorem spoken_nil : spoken [] = [] := by decide

theorem IsName.spoken (h : IsName name) :
    DiskPath.spoken (ofString name) = [ofString name].filter (!isSilent ·) := by
  have hslash : slashByte ∉ ofString name := fun hmem =>
    h.no_slash (slashByte_mem_ofString.1 hmem)
  rw [DiskPath.spoken, List.splitOn_eq_singleton hslash]

theorem length_anchor_le (p : DiskPath) : p.anchor.length ≤ p.length := by
  unfold anchor
  split
  · simp
  · split
    · simp
    · split <;> simp

/-- What follows a slash does not change where a path starts. -/
theorem anchor_append_slash (hbase : base ≠ []) (q : DiskPath) :
    anchor (base ++ slashByte :: q) = anchor base := by
  obtain ⟨b, rest, rfl⟩ := List.exists_cons_of_ne_nil hbase
  rw [List.cons_append, anchor, anchor]
  cases rest <;> simp

theorem components_append_slash (hbase : base ≠ []) (q : DiskPath) :
    components (base ++ slashByte :: q) =
      (base.anchor, base.components.2 ++ spoken q) := by
  rw [components, anchor_append_slash hbase, List.drop_append_of_le_length (length_anchor_le base),
    spoken_append_slash, components]

/-- A name joined to a path is compared after the path's names, unless it is a dot. -/
theorem IsName.components_join (h : IsName name) (hbase : base ≠ []) :
    (base.join (ofString name)).components =
      (base.anchor, base.components.2 ++ [ofString name].filter (!isSilent ·)) := by
  rw [join, h.isAbsolute, if_neg Bool.false_ne_true, ← h.spoken]
  split
  · next hend =>
    obtain ⟨front, hfront⟩ : ∃ front, base = front ++ [slashByte] := by
      simpa [List.getLast?_eq_some_iff, hbase] using hend
    subst hfront
    rw [List.append_assoc, List.singleton_append]
    by_cases hroot : front = []
    · subst hroot
      rfl
    · rw [components_append_slash hroot, components_append_slash hroot,
        anchor_append_slash hroot, spoken_nil, List.append_nil]
  · exact components_append_slash hbase _

theorem join_ne_nil (base : DiskPath) (h : IsName name) : base.join (ofString name) ≠ [] := by
  intro hnil
  have hnames : (base.join (ofString name)).names = base.names ++ [ofString name] := h.names_join
  rw [hnil, names_nil] at hnames
  simp at hnames

theorem components_joinAll (h : ∀ name ∈ rest, IsName name) (hbase : base ≠ []) :
    (base.joinAll rest).components =
      (base.anchor, base.components.2 ++ (rest.map ofString).filter (!isSilent ·)) := by
  induction rest generalizing base with
  | nil => simp [joinAll, components]
  | cons name rest ih =>
    have hname := h name (List.mem_cons_self ..)
    have hjoin := hname.components_join hbase
    have hanchor : (base.join (ofString name)).anchor = base.anchor := congrArg Prod.fst hjoin
    have hrest := ih (fun n hn => h n (List.mem_cons_of_mem _ hn)) (join_ne_nil base hname)
    rw [hanchor, hjoin, List.append_assoc, ← List.filter_append] at hrest
    exact hrest

end DiskPath

/-! ## Places -/

namespace Disk

variable {d : Disk} {here cwd q : Place} {p : DiskPath} {name : List UInt8}
  {rest : List (List UInt8)}

/-- Where a name leads from a place. -/
def go (here : Place) (name : List UInt8) : Place :=
  if name = [DiskPath.dotByte] then here
  else if name = [DiskPath.dotByte, DiskPath.dotByte] then here.dropLast
  else here ++ [name]

/-- The one place that a path can lead to. -/
def place (cwd : Place) (p : DiskPath) : Place :=
  p.names.foldl go (origin cwd p)

theorem walk_eq (h : d.walk here rest = .ok q) : q = rest.foldl go here := by
  induction rest generalizing here with
  | nil =>
    rw [walk] at h
    exact (Except.ok.inj h).symm
  | cons name rest ih =>
    rw [walk] at h
    rw [List.foldl_cons, go]
    split at h
    · cases h
    · split at h
      · next hdot =>
        rw [if_pos hdot]
        exact ih h
      · next hdot =>
        rw [if_neg hdot]
        split at h
        · next hdots =>
          rw [if_pos hdots]
          exact ih h
        · next hdots =>
          rw [if_neg hdots]
          split at h
          · cases h
          · split at h
            · exact ih h
            · cases h

theorem find_eq (h : d.find cwd p = .ok q) : q = place cwd p := by
  rw [find] at h
  cases hcheck : checkPath p with
  | error e => rw [hcheck] at h; cases h
  | ok _ =>
    cases hwalk : d.walk (origin cwd p) p.names with
    | error e => rw [hcheck, hwalk] at h; cases h
    | ok found =>
      rw [hcheck, hwalk] at h
      have hfound := walk_eq hwalk
      simp only [bind, Except.bind, pure, Except.pure] at h
      split at h
      · cases h
      · cases h
        exact hfound

theorem placeFor_eq (h : d.placeFor cwd p = .ok q) : q = place cwd p := by
  rw [placeFor] at h
  cases hcheck : checkPath p with
  | error e => rw [hcheck] at h; cases h
  | ok _ =>
    cases hwalk : d.walk (origin cwd p) p.names.dropLast with
    | error e => rw [hcheck, hwalk] at h; cases h
    | ok dir =>
      rw [hcheck, hwalk] at h
      simp only [bind, Except.bind, pure, Except.pure] at h
      split at h
      · cases h
      · split at h
        · cases h
        · next name hlast =>
          split at h
          · cases h
          · next hdots =>
            split at h
            · cases h
            · cases h
              obtain ⟨front, hfront⟩ := List.getLast?_eq_some_iff.1 hlast
              rw [hfront, List.dropLast_concat] at hwalk
              simp only [Bool.or_eq_true, decide_eq_true_eq, not_or] at hdots
              rw [place, hfront, List.foldl_append, ← walk_eq hwalk, List.foldl_cons, go,
                if_neg hdots.1, if_neg hdots.2, List.foldl_nil]

end Disk

/-! ## Places of joined paths -/

namespace DiskPath

open Disk

variable {base : DiskPath} {cwd : Place} {name : String} {rest : List String}

theorem IsName.place_join (h : IsName name) :
    place cwd (base.join (ofString name)) = go (place cwd base) (ofString name) := by
  rw [place, origin, h.isAbsolute_join, h.names_join, List.foldl_append]
  rfl

theorem place_joinAll (h : ∀ name ∈ rest, IsName name) :
    place cwd (base.joinAll rest) = (rest.map ofString).foldl go (place cwd base) := by
  obtain ⟨hnames, habsolute⟩ := names_joinAll base h
  rw [place, origin, habsolute, hnames, List.foldl_append]
  rfl

theorem IsOrdinary.ofString_ne_dot (h : IsOrdinary name) : ofString name ≠ [dotByte] := fun he =>
  h.ne_dot (ofString_injective (he.trans (by decide : _ = ofString ".")))

theorem IsOrdinary.ofString_ne_dots (h : IsOrdinary name) :
    ofString name ≠ [dotByte, dotByte] := fun he =>
  h.ne_dots (ofString_injective (he.trans (by decide : _ = ofString "..")))

theorem IsOrdinary.go (h : IsOrdinary name) (here : Place) :
    Disk.go here (ofString name) = here ++ [ofString name] := by
  rw [Disk.go, if_neg h.ofString_ne_dot, if_neg h.ofString_ne_dots]

theorem foldl_go (h : ∀ name ∈ rest, IsOrdinary name) (here : Place) :
    (rest.map ofString).foldl Disk.go here = here ++ rest.map ofString := by
  induction rest generalizing here with
  | nil => simp
  | cons name rest ih =>
    rw [List.map_cons, List.foldl_cons, (h name (List.mem_cons_self ..)).go,
      ih fun n hn => h n (List.mem_cons_of_mem _ hn)]
    simp

/-- Ordinary names lead down. -/
theorem place_joinAll_of_ordinary (h : ∀ name ∈ rest, IsOrdinary name) :
    place cwd (base.joinAll rest) = place cwd base ++ rest.map ofString := by
  rw [place_joinAll fun n hn => (h n hn).toIsName, foldl_go h]

end DiskPath

end ModuleGraph
