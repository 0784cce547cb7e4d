import ModuleGraph.Proofs.Interrupted
import ModuleGraph.Proofs.Storing

/-!
# Ways to a directory of the cache

Paths with different names can lead to one directory of the cache: a registry
that is a dot stays with all artifacts, and one that is two dots leaves them. All
of these paths pass through the cache and through its directory of artifacts, and
from the cache on they go down by the same names (`exists_way`). So where one of
them leads to the directory on a disk, every other does (`Leads.of_home`).

An entry file that stands in the directory is then found under each of these
paths, except under one that is refused for its text (`Leads.isFile`). No file
beside it can be written under such a path either, because the entry file has
the shortest name (`checkPath_join`).
-/

namespace ModuleGraph

open DiskPath (IsName IsOrdinary ofString)
open Disk (place origin)

/-! ## Paths that are refused for their texts -/

namespace Disk

variable {d d' : Disk} {cwd q : Place} {p base : DiskPath} {bytes : List UInt8}
  {name more : String}

theorem checkPath_eq_ok_iff : checkPath p = .ok () ↔ 0 ∉ p ∧ p ≠ [] ∧ p.length < maxPath := by
  rw [checkPath]
  split
  · next h => simpa using fun hzero => absurd (List.contains_iff_mem.1 h) hzero
  · next h =>
    have hzero : 0 ∉ p := fun hmem => h (List.contains_iff_mem.2 hmem)
    split
    · next hnil => simp [List.isEmpty_iff.1 hnil]
    · next hne =>
      rw [List.isEmpty_iff] at hne
      split
      · next hlong => simp; omega
      · next hshort => simp [hzero, hne]; omega

theorem checkPath_of_placeFor (h : d.placeFor cwd p = .ok q) : checkPath p = .ok () := by
  rw [placeFor] at h
  cases hcheck : checkPath p with
  | error e => rw [hcheck] at h; cases h
  | ok u => rfl

theorem parent_of_placeFor (h : d.placeFor cwd p = .ok q) : ∃ dir,
    d.walk (origin cwd p) p.names.dropLast = .ok dir ∧ d.isDirectory dir = true := by
  rw [placeFor, checkPath_of_placeFor h] at h
  cases hwalk : d.walk (origin cwd p) p.names.dropLast with
  | error e => rw [hwalk] at h; cases h
  | ok dir =>
    rw [hwalk] at h
    simp only [bind, Except.bind] at h
    split at h
    · cases h
    · next hthere => exact ⟨dir, rfl, by simpa using hthere⟩

theorem checkPath_of_write (h : d.write cwd p bytes = .ok d') : checkPath p = .ok () := by
  rw [write] at h
  cases hplace : d.placeFor cwd p with
  | error e => rw [hplace] at h; cases h
  | ok place => exact checkPath_of_placeFor hplace

/-- A path with the slash that parts it from a name. -/
def withSlash (base : DiskPath) : DiskPath :=
  if base.isEmpty || base.getLast? == some slashByte then base else base ++ [slashByte]

theorem join_eq (hname : IsName name) :
    base.join (ofString name) = withSlash base ++ ofString name := by
  rw [DiskPath.join, hname.isAbsolute, if_neg Bool.false_ne_true, withSlash]
  split
  · rfl
  · rw [List.append_assoc, List.singleton_append]

/-- A path that is not refused is not refused with a shorter name at its end either. -/
theorem checkPath_join (hname : IsName name) (hmore : IsName more) (hzero : 0 ∉ ofString name)
    (hlength : (ofString name).length ≤ (ofString more).length)
    (h : checkPath (base.join (ofString more)) = .ok ()) :
    checkPath (base.join (ofString name)) = .ok () := by
  rw [checkPath_eq_ok_iff, join_eq hmore, List.mem_append, not_or, List.length_append] at h
  rw [checkPath_eq_ok_iff, join_eq hname, List.mem_append, not_or, List.length_append]
  have hne : withSlash base ++ ofString name ≠ [] := by simp [hname.ofString_ne_nil]
  exact ⟨⟨h.1.1, hzero⟩, hne, by omega⟩

theorem not_meansDirectory_join (hname : IsName name) :
    meansDirectory (base.join (ofString name)) = false := by
  obtain hnil | ⟨front, last, hlast⟩ := List.eq_nil_or_concat (ofString name)
  · exact absurd hnil hname.ofString_ne_nil
  · have hslash : last ≠ slashByte := fun h => by
      have hmem : slashByte ∈ ofString name := by simp [hlast, h]
      exact hname.no_slash (DiskPath.slashByte_mem_ofString.1 hmem)
    rw [meansDirectory, join_eq hname, hlast, List.concat_eq_append, ← List.append_assoc,
      List.getLast?_concat]
    simpa using hslash

end Disk

/-! ## Ways down from the cache -/

namespace Cache

variable {cache : DiskPath} {cwd dir q : Place} {r a b : OciReference} {d d' : Disk}
  {bytes : List UInt8} {name : String} {touched : Place → Prop}

/-- The name of the directory of artifacts in the cache. -/
def artifactsName : String := "oci"

theorem isOrdinary_artifactsName : IsOrdinary artifactsName :=
  isOrdinary_of_mem (c := 'o') (by decide) (by decide) (by decide)

/-- The directory of artifacts. -/
def artifacts (cache : DiskPath) (cwd : Place) : Place :=
  place cwd cache ++ [ofString artifactsName]

theorem directory_eq_joinAll :
    directory cache r = (cache.join (ofString artifactsName)).joinAll (directoryNames r) := rfl

theorem names_directory (h : r.WellFormed) : (directory cache r).names =
    cache.names ++ ofString artifactsName :: (directoryNames r).map ofString := by
  rw [directory_eq_joinAll, (DiskPath.names_joinAll _ (isName_directoryNames h)).1,
    isOrdinary_artifactsName.toIsName.names_join, List.append_assoc, List.singleton_append]

theorem origin_directory (h : r.WellFormed) :
    origin cwd (directory cache r) = origin cwd cache := by
  rw [origin, origin, directory_eq_joinAll, (DiskPath.names_joinAll _ (isName_directoryNames h)).2,
    isOrdinary_artifactsName.toIsName.isAbsolute_join]

theorem home_eq (h : r.WellFormed) : home cache cwd r =
    ((directoryNames r).map ofString).foldl Disk.go (artifacts cache cwd) := by
  rw [home, directory_eq_joinAll, DiskPath.place_joinAll (isName_directoryNames h),
    isOrdinary_artifactsName.toIsName.place_join, isOrdinary_artifactsName.go, artifacts]

/-- The names below a registry's directory. -/
def belowRegistry (r : OciReference) : List String :=
  r.segments ++ [r.tag ++ "$"]

theorem isOrdinary_belowRegistry (h : r.WellFormed) :
    ∀ name ∈ belowRegistry r, IsOrdinary name := by
  intro name hname
  rw [belowRegistry, List.mem_append, List.mem_singleton] at hname
  rcases hname with hsegment | rfl
  · exact h.segments name hsegment
  · exact isOrdinary_tag h

/-- The cache and its directory of artifacts are there. -/
structure HasArtifacts (cache : DiskPath) (cwd : Place) (d : Disk) : Prop where
  root : d.isDirectory (place cwd cache) = true
  inner : d.isDirectory (artifacts cache cwd) = true

theorem HasArtifacts.walk_iff (h : HasArtifacts cache cwd d) {names : List (List UInt8)} :
    d.walk (place cwd cache) (ofString artifactsName :: names) = .ok q ↔
      d.walk (artifacts cache cwd) names = .ok q := by
  have hthere := h.inner
  rw [Disk.isDirectory_iff, artifacts] at hthere
  rw [Disk.walk_cons_eq_ok isOrdinary_artifactsName.ofString_ne_dot
    isOrdinary_artifactsName.ofString_ne_dots, hthere]
  exact ⟨fun hwalk => hwalk.2.2.2, fun hwalk => ⟨h.root, by decide, rfl, hwalk⟩⟩

/-- The names by which the way to a directory goes down from the cache. -/
theorem exists_way (hr : r.WellFormed) : ∃ names : List String,
    home cache cwd r = place cwd cache ++ names.map ofString ∧
      ∀ d q, HasArtifacts cache cwd d →
        (d.walk (artifacts cache cwd) ((directoryNames r).map ofString) = .ok q ↔
          d.walk (place cwd cache) (names.map ofString) = .ok q) := by
  have hnames : (directoryNames r).map ofString =
    ofString (registryName r.registry) :: (belowRegistry r).map ofString := rfl
  have hbelow := DiskPath.foldl_go (isOrdinary_belowRegistry hr)
  rw [home_eq hr, hnames, List.foldl_cons]
  by_cases hdot : r.registry = "."
  · -- stays with the artifacts
    have hname : ofString (registryName r.registry) = [DiskPath.dotByte] := by
      rw [(registryName_eq_iff (by simp)).2 hdot]
      decide
    refine ⟨artifactsName :: belowRegistry r, ?_, fun d q hd => ?_⟩
    · rw [hname, Disk.go, if_pos rfl, hbelow, artifacts, List.append_assoc]
      rfl
    · rw [List.map_cons, hd.walk_iff, hname, Disk.walk, hd.inner]
      rfl
  by_cases hdots : r.registry = ".."
  · -- leaves the artifacts
    have hname : ofString (registryName r.registry) = [DiskPath.dotByte, DiskPath.dotByte] := by
      rw [(registryName_eq_iff (by simp)).2 hdots]
      decide
    have hup : (artifacts cache cwd).dropLast = place cwd cache := List.dropLast_concat
    refine ⟨belowRegistry r, ?_, fun d q hd => ?_⟩
    · rw [hname, Disk.go, if_neg (by decide), if_pos rfl, hup, hbelow]
    · rw [hname, Disk.walk, hd.inner, if_neg (by decide), if_neg (by decide), if_pos rfl, hup]
  · have hregistry := (isOrdinary_registryName_iff hr.registry).2 ⟨hdot, hdots⟩
    refine ⟨artifactsName :: directoryNames r, ?_, fun d q hd => ?_⟩
    · rw [hregistry.go, hbelow, artifacts, List.append_assoc, List.append_assoc]
      rfl
    · rw [List.map_cons, hd.walk_iff, hnames]

/-- The path of a directory leads there. -/
structure Leads (cache : DiskPath) (cwd : Place) (r : OciReference) (d : Disk) : Prop where
  walk : d.walk (origin cwd (directory cache r)) (directory cache r).names =
    .ok (home cache cwd r)
  there : d.isDirectory (home cache cwd r) = true

namespace Leads

theorem within (h : Leads cache cwd r d) (hwithin : Disk.Within touched d d') :
    Leads cache cwd r d' :=
  ⟨Disk.walk_within h.walk h.there hwithin, hwithin.directories _ h.there⟩

/-- The path passes through the cache and its artifacts. -/
theorem iff_hasArtifacts (hr : r.WellFormed) : Leads cache cwd r d ↔
    d.walk (origin cwd cache) cache.names = .ok (place cwd cache) ∧ HasArtifacts cache cwd d ∧
      d.walk (artifacts cache cwd) ((directoryNames r).map ofString) = .ok (home cache cwd r) ∧
      d.isDirectory (home cache cwd r) = true := by
  constructor
  · rintro ⟨hwalk, hthere⟩
    rw [origin_directory hr, names_directory hr, Disk.walk_append_eq_ok] at hwalk
    obtain ⟨middle, hmiddle, hdown⟩ := hwalk
    obtain rfl : middle = place cwd cache := Disk.walk_eq hmiddle
    have hcache := Disk.isDirectory_of_walk hdown hthere
    rw [Disk.walk_cons_eq_ok isOrdinary_artifactsName.ofString_ne_dot
      isOrdinary_artifactsName.ofString_ne_dots] at hdown
    have hrest := hdown.2.2.2
    exact ⟨hmiddle, ⟨hcache, Disk.isDirectory_of_walk hrest hthere⟩, hrest, hthere⟩
  · rintro ⟨hmiddle, hd, hdown, hthere⟩
    refine ⟨?_, hthere⟩
    rw [origin_directory hr, names_directory hr, Disk.walk_append_eq_ok]
    exact ⟨_, hmiddle, hd.walk_iff.2 hdown⟩

/-- If one path leads to a directory, so do all. -/
theorem of_home (ha : a.WellFormed) (hb : b.WellFormed)
    (hhome : home cache cwd a = home cache cwd b) (h : Leads cache cwd a d) :
    Leads cache cwd b d := by
  obtain ⟨hmiddle, hd, hdown, hthere⟩ := (iff_hasArtifacts ha).1 h
  obtain ⟨names, hnames, hway⟩ := @exists_way cache cwd a ha
  obtain ⟨names', hnames', hway'⟩ := @exists_way cache cwd b hb
  have hsame : names.map ofString = names'.map ofString :=
    List.append_cancel_left (hnames.symm.trans (hhome.trans hnames'))
  rw [hway d _ hd, hsame, ← hway' d _ hd] at hdown
  rw [hhome] at hdown hthere
  exact (iff_hasArtifacts hb).2 ⟨hmiddle, hd, hdown, hthere⟩

/-- An entry file that is there is found, unless its path is refused. -/
theorem isFile (h : Leads cache cwd r d)
    (hfile : d.file? (home cache cwd r ++ [ofString entryName]) = some bytes)
    (hcheck : Disk.checkPath (entryPath cache r) = .ok ()) :
    d.isFile cwd (entryPath cache r) = true := by
  have hnode := Disk.file?_eq_some_iff.1 hfile
  have hwalk : d.walk (origin cwd (entryPath cache r)) (entryPath cache r).names =
      .ok (home cache cwd r ++ [ofString entryName]) := by
    rw [entryPath, origin, isOrdinary_entryName.toIsName.isAbsolute_join,
      isOrdinary_entryName.toIsName.names_join, Disk.walk_append_eq_ok]
    refine ⟨_, h.walk, ?_⟩
    rw [Disk.walk_cons_eq_ok isOrdinary_entryName.ofString_ne_dot
      isOrdinary_entryName.ofString_ne_dots, hnode]
    exact ⟨h.there, by decide, rfl, rfl⟩
  have hfind : d.find cwd (entryPath cache r) =
      .ok (home cache cwd r ++ [ofString entryName]) := by
    rw [Disk.find, hcheck, hwalk, entryPath,
      Disk.not_meansDirectory_join isOrdinary_entryName.toIsName]
    rfl
  rw [Disk.isFile, Disk.readBytes, hfind]
  simp only [bind, Except.bind, hnode]
  rfl

end Leads

end Cache

end ModuleGraph
