import ModuleGraph.Proofs.Storing

/-!
# The cache keeps to its directory

Everything that is stored for an artifact is meant to be stored under
`<cache>/oci`. `Contained` says so of a reference: each name that leads from
there to the artifact's directory is one step down, and the directory, the entry
file, the paths of the steps that store it, and the files that come to the disk
are all further down.

The segments and the tag of an address that was read are always ordinary, and
the registry is unless it is dots (`contained_iff`). Such a registry is read from
an address whose host stands beside an empty user name or an empty port: the
check for dots compares whole segments, and the host is then part of one
(`dots_not_contained`).
-/

namespace ModuleGraph

/-- The paths that a step names. -/
def DiskChange.paths : DiskChange → List DiskPath
  | makeDirectories path => [path]
  | write path _ => [path]
  | rename source target => [source, target]

namespace Cache

open DiskPath (IsName IsOrdinary ofString)
open Disk (Gains place)

variable {cache : DiskPath} {cwd : Place} {r : OciReference} {raw : String}

/-- A place that is further down than another. -/
def Below (top q : Place) : Prop :=
  ∃ names, names ≠ [] ∧ q = top ++ names

/-- The place of all that is in the cache. -/
def top (cache : DiskPath) (cwd : Place) : Place :=
  place cwd (cache.join (ofString "oci"))

/-- What is stored for a reference stays in the directory of the cache. -/
structure Contained (cache : DiskPath) (r : OciReference) : Prop where
  ordinary : ∀ name ∈ directoryNames r, IsOrdinary name
  directory : ∀ cwd, Below (top cache cwd) (place cwd (directory cache r))
  entry : ∀ cwd, Below (top cache cwd) (place cwd (entryPath cache r))
  steps : ∀ cwd processId time a, ∀ c ∈ changes cache processId time r a, ∀ p ∈ c.paths,
    Below (top cache cwd) (place cwd p)
  files : ∀ {τ : Type} (client : ArtifactClient τ) (host : Host τ),
    Gains (fun q _ => Below (top cache host.cwd) q)
      host.disk (restoreOne cache client host r).2.disk

theorem Below.append {top q : Place} (h : Below top q) (name : List UInt8) :
    Below top (q ++ [name]) := by
  obtain ⟨names, -, rfl⟩ := h
  exact ⟨names ++ [name], by simp, by simp⟩

theorem below_directory (h : ∀ name ∈ directoryNames r, IsOrdinary name) :
    Below (top cache cwd) (place cwd (directory cache r)) :=
  ⟨(directoryNames r).map ofString, by simp [directoryNames],
    DiskPath.place_joinAll_of_ordinary h⟩

/-- Each path of a step is that of the directory or of a file right below it. -/
theorem paths_changes {processId time : Nat} {a : Artifact} {c : DiskChange} {p : DiskPath}
    (hc : c ∈ changes cache processId time r a) (hp : p ∈ c.paths) :
    p = directory cache r ∨
      ∃ name, IsOrdinary name ∧ p = (directory cache r).join (ofString name) := by
  simp only [changes, List.mem_cons, List.not_mem_nil, or_false] at hc
  rcases hc with rfl | rfl | rfl | rfl | rfl <;>
    simp only [DiskChange.paths, List.mem_cons, List.not_mem_nil, or_false] at hp
  · exact .inl hp
  · exact .inr ⟨_, isOrdinary_manifestName, hp⟩
  · exact .inr ⟨_, isOrdinary_metadataName, hp⟩
  · exact .inr ⟨_, isOrdinary_temporaryName, hp⟩
  · rcases hp with hp | hp
    · exact .inr ⟨_, isOrdinary_temporaryName, hp⟩
    · exact .inr ⟨_, isOrdinary_entryName, hp⟩

theorem contained_of_ordinary (h : ∀ name ∈ directoryNames r, IsOrdinary name) :
    Contained cache r where
  ordinary := h
  directory _ := below_directory h
  entry cwd := by
    rw [entryPath, place_file isOrdinary_entryName]
    exact (below_directory h).append _
  steps cwd processId time a c hc p hp := by
    rcases paths_changes hc hp with rfl | ⟨name, hname, rfl⟩
    · exact below_directory h
    · rw [place_file hname]
      exact (below_directory h).append _
  files client host := by
    rcases disk_restoreOne with hdisk | ⟨a, remote, -, -, hdisk⟩
    · rw [hdisk]
      exact .refl
    · rw [hdisk]
      refine gains_changes.mono fun q b hq => ?_
      rcases hq with ⟨name, -, rfl⟩ | ⟨rfl, -⟩
      · exact (below_directory h).append _
      · exact (below_directory h).append _

/-- What is stored for a reference that was read is contained unless its registry is dots. -/
theorem contained_iff (h : OciReference.parse raw = .ok r) :
    Contained cache r ↔ r.registry ≠ "." ∧ r.registry ≠ ".." := by
  have hwell := OciReference.wellFormed_of_parse h
  rw [← isOrdinary_directoryNames_iff hwell]
  exact ⟨Contained.ordinary, contained_of_ordinary⟩

end Cache

namespace Sample

open Cache

/-- A directory for the cache. -/
def cache : DiskPath := .ofString "/cache"

theorem parse_plain : OciReference.parse "reg.io/a:v1" = .ok ⟨"reg.io", "/a", "v1"⟩ :=
  OciReference.parse_eq_ok_iff.2 (by decide +kernel)

theorem parse_dots : OciReference.parse "@../a:v1" = .ok ⟨"..", "/a", "v1"⟩ :=
  OciReference.parse_eq_ok_iff.2 (by decide +kernel)

theorem contained_plain : Contained cache ⟨"reg.io", "/a", "v1"⟩ :=
  (contained_iff parse_plain).2 ⟨by decide, by decide⟩

/-- An empty user name lets dots through, and they lead out of the cache. -/
theorem dots_not_contained :
    ¬ ∀ cache raw r, OciReference.parse raw = .ok r → Contained cache r := by
  intro h
  obtain ⟨names, -, hplace⟩ := (h cache _ _ parse_dots).entry []
  have hentry : Disk.place [] (entryPath cache ⟨"..", "/a", "v1"⟩) =
      ["cache", "a", "v1$", "main.json"].map DiskPath.ofString := by decide +kernel
  have htop : top cache [] = ["cache", "oci"].map DiskPath.ofString := by decide +kernel
  rw [hentry, htop] at hplace
  have hsecond := congrArg (fun q => q[1]?) hplace
  exact absurd (DiskPath.ofString_injective (Option.some.inj hsecond)) (by decide)

end Sample

end ModuleGraph
