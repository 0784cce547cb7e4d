import ModuleGraph.Proofs.Containment

/-!
# Which artifacts share a directory

Two references are the same when they differ only in the case of their
registries, and then they have one directory. Two others can have one as well:
the directory's name says `$` for a colon and for itself, leaves out the query
and further slashes at the start of the repository, and dots as a registry lead
elsewhere. `Regular` references do none of this, and among them the directory
tells the reference (`directoryNames_eq_iff_of_regular`).

What is served for a reference is then its own. A run from a cache in which the
entry file is not there yet can only have put it there with a layer that the
client gave for a reference with the same directory, whatever else was fetched
before and after (`Ran.entry`).
-/

namespace ModuleGraph

open DiskPath (IsName IsOrdinary ofString)

/-! ## Reading a directory's names back -/

namespace OciReference

variable {r a b : OciReference}

/-- A reference that its directory tells from all others. -/
structure Regular (r : OciReference) : Prop where
  ne_dot : r.registry ≠ "."
  ne_dots : r.registry ≠ ".."
  no_dollar : '$' ∉ r.registry.toList
  no_query : '?' ∉ r.repository.toList
  one_slash : r.repository.toList[1]? ≠ some '/'

theorem canonical_eq_iff : a.canonical = b.canonical ↔
    a.registry.toList.map Char.toLower = b.registry.toList.map Char.toLower ∧
      a.repository = b.repository ∧ a.tag = b.tag := by
  rw [canonical, canonical, mk.injEq, ← String.toList_map, ← String.toList_map,
    String.toList_inj]

/-- The repository is its segments, each after a slash. -/
theorem Regular.repository_eq (h : r.Regular) (hslash : r.repository.toList.head? = some '/') :
    r.repository.toList = '/' :: ['/'].intercalate (r.segments.map String.toList) := by
  have hwhole : (cutAt (· == '?') r.repository.toList).1 = r.repository.toList := by
    have hcut : (cutAt (· == '?') (r.repository ++ none.elim "" ("?" ++ ·)).toList).1 =
      r.repository.toList := cutAt_question h.no_query
    simpa using hcut
  obtain ⟨rest, hrest⟩ : ∃ rest, r.repository.toList = '/' :: rest := by
    cases hcs : r.repository.toList with
    | nil => rw [hcs] at hslash; cases hslash
    | cons c rest =>
      rw [hcs] at hslash
      obtain rfl := Option.some.inj hslash
      exact ⟨rest, rfl⟩
  have hstart : (r.repository.toList.dropWhile (· == '/')) = rest := by
    have hone := h.one_slash
    rw [hrest] at hone ⊢
    cases rest with
    | nil => rfl
    | cons c rest =>
      have hc : (c == '/') = false := by simpa using hone
      simp [hc]
  rw [segments, hwhole, segmentsOf, hstart, List.map_map, hrest]
  have hid : String.toList ∘ String.ofList = id := funext fun cs => String.toList_ofList
  rw [hid, List.map_id, List.intercalate_splitOn]

end OciReference

namespace Cache

open Disk (Gains place)

variable {τ : Type} {cache : DiskPath} {cwd : Place} {r a b : OciReference}
  {client : ArtifactClient τ} {host h₀ h : Host τ} {registry : String}

/-- Reads a registry's name back. -/
theorem lower_eq_map_registryName (hdollar : '$' ∉ registry.toList) :
    (registry.map Char.toLower).toList =
      (registryName registry).toList.map fun c => if c == '$' then ':' else c := by
  rw [String.toList_map, toList_registryName, List.map_map]
  refine List.map_congr_left fun c hc => ?_
  have hcdollar : c ≠ '$' := fun h => hdollar (h ▸ hc)
  rw [Function.comp_apply]
  split
  · next hcolon =>
    obtain rfl : c = ':' := by simpa using hcolon
    decide
  · have hlower : c.toLower ≠ '$' := fun h => hcdollar (eq_of_toLower_eq h (by decide))
    simp [hlower]

theorem registryName_lower : registryName (registry.map Char.toLower) = registryName registry := by
  rw [← String.toList_inj, toList_registryName, toList_registryName, String.toList_map,
    List.map_map]
  refine List.map_congr_left fun c _ => ?_
  rw [Function.comp_apply, toLower_toLower]
  have hcolon : c.toLower = ':' ↔ c = ':' :=
    ⟨fun h => eq_of_toLower_eq h (by decide), by rintro rfl; decide⟩
  simp [hcolon]

theorem directoryNames_canonical : directoryNames r.canonical = directoryNames r := by
  rw [directoryNames, OciReference.canonical, registryName_lower]
  rfl

theorem directoryNames_eq_iff :
    directoryNames a = directoryNames b ↔ registryName a.registry = registryName b.registry ∧
      a.segments = b.segments ∧ a.tag = b.tag := by
  simp only [directoryNames, List.cons_append, List.cons.injEq]
  refine and_congr_right fun _ => ⟨fun h => ?_, fun h => by rw [h.1, h.2]⟩
  obtain ⟨hsegments, htag⟩ := List.append_inj' h rfl
  refine ⟨hsegments, ?_⟩
  rw [← String.toList_inj]
  have htag' := String.toList_inj.2 (List.singleton_inj.1 htag)
  rw [String.toList_append, String.toList_append] at htag'
  exact List.append_cancel_right htag'

theorem directoryNames_eq_iff_of_regular (ha : a.WellFormed) (hb : b.WellFormed) (hra : a.Regular)
    (hrb : b.Regular) : directoryNames a = directoryNames b ↔ a.canonical = b.canonical := by
  constructor
  · intro h
    obtain ⟨hregistry, hsegments, htag⟩ := directoryNames_eq_iff.1 h
    have hlower : a.registry.map Char.toLower = b.registry.map Char.toLower := by
      rw [← String.toList_inj, lower_eq_map_registryName hra.no_dollar,
        lower_eq_map_registryName hrb.no_dollar, hregistry]
    have hrepository : a.repository = b.repository := by
      rw [← String.toList_inj, hra.repository_eq ha.slash, hrb.repository_eq hb.slash, hsegments]
    rw [OciReference.canonical, OciReference.canonical, hlower, hrepository, htag]
  · intro h
    rw [← directoryNames_canonical, h, directoryNames_canonical]

/-! ## One directory -/

/-- The directories of two references are one path. -/
def SameDirectory (cache : DiskPath) (a b : OciReference) : Prop :=
  (directory cache a).components = (directory cache b).components

theorem filter_isSilent {names : List String} (hnames : ∀ name ∈ names, IsName name) :
    (names.map ofString).filter (!DiskPath.isSilent ·) =
      (names.filter (· != ".")).map ofString := by
  rw [List.filter_map]
  refine congrArg _ (List.filter_congr fun name hname => ?_)
  have hne : (ofString name).isEmpty = false := by
    rw [List.isEmpty_eq_false_iff]
    exact (hnames name hname).ofString_ne_nil
  have hdot : ofString name = [DiskPath.dotByte] ↔ name = "." :=
    ⟨fun h => DiskPath.ofString_injective (h.trans (by decide : _ = ofString ".")),
      fun h => h ▸ by decide⟩
  rw [Function.comp_apply, DiskPath.isSilent, hne, Bool.false_or, Bool.eq_iff_iff]
  simp [hdot]

/-- Which references share a directory. A name that is a dot does not count. -/
theorem sameDirectory_iff (ha : a.WellFormed) (hb : b.WellFormed) :
    SameDirectory cache a b ↔
      (directoryNames a).filter (· != ".") = (directoryNames b).filter (· != ".") := by
  have hbase : cache.join (ofString "oci") ≠ [] :=
    DiskPath.join_ne_nil cache ⟨by decide, by decide⟩
  rw [SameDirectory, directory_eq, directory_eq,
    DiskPath.components_joinAll (isName_directoryNames ha) hbase,
    DiskPath.components_joinAll (isName_directoryNames hb) hbase, Prod.mk.injEq,
    filter_isSilent (isName_directoryNames ha), filter_isSilent (isName_directoryNames hb),
    List.append_cancel_left_eq, List.map_inj_right fun _ _ h => DiskPath.ofString_injective h]
  exact and_iff_right rfl

theorem sameDirectory_iff_of_regular (ha : a.WellFormed) (hb : b.WellFormed) (hra : a.Regular)
    (hrb : b.Regular) : SameDirectory cache a b ↔ a.canonical = b.canonical := by
  have hself {r : OciReference} (hr : r.WellFormed) (hrr : r.Regular) :
      (directoryNames r).filter (· != ".") = directoryNames r := by
    refine List.filter_eq_self.2 fun name hname => ?_
    have hordinary := (isOrdinary_directoryNames_iff hr).2 ⟨hrr.ne_dot, hrr.ne_dots⟩ name hname
    simpa using hordinary.ne_dot
  rw [sameDirectory_iff ha hb, hself ha hra, hself hb hrb,
    directoryNames_eq_iff_of_regular ha hb hra hrb]

theorem canonical_eq_of_home (ha : a.WellFormed) (hb : b.WellFormed) (hra : a.Regular)
    (hrb : b.Regular) (h : home cache cwd a = home cache cwd b) : a.canonical = b.canonical := by
  have hordinary {r : OciReference} (hr : r.WellFormed) (hrr : r.Regular) :=
    (isOrdinary_directoryNames_iff hr).2 ⟨hrr.ne_dot, hrr.ne_dots⟩
  rw [home, home, directory_eq, directory_eq, DiskPath.place_joinAll_of_ordinary (hordinary ha hra),
    DiskPath.place_joinAll_of_ordinary (hordinary hb hrb), List.append_cancel_left_eq,
    List.map_inj_right fun _ _ h => DiskPath.ofString_injective h] at h
  exact (directoryNames_eq_iff_of_regular ha hb hra hrb).1 h

/-! ## Runs -/

/-- The artifacts that the client gives while references are restored. -/
def pulled (cache : DiskPath) (client : ArtifactClient τ) (host : Host τ) :
    List Reference → List (OciReference × Artifact)
  | [] => []
  | .oci r :: rs =>
    (if isStored cache host r then []
      else (client.pull host.remote r).1.toOption.toList.map (r, ·)) ++
      pulled cache client (restoreOne cache client host r).2 rs
  | _ :: rs => pulled cache client host rs

/-- A host after calls of `restore`, and the artifacts that the client gave. Between the calls
time goes on, the world changes, and other processes take over. -/
inductive Ran (cache : DiskPath) (client : ArtifactClient τ) (h₀ : Host τ) :
    Host τ → List (OciReference × Artifact) → Prop where
  | start : Ran cache client h₀ h₀ []
  | call {h : Host τ} {log : List (OciReference × Artifact)} (rs : List Reference) :
      Ran cache client h₀ h log →
        Ran cache client h₀ (restore cache client h rs).2 (log ++ pulled cache client h rs)
  | later {h : Host τ} {log : List (OciReference × Artifact)} (processId time : Nat) (remote : τ) :
      Ran cache client h₀ h log → Ran cache client h₀ ⟨h.disk, h.cwd, processId, time, remote⟩ log

/-- The files that storing the artifacts of a list may add. -/
def StoresSome (cache : DiskPath) (cwd : Place) (log : List (OciReference × Artifact)) (q : Place)
    (bytes : List UInt8) : Prop :=
  ∃ p ∈ log, ∃ processId, Stores (home cache cwd p.1) processId p.2.layer q bytes

theorem StoresSome.append_left {log log' : List (OciReference × Artifact)} {q : Place}
    {bytes : List UInt8} (h : StoresSome cache cwd log q bytes) :
    StoresSome cache cwd (log ++ log') q bytes := by
  obtain ⟨p, hp, hstores⟩ := h
  exact ⟨p, List.mem_append_left _ hp, hstores⟩

theorem StoresSome.append_right {log log' : List (OciReference × Artifact)} {q : Place}
    {bytes : List UInt8} (h : StoresSome cache cwd log' q bytes) :
    StoresSome cache cwd (log ++ log') q bytes := by
  obtain ⟨p, hp, hstores⟩ := h
  exact ⟨p, List.mem_append_right _ hp, hstores⟩

theorem cwd_restoreOne : (restoreOne cache client host r).2.cwd = host.cwd := by
  rw [restoreOne]
  split
  · rfl
  · split
    · rfl
    · dsimp only
      split <;> rfl

/-- A restore of one reference adds the files of what the client gave for it. -/
theorem gains_restoreOne :
    Gains (StoresSome cache host.cwd
      (if isStored cache host r then []
        else (client.pull host.remote r).1.toOption.toList.map (r, ·)))
      host.disk (restoreOne cache client host r).2.disk := by
  rcases disk_restoreOne with hdisk | ⟨a, remote, hstored, hpull, hdisk⟩
  · rw [hdisk]
    exact .refl
  · rw [hdisk, hstored, hpull]
    exact gains_changes.mono fun q bytes h => ⟨(r, a), List.mem_singleton.2 rfl, _, h⟩

theorem snd_restore_oci {rs : List Reference} :
    (restore cache client host (.oci r :: rs)).2 =
      (restore cache client (restoreOne cache client host r).2 rs).2 := by
  rw [restore]

theorem gains_restore (host : Host τ) (rs : List Reference) :
    Gains (StoresSome cache host.cwd (pulled cache client host rs))
        host.disk (restore cache client host rs).2.disk ∧
      (restore cache client host rs).2.cwd = host.cwd := by
  induction rs generalizing host with
  | nil => exact ⟨.refl, rfl⟩
  | cons r rs ih =>
    cases r with
    | oci r =>
      obtain ⟨hgains, hcwd⟩ := ih (restoreOne cache client host r).2
      rw [cwd_restoreOne] at hgains hcwd
      rw [snd_restore_oci, pulled]
      exact ⟨(gains_restoreOne.mono fun _ _ => StoresSome.append_left).trans
        (hgains.mono fun _ _ => StoresSome.append_right), hcwd⟩
    | relative path => exact ih host
    | nuget package => exact ih host

theorem Ran.gains {log : List (OciReference × Artifact)} (hran : Ran cache client h₀ h log) :
    Gains (StoresSome cache h₀.cwd log) h₀.disk h.disk ∧ h.cwd = h₀.cwd := by
  induction hran with
  | start => exact ⟨.refl, rfl⟩
  | @call h log rs _ ih =>
    obtain ⟨hgains, hcwd⟩ := ih
    obtain ⟨hmore, hcwd'⟩ := gains_restore h rs
    rw [hcwd] at hmore hcwd'
    exact ⟨(hgains.mono fun _ _ => StoresSome.append_left).trans
      (hmore.mono fun _ _ => StoresSome.append_right), hcwd'⟩
  | later processId time remote _ ih => exact ih

/-- An entry file that a run brought holds the layer of an artifact that the client gave for a
reference with the same directory. -/
theorem Ran.entry {log : List (OciReference × Artifact)} (hran : Ran cache client h₀ h log)
    (hempty : h₀.disk.file? (place h₀.cwd (entryPath cache r)) = none) {bytes : List UInt8}
    (hread : h.disk.readBytes h.cwd (entryPath cache r) = .ok bytes) :
    ∃ p ∈ log, home cache h₀.cwd p.1 = home cache h₀.cwd r ∧ p.2.layer = bytes := by
  obtain ⟨hgains, hcwd⟩ := hran.gains
  rw [hcwd] at hread
  rcases hgains _ _ (Disk.readBytes_eq hread) with hold | ⟨p, hp, processId, hstores⟩
  · rw [hempty] at hold
    cases hold
  · rw [entryPath, place_file isOrdinary_entryName] at hstores
    rcases hstores with ⟨name, hname, hplace⟩ | ⟨hplace, hbytes⟩
    · have hentry := DiskPath.ofString_injective
        (List.singleton_inj.1 (List.append_inj' hplace rfl).2)
      exact absurd hentry.symm (ne_entryName_of_mem_sideNames hname)
    · exact ⟨p, hp, (List.append_inj' hplace rfl).1.symm, hbytes.symm⟩

/-! ## Isolation -/

/-- The references of a kind are kept apart: they have one directory only if they are the same,
and what a run brings for one of them is what the client gave for it. -/
structure Isolated (cache : DiskPath) (kind : OciReference → Prop) : Prop where
  directories : ∀ a b, kind a → kind b → (SameDirectory cache a b ↔ a.canonical = b.canonical)
  entries : ∀ {τ : Type} (client : ArtifactClient τ) (h₀ h : Host τ)
    (log : List (OciReference × Artifact)), Ran cache client h₀ h log → (∀ p ∈ log, kind p.1) →
    ∀ r, kind r → h₀.disk.file? (place h₀.cwd (entryPath cache r)) = none →
    ∀ bytes, h.disk.readBytes h.cwd (entryPath cache r) = .ok bytes →
      ∃ p ∈ log, p.1.canonical = r.canonical ∧ p.2.layer = bytes

/-- The regular references among those that were read are kept apart. -/
theorem isolated_regular (cache : DiskPath) :
    Isolated cache fun r => (∃ raw, OciReference.parse raw = .ok r) ∧ r.Regular where
  directories := by
    rintro a b ⟨⟨rawA, ha⟩, hra⟩ ⟨⟨rawB, hb⟩, hrb⟩
    exact sameDirectory_iff_of_regular (OciReference.wellFormed_of_parse ha)
      (OciReference.wellFormed_of_parse hb) hra hrb
  entries := by
    rintro τ client h₀ h log hran hlog r ⟨⟨raw, hr⟩, hrr⟩ hempty bytes hread
    obtain ⟨p, hp, hhome, hbytes⟩ := hran.entry hempty hread
    obtain ⟨⟨rawP, hparse⟩, hrp⟩ := hlog p hp
    exact ⟨p, hp, canonical_eq_of_home (OciReference.wellFormed_of_parse hparse)
      (OciReference.wellFormed_of_parse hr) hrp hrr hhome, hbytes⟩

end Cache

namespace Sample

open Cache

/-- A registry with a port. -/
def colon : OciReference := ⟨"reg:5000", "/a", "v1"⟩

/-- A registry with a dollar sign in place of the colon. -/
def dollar : OciReference := ⟨"reg$5000", "/a", "v1"⟩

theorem parse_colon : OciReference.parse "reg:5000/a:v1" = .ok colon :=
  OciReference.parse_eq_ok_iff.2 (by decide +kernel)

theorem parse_dollar : OciReference.parse "reg$5000/a:v1" = .ok dollar :=
  OciReference.parse_eq_ok_iff.2 (by decide +kernel)

/-- A dollar sign in a registry is taken for a colon. -/
theorem directoryNames_dollar : directoryNames dollar = directoryNames colon := by
  rw [directoryNames_eq_iff, ← String.toList_inj, toList_registryName, toList_registryName]
  exact ⟨by decide, rfl, rfl⟩

theorem sameDirectory_dollar : SameDirectory cache dollar colon :=
  (sameDirectory_iff (OciReference.wellFormed_of_parse parse_dollar)
    (OciReference.wellFormed_of_parse parse_colon)).2 (congrArg _ directoryNames_dollar)

theorem canonical_dollar_ne : dollar.canonical ≠ colon.canonical := by
  rw [Ne, OciReference.canonical_eq_iff]
  decide

theorem not_isolated :
    ¬ ∀ cache, Isolated cache fun r => ∃ raw, OciReference.parse raw = .ok r := fun h =>
  canonical_dollar_ne (((h cache).directories dollar colon ⟨"reg$5000/a:v1", parse_dollar⟩
    ⟨"reg:5000/a:v1", parse_colon⟩).1 sameDirectory_dollar)

theorem regular_colon : colon.Regular :=
  ⟨by decide, by decide, by decide, by decide, by decide⟩

/-- The same registry in other letters. -/
def upper : OciReference := ⟨"REG:5000", "/a", "v1"⟩

theorem parse_upper : OciReference.parse "REG:5000/a:v1" = .ok upper :=
  OciReference.parse_eq_ok_iff.2 (by decide +kernel)

theorem regular_upper : upper.Regular :=
  ⟨by decide, by decide, by decide, by decide, by decide⟩

theorem sameDirectory_upper : SameDirectory cache upper colon :=
  ((isolated_regular cache).directories upper colon ⟨⟨"REG:5000/a:v1", parse_upper⟩, regular_upper⟩
    ⟨⟨"reg:5000/a:v1", parse_colon⟩, regular_colon⟩).2
    (OciReference.canonical_eq_iff.2 (by decide))

end Sample

end ModuleGraph
