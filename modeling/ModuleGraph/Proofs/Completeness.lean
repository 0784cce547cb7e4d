import ModuleGraph.Proofs.Isolation
import ModuleGraph.Proofs.JsonText
import ModuleGraph.Proofs.Ways

/-!
# Entry files are complete

A restore can end after any of its steps, and inside of them, and another restore
then works over what it left, for the same directory and with another artifact.
Still, where an entry file stands, all files beside it are those of the pull that
brought it (`Runs.entry_complete`).

The invariant is `Holds`: the files of one pull stand in the directory, and its
path leads there. An entry file only comes to a directory by the last step of a
restore, when the others are done (`holds_of_entry`). From then on the restores
for that directory find the entry file and do nothing. Those that do not find it,
because their path is refused for its text, cannot write a file either, and all
others write in other directories (`Holds.of_leaves`).
-/

namespace ModuleGraph.Cache

open DiskPath (IsName IsOrdinary ofString)
open Disk (place Leaves Within touches)

variable {τ : Type} {cache : DiskPath} {cwd dir q : Place} {r : OciReference} {a : Artifact}
  {client : ArtifactClient τ} {processId time : Nat} {d d₀ d₁ d' : Disk}
  {name other source target : String} {bytes : List UInt8}

/-! ## The steps of a restore -/

/-- The steps before the entry file is moved to its place. -/
def staging (cache : DiskPath) (processId time : Nat) (r : OciReference) (a : Artifact) :
    List DiskChange :=
  (changes cache processId time r a).dropLast

theorem changes_eq : changes cache processId time r a = staging cache processId time r a ++
    [.rename ((directory cache r).join (ofString (temporaryName processId)))
      (entryPath cache r)] := rfl

theorem mem_sideNames_of_touches_staging
    (h : ∃ c ∈ staging cache processId time r a, touches cwd c q) :
    ∃ name ∈ sideNames processId, q = home cache cwd r ++ [ofString name] := by
  obtain ⟨c, hc, hq⟩ := h
  simp only [staging, changes, List.dropLast_cons_cons, List.dropLast_singleton, List.mem_cons,
    List.not_mem_nil, or_false] at hc
  rcases hc with rfl | rfl | rfl | rfl
  · exact hq.elim
  · exact ⟨_, by simp [sideNames], hq.trans (place_file isOrdinary_manifestName)⟩
  · exact ⟨_, by simp [sideNames], hq.trans (place_file isOrdinary_metadataName)⟩
  · exact ⟨_, by simp [sideNames], hq.trans (place_file isOrdinary_temporaryName)⟩

theorem exists_name_of_touches (h : ∃ c ∈ changes cache processId time r a, touches cwd c q) :
    ∃ name, q = home cache cwd r ++ [ofString name] := by
  obtain ⟨c, hc, hq⟩ := h
  rw [changes_eq, List.mem_append, List.mem_singleton] at hc
  rcases hc with hc | rfl
  · obtain ⟨name, -, hplace⟩ := mem_sideNames_of_touches_staging ⟨c, hc, hq⟩
    exact ⟨name, hplace⟩
  · rcases hq with hq | hq
    · exact ⟨_, hq.trans (place_file isOrdinary_temporaryName)⟩
    · exact ⟨_, hq.trans (place_file isOrdinary_entryName)⟩

/-- A restore leaves the files of other directories alone. -/
theorem file?_of_leaves (hrun : Leaves cwd (changes cache processId time r a) d d')
    (hhome : home cache cwd r ≠ dir) (name : String) :
    d'.file? (dir ++ [ofString name]) = d.file? (dir ++ [ofString name]) := by
  refine (Disk.within_leaves hrun).files _ fun htouched => ?_
  obtain ⟨other, hplace⟩ := exists_name_of_touches htouched
  exact hhome (List.append_inj' hplace rfl).1.symm

/-! ## Files beside each other -/

theorem append_ofString_inj : dir ++ [ofString name] = dir ++ [ofString other] ↔ name = other := by
  rw [List.append_cancel_left_eq, List.singleton_inj, DiskPath.ofString_injective.eq_iff]

theorem file?_of_write (hname : IsOrdinary name)
    (h : d.write cwd ((directory cache r).join (ofString name)) bytes = .ok d') :
    d'.file? (home cache cwd r ++ [ofString name]) = some bytes := by
  rw [Disk.write_eq h, place_file hname, Disk.file?_eq_some_iff, Disk.node?_set,
    if_pos ⟨rfl, by simp⟩]

theorem file?_beside_write (hname : IsOrdinary name) (hne : other ≠ name)
    (h : d.write cwd ((directory cache r).join (ofString name)) bytes = .ok d') :
    d'.file? (home cache cwd r ++ [ofString other]) =
      d.file? (home cache cwd r ++ [ofString other]) := by
  refine (Disk.within_write h).files _ fun hplace => hne ?_
  rwa [place_file hname, append_ofString_inj] at hplace

theorem file?_of_rename (hsource : IsOrdinary source) (htarget : IsOrdinary target)
    (h : d.rename cwd ((directory cache r).join (ofString source))
      ((directory cache r).join (ofString target)) = .ok d') :
    d'.file? (home cache cwd r ++ [ofString target]) =
      d.file? (home cache cwd r ++ [ofString source]) := by
  obtain ⟨bytes, hbytes, rfl⟩ := Disk.rename_eq h
  rw [place_file hsource] at hbytes
  rw [hbytes, place_file htarget, Disk.file?_eq_some_iff, Disk.node?_set, if_pos ⟨rfl, by simp⟩]

theorem file?_beside_rename (hsource : IsOrdinary source) (htarget : IsOrdinary target)
    (hne : other ≠ source ∧ other ≠ target)
    (h : d.rename cwd ((directory cache r).join (ofString source))
      ((directory cache r).join (ofString target)) = .ok d') :
    d'.file? (home cache cwd r ++ [ofString other]) =
      d.file? (home cache cwd r ++ [ofString other]) := by
  refine (Disk.within_rename h).files _ fun hplace => ?_
  rw [place_file hsource, place_file htarget, append_ofString_inj, append_ofString_inj] at hplace
  exact hplace.elim hne.1 hne.2

theorem ne_temporaryName (h : ¬ entryName.toList <+: name.toList) :
    name ≠ temporaryName processId := by
  rintro rfl
  refine h ⟨['.'] ++ (toString processId).toList ++ ['.', 't', 'm', 'p'], ?_⟩
  simp only [toList_temporaryName, List.append_assoc]

/-- The path of a directory into which a file was moved leads there. -/
theorem leads_of_rename (hname : IsOrdinary target) {p : DiskPath}
    (h : d.rename cwd p ((directory cache r).join (ofString target)) = .ok d') :
    Leads cache cwd r d := by
  obtain ⟨-, found, hplace⟩ := Disk.target_of_rename h
  obtain ⟨middle, hwalk, hthere⟩ := Disk.parent_of_placeFor hplace
  rw [Disk.origin, hname.toIsName.isAbsolute_join, hname.toIsName.names_join,
    List.dropLast_concat] at hwalk
  obtain rfl : middle = home cache cwd r := Disk.walk_eq hwalk
  exact ⟨hwalk, hthere⟩

/-- A restore writes nothing for a reference whose path is refused. -/
theorem within_of_refused (hcheck : Disk.checkPath (entryPath cache r) ≠ .ok ())
    (hrun : Leaves cwd (changes cache processId time r a) d d') :
    Within (fun _ => False) d d' := by
  have hrefused {d d' : Disk} {bytes : List UInt8} :
      d.write cwd ((directory cache r).join (ofString manifestName)) bytes ≠ .ok d' := fun h =>
    hcheck (Disk.checkPath_join isOrdinary_entryName.toIsName isOrdinary_manifestName.toIsName
      (by decide) (by decide) (Disk.checkPath_of_write h))
  have hdirectories : Within (fun _ => False) d (d.perform cwd (.makeDirectories
      (directory cache r))).1 := Disk.within_makeDirectories _
  cases hrun with
  | stops => exact .refl
  | fails h => rwa [h] at hdirectories
  | cut h => exact Disk.within_cut h
  | goes h hrest =>
    rw [h] at hdirectories
    cases hrest with
    | stops => exact hdirectories
    | fails h => exact Disk.eq_of_perform_error (by simp) h ▸ hdirectories
    | cut h =>
      cases h with
      | bytes _ hwrite => exact absurd hwrite hrefused
    | goes h _ => exact absurd (Disk.write_of_perform h) hrefused

/-! ## Runs -/

/-- A pull: what for, what was given, and by which process and when it was stored. -/
structure Pull where
  reference : OciReference
  accepted : ∃ raw, OciReference.parse raw = .ok reference
  artifact : Artifact
  processId : Nat
  time : UInt64

namespace Pull

/-- The record of a pull. -/
def record (p : Pull) : Metadata :=
  metadataOf p.reference p.artifact p.time.toNat

/-- The steps that store a pull. -/
def steps (cache : DiskPath) (p : Pull) : List DiskChange :=
  changes cache p.processId p.time.toNat p.reference p.artifact

theorem wellFormed (p : Pull) : p.reference.WellFormed :=
  p.accepted.elim fun _ => OciReference.wellFormed_of_parse

end Pull

/-- A disk after restores, and what was pulled. Each restore finds no entry file, and stops after
any of its steps or inside of one. -/
inductive Runs (cache : DiskPath) (cwd : Place) (d₀ : Disk) : Disk → List Pull → Prop where
  | start : Runs cache cwd d₀ d₀ []
  | run {d d' : Disk} {log : List Pull} (p : Pull) (hruns : Runs cache cwd d₀ d log)
      (hmissing : d.isFile cwd (entryPath cache p.reference) = false)
      (hrun : Leaves cwd (p.steps cache) d d') : Runs cache cwd d₀ d' (log ++ [p])

/-- A restore that is not broken off is among these. -/
theorem Runs.of_restoreOne {host : Host τ} {log : List Pull} {raw : String}
    (h : Runs cache host.cwd d₀ host.disk log) (hparse : OciReference.parse raw = .ok r)
    (htime : host.time < UInt64.size) :
    ∃ more, Runs cache host.cwd d₀ (restoreOne cache client host r).2.disk (log ++ more) := by
  rcases @disk_restoreOne τ cache r client host with hdisk | ⟨a, -, hmissing, -, hdisk⟩
  · exact ⟨[], by rwa [hdisk, List.append_nil]⟩
  · refine ⟨[⟨r, ⟨raw, hparse⟩, a, host.processId, .ofNat host.time⟩], h.run _ hmissing ?_⟩
    rw [hdisk, Pull.steps, UInt64.toNat_ofNat_of_lt' htime]
    exact Disk.leaves_performAll

/-! ## The invariant -/

/-- The files of a pull stand in its directory, and the path leads there. -/
structure Holds (cache : DiskPath) (cwd : Place) (p : Pull) (d : Disk) : Prop where
  manifest : d.file? (home cache cwd p.reference ++ [ofString manifestName]) =
    some p.artifact.manifest
  metadata : d.file? (home cache cwd p.reference ++ [ofString metadataName]) =
    some (Utf8.bytesOf p.record.render)
  entry : d.file? (home cache cwd p.reference ++ [ofString entryName]) = some p.artifact.layer
  leads : Leads cache cwd p.reference d

theorem Holds.of_kept {p : Pull} {touched : Place → Prop} (h : Holds cache cwd p d)
    (hwithin : Within touched d d')
    (hkept : ∀ name, d'.file? (home cache cwd p.reference ++ [ofString name]) =
      d.file? (home cache cwd p.reference ++ [ofString name])) : Holds cache cwd p d' where
  manifest := (hkept _).trans h.manifest
  metadata := (hkept _).trans h.metadata
  entry := (hkept _).trans h.entry
  leads := h.leads.within hwithin

/-- What a directory holds stays, whatever is restored. -/
theorem Holds.of_leaves {p p' : Pull} (h : Holds cache cwd p d)
    (hmissing : d.isFile cwd (entryPath cache p'.reference) = false)
    (hrun : Leaves cwd (p'.steps cache) d d') : Holds cache cwd p d' := by
  by_cases hhome : home cache cwd p'.reference = home cache cwd p.reference
  · -- the entry file is there, so its path must be refused
    have hcheck : Disk.checkPath (entryPath cache p'.reference) ≠ .ok () := by
      intro hcheck
      have hleads := h.leads.of_home p.wellFormed p'.wellFormed hhome.symm
      have hfound := hleads.isFile (hhome ▸ h.entry) hcheck
      rw [hmissing] at hfound
      cases hfound
    have hwithin := within_of_refused hcheck hrun
    exact h.of_kept hwithin fun name => hwithin.files _ id
  · exact h.of_kept (Disk.within_leaves hrun) (file?_of_leaves hrun hhome)

/-- The steps of a restore, once they are done, have stored the pull. -/
theorem holds_of_done {p : Pull}
    (hstaged : d.performAll cwd (staging cache p.processId p.time.toNat p.reference p.artifact) =
      (d₁, .ok ()))
    (hmoved : d₁.rename cwd
      ((directory cache p.reference).join (ofString (temporaryName p.processId)))
      ((directory cache p.reference).join (ofString entryName)) = .ok d') :
    Holds cache cwd p d' := by
  obtain ⟨d₂, -, hstaged⟩ := Disk.performAll_cons_ok hstaged
  obtain ⟨d₃, hmanifest, hstaged⟩ := Disk.performAll_cons_ok hstaged
  obtain ⟨d₄, hmetadata, hstaged⟩ := Disk.performAll_cons_ok hstaged
  obtain ⟨d₅, hlayer, hstaged⟩ := Disk.performAll_cons_ok hstaged
  obtain rfl : d₅ = d₁ := (Prod.mk.inj hstaged).1
  replace hmanifest := Disk.write_of_perform hmanifest
  replace hmetadata := Disk.write_of_perform hmetadata
  replace hlayer := Disk.write_of_perform hlayer
  have hmanifest_tmp : manifestName ≠ temporaryName p.processId := ne_temporaryName (by decide)
  have hmetadata_tmp : metadataName ≠ temporaryName p.processId := ne_temporaryName (by decide)
  refine ⟨?_, ?_, ?_, (leads_of_rename isOrdinary_entryName hmoved).within
    (Disk.within_rename hmoved)⟩
  · rw [file?_beside_rename isOrdinary_temporaryName isOrdinary_entryName
        ⟨hmanifest_tmp, by decide⟩ hmoved,
      file?_beside_write isOrdinary_temporaryName hmanifest_tmp hlayer,
      file?_beside_write isOrdinary_metadataName (by decide) hmetadata,
      file?_of_write isOrdinary_manifestName hmanifest]
  · rw [file?_beside_rename isOrdinary_temporaryName isOrdinary_entryName
        ⟨hmetadata_tmp, by decide⟩ hmoved,
      file?_beside_write isOrdinary_temporaryName hmetadata_tmp hlayer,
      file?_of_write isOrdinary_metadataName hmetadata]
    rfl
  · rw [file?_of_rename isOrdinary_temporaryName isOrdinary_entryName hmoved,
      file?_of_write isOrdinary_temporaryName hlayer]

/-- A restore that brings an entry file has stored the whole pull. -/
theorem holds_of_entry {p : Pull} (hrun : Leaves cwd (p.steps cache) d d')
    (habsent : d.file? (home cache cwd p.reference ++ [ofString entryName]) = none)
    (hfile : d'.file? (home cache cwd p.reference ++ [ofString entryName]) = some bytes) :
    Holds cache cwd p d' := by
  have hstill {d' : Disk} (hstaged : Leaves cwd
      (staging cache p.processId p.time.toNat p.reference p.artifact) d d') :
      d'.file? (home cache cwd p.reference ++ [ofString entryName]) = none := by
    rw [(Disk.within_leaves hstaged).files _ fun htouched => ?_, habsent]
    obtain ⟨name, hname, hplace⟩ := mem_sideNames_of_touches_staging htouched
    exact ne_entryName_of_mem_sideNames hname (append_ofString_inj.1 hplace).symm
  rw [Pull.steps, changes_eq] at hrun
  rcases Disk.leaves_append hrun with hstaged | ⟨d₁, hdone, hmove⟩
  · rw [hstill hstaged] at hfile
    cases hfile
  · have hstaged := hstill Disk.leaves_performAll
    rw [hdone] at hstaged
    cases hmove with
    | stops =>
      rw [hstaged] at hfile
      cases hfile
    | fails h =>
      rw [Disk.eq_of_perform_error (by simp) h, hstaged] at hfile
      cases hfile
    | cut h => cases h
    | goes h hrest =>
      cases hrest
      exact holds_of_done hdone (Disk.rename_of_perform h)

/-- Where restores brought an entry file, a directory holds one of the pulls. -/
theorem Runs.holds {log : List Pull} (hruns : Runs cache cwd d₀ d log)
    (hempty : d₀.file? (dir ++ [ofString entryName]) = none)
    (hfile : d.file? (dir ++ [ofString entryName]) = some bytes) :
    ∃ p ∈ log, home cache cwd p.reference = dir ∧ Holds cache cwd p d := by
  induction hruns generalizing bytes with
  | start =>
    rw [hempty] at hfile
    cases hfile
  | @run d d' log p hruns hmissing hrun ih =>
    cases hold : d.file? (dir ++ [ofString entryName]) with
    | some old =>
      obtain ⟨p', hp', hhome, hholds⟩ := ih hold
      exact ⟨p', List.mem_append_left _ hp', hhome, hholds.of_leaves hmissing hrun⟩
    | none =>
      have hhome : home cache cwd p.reference = dir := by
        refine Decidable.not_not.1 fun hne => ?_
        rw [file?_of_leaves hrun hne, hold] at hfile
        cases hfile
      subst hhome
      exact ⟨p, List.mem_append_right _ (List.mem_singleton.2 rfl), rfl,
        holds_of_entry hrun hold hfile⟩

/-! ## Complete directories -/

/-- The files beside an entry file are whole and of one pull, and the record tells the entry
file's contents. -/
structure Complete (cache : DiskPath) (cwd : Place) (r : OciReference) (d : Disk)
    (entry : List UInt8) (p : Pull) (record : Metadata) : Prop where
  sameHome : home cache cwd p.reference = home cache cwd r
  layer : entry = p.artifact.layer
  manifest : d.file? (place cwd ((directory cache r).join (ofString manifestName))) =
    some p.artifact.manifest
  metadata : d.file? (place cwd ((directory cache r).join (ofString metadataName))) =
    some (Utf8.bytesOf record.render)
  readable : Metadata.parse? (Utf8.bytesOf record.render) = some record
  reference : record.reference = p.reference.artifact
  layerDigest : record.layerDigest = p.artifact.layerDigest
  contentHash : record.contentHash = (ContentHash.ofBytes entry).hex
  restoredAt : record.restoredAt = p.time.toNat

/-- Where an entry file stands, everything does. -/
theorem Runs.entry_complete {log : List Pull} (hruns : Runs cache cwd d₀ d log)
    (hempty : d₀.file? (place cwd (entryPath cache r)) = none)
    (hfile : d.file? (place cwd (entryPath cache r)) = some bytes) :
    ∃ p ∈ log, ∃ record, Complete cache cwd r d bytes p record := by
  rw [entryPath, place_file isOrdinary_entryName] at hempty hfile
  obtain ⟨p, hp, hhome, hholds⟩ := hruns.holds hempty hfile
  have hlayer : bytes = p.artifact.layer := by
    have hentry := hholds.entry
    rw [hhome, hfile] at hentry
    exact Option.some.inj hentry
  refine ⟨p, hp, p.record, ?_⟩
  exact
    { sameHome := hhome
      layer := hlayer
      manifest := by rw [place_file isOrdinary_manifestName, ← hhome, hholds.manifest]
      metadata := by rw [place_file isOrdinary_metadataName, ← hhome, hholds.metadata]
      readable := Metadata.parse?_render p.record (UInt64.toNat_lt p.time)
      reference := rfl
      layerDigest := rfl
      contentHash := by rw [hlayer]; rfl
      restoredAt := rfl }

end ModuleGraph.Cache

namespace ModuleGraph.Sample

open Cache

/-- A pull of an artifact that is replaced later. -/
def replaced : Pull :=
  ⟨⟨"reg.io", "/a", "v1"⟩, ⟨_, parse_plain⟩, ⟨Utf8.bytesOf "old", "sha256:0", [0x7B]⟩, 1, 0⟩

/-- A pull for the same reference after that. -/
def replacing : Pull :=
  ⟨⟨"reg.io", "/a", "v1"⟩, ⟨_, parse_plain⟩, ⟨Utf8.bytesOf "new", "sha256:1", [0x7B, 0x7D]⟩, 2, 7⟩

/-- A disk on which a restore stopped before it moved the entry file. -/
def staged : Disk :=
  (Disk.empty.performAll [] (staging cache 1 0 replaced.reference replaced.artifact)).1

/-- The disk after another restore. -/
def restored : Disk :=
  (staged.performAll [] (replacing.steps cache)).1

theorem runs_restored : Runs cache [] Disk.empty restored [replaced, replacing] := by
  have hstaged : Disk.Leaves [] (replaced.steps cache) Disk.empty staged := by
    rw [Pull.steps, changes_eq]
    exact Disk.leaves_append_left Disk.leaves_performAll
  exact (Runs.start.run replaced (by decide +kernel) hstaged).run replacing (by decide +kernel)
    Disk.leaves_performAll

theorem complete_restored :
    restored.file? (Disk.place [] (entryPath cache replacing.reference)) = some [0x7B, 0x7D] ∧
      ∃ p ∈ [replaced, replacing], ∃ record,
        Complete cache [] replacing.reference restored [0x7B, 0x7D] p record :=
  have hfile : restored.file? (Disk.place [] (entryPath cache replacing.reference)) =
    some [0x7B, 0x7D] := by decide +kernel
  ⟨hfile, runs_restored.entry_complete (by decide +kernel) hfile⟩

end ModuleGraph.Sample
