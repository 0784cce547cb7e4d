import ModuleGraph.Proofs.Resolvable
import ModuleGraph.Proofs.Steadfast

/-!
# The cache keeps its artifacts

An artifact is there when the path of its entry file leads to a file. A restore
makes directories and leaves those that are there, so the way stays open
(`Leads.within`). It writes to one directory, and there it either puts a file
beside the entry file or moves a file to its place. So an entry file may change,
but it never goes away (`exists_entry_of_leaves`), and with its path being the
same it has the same URL.

The registries that a configuration gives are steadfast for that reason. They
answer in any world as in another one with the same disk, whatever they fetch
with (`Config.mirrors_routes`).
-/

namespace ModuleGraph

open DiskPath (IsOrdinary ofString)
open Disk (place origin Leaves)

variable {τ : Type}

namespace Cache

variable {cache : DiskPath} {cwd : Place} {r r' : OciReference} {a : Artifact} {d d' : Disk}
  {processId time : Nat} {client : ArtifactClient τ} {host host' : Host τ} {parent : Url}

/-! ## Artifacts that are there -/

/-- An artifact is there when its path is not refused, leads to a directory, and there is an entry
file in it. -/
theorem isStored_iff : isStored cache host r = true ↔
    Leads cache host.cwd r host.disk ∧ Disk.checkPath (entryPath cache r) = .ok () ∧
      ∃ bytes, host.disk.file? (home cache host.cwd r ++ [ofString entryName]) = some bytes := by
  constructor
  · intro hstored
    obtain ⟨bytes, hbytes⟩ := exists_bytes hstored
    have hfile := Disk.readBytes_eq hbytes
    rw [entryPath, place_file isOrdinary_entryName] at hfile
    obtain ⟨place, hfind, -⟩ := Disk.find_of_readBytes hbytes
    rw [Disk.find] at hfind
    cases hcheck : Disk.checkPath (entryPath cache r) with
    | error e => rw [hcheck] at hfind; cases hfind
    | ok _ =>
      refine ⟨?_, rfl, bytes, hfile⟩
      cases hwalk : host.disk.walk (origin host.cwd (entryPath cache r))
          (entryPath cache r).names with
      | error e => rw [hcheck, hwalk] at hfind; cases hfind
      | ok found =>
        rw [entryPath, origin, isOrdinary_entryName.toIsName.isAbsolute_join,
          isOrdinary_entryName.toIsName.names_join, Disk.walk_append_eq_ok] at hwalk
        obtain ⟨middle, hwalk, hdown⟩ := hwalk
        obtain rfl : middle = home cache host.cwd r := Disk.walk_eq hwalk
        rw [Disk.walk_cons_eq_ok isOrdinary_entryName.ofString_ne_dot
          isOrdinary_entryName.ofString_ne_dots] at hdown
        exact ⟨hwalk, hdown.1⟩
  · rintro ⟨hleads, hcheck, bytes, hfile⟩
    exact hleads.isFile hfile hcheck

theorem isStored_canonical : isStored cache host r.canonical = isStored cache host r := by
  rw [isStored, isStored, entryPath, entryPath, directory_eq, directory_eq,
    directoryNames_canonical]

theorem isStored_congr (hdisk : host'.disk = host.disk) (hcwd : host'.cwd = host.cwd) :
    isStored cache host' r = isStored cache host r := by
  rw [isStored, isStored, hdisk, hcwd]

theorem entryPoint_congr (hdisk : host'.disk = host.disk) (hcwd : host'.cwd = host.cwd)
    (r : Reference) : entryPoint cache host' r = entryPoint cache host r := by
  cases r with
  | oci r =>
    rw [entryPoint, entryPoint, isStored_congr hdisk hcwd]
  | relative | nuget => rfl

/-! ## What a restore leaves of them -/

/-- Where an entry file is, there is one after the steps of a restore, wherever these stop. -/
theorem exists_entry_of_leaves (hrun : Leaves cwd (changes cache processId time r' a) d d')
    (hfile : ∃ bytes, d.file? (home cache cwd r ++ [ofString entryName]) = some bytes) :
    ∃ bytes, d'.file? (home cache cwd r ++ [ofString entryName]) = some bytes := by
  by_cases hhome : home cache cwd r' = home cache cwd r
  · rw [← hhome] at hfile ⊢
    have hstill {d' : Disk} (hstaged : Leaves cwd (staging cache processId time r' a) d d') :
        ∃ bytes, d'.file? (home cache cwd r' ++ [ofString entryName]) = some bytes := by
      rw [(Disk.within_leaves hstaged).files _ fun htouched => ?_]
      · exact hfile
      · obtain ⟨name, hname, hplace⟩ := mem_sideNames_of_touches_staging htouched
        exact ne_entryName_of_mem_sideNames hname (append_ofString_inj.1 hplace).symm
    rw [changes_eq] at hrun
    rcases Disk.leaves_append hrun with hstaged | ⟨d₁, hdone, hmove⟩
    · exact hstill hstaged
    · have hstaged := hstill Disk.leaves_performAll
      rw [hdone] at hstaged
      cases hmove with
      | stops => exact hstaged
      | fails h =>
        rw [Disk.eq_of_perform_error (by simp) h]
        exact hstaged
      | cut h => cases h
      | goes h hrest =>
        cases hrest
        have hmoved := Disk.rename_of_perform h
        obtain ⟨bytes, hbytes, -⟩ := Disk.rename_eq hmoved
        rw [place_file isOrdinary_temporaryName] at hbytes
        exact ⟨bytes, (file?_of_rename isOrdinary_temporaryName isOrdinary_entryName
          hmoved).trans hbytes⟩
  · rw [file?_of_leaves hrun hhome]
    exact hfile

theorem isStored_restoreOne (hstored : isStored cache host r = true) :
    isStored cache (restoreOne cache client host r').2 r = true := by
  have hcwd : (restoreOne cache client host r').2.cwd = host.cwd := cwd_restoreOne
  rcases @disk_restoreOne τ cache r' client host with hdisk | ⟨a, -, -, -, hdisk⟩
  · rwa [isStored_congr hdisk hcwd]
  · obtain ⟨hleads, hcheck, hfile⟩ := isStored_iff.1 hstored
    rw [isStored_iff, hcwd, hdisk]
    exact ⟨hleads.within (Disk.within_leaves Disk.leaves_performAll), hcheck,
      exists_entry_of_leaves Disk.leaves_performAll hfile⟩

theorem isStored_restore {rs : List Reference} (hstored : isStored cache host r = true) :
    isStored cache (restore cache client host rs).2 r = true := by
  induction rs generalizing host with
  | nil => exact hstored
  | cons x rs ih =>
    cases x with
    | oci r' =>
      rw [snd_restore_oci]
      exact ih (isStored_restoreOne hstored)
    | relative | nuget => exact ih hstored

/-- A restore takes no directory away. -/
theorem isDirectory_restore {rs : List Reference} {q : Place}
    (hq : host.disk.isDirectory q = true) :
    (restore cache client host rs).2.disk.isDirectory q = true := by
  induction rs generalizing host with
  | nil => exact hq
  | cons x rs ih =>
    cases x with
    | oci r =>
      rw [snd_restore_oci]
      apply ih
      rcases @disk_restoreOne τ cache r client host with hdisk | ⟨a, -, -, -, hdisk⟩
      · rwa [hdisk]
      · rw [hdisk]
        exact (Disk.within_leaves Disk.leaves_performAll).directories q hq
    | relative | nuget => exact ih hq

end Cache

namespace Registry

variable {cache : DiskPath} {client : ArtifactClient τ} {host : Host τ} {rs : List Reference}
  {x y : Reference} {parent : Url}

theorem restoreRequired_cache_of_same (h : x.same y = true) :
    (Registry.cache cache client).restoreRequired host x =
      (Registry.cache cache client).restoreRequired host y := by
  rw [Reference.same_iff] at h
  cases x <;> cases y <;> simp only [Reference.canonical, Reference.oci.injEq, reduceCtorEq] at h
  case oci.oci a b =>
    dsimp only [Registry.cache]
    rw [← Cache.isStored_canonical, h, Cache.isStored_canonical]
  all_goals rfl

/-- A restore leaves artifacts that are there, and their entry files are where they were. -/
theorem cache_keeps (h : (Registry.cache cache client).restoreRequired host x = false) :
    (Registry.cache cache client).restoreRequired (Cache.restore cache client host rs).2 x =
        false ∧
      Cache.entryPoint cache (Cache.restore cache client host rs).2 x =
        Cache.entryPoint cache host x := by
  cases x with
  | oci r =>
    have hstored : Cache.isStored cache host r = true := by simpa [Registry.cache] using h
    have hstored' : Cache.isStored cache (Cache.restore cache client host rs).2 r = true :=
      Cache.isStored_restore hstored
    refine ⟨by simp [Registry.cache, hstored'], ?_⟩
    rw [Cache.entryPoint_of_isStored hstored, Cache.entryPoint_of_isStored hstored']
  | relative | nuget => exact ⟨rfl, rfl⟩

end Registry

/-! ## The configured registries -/

namespace Config

variable {c : Config} {e : Environment} {t t' : Http.Transport τ} {routes routes' : Routes (Host τ)}
  {s : Scheme} {registry : Registry (Host τ)} {r : Reference} {host host' : Host τ}

/-- There is a registry for paths and one for artifacts. -/
theorem answersFor_routes (h : c.routes e t = .ok routes) :
    routes.answersFor = fun s => [Scheme.relative, .oci].contains s := by
  rw [Config.routes] at h
  split at h
  · cases h
  · cases h
    funext s
    rw [Routes.answersFor, Routes.ofList]
    dsimp only
    rw [List.isSome_find?, List.any_reverse]
    cases s <;> rfl

/-- Whether there are registries does not depend on what they fetch with. -/
theorem exists_routes (h : c.routes e t = .ok routes) (t' : Http.Transport τ) :
    ∃ routes', c.routes e t' = .ok routes' := by
  rw [Config.routes] at h ⊢
  split at h
  · cases h
  · exact ⟨_, rfl⟩

theorem steadfast_routes (h : c.routes e t = .ok routes) : routes.Steadfast where
  spelling s registry hreg w r x hsame := by
    obtain rfl | ⟨dir, -, rfl⟩ := registry_cases h hreg
    · rfl
    · exact Registry.restoreRequired_cache_of_same hsame
  keeps s registry s' registry' hreg hreg' w batch x hthere := by
    obtain rfl | ⟨dir, hdir, rfl⟩ := registry_cases h hreg
    · exact ⟨hthere, fun _ => rfl⟩
    · obtain rfl | ⟨dir', hdir', rfl⟩ := registry_cases h hreg'
      · exact ⟨rfl, fun _ => rfl⟩
      · obtain rfl : dir = dir' := Option.some.inj (hdir.symm.trans hdir')
        obtain ⟨hthere', hentry⟩ := Registry.cache_keeps hthere
        exact ⟨hthere', fun _ => hentry⟩

theorem sober_routes (h : c.routes e t = .ok routes) : routes.Sober :=
  fun _ _ hreg host parent r =>
    (ofEntryPoint_routes h hreg host parent r).mono fun _ => Failure.OfEntryPoint.isRestore

/-- Whatever is restored, the working directory is the same, and directories stay. -/
theorem later_routes (h : c.routes e t = .ok routes)
    (hlater : (Machine.setting routes).Later host host') : host'.cwd = host.cwd ∧
      ∀ q, host.disk.isDirectory q = true → host'.disk.isDirectory q = true := by
  obtain ⟨batch, hgrown⟩ := hlater
  induction hgrown with
  | refl => exact ⟨rfl, fun _ => id⟩
  | @restore host' s registry rs _ hreg _ ih =>
    obtain ⟨hcwd, hdirs⟩ := ih
    obtain rfl | ⟨dir, -, rfl⟩ := registry_cases h hreg
    · exact ⟨hcwd, hdirs⟩
    · exact ⟨(Cache.gains_restore host' rs).2.trans hcwd,
        fun q hq => Cache.isDirectory_restore (hdirs q hq)⟩

/-- Paths lead to files that need not be fetched. -/
theorem scheme_ne_of_remote (h : c.routes e t = .ok routes) (hr : routes.Remote r) :
    r.scheme ≠ .relative := by
  obtain ⟨registry, w, hreg, hlacks⟩ := hr
  intro hscheme
  obtain rfl | ⟨dir, -, rfl⟩ := registry_cases h hreg
  · cases hlacks
  · have hcache : Scheme.oci = r.scheme := routes.scheme_eq hreg
    rw [hscheme] at hcache
    cases hcache

/-- With the same configuration over the same disk, registries answer the same, whatever they would
fetch with. -/
theorem mirrors_routes (h : c.routes e t = .ok routes) (h' : c.routes e t' = .ok routes')
    (hdisk : host'.disk = host.disk) (hcwd : host'.cwd = host.cwd) :
    (Machine.setting routes).Mirrors (Machine.setting routes') host host' := by
  have hsame {s : Scheme} {registry registry' : Registry (Host τ)}
      (hreg : routes.registry? s = some registry) (hreg' : routes'.registry? s = some registry') :
      (∀ r, registry'.restoreRequired host' r = registry.restoreRequired host r) ∧
        ∀ parent r, registry'.entryPoint host' parent r = registry.entryPoint host parent r := by
    have hscheme := (routes'.scheme_eq hreg').trans (routes.scheme_eq hreg).symm
    obtain rfl | ⟨dir, hdir, rfl⟩ := registry_cases h hreg
    · obtain rfl | ⟨dir', -, rfl⟩ := registry_cases h' hreg'
      · exact ⟨fun _ => rfl, fun _ _ => rfl⟩
      · cases hscheme
    · obtain rfl | ⟨dir', hdir', rfl⟩ := registry_cases h' hreg'
      · cases hscheme
      · obtain rfl : dir = dir' := Option.some.inj (hdir.symm.trans hdir')
        refine ⟨fun r => ?_, fun _ r => Cache.entryPoint_congr hdisk hcwd r⟩
        cases r with
        | oci r => exact congrArg (!·) (Cache.isStored_congr hdisk hcwd)
        | relative | nuget => rfl
  constructor
  case read =>
    intro u
    simp only [Machine.setting, hdisk, hcwd]
  case answersFor => exact (answersFor_routes h').trans (answersFor_routes h).symm
  case restoreRequired => exact fun _ _ _ hreg hreg' => (hsame hreg hreg').1
  case entryPoint => exact fun _ _ _ hreg hreg' => (hsame hreg hreg').2

end Config

end ModuleGraph
