import ModuleGraph.Command.Run
import ModuleGraph.Proofs.Completeness
import ModuleGraph.Proofs.FilePaths

/-!
# Modules that can be resolved

An artifact in the cache has a URL only when the path of its entry file is absolute.
Whether it is there is asked of the disk, which finds relative paths as well; so an
artifact can be there and not be resolved. `resolves_iff` says when: the cache
directory has to be absolute, and then the URL leads back to the very file.

The cache directory comes from the environment, from a configuration file or from
the user's home. One that is written in a file is put behind the file's directory,
and is absolute if either is; the path of a file that is named on the command line
is taken as it is named (`isAnchored?`). A file that is found has an absolute path,
as the search starts at an absolute one (`isAnchored?_of_found`).
-/

namespace ModuleGraph

open DiskPath (IsName IsOrdinary ofString)

/-! ## Absolute paths -/

namespace DiskPath

variable {p q base : DiskPath} {names : List (List UInt8)}

theorem isAbsolute_join (base p : DiskPath) :
    (base.join p).isAbsolute = (p.isAbsolute || base.isAbsolute) := by
  rw [join]
  split
  · next h => rw [h, Bool.true_or]
  · next h =>
    rw [Bool.not_eq_true] at h
    cases base with
    | nil => exact h.trans (by rw [h]; rfl)
    | cons b base => split <;> rw [h, Bool.false_or] <;> rfl

theorem dropSilent_prefix_self (names : List (List UInt8)) : dropSilent names <+: names := by
  rw [dropSilent, ← List.reverse_suffix, List.reverse_reverse]
  exact List.dropWhile_suffix _

theorem intercalate_prefix_intercalate {α : Type} (sep : List α) {ls ms : List (List α)}
    (h : ls <+: ms) : sep.intercalate ls <+: sep.intercalate ms := by
  obtain ⟨more, rfl⟩ := h
  induction ls with
  | nil => exact List.nil_prefix
  | cons l ls ih =>
    cases ls with
    | nil =>
      rw [List.intercalate_singleton, List.singleton_append]
      cases more with
      | nil => exact (List.intercalate_singleton ..).symm ▸ List.prefix_rfl
      | cons m more =>
        rw [List.intercalate_cons_cons, List.append_assoc]
        exact List.prefix_append _ _
    | cons l' ls =>
      rw [List.cons_append, List.cons_append, List.intercalate_cons_cons,
        List.intercalate_cons_cons, List.prefix_append_right_inj, ← List.cons_append]
      exact ih

theorem anchor_cases (p : DiskPath) :
    p.anchor = [slashByte] ∧ p.isAbsolute = true ∨
      p.isAbsolute = false ∧ (p.anchor = [dotByte] ∨ p.anchor = []) := by
  cases p with
  | nil => exact .inr ⟨rfl, .inr rfl⟩
  | cons b rest =>
    rw [anchor, isAbsolute, List.head?_cons]
    by_cases hb : b = slashByte
    · rw [hb]
      exact .inl ⟨rfl, rfl⟩
    · rw [if_neg (by simpa using hb)]
      refine .inr ⟨by simpa using hb, ?_⟩
      split
      · next hdot =>
        rw [Bool.and_eq_true, beq_iff_eq] at hdot
        exact .inl (by rw [hdot.1])
      · exact .inr rfl

theorem isAbsolute_of_front (h : q <+: p) (hq : q.isAbsolute = true) : p.isAbsolute = true := by
  obtain ⟨more, rfl⟩ := h
  obtain ⟨rest, rfl⟩ := List.head?_eq_some_iff.1 (beq_iff_eq.1 hq)
  rfl

/-- A path and its parent start alike. -/
theorem isAbsolute_of_parent? (h : p.parent? = some q) : q.isAbsolute = p.isAbsolute := by
  simp only [parent?] at h
  rcases anchor_cases p with ⟨hanchor, habsolute⟩ | ⟨habsolute, hanchor | hanchor⟩
  · rw [hanchor] at h
    split at h
    · cases h
    · cases h
      exact habsolute.symm
  · rw [hanchor] at h
    rw [habsolute]
    split at h <;> cases h <;> rfl
  · rw [hanchor] at h
    split at h
    · cases h
    · obtain rfl := Option.some.inj h
      have hstarts := intercalate_prefix_intercalate [slashByte] <|
        (dropSilent_prefix_self _).trans <|
          (List.dropLast_prefix _).trans (dropSilent_prefix_self (p.splitOn slashByte))
      rw [List.intercalate_splitOn] at hstarts
      rw [habsolute, Bool.eq_false_iff]
      intro hstart
      rw [isAbsolute_of_front hstarts hstart] at habsolute
      cases habsolute

theorem foldl_go_of_dots {here : Place} (h : ∀ name ∈ names, name = [dotByte]) :
    names.foldl Disk.go here = here := by
  induction names with
  | nil => rfl
  | cons name names ih =>
    obtain ⟨hname, hnames⟩ := List.forall_mem_cons.1 h
    rw [List.foldl_cons, hname, Disk.go, if_pos rfl]
    exact ih hnames

/-- Only the root has no parent among absolute paths, and it is no file. -/
theorem isAbsolute_of_orphan {d : Disk} {cwd : Place} {bytes : List UInt8}
    (hread : d.readBytes cwd p = .ok bytes) (h : p.parent? = none) : p.isAbsolute = false := by
  rcases anchor_cases p with ⟨hanchor, habsolute⟩ | ⟨habsolute, -⟩
  · obtain ⟨rest, rfl⟩ := List.head?_eq_some_iff.1 (beq_iff_eq.1 habsolute)
    simp only [parent?, hanchor] at h
    split at h
    · next hsilent =>
      have hfile := Disk.readBytes_eq hread
      have hnames := names_append_slash [] rest
      rw [List.nil_append, names_nil, List.nil_append] at hnames
      have hdots : ∀ name ∈ DiskPath.names rest, name = [dotByte] := by
        intro name hname
        rw [names, List.mem_filter] at hname
        have hmem : name ∈ (rest.splitOn slashByte).reverse := List.mem_reverse.2 hname.1
        have hwhole := List.takeWhile_append_dropWhile (p := isSilent)
          (l := (rest.splitOn slashByte).reverse)
        have hnil : (rest.splitOn slashByte).reverse.dropWhile isSilent = [] :=
          List.reverse_eq_nil_iff.1 (List.isEmpty_iff.1 hsilent)
        rw [hnil, List.append_nil] at hwhole
        rw [← hwhole] at hmem
        have hname' := List.all_eq_true.1 List.all_takeWhile name hmem
        rw [isSilent, Bool.or_eq_true, beq_iff_eq] at hname'
        exact hname'.resolve_left (by simpa using hname.2)
      rw [Disk.place, Disk.origin, if_pos habsolute, hnames, foldl_go_of_dots hdots] at hfile
      cases hfile
    · cases h
  · exact habsolute

end DiskPath

/-! ## Where the cache is configured -/

theorem Disk.readBytes_of_readText {d : Disk} {cwd : Place} {p : DiskPath} {text : String}
    (h : d.readText cwd p = .ok text) : ∃ bytes, d.readBytes cwd p = .ok bytes := by
  rw [readText] at h
  cases hread : d.readBytes cwd p with
  | error e => rw [hread] at h; cases h
  | ok bytes => exact ⟨bytes, rfl⟩

namespace Config

variable {d : Disk} {cwd : Place} {path : DiskPath} {c : Config}

/-- The cache directory that the file at a path writes down. -/
def written? (d : Disk) (cwd : Place) (path : DiskPath) : Option DiskPath := do
  let text ← (d.readText cwd path).toOption
  let c ← (ofText text).toOption
  c.cacheDirectory

/-- A directory that is written down is absolute by itself, or beside a file with an absolute
path. -/
theorem isAbsolute_of_load (h : load d cwd path = .ok c) :
    c.cacheDirectory.map DiskPath.isAbsolute =
      (written? d cwd path).map fun dir => dir.isAbsolute || path.isAbsolute := by
  rw [load] at h
  split at h
  · cases h
  · next text hread =>
    split at h
    · cases h
    · next c₀ htext =>
      cases h
      have hwritten : written? d cwd path = c₀.cacheDirectory := by
        simp [written?, hread, htext, Except.toOption]
      rw [hwritten, beside, Option.map_map]
      congr 1
      funext dir
      dsimp only [Function.comp]
      split
      · next base hbase =>
        rw [DiskPath.isAbsolute_join, DiskPath.isAbsolute_of_parent? hbase]
      · next hnone =>
        obtain ⟨bytes, hbytes⟩ := Disk.readBytes_of_readText hread
        rw [DiskPath.isAbsolute_of_orphan hbytes hnone, Bool.or_false]

end Config

namespace Machine

variable {τ : Type} {m : Machine τ} {o : Options} {start : DiskPath} {c : Config}

/-- The path of the configuration file. -/
def configPath? (m : Machine τ) (o : Options) (start : DiskPath) : Option DiskPath :=
  match o.config with
  | some path => some (.ofString path)
  | none => Config.find? m.host.disk m.host.cwd start

/-- Whether the cache directory is absolute, by what decides where it is. -/
def isAnchored? (m : Machine τ) (o : Options) (start : DiskPath) : Option Bool :=
  m.environment.cacheDirectory.map DiskPath.isAbsolute <|>
    ((m.configPath? o start).bind fun path =>
      (Config.written? m.host.disk m.host.cwd path).map fun dir =>
        dir.isAbsolute || path.isAbsolute) <|>
    m.environment.home.map DiskPath.isAbsolute

theorem isAbsolute_cache? (h : m.configure o start = .ok c) :
    (c.cache? m.environment).map DiskPath.isAbsolute = m.isAnchored? o start := by
  have hwritten : c.cacheDirectory.map DiskPath.isAbsolute =
      (m.configPath? o start).bind fun path =>
        (Config.written? m.host.disk m.host.cwd path).map fun dir =>
          dir.isAbsolute || path.isAbsolute := by
    rw [configure] at h
    rw [configPath?]
    cases hconfig : o.config with
    | some path =>
      rw [hconfig] at h
      exact Config.isAbsolute_of_load h
    | none =>
      rw [hconfig] at h
      dsimp only at h ⊢
      rw [Config.discover] at h
      cases hfind : Config.find? m.host.disk m.host.cwd start with
      | some path =>
        rw [hfind] at h
        exact Config.isAbsolute_of_load h
      | none =>
        rw [hfind] at h
        cases h
        rfl
  have hhome : m.environment.homeCache?.map DiskPath.isAbsolute =
      m.environment.home.map DiskPath.isAbsolute := by
    have hmodlink : IsName ".modlink" := ⟨by decide, by decide⟩
    have hcache : IsName "cache" := ⟨by decide, by decide⟩
    rw [Environment.homeCache?, Option.map_map]
    congr 1
    funext home
    exact hcache.isAbsolute_join.trans hmodlink.isAbsolute_join
  rw [isAnchored?, ← hwritten, ← hhome, Config.cache?]
  cases m.environment.cacheDirectory <;> cases c.cacheDirectory <;> rfl

theorem isAbsolute_of_mem_ancestorsUpTo {n : Nat} {p q : DiskPath} (hp : p.isAbsolute = true)
    (h : q ∈ p.ancestorsUpTo n) : q.isAbsolute = true := by
  induction n generalizing p with
  | zero => cases h
  | succ n ih =>
    rw [DiskPath.ancestorsUpTo, List.mem_cons] at h
    rcases h with rfl | h
    · exact hp
    · cases hparent : p.parent? with
      | none => rw [hparent] at h; cases h
      | some parent =>
        rw [hparent] at h
        exact ih ((DiskPath.isAbsolute_of_parent? hparent).trans hp) h

/-- What a file writes down that is found from an absolute directory on is absolute. -/
theorem isAnchored?_of_found (hstart : start.isAbsolute = true) (hnone : o.config = none)
    {path dir : DiskPath} (henvironment : m.environment.cacheDirectory = none)
    (hpath : m.configPath? o start = some path)
    (hwritten : Config.written? m.host.disk m.host.cwd path = some dir) :
    m.isAnchored? o start = some true := by
  have habsolute : path.isAbsolute = true := by
    rw [configPath?, hnone] at hpath
    obtain ⟨above, habove, rfl⟩ := List.mem_map.1 (List.mem_of_find?_eq_some hpath)
    rw [DiskPath.isAbsolute_join, isAbsolute_of_mem_ancestorsUpTo hstart habove, Bool.or_true]
  simp [isAnchored?, henvironment, hpath, hwritten, habsolute]

end Machine

/-! ## Entry files as URLs -/

/-- A URL names the file that a path leads to, and is read as that file is. -/
structure Disk.Names (d : Disk) (cwd : Place) (p : DiskPath) (u : Url) : Prop where
  place : ∃ q, u.toFilePath? = some q ∧ d.find cwd q = d.find cwd p
  reads : ∀ bytes, d.readBytes cwd p = .ok bytes →
    d.readUrl cwd u = match Utf8.string? bytes with
      | some text => .ok text
      | none => .error (.io OsError.notUtf8.message)

/-- The URL of a path names the file that the path leads to, unless it is taken for a drive. -/
theorem Disk.names_of_file {d : Disk} {cwd : Place} {p : DiskPath} {bytes : List UInt8}
    (h : p.isAbsolute = true) (hread : d.readBytes cwd p = .ok bytes)
    (hdrive : Url.closeDrive (pathOf (pathComponents p)) = pathOf (pathComponents p)) :
    d.Names cwd p (Url.ofPlace (pathComponents p)) := by
  obtain ⟨place, hfind, hnode⟩ := find_of_readBytes hread
  have hfile : d.isDirectory place = false := by
    rw [isDirectory, hnode]
    rfl
  have hsame : d.find cwd (pathOf (pathComponents p)) = d.find cwd p :=
    (find_pathOf h hfind hfile).trans hfind.symm
  have hpath := Url.toFilePath?_ofPlace (pathComponents p)
  rw [hdrive] at hpath
  refine ⟨⟨_, hpath, hsame⟩, fun bytes' hread' => ?_⟩
  have hbytes : d.readBytes cwd (pathOf (pathComponents p)) = .ok bytes' := by
    rw [readBytes, hsame, ← readBytes, hread']
  rw [readUrl, Url.scheme_ofPlace, hpath, if_pos (by decide)]
  dsimp only
  rw [readText, hbytes]
  simp only [bind, Except.bind]
  cases Utf8.string? bytes' <;> rfl

namespace Cache

variable {τ : Type} {cache : DiskPath} {client : ArtifactClient τ} {host before : Host τ}
  {r : OciReference} {raw : String} {a : Artifact} {remote : τ} {u : Url} {parent : Url}

theorem isAbsolute_entryPath (h : r.WellFormed) :
    (entryPath cache r).isAbsolute = cache.isAbsolute := by
  rw [entryPath, isOrdinary_entryName.toIsName.isAbsolute_join, directory_eq_joinAll,
    (DiskPath.names_joinAll _ (isName_directoryNames h)).2,
    isOrdinary_artifactsName.toIsName.isAbsolute_join]

/-- The name of the entry file is not taken for a drive. -/
theorem closeDrive_entryPath : Url.closeDrive (Disk.pathOf (pathComponents (entryPath cache r))) =
    Disk.pathOf (pathComponents (entryPath cache r)) := by
  have hcomponents : pathComponents (entryPath cache r) =
      (directory cache r).names.filter (· != [DiskPath.dotByte]) ++ [ofString entryName] := by
    rw [DiskPath.pathComponents_eq, entryPath, isOrdinary_entryName.toIsName.names_join,
      List.filter_append, List.filter_cons_of_pos (by decide), List.filter_nil]
  have hbytes : ofString entryName = [0x6D, 0x61, 0x69, 0x6E, 0x2E, 0x6A, 0x73, 0x6F, 0x6E] := by
    decide
  have hpath : Disk.pathOf (pathComponents (entryPath cache r)) =
      ((directory cache r).names.filter (· != [DiskPath.dotByte])).flatMap (slashByte :: ·) ++
        slashByte :: ofString entryName := by
    rw [hcomponents, Disk.pathOf, if_neg (by simp), List.flatMap_append, List.flatMap_singleton]
  have hend : Url.endsWithDrive (Disk.pathOf (pathComponents (entryPath cache r))) = false := by
    rw [hpath, hbytes]
    simp [Url.endsWithDrive]
  rw [Url.closeDrive, hend, if_neg Bool.false_ne_true]

theorem exists_bytes (hstored : isStored cache host r = true) :
    ∃ bytes, host.disk.readBytes host.cwd (entryPath cache r) = .ok bytes := by
  rw [isStored, Disk.isFile] at hstored
  cases hread : host.disk.readBytes host.cwd (entryPath cache r) with
  | error e => rw [hread] at hstored; cases hstored
  | ok bytes => exact ⟨bytes, rfl⟩

theorem entryPoint_of_isStored (hstored : isStored cache host r = true) :
    entryPoint cache host (.oci r) =
      match Url.ofFilePath? (entryPath cache r) with
      | some u => .ok u
      | none => .error (.entryPointUnresolvable (Reference.qualified (.oci r))
          ("cache path '" ++ (entryPath cache r).render ++ "' is not absolute")) :=
  if_neg (by simp [hstored])

theorem names_of_entryPoint (h : r.WellFormed) (hstored : isStored cache host r = true)
    (hcache : cache.isAbsolute = true) : ∃ u, entryPoint cache host (.oci r) = .ok u ∧
      host.disk.Names host.cwd (entryPath cache r) u := by
  have habsolute := (isAbsolute_entryPath h).trans hcache
  obtain ⟨bytes, hbytes⟩ := exists_bytes hstored
  refine ⟨_, by rw [entryPoint_of_isStored hstored, Url.ofFilePath?_eq habsolute], ?_⟩
  exact Disk.names_of_file habsolute hbytes closeDrive_entryPath

theorem isAbsolute_of_entryPoint (h : r.WellFormed) (hstored : isStored cache host r = true)
    (hentry : entryPoint cache host (.oci r) = .ok u) : cache.isAbsolute = true := by
  rw [entryPoint_of_isStored hstored, Url.ofFilePath?] at hentry
  rw [← isAbsolute_entryPath h, DiskPath.isAbsolute]
  split at hentry
  · next u' hu =>
    split at hu
    · next habsolute => exact habsolute
    · cases hu
  · cases hentry

/-- The steps that store an artifact put the layer into the entry file. -/
theorem file?_of_changes {d d' : Disk} {cwd : Place} {processId time : Nat}
    (h : d.performAll cwd (changes cache processId time r a) = (d', .ok ())) :
    d'.file? (home cache cwd r ++ [ofString entryName]) = some a.layer := by
  obtain ⟨d₁, -, h⟩ := Disk.performAll_cons_ok h
  obtain ⟨d₂, -, h⟩ := Disk.performAll_cons_ok h
  obtain ⟨d₃, -, h⟩ := Disk.performAll_cons_ok h
  obtain ⟨d₄, hlayer, h⟩ := Disk.performAll_cons_ok h
  obtain ⟨d₅, hmoved, h⟩ := Disk.performAll_cons_ok h
  obtain rfl : d₅ = d' := (Prod.mk.inj h).1
  rw [file?_of_rename isOrdinary_temporaryName isOrdinary_entryName (Disk.rename_of_perform hmoved),
    file?_of_write isOrdinary_temporaryName (Disk.write_of_perform hlayer)]

theorem readBytes_of_restoreOne (hstored : isStored cache before r = false)
    (hpull : client.pull before.remote r = (.ok a, remote))
    (hdone : restoreOne cache client before r = (none, host))
    (havailable : isStored cache host r = true) :
    host.disk.readBytes host.cwd (entryPath cache r) = .ok a.layer := by
  obtain ⟨bytes, hbytes⟩ := exists_bytes havailable
  rw [restoreOne, if_neg (by simp [hstored]), hpull] at hdone
  dsimp only at hdone
  cases hall : before.disk.performAll before.cwd
      (changes cache before.processId before.time r a) with
  | mk disk result =>
    rw [hall] at hdone
    cases result with
    | error e => cases (Prod.mk.inj hdone).1
    | ok u =>
      obtain rfl := (Prod.mk.inj hdone).2
      have hfile := Disk.readBytes_eq hbytes
      rw [entryPath, place_file isOrdinary_entryName, file?_of_changes hall] at hfile
      rw [hbytes, Option.some.inj hfile]

end Cache

/-- The reference is resolved to the file at a path, whatever file declares it. -/
def Registry.Resolves {τ : Type} (registry : Registry (Host τ)) (host : Host τ) (r : Reference)
    (path : DiskPath) : Prop :=
  ∀ parent, ∃ u, registry.entryPoint host parent r = .ok u ∧ host.disk.Names host.cwd path u

namespace Machine

variable {τ : Type} {m : Machine τ} {o : Options} {start : DiskPath} {c : Config}
  {routes : Routes (Host τ)} {registry : Registry (Host τ)} {host : Host τ} {raw : String}
  {r : OciReference}

/-- An artifact that is there is resolved to its entry file exactly when the cache directory is
absolute. -/
theorem resolves_iff (hconfig : m.configure o start = .ok c)
    (hroutes : c.routes m.environment m.transport = .ok routes)
    (hregistry : routes.registry? .oci = some registry) (hparse : OciReference.parse raw = .ok r)
    (havailable : registry.restoreRequired host (.oci r) = false) :
    ∃ dir, c.cache? m.environment = some dir ∧
      (registry.Resolves host (.oci r) (Cache.entryPath dir r) ↔
        m.isAnchored? o start = some true) ∧
      ∀ (before : Host τ) (a : Artifact) (remote : τ),
        registry.restoreRequired before (.oci r) = true →
        (Http.Client.artifacts ⟨m.transport, c.plainHttp⟩).pull before.remote r = (.ok a, remote) →
        registry.restore before [.oci r] = ([], host) →
        host.disk.readBytes host.cwd (Cache.entryPath dir r) = .ok a.layer := by
  rw [Config.routes] at hroutes
  split at hroutes
  · cases hroutes
  · next dir hdir =>
    cases hroutes
    cases hregistry
    have hwf := OciReference.wellFormed_of_parse hparse
    have hstored : Cache.isStored dir host r = true := by
      simpa [Registry.cache] using havailable
    refine ⟨dir, hdir, ?_, fun before a remote hrequired hpull hdone => ?_⟩
    · have hanchored := isAbsolute_cache? hconfig
      rw [hdir, Option.map_some] at hanchored
      rw [← hanchored, Option.some_inj]
      constructor
      · intro hresolves
        obtain ⟨u, hu, -⟩ := hresolves ⟨""⟩
        exact Cache.isAbsolute_of_entryPoint hwf hstored hu
      · exact fun habsolute _ => Cache.names_of_entryPoint hwf hstored habsolute
    · have hbefore : Cache.isStored dir before r = false := by
        simpa [Registry.cache] using hrequired
      refine Cache.readBytes_of_restoreOne hbefore hpull ?_ hstored
      simp only [Registry.cache, Cache.restore, List.append_nil] at hdone
      obtain ⟨hnone, hhost⟩ := Prod.mk.inj hdone
      refine Prod.ext ?_ hhost
      simpa using hnone

end Machine

namespace Sample

open DiskPath (ofString)

/-- An artifact. -/
def kept : OciReference := ⟨"reg.io", "/a", "v1"⟩

/-- A disk with the artifact in a cache, and with a configuration beside the cache. -/
def shopDisk : Disk :=
  (Disk.empty.performAll [] [.makeDirectories (Cache.directory (ofString "/c") kept),
    .write (Cache.entryPath (ofString "/c") kept) (Utf8.bytesOf "module b './b.cfg'"),
    .write (ofString "/modlink.toml") (Utf8.bytesOf "[cache]\ndir = 'c'")]).1

/-- A machine with the disk, on which nothing can be fetched. -/
def shop : Machine Unit :=
  ⟨⟨shopDisk, [], 1, 0, ()⟩, ⟨none, none⟩, ⟨fun world _ => (none, world)⟩, 10⟩

/-- What the configuration says, by the path under which it is read. -/
def shopConfig (cache : String) : Config := ⟨some (ofString cache), [], 30, none⟩

def shopCache (cache : String) : Registry (Host Unit) :=
  .cache (ofString cache) (Http.Client.artifacts ⟨shop.transport, []⟩)

theorem resolves_shop : shop.configure ⟨some "/modlink.toml", none⟩ [] = .ok (shopConfig "/c") ∧
    (shopCache "/c").Resolves shop.host (.oci kept) (Cache.entryPath (ofString "/c") kept) := by
  have hconfig : shop.configure ⟨some "/modlink.toml", none⟩ [] = .ok (shopConfig "/c") := by
    decide +kernel
  have havailable : (shopCache "/c").restoreRequired shop.host (.oci kept) = false := by
    decide +kernel
  obtain ⟨dir, hdir, hresolves, -⟩ := Machine.resolves_iff hconfig rfl rfl parse_plain havailable
  obtain rfl : ofString "/c" = dir := Option.some.inj hdir
  exact ⟨hconfig, hresolves.2 (by decide +kernel)⟩

/-- With the same configuration under a relative path, the artifact is there but not resolved. -/
theorem not_resolves : ¬ ∀ (m : Machine Unit) (o : Options) (start : DiskPath) (c : Config)
    (routes : Routes (Host Unit)) (registry : Registry (Host Unit)) (host : Host Unit)
    (raw : String) (r : OciReference),
    m.configure o start = .ok c → c.routes m.environment m.transport = .ok routes →
    routes.registry? .oci = some registry → OciReference.parse raw = .ok r →
    registry.restoreRequired host (.oci r) = false →
    ∃ dir, c.cache? m.environment = some dir ∧
      registry.Resolves host (.oci r) (Cache.entryPath dir r) := by
  intro h
  have hconfig : shop.configure ⟨some "modlink.toml", none⟩ [] = .ok (shopConfig "c") := by
    decide +kernel
  have havailable : (shopCache "c").restoreRequired shop.host (.oci kept) = false := by
    decide +kernel
  obtain ⟨dir, -, hresolves⟩ :=
    h shop _ [] _ _ _ shop.host _ _ hconfig rfl rfl parse_plain havailable
  obtain ⟨u, hu, -⟩ := hresolves ⟨"file:///main.cfg"⟩
  have hnone : ((shopCache "c").entryPoint shop.host ⟨"file:///main.cfg"⟩ (.oci kept)).toOption =
      none := by
    decide +kernel
  rw [show (shopCache "c").entryPoint shop.host ⟨"file:///main.cfg"⟩ (.oci kept) = .ok u from hu]
    at hnone
  cases hnone

end Sample

end ModuleGraph
