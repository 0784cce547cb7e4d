import ModuleGraph.Proofs.KeptArtifacts
import ModuleGraph.Proofs.OneNode
import ModuleGraph.Proofs.Pulling

/-!
# Restoring now, and looking at the graph later

A `restore` command counts the declarations of remote modules, and those among
them whose modules are still not there. It shows diagnostics by their codes. Both
come to the same number: the codes that it shows are those of the failures that it
counts (`Report.contains_restoreCodes`), and none but remote modules fail in this
way (`Machine.isRemote_of_isRestore`).

When that number is zero, a `graph` command in a later process, which restores
nothing, finds the entry file again and has the same registries over the same
cache. It gets the graph that the first command ended with just when the files of
that graph are on the disk as they were read (`Machine.graph_after_restore`). They
need not be. A restore may write over a file that has been read, for a path can
lead into the cache, and the command goes on with what it has read
(`Sample.not_graph_after_restore`).
-/

namespace ModuleGraph

open DiskPath (ofString)
open Disk (Ordinary pathOf)

/-! ## Counting what is shown -/

namespace Graph

variable {g : Graph} {d : Declaration} {isShown : Diagnostic → Bool}

theorem mem_declarations_iff :
    d ∈ g.files.values.flatMap (·.declarations) ↔ g.declaration? d.id = some d := by
  rw [List.mem_flatMap, declaration?, Option.bind_eq_some_iff]
  constructor
  · rintro ⟨f, hf, hd⟩
    refine ⟨f, ?_, SourceFile.declaration?_of_mem hd⟩
    rw [SourceFile.id_uri_of_mem hd]
    exact FileMap.mem_values_iff.1 hf
  · rintro ⟨f, hf, hd⟩
    refine ⟨f, FileMap.mem_values_iff.2 ?_, SourceFile.mem_of_declaration? hd⟩
    rwa [FileMap.uri_of_getElem? hf]

/-- Each declaration whose failure is to be shown makes for one diagnostic. -/
theorem length_findings : (g.findings isShown).length =
    (g.files.values.flatMap (·.declarations)).countP fun d =>
      (g.failure? d.id).any fun f => isShown (f.placedAt d.span) := by
  rw [findings, List.length_flatMap, List.countP_flatMap]
  congr 1
  refine List.map_congr_left fun f hf => ?_
  rw [List.length_map, ← List.countP_eq_length_filter, diagnosticsFor,
    FileMap.mem_values_iff.1 hf]
  dsimp only
  rw [List.countP_filterMap]
  congr 1
  funext d
  cases g.failure? d.id <;> rfl

end Graph

namespace Report

variable {σ : Type} {routes : Routes σ} {g : Graph}

/-- The codes that a `restore` command shows are those of the failures that it counts. -/
theorem contains_restoreCodes (f : Failure) : restoreCodes.contains f.code = f.isRestore := by
  cases f <;> rfl

/-- The declaration refers to a module that has to be fetched. -/
def IsRemote (routes : Routes σ) (d : Declaration) : Prop :=
  ∃ r, routes.read d = .ok r ∧ r.scheme ≠ .relative

/-- The diagnostics of a `restore` command are those of the failures that it counts. -/
theorem length_findings_ofRestore : (ofRestore routes g).findings.length =
    (g.files.values.flatMap (·.declarations)).countP fun d =>
      (g.failure? d.id).any Failure.isRestore := by
  have hshown (d : Declaration) (f : Failure) :
      restoreCodes.contains (f.placedAt d.span).code = f.isRestore := contains_restoreCodes f
  rw [ofRestore, Graph.length_findings]
  simp only [hshown]

/-- Nothing is shown when nothing is missing. -/
theorem findings_ofRestore_eq_nil_iff (hg : g.Consistent) : (ofRestore routes g).findings = [] ↔
    ∀ (id : DeclarationId) f, g.failure? id = some f → f.isRestore = false := by
  rw [← List.length_eq_zero_iff, length_findings_ofRestore, List.countP_eq_zero]
  constructor
  · intro h id f hf
    obtain ⟨d, hd, rfl⟩ := hg.declared id (.inr (by rw [hf]; rfl))
    have hno := h d (Graph.mem_declarations_iff.2 hd)
    rw [hf] at hno
    exact Bool.eq_false_iff.2 hno
  · intro h d _ hany
    obtain ⟨f, hf, hrestore⟩ := (Option.any_eq_true _ _).1 hany
    rw [h d.id f hf] at hrestore
    cases hrestore

section Remote

variable (hremote : ∀ d f, g.declaration? d.id = some d → g.failure? d.id = some f →
  f.isRestore = true → IsRemote routes d)

include hremote

/-- When none but remote modules are missing, as many are counted as are shown. -/
theorem countP_remoteDeclarations : (remoteDeclarations routes g).countP (fun d =>
    (g.failure? d.id).any Failure.isRestore) = (ofRestore routes g).findings.length := by
  rw [length_findings_ofRestore, remoteDeclarations, List.countP_filter]
  refine List.countP_congr fun d hd => ?_
  rw [Bool.and_eq_true]
  refine ⟨fun h => h.1, fun h => ⟨h, ?_⟩⟩
  obtain ⟨f, hf, hrestore⟩ := (Option.any_eq_true _ _).1 h
  obtain ⟨r, hr, hscheme⟩ := hremote d f (Graph.mem_declarations_iff.1 hd) hf hrestore
  rw [hr, Except.toOption, Option.any_some]
  exact bne_iff_ne.2 hscheme

theorem exitCode_ofRestore : (ofRestore routes g).exitCode =
    if (ofRestore routes g).findings = [] then 0 else 1 := by
  have hexit : (ofRestore routes g).exitCode = if (remoteDeclarations routes g).countP (fun d =>
      (g.failure? d.id).any Failure.isRestore) = 0 then 0 else 1 := rfl
  rw [hexit, countP_remoteDeclarations hremote]
  simp only [List.length_eq_zero_iff]

theorem messages_ofRestore : ∃ restored remote, (ofRestore routes g).messages =
      ["restored " ++ toString restored ++ " of " ++ toString remote ++ " remote module(s)"] ∧
    restored + (ofRestore routes g).findings.length = remote := by
  refine ⟨_, _, rfl, ?_⟩
  rw [countP_remoteDeclarations hremote]
  refine Nat.sub_add_cancel ?_
  rw [← countP_remoteDeclarations hremote]
  exact List.countP_le_length

end Remote

end Report

/-! ## The entry file -/

namespace Disk

variable {d d' : Disk} {cwd place : Place} {p : DiskPath}

/-- A path keeps leading to what is there, as long as no directory goes away. -/
theorem find_of_directories (h : d.find cwd p = .ok place)
    (hdirs : ∀ q, d.isDirectory q = true → d'.isDirectory q = true)
    (hplace : (d'.node? place).isSome = true) : d'.find cwd p = .ok place := by
  obtain ⟨hcheck, hwalk, hmeans⟩ := find_eq_ok_iff.1 h
  exact find_eq_ok_iff.2
    ⟨hcheck, walk_of_directories hwalk hdirs hplace, fun hm => hdirs place (hmeans hm)⟩

/-- In an ordinary directory, paths lead to ordinary places. -/
theorem ordinary_of_find (hcwd : Ordinary cwd) (h : d.find cwd p = .ok place) :
    Ordinary place := by
  refine ordinary_of_walk (find_eq_ok_iff.1 h).2.1 ?_ (spoken_names p)
  rw [origin]
  split
  · simp [Ordinary]
  · exact hcwd

end Disk

namespace Machine

variable {τ : Type} {m m' : Machine τ} {o : Options} {entry text : String} {path path' : DiskPath}
  {uri uri' : Url} {routes routes' : Routes (Host τ)} {restores : Bool} {g : Graph}
  {site : Site (Host τ)}

theorem openEntry_eq_ok_iff : m.openEntry entry = .ok (path, uri) ↔
    ∃ place, m.host.disk.find m.host.cwd (ofString entry) = .ok place ∧ path = pathOf place ∧
      Url.ofFilePath? path = some uri := by
  rw [openEntry, Disk.canonicalize]
  cases m.host.disk.find m.host.cwd (ofString entry) with
  | error e => simp [bind, Except.bind]
  | ok place =>
    cases hu : Url.ofFilePath? (pathOf place) with
    | none =>
      simp only [bind, Except.bind, pure, Except.pure, hu, reduceCtorEq, Except.ok.injEq,
        exists_eq_left', false_iff]
      rintro ⟨rfl, h⟩
      rw [hu] at h
      cases h
    | some u =>
      simp only [bind, Except.bind, pure, Except.pure, hu, Except.ok.injEq, Prod.mk.injEq,
        exists_eq_left']
      constructor
      · rintro ⟨rfl, rfl⟩
        exact ⟨rfl, hu⟩
      · rintro ⟨rfl, h⟩
        exact ⟨rfl, Option.some.inj (hu.symm.trans h)⟩

/-- Where an entry file is does not depend on the disk. -/
theorem openEntry_unique (h : m.openEntry entry = .ok (path, uri))
    (h' : m'.openEntry entry = .ok (path', uri')) (hcwd : m'.host.cwd = m.host.cwd) :
    path' = path := by
  obtain ⟨place, hfind, rfl, -⟩ := openEntry_eq_ok_iff.1 h
  obtain ⟨place', hfind', rfl, -⟩ := openEntry_eq_ok_iff.1 h'
  rw [Disk.find_eq hfind, Disk.find_eq hfind', hcwd]

/-- An entry file that can be read under its URL is found again. -/
theorem openEntry_again (hordinary : Ordinary m.host.cwd)
    (h : m.openEntry entry = .ok (path, uri)) (hcwd : m'.host.cwd = m.host.cwd)
    (hdirs : ∀ q, m.host.disk.isDirectory q = true → m'.host.disk.isDirectory q = true)
    (hread : m'.host.disk.readUrl m'.host.cwd uri = .ok text) :
    m'.openEntry entry = .ok (path, uri) := by
  obtain ⟨place, hfind, rfl, huri⟩ := openEntry_eq_ok_iff.1 h
  have hplace := Disk.ordinary_of_find hordinary hfind
  obtain rfl : Url.ofPlace place = uri :=
    Option.some.inj ((Disk.ofFilePath?_pathOf hplace).symm.trans huri)
  obtain ⟨q, hat⟩ := Disk.fileAt_of_readUrl hread
  obtain rfl : q = place := (hat.eq_of_ofPlace hplace).1
  obtain ⟨bytes, hnode⟩ := hat.file
  refine openEntry_eq_ok_iff.2 ⟨q, ?_, rfl, huri⟩
  rw [hcwd]
  exact Disk.find_of_directories hfind hdirs (by rw [hnode]; rfl)

theorem prepare_eq_ok_iff : m.prepare o entry = .ok (routes, uri) ↔
    ∃ path c, m.openEntry entry = .ok (path, uri) ∧
      m.configure o (entryDirectory path) = .ok c ∧
      c.routes m.environment m.transport = .ok routes := by
  rw [prepare]
  cases m.openEntry entry with
  | error e => simp [bind, Except.bind]
  | ok found =>
    obtain ⟨path, u⟩ := found
    cases hc : m.configure o (entryDirectory path) with
    | error e => simp [bind, Except.bind, Except.mapError, hc]
    | ok c =>
      cases hr : c.routes m.environment m.transport with
      | error e => simp [bind, Except.bind, Except.mapError, hc, hr]
      | ok found => simp [bind, Except.bind, Except.mapError, pure, Except.pure, hc, hr, and_comm]

/-! ## The command -/

theorem runOnGraph_eq {report : Routes (Host τ) → Graph → Report}
    (hprepare : m.prepare o entry = .ok (routes, uri))
    (hgraph : m.graph routes uri restores = some (.ok g, site)) :
    m.runOnGraph o entry restores report = (report routes g, site) := by
  rw [runOnGraph, hprepare]
  dsimp only
  rw [hgraph]

theorem run_graph (hprepare : m.prepare o entry = .ok (routes, uri))
    (hgraph : m.graph routes uri restores = some (.ok g, site)) :
    m.run ⟨.graph entry restores, o⟩ = (.ofGraph g, site) :=
  runOnGraph_eq hprepare hgraph

theorem run_restore (hprepare : m.prepare o entry = .ok (routes, uri))
    (hgraph : m.graph routes uri true = some (.ok g, site)) :
    m.run ⟨.restore entry, o⟩ = (.ofRestore routes g, site) :=
  runOnGraph_eq hprepare hgraph

/-- A graph with its modules restored is that of the last round. -/
theorem exists_round (hgraph : m.graph routes uri true = some (.ok g, site)) :
    ∃ i, (setting routes).Round ∅ uri ⟨m.host, .empty⟩ i g site ∧ g.pending.isEmpty = true ∧
      g.files.size ≤ m.budget := by
  rcases Setting.link_ends hgraph with ⟨e, s, -, heq⟩ | ⟨i, g', s', hround, hpending, hsize, heq⟩
  · cases heq
  · cases heq
    exact ⟨i, hround, hpending, hsize i g site hround⟩

/-- None but remote modules are missing in the end. -/
theorem isRemote_of_isRestore {d : Declaration} {f : Failure}
    (hprepare : m.prepare o entry = .ok (routes, uri))
    (hgraph : m.graph routes uri true = some (.ok g, site)) (hdecl : g.declaration? d.id = some d)
    (hf : g.failure? d.id = some f) (hrestore : f.isRestore = true) :
    Report.IsRemote routes d := by
  obtain ⟨path, c, -, -, hroutes⟩ := prepare_eq_ok_iff.1 hprepare
  obtain ⟨i, hround, -⟩ := exists_round hgraph
  obtain ⟨r, hr, hremote⟩ := hround.remote_of_isRestore (Config.steadfast_routes hroutes)
    (Config.sober_routes hroutes) hdecl hf hrestore
  exact ⟨r, hr, Config.scheme_ne_of_remote hroutes hremote⟩

/-- The command reads the references of declarations from their paths. Linking goes by what it has
written down of them, and that is the same. -/
theorem remoteDeclarations_eq (hprepare : m.prepare o entry = .ok (routes, uri))
    (hgraph : m.graph routes uri true = some (.ok g, site)) :
    Report.remoteDeclarations routes g = (g.files.values.flatMap (·.declarations)).filter fun d =>
      (routes.referenceIn site.ledger d).toOption.any (·.scheme != .relative) := by
  obtain ⟨path, c, -, -, hroutes⟩ := prepare_eq_ok_iff.1 hprepare
  obtain ⟨i, hround, -⟩ := exists_round hgraph
  refine List.filter_congr fun d hd => ?_
  have href : routes.referenceIn site.ledger d = routes.read d :=
    hround.referenceIn_eq (Config.steadfast_routes hroutes) (Graph.mem_declarations_iff.1 hd)
  rw [href]

/-- A process that comes after another one: it has the disk that was left, and the working
directory, the environment and the configuration of the other one. What it would fetch with may be
something else. -/
structure Follows (m m' : Machine τ) (o : Options) (entry : String) (left : Host τ) : Prop where
  disk : m'.host.disk = left.disk
  cwd : m'.host.cwd = m.host.cwd
  environment : m'.environment = m.environment
  configuration : ∀ path uri, m.openEntry entry = .ok (path, uri) →
    m'.configure o (entryDirectory path) = m.configure o (entryDirectory path)
  budget : m.budget ≤ m'.budget

namespace Follows

variable {left : Host τ}

/-- If both processes find the entry file, they have registries by the same configuration. -/
theorem exists_config (h : m.Follows m' o entry left)
    (hprepare : m.prepare o entry = .ok (routes, uri))
    (hprepare' : m'.prepare o entry = .ok (routes', uri')) :
    ∃ c : Config, c.routes m.environment m.transport = .ok routes ∧
      c.routes m.environment m'.transport = .ok routes' := by
  obtain ⟨path, c, hopen, hconfig, hroutes⟩ := prepare_eq_ok_iff.1 hprepare
  obtain ⟨path', c', hopen', hconfig', hroutes'⟩ := prepare_eq_ok_iff.1 hprepare'
  obtain rfl := openEntry_unique hopen hopen' h.cwd
  rw [h.configuration path' uri hopen, hconfig] at hconfig'
  rw [h.environment, ← Except.ok.inj hconfig'] at hroutes'
  exact ⟨c, hroutes, hroutes'⟩

/-- The later process finds the entry file as long as it can be read under its URL. -/
theorem prepare_again (h : m.Follows m' o entry left) (hordinary : Ordinary m.host.cwd)
    (hprepare : m.prepare o entry = .ok (routes, uri))
    (hdirs : ∀ q, m.host.disk.isDirectory q = true → left.disk.isDirectory q = true)
    (hread : left.disk.readUrl m.host.cwd uri = .ok text) :
    ∃ routes', m'.prepare o entry = .ok (routes', uri) := by
  obtain ⟨path, c, hopen, hconfig, hroutes⟩ := prepare_eq_ok_iff.1 hprepare
  obtain ⟨routes', hroutes'⟩ := Config.exists_routes hroutes m'.transport
  rw [← h.disk] at hdirs hread
  rw [← h.cwd] at hread
  refine ⟨routes', prepare_eq_ok_iff.2
    ⟨path, c, openEntry_again hordinary hopen h.cwd hdirs hread, ?_, ?_⟩⟩
  · rw [h.configuration path uri hopen, hconfig]
  · rw [h.environment, hroutes']

/-- What it takes for a later process to have the same graph without a restore. -/
theorem graph_iff (h : m.Follows m' o entry site.world) (hordinary : Ordinary m.host.cwd)
    (hprepare : m.prepare o entry = .ok (routes, uri))
    (hgraph : m.graph routes uri true = some (.ok g, site))
    (hdone : ∀ (id : DeclarationId) f, g.failure? id = some f → f.isRestore = false) :
    (∃ routes' site', m'.prepare o entry = .ok (routes', uri) ∧
      m'.graph routes' uri false = some (.ok g, site')) ↔
    Discovery.UpToDate (setting routes) site.world ∅ g := by
  obtain ⟨i, hround, -, hsize⟩ := exists_round hgraph
  obtain ⟨-, c, -, -, hroutes⟩ := prepare_eq_ok_iff.1 hprepare
  obtain ⟨hcwd, hdirs⟩ := Config.later_routes hroutes hround.later
  have hbuild {routes' : Routes (Host τ)} (hprepare' : m'.prepare o entry = .ok (routes', uri)) :
      (∃ site', m'.graph routes' uri false = some (.ok g, site')) ↔
        Discovery.UpToDate (setting routes) site.world ∅ g := by
    obtain ⟨c, hroutes, hroutes'⟩ := h.exists_config hprepare hprepare'
    exact hround.build_mirrored_iff (Config.steadfast_routes hroutes) hdone
      (Config.mirrors_routes hroutes hroutes' h.disk (h.cwd.trans hcwd.symm))
      (hsize.trans h.budget)
  constructor
  · rintro ⟨routes', site', hprepare', hgraph'⟩
    exact (hbuild hprepare').1 ⟨site', hgraph'⟩
  · intro hfiles
    -- the entry file is among the files that are up to date
    obtain ⟨prior, l, hfound⟩ := hround.found
    obtain ⟨f, hentry⟩ := hfound.entry_file
    have hread : site.world.disk.readUrl site.world.cwd uri = .ok f.text :=
      hfiles uri f hentry FileMap.getElem?_empty
    rw [hcwd] at hread
    obtain ⟨routes', hprepare'⟩ := h.prepare_again hordinary hprepare hdirs hread
    obtain ⟨site', hgraph'⟩ := (hbuild hprepare').2 hfiles
    exact ⟨routes', site', hprepare', hgraph'⟩

end Follows

/-- A `restore` command whose graph is found exits with 1 if it shows a diagnostic and with 0 if it
shows none, and it shows as many as it says are not restored. If it shows none, no module of the
graph is missing. A later process that shows the graph without a restore then has the very same
one, if the files of the graph are on the disk as they were read, and only then. -/
theorem graph_after_restore (hordinary : Ordinary m.host.cwd)
    (hprepare : m.prepare o entry = .ok (routes, uri))
    (hgraph : m.graph routes uri true = some (.ok g, site)) :
    ∃ report, m.run ⟨.restore entry, o⟩ = (report, site) ∧
      report.exitCode = (if report.findings = [] then 0 else 1) ∧
      (∃ restored remote, report.messages =
          ["restored " ++ toString restored ++ " of " ++ toString remote ++
            " remote module(s)"] ∧
        restored + report.findings.length = remote) ∧
      (report.exitCode = 0 →
        g.pending.isEmpty = true ∧
        (∀ (id : DeclarationId) f, g.failure? id = some f → f.isRestore = false) ∧
        ∀ m', m.Follows m' o entry site.world →
          ((∃ routes' site', m'.prepare o entry = .ok (routes', uri) ∧
              m'.graph routes' uri false = some (.ok g, site') ∧
              m'.run ⟨.graph entry false, o⟩ = (.ofGraph g, site')) ↔
            Discovery.UpToDate (setting routes) site.world ∅ g)) := by
  have hremote (d : Declaration) (f : Failure) (hdecl : g.declaration? d.id = some d)
      (hf : g.failure? d.id = some f) (hrestore : f.isRestore = true) :
      Report.IsRemote routes d := isRemote_of_isRestore hprepare hgraph hdecl hf hrestore
  obtain ⟨i, hround, hpending, -⟩ := exists_round hgraph
  refine ⟨_, run_restore hprepare hgraph, Report.exitCode_ofRestore hremote,
    Report.messages_ofRestore hremote, fun hexit => ?_⟩
  rw [Report.exitCode_ofRestore hremote, ite_eq_left_iff] at hexit
  have hnone : (Report.ofRestore routes g).findings = [] := by
    by_contra hshown
    exact absurd (hexit hshown) (by decide)
  have hdone := (Report.findings_ofRestore_eq_nil_iff hround.consistent).1 hnone
  refine ⟨hpending, hdone, fun m' hfollows => ?_⟩
  rw [← hfollows.graph_iff hordinary hprepare hgraph hdone]
  constructor
  · rintro ⟨routes', site', hprepare', hgraph', -⟩
    exact ⟨routes', site', hprepare', hgraph'⟩
  · rintro ⟨routes', site', hprepare', hgraph'⟩
    exact ⟨routes', site', hprepare', hgraph', run_graph hprepare' hgraph'⟩

end Machine

namespace Sample

/-- An artifact whose module has no text. -/
def textless : OciReference := ⟨"x.io", "/a", "1"⟩

/-- The text of a file that imports the artifact. -/
def importsTextless : String := "module a 'oci:x.io/a:1'"

/-- A machine with a main file, and with one file in the directory of the artifact. The artifact
can be fetched. -/
def holding (name text mainText : String) : Machine Unit :=
  let dir := Cache.directory (ofString "/c") textless
  ⟨⟨(Disk.empty.performAll [] [.makeDirectories dir,
      .write (dir.join (ofString name)) (Utf8.bytesOf text),
      .write (ofString "/main.cfg") (Utf8.bytesOf mainText)]).1, [], 1, 0, ()⟩,
    ⟨some (ofString "/c"), none⟩, Http.Sample.registry, 10⟩

/-- Its registries. -/
def holdingRoutes : Routes (Host Unit) :=
  .ofList [.relative, .cache (ofString "/c") (Http.Client.artifacts ⟨Http.Sample.registry, []⟩)]

/-- On such a machine, a `restore` command finds the main file and no configuration, leaves none,
succeeds, and passes a test. -/
def restores (m : Machine Unit) (test : Graph → Host Unit → Bool) : Bool :=
  m.openEntry "/main.cfg" = .ok (ofString "/main.cfg", main) &&
  m.configure .none (ofString "/") = .ok .standard &&
  ((m.graph holdingRoutes main true).any fun r => r.1.toOption.any fun g =>
    (Report.ofRestore holdingRoutes g).exitCode == 0 && r.2.world.cwd == m.host.cwd &&
    { m with host := r.2.world }.configure .none (ofString "/") = .ok .standard &&
    test g r.2.world)

theorem exists_of_restores {m : Machine Unit} {test : Graph → Host Unit → Bool}
    (hroutes : Config.standard.routes m.environment m.transport = .ok holdingRoutes)
    (h : restores m test = true) :
    m.prepare .none "/main.cfg" = .ok (holdingRoutes, main) ∧ ∃ g site,
      m.graph holdingRoutes main true = some (.ok g, site) ∧
      (m.run ⟨.restore "/main.cfg", .none⟩).1.exitCode = 0 ∧
      m.Follows { m with host := site.world } .none "/main.cfg" site.world ∧
      test g site.world = true := by
  rw [restores] at h
  simp only [Bool.and_eq_true, decide_eq_true_eq] at h
  obtain ⟨⟨hopen, hconfig⟩, hgraph⟩ := h
  obtain ⟨⟨_ | g, site⟩, hgraph, hcheck⟩ := (Option.any_eq_true _ _).1 hgraph
  · cases hcheck
  · simp only [Except.toOption, Option.any_some, Bool.and_eq_true, beq_iff_eq,
      decide_eq_true_eq] at hcheck
    obtain ⟨⟨⟨hexit, hcwd⟩, hconfig'⟩, htest⟩ := hcheck
    have hprepare : m.prepare .none "/main.cfg" = .ok (holdingRoutes, main) :=
      Machine.prepare_eq_ok_iff.2 ⟨_, _, hopen, hconfig, hroutes⟩
    refine ⟨hprepare, g, site, hgraph, ?_, ?_, htest⟩
    · rw [Machine.run_restore hprepare hgraph]
      exact hexit
    · refine ⟨rfl, hcwd, rfl, fun path uri hopen' => ?_, Nat.le_refl _⟩
      rw [hopen] at hopen'
      cases hopen'
      exact hconfig'.trans hconfig.symm

/-- With the artifact in the cache, the graph is the same in a later process. -/
theorem graph_after_restore_textless : ∃ m m' : Machine Unit, ∃ routes uri g site,
    Ordinary m.host.cwd ∧ m.prepare .none "/main.cfg" = .ok (routes, uri) ∧
    m.graph routes uri true = some (.ok g, site) ∧
    (m.run ⟨.restore "/main.cfg", .none⟩).1.messages = ["restored 1 of 1 remote module(s)"] ∧
    m.Follows m' .none "/main.cfg" site.world ∧
    ∃ site', m'.run ⟨.graph "/main.cfg" false, .none⟩ = (.ofGraph g, site') := by
  have hcheck : restores (holding Cache.entryName "" importsTextless) (fun g host =>
      decide (Discovery.UpToDate (Machine.setting holdingRoutes) host ∅ g) &&
        (Report.ofRestore holdingRoutes g).messages ==
          ["restored 1 of 1 remote module(s)"]) = true := by
    decide +kernel
  obtain ⟨hprepare, g, site, hgraph, hexit, hfollows, hcheck⟩ := exists_of_restores rfl hcheck
  rw [Bool.and_eq_true, decide_eq_true_eq, beq_iff_eq] at hcheck
  have hordinary : Ordinary (holding Cache.entryName "" importsTextless).host.cwd :=
    List.forall_mem_nil _
  obtain ⟨report, hrun, -, -, hzero⟩ := Machine.graph_after_restore hordinary hprepare hgraph
  refine ⟨_, _, _, _, g, site, hordinary, hprepare, hgraph, ?_, hfollows, ?_⟩
  · rw [Machine.run_restore hprepare hgraph]
    exact hcheck.2
  · rw [hrun] at hexit
    obtain ⟨-, -, hlater⟩ := hzero hexit
    obtain ⟨routes', site', -, -, hrun'⟩ := (hlater _ hfollows).2 hcheck.1
    exact ⟨site', hrun'⟩

/-- The file in the place of the manifest. -/
def manifestFile : Url := ⟨"file:///c/oci/x.io/a/1$/manifest.json"⟩

/-- The text of a main file that imports it. -/
def importsManifest : String := "module m './c/oci/x.io/a/1$/manifest.json'"

/-- When the main file imports the file in the place of the manifest, the restore writes over the
very file that imports the artifact. What is read later does not import it. -/
theorem not_graph_after_restore : ¬ ∀ (m m' : Machine Unit) (o : Options) (entry : String)
    (routes : Routes (Host Unit)) (uri : Url) (g : Graph) (site : Site (Host Unit)),
    Ordinary m.host.cwd → m.prepare o entry = .ok (routes, uri) →
    m.graph routes uri true = some (.ok g, site) →
    (m.run ⟨.restore entry, o⟩).1.exitCode = 0 → m.Follows m' o entry site.world →
    ∃ routes' g' site', m'.prepare o entry = .ok (routes', uri) ∧
      m'.graph routes' uri false = some (.ok g', site') ∧ g'.files = g.files ∧
      g'.resolutions = g.resolutions ∧ g'.failures = g.failures := by
  intro h
  have hcheck : restores (holding Cache.manifestName importsTextless importsManifest)
      (fun g host =>
        (g.files[manifestFile]?.any fun f => f.declarations.any fun d =>
          (g.resolution? d.id).isSome) &&
        ((Machine.setting holdingRoutes).read host manifestFile).toOption.all fun text =>
          (SourceFile.parse manifestFile text).declarations.isEmpty) = true := by
    decide +kernel
  obtain ⟨hprepare, g, site, hgraph, hexit, hfollows, hcheck⟩ := exists_of_restores rfl hcheck
  rw [Bool.and_eq_true] at hcheck
  obtain ⟨hcheck, hread⟩ := hcheck
  obtain ⟨f, hf, hcheck⟩ := (Option.any_eq_true _ _).1 hcheck
  obtain ⟨d, hd, hresolved⟩ := List.any_eq_true.1 hcheck
  have hordinary : Ordinary (holding Cache.manifestName importsTextless importsManifest).host.cwd :=
    List.forall_mem_nil _
  obtain ⟨routes', g', site', -, hgraph', -, hresolutions, -⟩ :=
    h _ _ _ _ _ _ g site hordinary hprepare hgraph hexit hfollows
  -- the artifact was imported by a declaration that is no longer there
  have hresolved' : (g'.resolution? d.id).isSome = true := by
    rwa [Outcomes.resolution?, hresolutions]
  obtain ⟨d', hd', -⟩ := (Setting.Snapshot.build hgraph').consistent.declared d.id (.inl hresolved')
  obtain ⟨f', hf', hmem⟩ := Option.bind_eq_some_iff.1 hd'
  rw [SourceFile.id_uri_of_mem hd, FileMap.uri_of_getElem? hf] at hf'
  have hread' : (Machine.setting holdingRoutes).read site.world manifestFile = .ok f'.text :=
    Setting.upToDate_of_build hgraph' manifestFile f' hf' FileMap.getElem?_empty
  rw [hread'] at hread
  have hgone : (SourceFile.parse manifestFile f'.text).declarations = [] :=
    List.isEmpty_iff.1 hread
  rw [← FileMap.uri_of_getElem? hf', ← f'.eq_parse] at hgone
  have hmem := SourceFile.mem_of_declaration? hmem
  rw [hgone] at hmem
  cases hmem

end Sample

end ModuleGraph
