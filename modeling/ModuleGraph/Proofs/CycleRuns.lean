import ModuleGraph.Proofs.CycleReport
import ModuleGraph.Proofs.Rounds

/-!
# Cycles while the program runs

A failure because of a cycle comes from a cycle when the build starts from plain
things. The program sees to that itself. It remembers how references read and
what could not be fetched, and it reports what could not be restored; nothing of
this is because of a cycle, whatever the program has built, restored and
forgotten before. The registries that a configuration gives are plain as well.

The condition cannot be left out. A rebuild that is told from outside that a
module could not be restored because of a cycle shows just that failure, and
there need be no cycle.
-/

namespace ModuleGraph

variable {σ : Type} {routes : Routes σ} {l l' : Ledger} {d : Declaration}
  {ds : List Declaration} {site site' : Site σ} {reported : FailureMap} {f : Failure}
  {batch : List Reference}

/-- A declaration that stands in a text. -/
def Declaration.IsWritten (d : Declaration) : Prop :=
  ∃ file : SourceFile, d ∈ file.declarations

theorem Declaration.IsWritten.notCyclic (h : d.IsWritten) : NotCyclic d.path :=
  h.elim fun _ => SourceFile.notCyclic_path

theorem Graph.isWritten_of_mem_pendingDeclarations {g : Graph}
    (h : d ∈ g.pendingDeclarations) : d.IsWritten :=
  exists_file_of_declaration? (declaration?_of_mem_pendingDeclarations h)

/-! ## What is remembered -/

theorem Ledger.Plain.of_writes (hl : l.Plain) (hw : l.Writes routes Declaration.IsWritten l')
    (hf : ∀ r f, l'.failure? r = some f → l.failure? r = some f ∨ f.isCycle = false) :
    l'.Plain where
  references id r h := by
    rcases hw.old_or_read h with hold | ⟨d, hd, -, rfl⟩
    · exact hl.references id r hold
    · exact routes.notCyclic_read hd.notCyclic
  failures r f h := (hf r f h).elim (hl.failures r f) id

theorem Ledger.Plain.forget (hl : l.Plain) (uri : Url) : (l.forget uri).Plain where
  references id r h := hl.references id r (of_getElem?_forget h)
  failures := hl.failures

theorem Ledger.Plain.clearFailures (hl : l.Plain) : l.clearFailures.Plain :=
  ⟨hl.references, nofun⟩

namespace Routes

theorem isCycle_of_reports (h : routes.Reports f) : f.isCycle = false := by
  obtain ⟨_, _, _, _, _, _, _, r, rfl⟩ := h
  rfl

theorem isCycle_of_fails (h : routes.Fails batch f) : f.isCycle = false := by
  cases h with
  | reported h => exact isCycle_of_reports h
  | missing | unrouted => rfl

theorem plain_restore_ledger (hl : site.ledger.Plain) (hd : ∀ d ∈ ds, d.IsWritten) :
    (routes.restore site ds).2.ledger.Plain := by
  have hrestores := restore_restores routes site ds
  exact hl.of_writes (hrestores.writes.mono hd) fun r f h =>
    (hrestores.failed r f h).imp_right isCycle_of_reports

/-- What a restore reports was remembered, or it could not be fetched. -/
theorem plain_restore (hl : site.ledger.Plain) : (routes.restore site ds).1.Plain := by
  intro id f hf
  rcases restore_fails hf with ⟨r, hr⟩ | hfails
  · exact hl.failures r f hr
  · exact isCycle_of_fails hfails

end Routes

/-! ## Runs -/

namespace Setting

open Discovery

variable {setting : Setting σ} {n : Nat} {ws : Workspace} {prior : Prior} {entry : Url}
  {g : Graph} {result : Except BuildError Graph}

/-- The program comes to a site: it starts with nothing remembered, and builds,
restores and forgets while the world goes on. -/
inductive RunsTo (setting : Setting σ) : Site σ → Prop where
  | start (world : σ) : RunsTo setting ⟨world, .empty⟩
  | build {n : Nat} {site site' : Site σ} {ws : Workspace} {prior : Prior} {entry : Url}
      {result : Except BuildError Graph} (h : RunsTo setting site)
      (hb : setting.buildWith n site ws prior entry = some (result, site')) :
      RunsTo setting site'
  | restore {site : Site σ} {ds : List Declaration} (h : RunsTo setting site)
      (hd : ∀ d ∈ ds, d.IsWritten) : RunsTo setting (setting.routes.restore site ds).2
  | forget {site : Site σ} (h : RunsTo setting site) (uri : Url) :
      RunsTo setting { site with ledger := site.ledger.forget uri }
  | clearFailures {site : Site σ} (h : RunsTo setting site) :
      RunsTo setting { site with ledger := site.ledger.clearFailures }
  | turn {site : Site σ} (h : RunsTo setting site) (world : σ) :
      RunsTo setting { site with world := world }

/-- What the program hands to a build: nothing, or what a restore has reported. -/
inductive Hands (setting : Setting σ) : FailureMap → Prop where
  | nothing : Hands setting ∅
  | restored {site : Site σ} {ds : List Declaration} (h : setting.RunsTo site) :
      Hands setting (setting.routes.restore site ds).1

theorem plain_of_buildWith (hl : site.ledger.Plain)
    (h : setting.buildWith n site ws prior entry = some (result, site')) :
    site'.ledger.Plain := by
  obtain ⟨_, hends, -, -⟩ := buildWith_ends h
  generalize site'.ledger = l' at hends
  cases hends with
  | unreadable _ href hfail =>
    have hw : site.ledger.Writes setting.routes Declaration.IsWritten l' := .of_eq href
    refine hl.of_writes hw fun r f hf => .inl ?_
    rwa [Routes.failure?_of_failures_eq hfail] at hf
  | surveyed _ hs _ =>
    refine hl.of_writes (hs.writes.mono fun d hd => hd.imp fun _ => And.right) fun r f hf => ?_
    rw [Routes.failure?_of_failures_eq hs.failures] at hf
    exact .inl hf

/-- Nothing that is remembered in a run is that something lies on a cycle. -/
theorem RunsTo.plain (h : setting.RunsTo site) : site.ledger.Plain := by
  induction h with
  | start => exact Ledger.plain_empty
  | build _ hb ih => exact plain_of_buildWith ih hb
  | restore _ hd ih => exact Routes.plain_restore_ledger ih hd
  | forget _ uri ih => exact ih.forget uri
  | clearFailures _ ih => exact ih.clearFailures
  | turn _ _ ih => exact ih

theorem Hands.plain (h : setting.Hands reported) : reported.Plain := by
  cases h with
  | nothing => exact FailureMap.plain_empty
  | restored h => exact Routes.plain_restore h.plain

end Setting

/-- Neither a path nor an artifact has an entry point that is said to lie on a cycle. -/
theorem Config.plain_routes {τ : Type} {c : Config} {e : Environment} {t : Http.Transport τ}
    {routes : Routes (Host τ)} (h : c.routes e t = .ok routes) (host : Host τ) :
    routes.Plain host := by
  intro s registry hreg parent r f hf
  have hentry := Config.ofEntryPoint_routes h hreg host parent r f hf
  cases f <;> first | rfl | exact hentry.elim

/-! ## The report -/

namespace Setting

open Discovery

/-- Every graph is what a survey found, with its cycles broken. This is so for
builds, which take over nothing, and for rebuilds, whatever they take over. When
nothing from outside says so, a declaration fails because of a cycle exactly when
it led to a file on a cycle. With the registries of a configuration, nothing from
outside does, in whatever run of the program. -/
theorem cycles_reported :
    (∀ {σ : Type} {setting : Setting σ} {n : Nat} {site site' : Site σ} {ws : Workspace}
        {prior : Prior} {entry : Url} {g : Graph},
      setting.buildWith n site ws prior entry = some (.ok g, site') →
      ∃ s, survey ⟨setting, site.world, ws, prior⟩ n site.ledger entry =
          some (.ok s, site'.ledger) ∧
        g = s.graph entry ∧ s.outcomes.BreaksCycles g.toOutcomes ∧
        (Context.Plain ⟨setting, site.world, ws, prior⟩ site.ledger →
          s.outcomes.FailsExactly g.toOutcomes)) ∧
    ∀ {τ : Type} {c : Config} {e : Environment} {t : Http.Transport τ}
        {setting : Setting (Host τ)} {site : Site (Host τ)} {prior : Prior} (ws : Workspace),
      c.routes e t = .ok setting.routes → setting.RunsTo site → setting.Hands prior.reported →
      Context.Plain ⟨setting, site.world, ws, prior⟩ site.ledger := by
  constructor
  · intro σ setting n site site' ws prior entry g h
    rw [buildWith_eq] at h
    obtain ⟨⟨result, l'⟩, hs, heq⟩ := Option.map_eq_some_iff.1 h
    cases result with
    | error => cases heq
    | ok s =>
      cases heq
      refine ⟨s, hs, rfl, Outcomes.breaksCycles_breakCycles, fun hc => ?_⟩
      cases survey_ends hs with
      | surveyed _ hsurveyed => exact hsurveyed.failsExactly_graph hc
  · intro τ c e t setting site prior ws hroutes hsite hreported
    exact ⟨Config.plain_routes hroutes site.world, hsite.plain, hreported.plain⟩

end Setting

namespace Sample

/-- The registries of a configuration that says nothing, on a machine that reaches
none. -/
def aloneRoutes : Routes (Host Unit) :=
  .ofList [.relative,
    .cache (.ofString "/c") (Http.Client.artifacts ⟨Http.Transport.unreachable, []⟩)]

/-- The entry file declares itself, and a module that cannot be had. -/
def alone : Setting (Host Unit) where
  routes := aloneRoutes
  read _ u :=
    if u = main then .ok "module a './main.cfg'\nmodule b 'oci:x.io/b:1'"
    else .error .notFound

/-- Nothing has been restored there. -/
def aloneSite : Site (Host Unit) := ⟨⟨Disk.empty, [], 1, 0, ()⟩, .empty⟩

/-- After a build and a restore, the rebuild reports the cycle and what the restore
reported. -/
theorem cycles_reported_alone : ∃ (site site' : Site (Host Unit)) (current g : Graph)
    (reported : FailureMap) (s : Discovery), alone.RunsTo site ∧ alone.Hands reported ∧
      alone.rebuild 2 site ∅ current reported = some (.ok g, site') ∧
      s.outcomes.BreaksCycles g.toOutcomes ∧ s.outcomes.FailsExactly g.toOutcomes ∧
      g.failures.values.map (·.code) = ["module-cycle-self", "module-restore-failed"] := by
  have hcheck : ((alone.build 2 aloneSite ∅ main).any fun r => r.1.toOption.any fun g =>
      (alone.rebuild 2 (alone.routes.restore r.2 g.pendingDeclarations).2 ∅ g
        (alone.routes.restore r.2 g.pendingDeclarations).1).any fun r => r.1.toOption.any fun g =>
          g.failures.values.map (·.code) == ["module-cycle-self", "module-restore-failed"]) =
      true := by decide +kernel
  obtain ⟨⟨_ | g, site⟩, hbuild, hcheck⟩ := (Option.any_eq_true _ _).1 hcheck
  · cases hcheck
  rw [Except.toOption, Option.any_some] at hcheck
  obtain ⟨⟨_ | g', site'⟩, hrebuild, hcheck⟩ := (Option.any_eq_true _ _).1 hcheck
  · cases hcheck
  have hbuilt : alone.RunsTo site := .build (.start _) hbuild
  have hrestored : alone.RunsTo (alone.routes.restore site g.pendingDeclarations).2 :=
    hbuilt.restore fun _ => Graph.isWritten_of_mem_pendingDeclarations
  have hreported : alone.Hands
      (Prior.ofGraph g (alone.routes.restore site g.pendingDeclarations).1).reported :=
    .restored hbuilt
  obtain ⟨s, -, -, hbroken, hexact⟩ := Setting.cycles_reported.1 hrebuild
  have hplain := Setting.cycles_reported.2 (c := .standard)
    (e := ⟨some (.ofString "/c"), none⟩) ∅ rfl hrestored hreported
  exact ⟨_, site', g, g', _, s, hrestored, hreported, hrebuild, hbroken, hexact hplain,
    beq_iff_eq.1 hcheck⟩

/-- Whatever a graph waits for is said to lie on a cycle. -/
def blamed (g : Graph) : FailureMap :=
  .ofList (g.pendingDeclarations.map fun d => (d.id, Failure.cyclicSelfReference))

/-- When a rebuild is told so, it reports the modules as cycles, and they are only
missing. -/
theorem not_cycles_reported : ¬ ∀ (n : Nat) (site site' : Site Bool) (ws : Workspace)
    (g g' : Graph) (reported : FailureMap),
    setting.rebuild n site ws g reported = some (.ok g', site') →
    ∃ s, Discovery.survey ⟨setting, site.world, ws, .ofGraph g reported⟩ n site.ledger g.entry =
        some (.ok s, site'.ledger) ∧ s.outcomes.FailsExactly g'.toOutcomes := by
  intro h
  have hcheck : ((setting.build 2 site ∅ main).any fun r => r.1.toOption.any fun g =>
      g.pendingDeclarations.any fun d =>
        (graph? (setting.rebuild 2 r.2 ∅ g (blamed g))).any fun g' =>
          g'.failure? d.id == some .cyclicSelfReference &&
          (Discovery.survey ⟨setting, r.2.world, ∅, .ofGraph g (blamed g)⟩ 2 r.2.ledger
            g.entry).all fun r => r.1.toOption.all fun sv =>
              (sv.outcomes.resolution? d.id).isNone) = true := by decide +kernel
  obtain ⟨⟨_ | g, site⟩, -, hcheck⟩ := (Option.any_eq_true _ _).1 hcheck
  · cases hcheck
  rw [Except.toOption, Option.any_some] at hcheck
  obtain ⟨d, -, hcheck⟩ := List.any_eq_true.1 hcheck
  obtain ⟨g', hg', hcheck⟩ := (Option.any_eq_true _ _).1 hcheck
  rw [Bool.and_eq_true, beq_iff_eq] at hcheck
  obtain ⟨hfailed, hnone⟩ := hcheck
  obtain ⟨site', hrebuild⟩ := of_graph? hg'
  obtain ⟨s, hsurvey, hexact⟩ := h _ _ _ _ _ _ _ hrebuild
  -- what fails because of a cycle would have led somewhere
  obtain ⟨t, ht, -⟩ := (hexact d.id).1 ⟨_, hfailed, rfl⟩
  rw [hsurvey, Option.all_some, Except.toOption, Option.all_some, ht] at hnone
  cases hnone

end Sample

end ModuleGraph
