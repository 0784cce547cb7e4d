import ModuleGraph.Proofs.CycleReport
import ModuleGraph.Proofs.InFlight
import ModuleGraph.Proofs.ServerRuns

/-!
# Reports of restores that came to nothing

A declaration whose module is still missing after its restore is reported as one
whose restore came to nothing. Such a report should mean that there was a
restore. A refresh does not know: it is told that some request of the document
is done, and it takes all that its graph waits for as tried. A document that was
edited in the meantime waits for something else, and that is reported before the
worker has even seen its request (`missing_not_attempted`).

What can be said is that the report is at worst early. Whatever a graph waits
for, or reports as missing, was handed to a registry or is still in the queue. A
declaration gets into a graph as one that waits, with its request in the queue;
the worker takes requests only to hand over what has no failure yet, and a
remembered failure was handed over before. A report comes from something that
waited.
-/

namespace ModuleGraph

/-- The failure is not that a restore came to nothing. -/
def Failure.NotMissing (f : Failure) : Prop :=
  ∀ q, f ≠ .restoreOutcomeMissing q

theorem Failure.OfAddress.notMissing {f : Failure} (h : f.OfAddress) : f.NotMissing := by
  rintro q rfl
  exact h

theorem Failure.OfEntryPoint.notMissing {f : Failure} (h : f.OfEntryPoint) : f.NotMissing := by
  rintro q rfl
  exact h

/-- No registry says of an entry point that a restore came to nothing. -/
def Routes.Frank {σ : Type} (routes : Routes σ) : Prop :=
  ∀ s registry, routes.registry? s = some registry →
    ∀ world parent r, FailsWith Failure.NotMissing (registry.entryPoint world parent r)

/-- The registries that a configuration gives do not. -/
theorem Config.frank_routes {τ : Type} {c : Config} {e : Environment} {t : Http.Transport τ}
    {routes : Routes (Host τ)} (h : c.routes e t = .ok routes) : routes.Frank :=
  fun _ _ hreg host parent r =>
    (Config.ofEntryPoint_routes h hreg host parent r).mono fun _ => Failure.OfEntryPoint.notMissing

/-! ## Where a report comes from -/

/-- What is remembered are references that could be read or had a bad address, and failures of
modules that were tried, none of which is that a restore came to nothing. -/
structure Ledger.Accounts (tried : Reference → Prop) (l : Ledger) : Prop where
  references : ∀ (id : DeclarationId) f, l.references[id]? = some (.error f) → f.NotMissing
  remembered : ∀ r f, l.failure? r = some f → tried r ∧ f.NotMissing

namespace Discovery

variable {σ : Type} {c : Context σ} {s : Discovery} {l : Ledger} {d : Declaration}
  {id : DeclarationId} {entry : Url} {q : String} {tried : Reference → Prop} {f : Failure}

/-- A verdict reports a module as missing when it needs a restore that counts as tried. -/
theorem missing_of_verdict (hroutes : c.setting.routes.Frank) (hl : l.Accounts tried)
    (hreported : c.prior.reported = ∅) {file : SourceFile} (hd : d ∈ file.declarations)
    (h : (c.verdict l d).failure? = some (.restoreOutcomeMissing q)) :
    ∃ r, c.setting.routes.statusIn c.world l d = .needsRestore r ∧
      c.prior.attempted d.id = true ∧ q = r.qualified := by
  generalize hf : Failure.restoreOutcomeMissing q = f at h
  cases origin_of_verdict h with
  | reference href =>
    subst hf
    rw [Routes.referenceIn] at href
    cases hx : l.references[d.id]? with
    | some x =>
      rw [hx] at href
      obtain rfl : x = _ := href
      exact absurd rfl (hl.references d.id _ hx q)
    | none =>
      rw [hx] at href
      have haddress := c.setting.routes.ofAddress_read hd _ href
      exact haddress.elim
  | remembered hr => exact absurd hf.symm ((hl.remembered _ _ hr).2 q)
  | entryPoint hreg hentry => exact absurd hf.symm (hroutes _ _ hreg _ _ _ f hentry q)
  | unrouted | waits | unread => cases hf
  | @restored r hneeds hattempted =>
    refine ⟨r, hneeds, hattempted, ?_⟩
    rw [restoreOutcome, hreported, Std.ExtTreeMap.getElem?_empty,
      (Routes.of_needsRestore hneeds).2.1] at hf
    exact Failure.restoreOutcomeMissing.inj hf

end Discovery

theorem Graph.Consistent.contains_of_failure? {g : Graph} (h : g.Consistent)
    {id : DeclarationId} {f : Failure} (hf : g.failure? id = some f) :
    g.files.contains id.uri = true := by
  obtain ⟨d, hd, -⟩ := h.declared id (.inr (by rw [hf]; rfl))
  obtain ⟨file, hfile, -⟩ := Option.bind_eq_some_iff.1 hd
  exact FileMap.contains_iff.2 ⟨file, hfile⟩

namespace Server

variable {σ : Type} {c : Config σ} {site : Site σ} {s s' : Server σ} {e u uri : Url}
  {text : String} {g : Graph} {prior : Prior} {published : Publication} {todo : List Url}
  {id : DeclarationId} {r : Reference} {q : String} {tried tried' : Reference → Prop}
  {world : σ}

/-- The declaration's request has not been taken yet. -/
def Queued (s : Server σ) (id : DeclarationId) : Prop :=
  ∃ request ∈ s.queue, ∃ d ∈ request.declarations, d.id = id

/-- Some batch of the worker handed the module to its registry. -/
def Attempted (c : Config σ) (site : Site σ) (s : Server σ) (r : Reference) : Prop :=
  ∃ x before later, Runs c (start site) before x ∧
    x.site.ledger.Tried (work c x).site.ledger r ∧ Runs c (work c x) later s

/-! ## The invariant -/

/-- The declaration refers to a module that was tried, or that its request will hand over. -/
structure Awaited (routes : Routes σ) (tried : Reference → Prop) (s : Server σ)
    (id : DeclarationId) (r : Reference) : Prop where
  written : s.site.ledger.references[id]? = some (.ok r)
  routed : routes.Routed r
  tried : tried r ∨ s.Queued id

/-- All that a graph waits for, or reports as missing, is accounted for. -/
structure Explains (routes : Routes σ) (tried : Reference → Prop) (s : Server σ) (g : Graph) :
    Prop where
  pending : ∀ id, g.isPending id = true → ∃ r, Awaited routes tried s id r
  missing : ∀ id q, g.failure? id = some (.restoreOutcomeMissing q) →
    ∃ r, q = r.qualified ∧ Awaited routes tried s id r

/-- What is known of a server while some documents have still to be compiled. -/
structure Explained (c : Config σ) (tried : Reference → Prop) (todo : List Url) (s : Server σ) :
    Prop where
  ledger : s.site.ledger.Accounts tried
  queue : ∀ request ∈ s.queue, ∀ d ∈ request.declarations,
    ∃ file : SourceFile, d ∈ file.declarations
  graphs : ∀ (e : Url) g, s.graphs[e]? = some g → e ∈ todo ∨ Explains c.setting.routes tried s g

theorem Explains.imp {routes : Routes σ} (h : Explains routes tried s g)
    (himp : ∀ id r, g.isPending id = true ∨ (g.failure? id).isSome = true →
      Awaited routes tried s id r → Awaited routes tried' s' id r) :
    Explains routes tried' s' g where
  pending id hid := (h.pending id hid).imp fun r => himp id r (.inl hid)
  missing id q hf := by
    obtain ⟨r, hq, hr⟩ := h.missing id q hf
    exact ⟨r, hq, himp id r (.inr (by rw [hf]; rfl)) hr⟩

theorem Explained.mono (h : Explained c tried todo s) (hmono : ∀ r, tried r → tried' r) :
    Explained c tried' todo s where
  ledger := ⟨h.ledger.references, fun r f hf => (h.ledger.remembered r f hf).imp_left (hmono r)⟩
  queue := h.queue
  graphs e g hg := (h.graphs e g hg).imp_right fun hexplains =>
    hexplains.imp fun _ r _ hr => ⟨hr.written, hr.routed, hr.tried.imp_left (hmono r)⟩

/-! ## Builds -/

theorem Built.awaited (h : Built c s e prior g s') (hr : Awaited c.setting.routes tried s id r) :
    Awaited c.setting.routes tried s' id r := by
  refine ⟨h.found.writes.keeps hr.written, hr.routed, hr.tried.imp_right ?_⟩
  rintro ⟨request, hrequest, hd⟩
  exact ⟨request, h.queue ▸ List.mem_append_left _ hrequest, hd⟩

theorem Built.accounts (h : Built c s e prior g s') (hs : s.site.ledger.Accounts tried) :
    s'.site.ledger.Accounts tried where
  references id f hf := by
    rcases h.found.writes.old_or_read hf with hold | ⟨d, hd, -, hread⟩
    · exact hs.references id f hold
    · obtain ⟨file, hmem⟩ := Graph.exists_file_of_declaration? hd
      exact (c.setting.routes.ofAddress_read hmem f hread).notMissing
  remembered r f hf := by
    rw [h.found.failure?_eq] at hf
    exact hs.remembered r f hf

theorem Built.queued (h : Built c s e prior g s') (hid : g.isPending id = true) :
    s'.Queued id := by
  obtain ⟨d, ⟨hd, -⟩, hdid⟩ := h.snapshot.consistent.exists_pendingDeclaration hid
  refine ⟨⟨g.entry, g.pendingDeclarations⟩, ?_, d, hd, hdid⟩
  rw [h.queue, ofGraph?_of_pending (List.ne_nil_of_mem hd)]
  simp

/-- The build's own graph is accounted for when everything is that the build takes for tried. -/
theorem Built.explains (hroutes : c.setting.routes.Frank) (h : Built c s e prior g s')
    (hs : s.site.ledger.Accounts tried) (hreported : prior.reported = ∅)
    (hattempted : ∀ id, prior.attempted id = true →
      ∃ r, Awaited c.setting.routes tried s id r) :
    Explains c.setting.routes tried s' g := by
  have hqueued (id : DeclarationId) : g.isPending id = true → s'.Queued id := h.queued
  have hkeeps (id : DeclarationId) (r : Reference) :
      Awaited c.setting.routes tried s id r → Awaited c.setting.routes tried s' id r := h.awaited
  obtain ⟨sv, hsv, rfl, hl, -⟩ := h.found
  constructor
  case pending =>
    intro id hid
    have hsurvey := hid
    rw [Discovery.isPending_graph] at hsurvey
    obtain ⟨⟨d, hd, rfl⟩, -, -⟩ := hsv.waiting hsurvey
    rw [(hsv.shows d hd).isPending] at hsurvey
    obtain ⟨r, hverdict⟩ := Verdict.isPending_iff.1 hsurvey
    obtain ⟨href, -, hrouted⟩ :=
      Routes.of_needsRestore (Discovery.needsRestore_of_verdict hverdict).1
    refine ⟨r, ?_, hrouted, .inr (hqueued d.id hid)⟩
    rw [hl, hsv.references d hd]
    exact congrArg some href
  case missing =>
    intro id q hf
    obtain ⟨d, hd, rfl, hverdict⟩ := hsv.verdict_of_failure? hf rfl
    have hmem := hd
    obtain ⟨file, -, hmem⟩ := hmem
    obtain ⟨r, hneeds, ha, rfl⟩ :=
      Discovery.missing_of_verdict hroutes hs hreported hmem hverdict
    obtain ⟨r', hr'⟩ := hattempted d.id ha
    -- what was written down before is what needs the restore now
    have href := (Routes.of_needsRestore hneeds).1
    rw [Routes.referenceIn, hr'.written] at href
    obtain rfl : r' = r := Except.ok.inj href
    exact ⟨r', rfl, hkeeps d.id r' hr'⟩

theorem Built.explained (hroutes : c.setting.routes.Frank) (h : Built c s e prior g s')
    (hreported : prior.reported = ∅)
    (hattempted : ∀ id, prior.attempted id = true →
      ∃ r, Awaited c.setting.routes tried s id r)
    (hs : Explained c tried (e :: todo) s) : Explained c tried todo s' where
  ledger := h.accounts hs.ledger
  queue := by
    intro request hrequest d hd
    rw [h.queue] at hrequest
    rcases List.mem_append.1 hrequest with hold | hnew
    · exact hs.queue request hold d hd
    · have hsome : g.pendingDeclarations ≠ [] := by
        intro hnil
        simp [RestoreRequest.ofGraph?, hnil] at hnew
      rw [ofGraph?_of_pending hsome] at hnew
      obtain rfl := List.mem_singleton.1 hnew
      exact Graph.exists_file_of_declaration? (Graph.declaration?_of_mem_pendingDeclarations hd)
  graphs u g' hg' := by
    rcases h.graph_cases hg' with ⟨rfl, rfl⟩ | ⟨hne, hold⟩
    · exact .inr (h.explains hroutes hs.ledger hreported hattempted)
    · rcases hs.graphs u g' hold with htodo | hexplains
      · exact .inl ((List.mem_cons.1 htodo).resolve_left hne)
      · exact .inr (hexplains.imp fun _ _ _ => h.awaited)

theorem explained_compileAll (hroutes : c.setting.routes.Frank)
    (hopen : ∀ e ∈ todo, s.workspace.contains e = true)
    (h : compileAll c todo s = some (published, s')) (hs : Explained c tried todo s) :
    Explained c tried [] s' :=
  -- a first build takes nothing for tried
  compileAll_run (P := fun todo _ s => Explained c tried todo s) []
    (fun _ hbuilt hs => hbuilt.explained hroutes rfl nofun hs) hopen h hs

/-! ## Steps -/

/-- When the references of a file are forgotten, those of all other files are still there, so
that graphs without the file are accounted for as before. -/
theorem Explained.forget {s₁ : Server σ} (hs : Explained c tried [] s) (ho : Orderly c [] s)
    (hledger : s₁.site.ledger = s.site.ledger.forget uri) (hqueue : s₁.queue = s.queue)
    (hgraphs : ∀ (e : Url) g, s₁.graphs[e]? = some g → s.graphs[e]? = some g ∧
      (g.files.contains uri = true → e ∈ todo)) : Explained c tried todo s₁ where
  ledger := by
    refine ⟨fun id f hf => ?_, fun r f hf => hs.ledger.remembered r f ?_⟩
    · rw [hledger] at hf
      exact hs.ledger.references id f (Ledger.of_getElem?_forget hf)
    · rw [hledger] at hf
      exact hf
  queue := by
    rw [hqueue]
    exact hs.queue
  graphs e g hg := by
    obtain ⟨hold, htodo⟩ := hgraphs e g hg
    by_cases huri : g.files.contains uri = true
    · exact .inl (htodo huri)
    · refine .inr (((hs.graphs e g hold).resolve_left List.not_mem_nil).imp ?_)
      have hconsistent := ho.consistent hold
      intro id r hfound hr
      have hid : (g.failure? id).isSome = true := by
        refine hfound.elim (fun hid => ?_) fun hf => hf
        obtain ⟨r', hwaits⟩ := hconsistent.waiting id hid
        rw [hwaits]
        rfl
      obtain ⟨f, hf⟩ := Option.isSome_iff_exists.1 hid
      have hcontains := hconsistent.contains_of_failure? hf
      refine ⟨?_, hr.routed, ?_⟩
      · rw [hledger, Ledger.getElem?_forget, if_neg]
        · exact hr.written
        · rintro rfl
          exact huri hcontains
      · rw [Queued, hqueue]
        exact hr.tried

theorem explained_openDocument (hroutes : c.setting.routes.Frank) (ho : Orderly c [] s)
    (hs : Explained c tried [] s) (h : openDocument c s uri text = some (published, s')) :
    Explained c tried [] s' := by
  rw [openDocument_eq] at h
  exact explained_compileAll hroutes (contains_of_affected_opened uri text ho.opened) h
    (hs.forget ho rfl rfl fun e g hg => ⟨hg, mem_affected_opened hg⟩)

theorem explained_closeDocument (hroutes : c.setting.routes.Frank) (ho : Orderly c [] s)
    (hs : Explained c tried [] s) (h : closeDocument c s uri = some (published, s')) :
    Explained c tried [] s' := by
  obtain ⟨first, h⟩ := closeDocument_eq_some h
  exact explained_compileAll hroutes (contains_of_affected_closed uri ho.opened) h
    (hs.forget ho rfl rfl fun e g hg => ⟨(of_getElem?_noteClosed hg).2, mem_affected_closed hg⟩)

/-- What the worker's restore remembers is accounted for. -/
theorem Explained.accounts_work (hs : Explained c tried [] s) (hmono : ∀ r, tried r → tried' r)
    (hwork : ∀ r, s.site.ledger.Tried (work c s).site.ledger r → tried' r)
    (hsite : (work c s).site = (c.setting.routes.restore s.site s.batch).2) :
    (work c s).site.ledger.Accounts tried' := by
  have hrestores := Routes.restore_restores c.setting.routes s.site s.batch
  have hhands := Routes.restore_hands c.setting.routes s.site s.batch
  rw [← hsite] at hrestores hhands
  refine ⟨fun id f hf => ?_, fun r f hf => ⟨?_, ?_⟩⟩
  · rcases hrestores.writes.old_or_read hf with hold | ⟨d, hd, -, hread⟩
    · exact hs.ledger.references id f hold
    · obtain ⟨request, hrequest, hd⟩ := List.mem_flatMap.1 (mem_of_mem_distinctDeclarations hd)
      obtain ⟨file, hmem⟩ := hs.queue request hrequest d hd
      exact (c.setting.routes.ofAddress_read hmem f hread).notMissing
  · rcases hhands.remembered r f hf with hold | hnew
    · exact hmono r (hs.ledger.remembered r f hold).1
    · exact hwork r hnew
  · rcases hrestores.failed r f hf with hold | ⟨_, _, _, _, _, _, _, r', rfl⟩
    · exact (hs.ledger.remembered r f hold).2
    · exact nofun

/-- What was queued is handed over, unless a failure of it is remembered. -/
theorem Explained.awaited_work (hs : Explained c tried [] s) (hmono : ∀ r, tried r → tried' r)
    (hwork : ∀ r, s.site.ledger.Tried (work c s).site.ledger r → tried' r)
    (hsite : (work c s).site = (c.setting.routes.restore s.site s.batch).2)
    (hr : Awaited c.setting.routes tried s id r) :
    Awaited c.setting.routes tried' (work c s) id r := by
  have hrestores := Routes.restore_restores c.setting.routes s.site s.batch
  have hhands := Routes.restore_hands c.setting.routes s.site s.batch
  have hreferences := Routes.references_restore c.setting.routes s.site s.batch
  rw [← hsite] at hrestores hhands hreferences
  have hwritten := hrestores.writes.keeps hr.written
  refine ⟨hwritten, hr.routed, .inl ?_⟩
  rcases hr.tried with htried | ⟨request, hrequest, d, hd, rfl⟩
  · exact hmono r htried
  · obtain ⟨d', hd', hid⟩ := exists_mem_distinctDeclarations
      (List.mem_flatMap.2 ⟨request, hrequest, hd⟩)
    cases hf : s.site.ledger.failure? r with
    | some f => exact hmono r (hs.ledger.remembered r f hf).1
    | none =>
      obtain ⟨r', hr', hsame⟩ :=
        Routes.exists_mem_fresh hd' (hreferences ▸ hid ▸ hwritten) hf
      have hrouted : c.setting.routes.Routed r' := by
        rw [Routes.Routed, Reference.scheme_eq_of_same hsame]
        exact hr.routed
      exact hwork r ((hhands.tried r' hr' hrouted).of_same hsame)

theorem explained_work (hs : Explained c tried [] s) (hmono : ∀ r, tried r → tried' r)
    (hwork : ∀ r, s.site.ledger.Tried (work c s).site.ledger r → tried' r) :
    Explained c tried' [] (work c s) := by
  rcases work_cases c s with hidle | ⟨hsite, hqueue⟩
  · rw [hidle]
    exact hs.mono hmono
  · refine ⟨hs.accounts_work hmono hwork hsite, ?_, fun e g hg => ?_⟩
    · rw [hqueue]
      exact nofun
    · rw [(untouched_work c s).2] at hg
      have hexplains := (hs.graphs e g hg).resolve_left List.not_mem_nil
      exact .inr (hexplains.imp fun _ _ _ => hs.awaited_work hmono hwork hsite)

/-- Of a refreshed document, what its graph was waiting for counts as tried. -/
theorem explained_refresh (hroutes : c.setting.routes.Frank) (ho : Orderly c [] s)
    (hs : Explained c tried [] s) {notices : List Url}
    (h : refresh c { s with notices } e = some (published, s')) : Explained c tried [] s' := by
  have hnoticed : Explained c tried [] { s with notices } :=
    ⟨hs.ledger, hs.queue, fun e g hg => (hs.graphs e g hg).imp_right fun hexplains =>
      hexplains.imp fun _ _ _ hr => ⟨hr.written, hr.routed, hr.tried⟩⟩
  rcases ho.refresh_built h with ⟨-, -, rfl⟩ | ⟨current, g, hcurrent, hbuilt, -⟩
  · exact hnoticed
  · have hexplains := (hnoticed.graphs _ current hcurrent).resolve_left List.not_mem_nil
    refine hbuilt.explained hroutes rfl (fun id ha => hexplains.pending id ?_)
      ⟨hnoticed.ledger, hnoticed.queue, fun e g hg =>
        (hnoticed.graphs e g hg).imp_left (List.mem_cons_of_mem _)⟩
    simpa [Prior.ofGraph] using ha

theorem Emits.explained (hroutes : c.setting.routes.Frank) (h : Emits c s published s')
    (ho : Orderly c [] s) (hs : Explained c tried [] s) (hmono : ∀ r, tried r → tried' r)
    (hwork : s' = work c s → ∀ r, s.site.ledger.Tried s'.site.ledger r → tried' r) :
    Explained c tried' [] s' := by
  cases h with
  | opens h => exact (explained_openDocument hroutes ho hs h).mono hmono
  | closes h => exact (explained_closeDocument hroutes ho hs h).mono hmono
  | works => exact explained_work hs hmono (hwork rfl)
  | refreshes h => exact (explained_refresh hroutes ho hs h).mono hmono
  | turns world =>
    refine Explained.mono ⟨hs.ledger, hs.queue, fun e g hg => ?_⟩ hmono
    exact (hs.graphs e g hg).imp_right fun hexplains =>
      hexplains.imp fun _ _ _ hr => ⟨hr.written, hr.routed, hr.tried⟩

theorem Runs.explained (hroutes : c.setting.routes.Frank)
    (h : Runs c (start ⟨world, .empty⟩) published s) :
    Explained c (Attempted c ⟨world, .empty⟩ s) [] s := by
  induction h with
  | refl =>
    refine ⟨⟨?_, ?_⟩, ?_, ?_⟩
    · intro id f hf
      simp [start, Ledger.empty] at hf
    · intro r f hf
      simp [start, Ledger.empty, Ledger.failure?] at hf
    · intro request hrequest
      cases hrequest
    · intro e g hg
      simp [start] at hg
  | @step x y shown published hrun hemits ih =>
    refine hemits.explained hroutes (hrun.orderly (orderly_start _)) ih (fun r hr => ?_) ?_
    · obtain ⟨z, before, later, hz, htried, hlater⟩ := hr
      exact ⟨z, before, _, hz, htried, hlater.step hemits⟩
    · rintro rfl r htried
      exact ⟨x, shown, [], hrun, htried, .refl⟩

/-- A declaration is reported as missing after its module was handed to its registry, or while
its request is still in the queue. -/
theorem attempted_or_queued (hroutes : c.setting.routes.Frank)
    (h : Runs c (start ⟨world, .empty⟩) published s) (hg : s.graphs[e]? = some g)
    (hf : g.failure? id = some (.restoreOutcomeMissing q)) :
    ∃ d r, g.declaration? id = some d ∧ d.id = id ∧
      (c.setting.routes.reference s.site.ledger d).1 = .ok r ∧ q = r.qualified ∧
      (Attempted c ⟨world, .empty⟩ s r ∨ s.Queued id) := by
  have hexplained := h.explained hroutes
  obtain ⟨r, hq, hr⟩ :=
    ((hexplained.graphs e g hg).resolve_left List.not_mem_nil).missing id q hf
  obtain ⟨d, hd, rfl⟩ := ((h.orderly (orderly_start _)).consistent hg).declared id
    (.inr (by rw [hf]; rfl))
  refine ⟨d, r, hd, rfl, ?_, hq, hr.tried⟩
  rw [Routes.reference_fst, Routes.referenceIn, hr.written]
  rfl

/-! ## Batches leave their mark -/

theorem notes_compileAll {p : Inquiry → Prop} (hp : ∀ i : Inquiry, i.isRestore = false → p i)
    (hopen : ∀ e ∈ todo, s.workspace.contains e = true)
    (h : compileAll c todo s = some (published, s')) :
    s.site.ledger.Notes p s'.site.ledger :=
  compileAll_run (P := fun _ _ s' => s.site.ledger.Notes p s'.site.ledger) []
    (fun _ hbuilt hs => hs.trans (hbuilt.asks.mono hp)) hopen h .refl

/-- No step takes anything out of the journal, and only the worker has anything fetched. -/
theorem Emits.notes (h : Emits c s published s') (ho : Orderly c [] s) :
    s.site.ledger.Notes (fun i => s' ≠ work c s → i.isRestore = false) s'.site.ledger := by
  have hasks : ∀ i : Inquiry, i.isRestore = false → s' ≠ work c s → i.isRestore = false :=
    fun _ hi _ => hi
  cases h with
  | @opens _ uri text _ h =>
    rw [openDocument_eq] at h
    have hforget : s.site.ledger.Notes (fun i => s' ≠ work c s → i.isRestore = false)
      (s.noteOpened uri text).site.ledger := .of_eq rfl
    exact hforget.trans
      (notes_compileAll hasks (contains_of_affected_opened uri text ho.opened) h)
  | @closes _ uri _ h =>
    obtain ⟨first, h⟩ := closeDocument_eq_some h
    have hforget : s.site.ledger.Notes (fun i => s' ≠ work c s → i.isRestore = false)
      (s.noteClosed uri).site.ledger := .of_eq rfl
    exact hforget.trans (notes_compileAll hasks (contains_of_affected_closed uri ho.opened) h)
  | works =>
    rcases work_cases c s with hidle | ⟨hsite, -⟩
    · exact .of_eq (by rw [hidle])
    · have hhands := Routes.restore_hands c.setting.routes s.site s.batch
      rw [hsite]
      exact hhands.notes.mono fun _ _ hne => absurd rfl hne
  | refreshes h =>
    rcases ho.refresh_built h with ⟨-, -, rfl⟩ | ⟨current, g, -, hbuilt, -⟩
    · exact .of_eq rfl
    · exact hbuilt.asks.mono hasks
  | turns world => exact .of_eq rfl

theorem Attempted.mem_journal (h : Attempted c site s r) :
    ∃ i ∈ s.site.ledger.journal, i.Restores r := by
  obtain ⟨x, before, later, hx, ⟨new, heq, i, hi, hrestores⟩, hrun⟩ := h
  have ho : Orderly c [] (work c x) := (hx.step .works).orderly (orderly_start _)
  have hmarked : i ∈ (work c x).site.ledger.journal := by
    rw [heq]
    exact List.mem_append_left _ hi
  refine ⟨i, ?_, hrestores⟩
  clear heq
  induction hrun with
  | refl => exact hmarked
  | step hrun hemits ih =>
    obtain ⟨more, hmore, -⟩ := hemits.notes (hrun.orderly ho)
    rw [hmore]
    exact List.mem_append_right _ ih

end Server

namespace Sample

open Server

theorem frank_routes : setting.routes.Frank := by
  intro s registry hreg world parent r
  rw [eq_shelf hreg]
  exact failsWith_ok

/-- A document is opened, its module is fetched, and before it is refreshed it is edited to
declare the module that is never there. -/
def edited : Option (Server Bool) := do
  let (_, s) ← openDocument config (start site) main "module b 'nuget:b@1'"
  let (_, s) ← openDocument config (work config s) main partText
  let (_, s) ← refreshNext config s
  return s

theorem runs_edited {s : Server Bool} (h : edited = some s) :
    ∃ shown, Runs config (start site) shown s := by
  rw [edited] at h
  obtain ⟨⟨_, s₁⟩, hopen, h⟩ := Option.bind_eq_some_iff.1 h
  obtain ⟨⟨_, s₂⟩, hedit, h⟩ := Option.bind_eq_some_iff.1 h
  obtain ⟨⟨_, s₃⟩, hrefresh, h⟩ := Option.bind_eq_some_iff.1 h
  obtain rfl := Option.some.inj h
  have hreach : Reachable config site s₃ :=
    (((Relation.ReflTransGen.single (.opens hopen)).tail .works).tail (.opens hedit)).tail
      (.refreshes hrefresh)
  exact hreach.runs

/-- The refresh reports the module as missing, which no batch has handed to its registry: the
request for it is still in the queue. -/
theorem missing_not_attempted : ∃ s g id q, (∃ shown, Runs config (start site) shown s) ∧
    s.graphs[main]? = some g ∧ g.failure? id = some (.restoreOutcomeMissing q) ∧ s.Queued id ∧
      ∀ d r, g.declaration? id = some d →
        (config.setting.routes.reference s.site.ledger d).1 = .ok r →
          ¬ Attempted config site s r := by
  have hcheck : (edited.any fun s => s.graphs[main]?.any fun g => s.queue.any fun request =>
      request.declarations.any fun d =>
        g.failure? d.id == some (.restoreOutcomeMissing hollow.qualified) &&
        (g.declaration? d.id).all (fun d =>
          (config.setting.routes.reference s.site.ledger d).1.toOption == some hollow) &&
        s.site.ledger.journal.all fun i => !decide (i.Restores hollow)) = true := by
    decide +kernel
  obtain ⟨s, hs, hcheck⟩ := (Option.any_eq_true _ _).1 hcheck
  obtain ⟨g, hg, hcheck⟩ := (Option.any_eq_true _ _).1 hcheck
  obtain ⟨request, hrequest, hcheck⟩ := List.any_eq_true.1 hcheck
  obtain ⟨d, hd, hcheck⟩ := List.any_eq_true.1 hcheck
  simp only [Bool.and_eq_true, beq_iff_eq, Option.all_eq_true, List.all_eq_true,
    Bool.not_eq_true', decide_eq_false_iff_not] at hcheck
  obtain ⟨⟨hf, href⟩, hjournal⟩ := hcheck
  refine ⟨s, g, d.id, hollow.qualified, runs_edited hs, hg, hf,
    ⟨request, hrequest, d, hd, rfl⟩, fun d' r hd' hr hattempted => ?_⟩
  have hhollow := href d' hd'
  rw [hr] at hhollow
  obtain rfl : r = hollow := Option.some.inj hhollow
  obtain ⟨i, hi, hrestores⟩ := hattempted.mem_journal
  exact hjournal i hi hrestores

def refreshed : Option (Server Bool) := do
  let (_, s) ← openDocument config (start site) main partText
  let (_, s) ← refreshNext config (work config s)
  return s

theorem runs_refreshed {s : Server Bool} (h : refreshed = some s) :
    ∃ shown, Runs config (start site) shown s := by
  rw [refreshed] at h
  obtain ⟨⟨_, s₁⟩, hopen, h⟩ := Option.bind_eq_some_iff.1 h
  obtain ⟨⟨_, s₂⟩, hrefresh, h⟩ := Option.bind_eq_some_iff.1 h
  obtain rfl := Option.some.inj h
  have hreach : Reachable config site s₂ :=
    ((Relation.ReflTransGen.single (.opens hopen)).tail .works).tail (.refreshes hrefresh)
  exact hreach.runs

/-- The module that is never there is reported as missing after the worker has tried it. -/
theorem attempted_or_queued_hollow : ∃ shown s g id q, setting.routes.Frank ∧
    Runs config (start ⟨false, .empty⟩) shown s ∧ s.graphs[main]? = some g ∧
      g.failure? id = some (.restoreOutcomeMissing q) ∧ s.queue = [] ∧
      ∃ d r, g.declaration? id = some d ∧ d.id = id ∧
        (config.setting.routes.reference s.site.ledger d).1 = .ok r ∧ q = r.qualified ∧
        (Attempted config ⟨false, .empty⟩ s r ∨ s.Queued id) := by
  have hcheck : (refreshed.any fun s => s.graphs[main]?.any fun g => s.queue.isEmpty &&
      g.failures.toList.any fun p =>
        g.failure? p.1 == some (.restoreOutcomeMissing hollow.qualified)) = true := by
    decide +kernel
  obtain ⟨s, hs, hcheck⟩ := (Option.any_eq_true _ _).1 hcheck
  obtain ⟨g, hg, hcheck⟩ := (Option.any_eq_true _ _).1 hcheck
  obtain ⟨hqueue, hcheck⟩ := Bool.and_eq_true_iff.1 hcheck
  obtain ⟨⟨id, f⟩, -, hf⟩ := List.any_eq_true.1 hcheck
  have hf := beq_iff_eq.1 hf
  obtain ⟨shown, hrun⟩ := runs_refreshed hs
  exact ⟨shown, s, g, id, _, frank_routes, hrun, hg, hf, List.isEmpty_iff.1 hqueue,
    attempted_or_queued frank_routes hrun hg hf⟩

end Sample

end ModuleGraph
