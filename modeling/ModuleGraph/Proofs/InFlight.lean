import ModuleGraph.Proofs.ServerSteps

/-!
# What is pending is on its way

A server takes one step at a time: a document is opened, edited or closed, the
worker restores what is queued, or one notified document is refreshed. Between
steps, every graph that waits for something has its request in the queue or a
notice that its restore is done.

A graph is stored right after its request was queued, so that the request covers
it until the worker takes it. The worker turns requests into notices, one for
each document of the batch, and only the refresh of a document takes its notice
away, when it puts a new graph with a new request in the old one's place.
-/

namespace ModuleGraph

/-- What is pending is handed over with its declaration. -/
theorem Graph.Consistent.exists_pendingDeclaration {g : Graph} (h : g.Consistent)
    {id : DeclarationId} (hid : g.isPending id = true) :
    ∃ d, (d ∈ g.pendingDeclarations ∧ g.declaration? d.id = some d) ∧ d.id = id := by
  have hmem : id ∈ g.pendingDeclarations.map (·.id) := by
    rw [h.handed, Std.ExtTreeSet.mem_toList]
    exact Std.ExtTreeSet.contains_iff_mem.1 hid
  obtain ⟨d, hd, hdid⟩ := List.mem_map.1 hmem
  exact ⟨d, ⟨hd, Graph.declaration?_of_mem_pendingDeclarations hd⟩, hdid⟩

/-- The request is for everything that a graph waits for. -/
def RestoreRequest.Covers (r : RestoreRequest) (g : Graph) : Prop :=
  ∀ id, g.isPending id = true → ∃ d ∈ r.declarations, d.id = id ∧ g.declaration? id = some d

namespace Server

variable {σ : Type} {c : Config σ} {site : Site σ} {s s' : Server σ} {e u uri : Url}
  {text : String} {g : Graph} {published : Publication}

/-! ## The invariant -/

/-- A request for a document and all that its graph waits for. -/
def Requested (s : Server σ) (g : Graph) : Prop :=
  ∃ r ∈ s.queue, r.document = g.entry ∧ ∀ d ∈ g.pendingDeclarations, d ∈ r.declarations

/-- What is known of the graph of a document. -/
structure Tracks (c : Config σ) (s : Server σ) (e : Url) (g : Graph) : Prop where
  entry : g.entry = e
  opened : s.workspace.contains e = true
  snapshot : c.setting.Snapshot g
  inFlight : g.pendingDeclarations ≠ [] → s.Requested g ∨ e ∈ s.notices

/-- What is known of all graphs. -/
def Tracked (c : Config σ) (s : Server σ) : Prop :=
  ∀ (e : Url) g, s.graphs[e]? = some g → Tracks c s e g

theorem Tracks.mono (h : Tracks c s e g) (hopen : s'.workspace.contains e = true)
    (hflight : s.Requested g ∨ e ∈ s.notices → s'.Requested g ∨ e ∈ s'.notices) :
    Tracks c s' e g where
  entry := h.entry
  opened := hopen
  snapshot := h.snapshot
  inFlight hpending := hflight (h.inFlight hpending)

theorem ofGraph?_of_pending (h : g.pendingDeclarations ≠ []) :
    RestoreRequest.ofGraph? g = some ⟨g.entry, g.pendingDeclarations⟩ := by
  rw [RestoreRequest.ofGraph?]
  exact if_neg (by simpa using h)

theorem Compiled.tracks (h : Compiled c s e g s') (hopen : s.workspace.contains e = true) :
    Tracks c s' e g where
  entry := h.entry
  opened := h.workspace ▸ hopen
  snapshot := h.snapshot
  inFlight hpending := by
    refine .inl ⟨⟨g.entry, g.pendingDeclarations⟩, ?_, rfl, fun _ hd => hd⟩
    rw [h.queue, ofGraph?_of_pending hpending]
    simp

/-- Compiling a document leaves the other documents' graphs and their requests and notices. -/
theorem Compiled.tracks_other {g' : Graph} (h : Compiled c s u g s') (ht : Tracks c s e g') :
    Tracks c s' e g' := by
  refine ht.mono (h.workspace ▸ ht.opened) (.imp ?_ fun hnotice => h.notices ▸ hnotice)
  rintro ⟨r, hr, hrequest⟩
  exact ⟨r, h.queue ▸ List.mem_append_left _ hr, hrequest⟩

theorem Compiled.tracked (h : Compiled c s e g s') (hopen : s.workspace.contains e = true)
    (hs : ∀ (u : Url) g', u ≠ e → s.graphs[u]? = some g' → Tracks c s u g') : Tracked c s' := by
  intro u g' hg'
  rcases h.graph_cases hg' with ⟨rfl, rfl⟩ | ⟨hne, hold⟩
  · exact h.tracks hopen
  · exact h.tracks_other (hs u g' hne hold)

theorem tracked_compileAffected (hs : Tracked c s)
    (h : compileAll c (s.affected uri) s = some (published, s')) : Tracked c s' :=
  compileAll_run (P := fun _ _ s => Tracked c s) []
    (fun he hbuilt hs => hbuilt.tracked he fun u g' _ => hs u g')
    (fun _ => contains_of_mem_affected fun u g hg => (hs u g hg).opened) h hs

theorem tracked_openDocument (h : openDocument c s uri text = some (published, s'))
    (hs : Tracked c s) : Tracked c s' := by
  have hnoted : Tracked c (s.noteOpened uri text) := fun e g hg =>
    (hs e g hg).mono (contains_noteOpened.2 (.inr (hs e g hg).opened)) id
  rw [openDocument_eq] at h
  exact tracked_compileAffected hnoted h

theorem tracked_closeDocument (h : closeDocument c s uri = some (published, s'))
    (hs : Tracked c s) : Tracked c s' := by
  have hnoted : Tracked c (s.noteClosed uri) := fun e g hg => by
    obtain ⟨hne, hold⟩ := of_getElem?_noteClosed hg
    exact (hs e g hold).mono (contains_noteClosed.2 ⟨hne, (hs e g hold).opened⟩) id
  obtain ⟨first, h⟩ := closeDocument_eq_some h
  exact tracked_compileAffected hnoted h

/-- A request in the queue becomes a notice. -/
theorem tracked_work (hs : Tracked c s) : Tracked c (work c s) := by
  intro e g hg
  rw [work] at hg ⊢
  split
  · next hempty =>
    rw [if_pos hempty] at hg
    exact hs e g hg
  · next hqueue =>
    rw [if_neg hqueue] at hg
    refine (hs e g hg).mono (hs e g hg).opened fun hflight => .inr ?_
    rcases hflight with ⟨r, hr, hdocument, -⟩ | hnotice
    · refine List.mem_append_right _ (mem_distinctDocuments.2 ?_)
      rw [← (hs e g hg).entry, ← hdocument]
      exact List.mem_map_of_mem hr
    · exact List.mem_append_left _ hnotice

/-- The refresh of a document takes no other document's notice away. -/
theorem tracked_refreshNext {done : Option (Url × Publication)}
    (h : refreshNext c s = some (done, s')) (hs : Tracked c s) : Tracked c s' := by
  rw [refreshNext] at h
  split at h
  · obtain ⟨-, rfl⟩ := Prod.mk.inj (Option.some.inj h)
    exact hs
  · next document rest hnotices =>
    obtain ⟨⟨published, s₁⟩, hrefresh, h⟩ := Option.bind_eq_some_iff.1 h
    obtain ⟨-, rfl⟩ := Prod.mk.inj (Option.some.inj h)
    have hothers (u : Url) (g : Graph) (hne : u ≠ document) (hg : s.graphs[u]? = some g) :
        Tracks c { s with notices := rest } u g := by
      refine (hs u g hg).mono (hs u g hg).opened (.imp_right fun hu => ?_)
      rw [hnotices] at hu
      exact (List.mem_cons.1 hu).resolve_left hne
    have hentry (u : Url) (g : Graph) (hg : { s with notices := rest }.graphs[u]? = some g) :
        g.entry = u ∧ { s with notices := rest }.workspace.contains u = true :=
      ⟨(hs u g hg).entry, (hs u g hg).opened⟩
    rcases refresh_built hentry hrefresh with
      ⟨hnone, -, rfl⟩ | ⟨current, g, hcurrent, hbuilt, -⟩
    · intro u g hg
      refine hothers u g (fun hu => ?_) hg
      rw [hu] at hg
      exact Option.some_ne_none g (hg.symm.trans hnone)
    · exact hbuilt.tracked (hs document current hcurrent).opened hothers

theorem tracked_step (h : Step c s s') (hs : Tracked c s) : Tracked c s' := by
  cases h with
  | opens h => exact tracked_openDocument h hs
  | closes h => exact tracked_closeDocument h hs
  | works => exact tracked_work hs
  | refreshes h => exact tracked_refreshNext h hs
  | turns world =>
    intro e g hg
    exact (hs e g hg).mono (hs e g hg).opened id

theorem tracked_of_reachable (h : Reachable c site s) : Tracked c s := by
  induction h with
  | refl => intro e g hg; simp [start] at hg
  | tail _ hstep ih => exact tracked_step hstep ih

/-- A graph that waits has a request for all it waits for in the queue, or a notice. -/
theorem pending_in_flight (h : Reachable c site s) (hg : s.graphs[e]? = some g)
    (hpending : g.pending.isEmpty = false) :
    g.entry = e ∧ ((∃ r ∈ s.queue, r.document = e ∧ r.Covers g) ∨ e ∈ s.notices) := by
  obtain ⟨rfl, -, hsnapshot, hflight⟩ := tracked_of_reachable h e g hg
  have hconsistent := hsnapshot.consistent
  have hlength := hconsistent.length_pendingDeclarations
  have hsome : g.pendingDeclarations ≠ [] := fun hnil => by
    rw [hnil, List.length_nil, eq_comm, ← beq_iff_eq, ← Std.ExtTreeSet.isEmpty_eq_size_beq_zero,
      hpending] at hlength
    cases hlength
  refine ⟨rfl, (hflight hsome).imp_left ?_⟩
  rintro ⟨r, hr, hdocument, hall⟩
  refine ⟨r, hr, hdocument, fun id hid => ?_⟩
  obtain ⟨d, hd, rfl⟩ := hconsistent.exists_pendingDeclaration hid
  exact ⟨d, hall d hd.1, rfl, hd.2⟩

end Server

namespace Sample

open Server

theorem exists_openDocument : ∃ published s g,
    openDocument config (start site) main mainText = some (published, s) ∧
      s.graphs[main]? = some g ∧ g.pending.isEmpty = false := by
  have hcheck : ((openDocument config (start site) main mainText).any fun r =>
      r.2.graphs[main]?.any fun g => !g.pending.isEmpty) = true := by decide +kernel
  obtain ⟨⟨published, s⟩, hs, hgraph⟩ := (Option.any_eq_true _ _).1 hcheck
  obtain ⟨g, hg, hpending⟩ := (Option.any_eq_true _ _).1 hgraph
  exact ⟨published, s, g, hs, hg, by simpa using hpending⟩

/-- In the small setting, the entry file waits as soon as it is opened. -/
theorem pending_in_flight_main : ∃ s g, Reachable config site s ∧ s.graphs[main]? = some g ∧
    g.pending.isEmpty = false ∧ g.entry = main ∧
      ((∃ r ∈ s.queue, r.document = main ∧ r.Covers g) ∨ main ∈ s.notices) := by
  obtain ⟨published, s, g, hopen, hg, hpending⟩ := exists_openDocument
  have hreachable : Reachable config site s := .single (.opens hopen)
  exact ⟨s, g, hreachable, hg, hpending, pending_in_flight hreachable hg hpending⟩

end Sample

end ModuleGraph
