import ModuleGraph.Proofs.ServerSteps

/-!
# Runs of a server

What a server has published is part of a run: `Emits` is one step with what it
publishes, and `Runs` puts steps together with all that they publish. A step here
may refresh any document at any time, so that whatever holds of these runs holds
of those of `Step`.

Between steps, graphs are those of open documents, and every open document has
one. `Orderly` says so while some documents have still to be compiled, which is
how it gets through a handler.
-/

namespace ModuleGraph

namespace Server

variable {σ : Type} {c : Config σ} {s s' : Server σ} {e u uri : Url} {text : String}
  {g current : Graph} {prior : Prior} {result : Except BuildError Graph}
  {published shown : Publication} {todo : List Url}

/-! ## The worker -/

/-- The declarations that the worker would restore next. -/
def batch (s : Server σ) : List Declaration :=
  distinctDeclarations (s.queue.flatMap (·.declarations))

theorem work_cases (c : Config σ) (s : Server σ) : work c s = s ∨
    (work c s).site = (c.setting.routes.restore s.site s.batch).2 ∧ (work c s).queue = [] := by
  rw [work]
  split
  · exact .inl rfl
  · exact .inr ⟨rfl, rfl⟩

theorem untouched_work (c : Config σ) (s : Server σ) :
    (work c s).workspace = s.workspace ∧ (work c s).graphs = s.graphs := by
  rw [work]
  split <;> exact ⟨rfl, rfl⟩

/-! ## The documents to compile -/

theorem contains_of_affected_opened (uri : Url) (text : String)
    (hopen : ∀ (u : Url) g, s.graphs[u]? = some g → s.workspace.contains u = true) :
    ∀ e ∈ (s.noteOpened uri text).affected uri,
      (s.noteOpened uri text).workspace.contains e = true :=
  fun _ => contains_of_mem_affected fun u g hg => contains_noteOpened.2 (.inr (hopen u g hg))

theorem contains_of_affected_closed (uri : Url)
    (hopen : ∀ (u : Url) g, s.graphs[u]? = some g → s.workspace.contains u = true) :
    ∀ e ∈ (s.noteClosed uri).affected uri, (s.noteClosed uri).workspace.contains e = true :=
  fun _ => contains_of_mem_affected fun u g hg =>
    contains_noteClosed.2 ((of_getElem?_noteClosed hg).imp_right (hopen u g))

/-- After an opening, every graph that has the file is to be built again. -/
theorem mem_affected_opened (hg : s.graphs[e]? = some g) (huri : g.files.contains uri = true) :
    e ∈ (s.noteOpened uri text).affected uri := by
  by_cases he : e = uri
  · exact mem_affected_iff.2 (.inr ⟨he, contains_noteOpened.2 (.inl rfl)⟩)
  · exact mem_affected_iff.2 (.inl ⟨he, g, hg, huri⟩)

theorem mem_affected_closed (hg : (s.noteClosed uri).graphs[e]? = some g)
    (huri : g.files.contains uri = true) : e ∈ (s.noteClosed uri).affected uri :=
  mem_affected_iff.2 (.inl ⟨(of_getElem?_noteClosed hg).1, g, hg, huri⟩)

/-- A closed document is published with empty lists for the files that no graph has any more. -/
theorem closeDocument_published (h : closeDocument c s uri = some (published, s')) :
    ∃ first, compileAll c ((s.noteClosed uri).affected uri) (s.noteClosed uri) =
        some (first, s') ∧
      published = first ++ ((s.graphs[uri]?).map (cleared ·
        fun file => s'.graphs.values.any (·.files.contains file))).getD [] := by
  obtain ⟨⟨first, s₁⟩, hcompile, h⟩ := Option.bind_eq_some_iff.1 h
  obtain ⟨rfl, rfl⟩ := Prod.mk.inj (Option.some.inj h)
  exact ⟨first, hcompile, rfl⟩

/-! ## Runs -/

/-- One step of a server, with what it publishes. A document may be refreshed at any time,
whether it was notified or not, and between steps the world may change on its own. -/
inductive Emits (c : Config σ) : Server σ → Publication → Server σ → Prop where
  | opens {s s' : Server σ} {uri : Url} {text : String} {published : Publication}
      (h : openDocument c s uri text = some (published, s')) : Emits c s published s'
  | closes {s s' : Server σ} {uri : Url} {published : Publication}
      (h : closeDocument c s uri = some (published, s')) : Emits c s published s'
  | works {s : Server σ} : Emits c s [] (work c s)
  | refreshes {s s' : Server σ} {document : Url} {notices : List Url} {published : Publication}
      (h : refresh c { s with notices } document = some (published, s')) : Emits c s published s'
  | turns {s : Server σ} (world : σ) :
      Emits c s [] { s with site := { s.site with world := world } }

/-- The states that a server comes to, with all that it has published. -/
inductive Runs (c : Config σ) (s : Server σ) : Publication → Server σ → Prop where
  | refl : Runs c s [] s
  | step {x y : Server σ} {shown published : Publication} (h : Runs c s shown x)
      (he : Emits c x published y) : Runs c s (shown ++ published) y

/-- Documents opened one after the other, with all that was published. -/
def openAll (c : Config σ) (shown : Publication) (s : Server σ) :
    List (Url × String) → Option (Publication × Server σ)
  | [] => some (shown, s)
  | (uri, text) :: rest => do
    let (published, s) ← openDocument c s uri text
    openAll c (shown ++ published) s rest

theorem Runs.openAll {x : Server σ} {documents : List (Url × String)} {all : Publication}
    (hrun : Runs c x shown s) (h : openAll c shown s documents = some (all, s')) :
    Runs c x all s' := by
  induction documents generalizing shown s with
  | nil =>
    obtain ⟨rfl, rfl⟩ := Prod.mk.inj (Option.some.inj h)
    exact hrun
  | cons document rest ih =>
    obtain ⟨⟨published, s₁⟩, hopen, h⟩ := Option.bind_eq_some_iff.1 h
    exact ih (hrun.step (.opens hopen)) h

theorem Step.emits (h : Step c s s') : ∃ published, Emits c s published s' := by
  cases h with
  | opens h => exact ⟨_, .opens h⟩
  | closes h => exact ⟨_, .closes h⟩
  | works => exact ⟨_, .works⟩
  | turns world => exact ⟨_, .turns world⟩
  | refreshes h =>
    rw [refreshNext] at h
    split at h
    · obtain ⟨-, rfl⟩ := Prod.mk.inj (Option.some.inj h)
      exact ⟨_, .turns s.site.world⟩
    · next document rest _ =>
      obtain ⟨⟨published, s₁⟩, hrefresh, h⟩ := Option.bind_eq_some_iff.1 h
      obtain ⟨-, rfl⟩ := Prod.mk.inj (Option.some.inj h)
      exact ⟨_, .refreshes hrefresh⟩

theorem Reachable.runs {site : Site σ} (h : Reachable c site s) :
    ∃ shown, Runs c (start site) shown s := by
  induction h with
  | refl => exact ⟨[], .refl⟩
  | tail _ hstep ih =>
    obtain ⟨shown, hrun⟩ := ih
    obtain ⟨published, hemits⟩ := hstep.emits
    exact ⟨_, hrun.step hemits⟩

/-- Graphs are those of open documents, and open documents have one when they are not to be
compiled first. -/
structure Orderly (c : Config σ) (todo : List Url) (s : Server σ) : Prop where
  filed : ∀ (e : Url) g, s.graphs[e]? = some g →
    g.entry = e ∧ s.workspace.contains e = true ∧ c.setting.Snapshot g
  built : ∀ e, s.workspace.contains e = true → e ∈ todo ∨ ∃ g, s.graphs[e]? = some g

theorem Orderly.opened (h : Orderly c todo s) (e : Url) (g : Graph)
    (hg : s.graphs[e]? = some g) : s.workspace.contains e = true :=
  (h.filed e g hg).2.1

theorem Orderly.consistent (h : Orderly c todo s) (hg : s.graphs[e]? = some g) :
    g.Consistent :=
  (h.filed e g hg).2.2.consistent

theorem Built.orderly (h : Built c s e prior g s') (hopen : s.workspace.contains e = true)
    (hs : Orderly c (e :: todo) s) : Orderly c todo s' where
  filed u g' hg' := by
    rw [h.workspace]
    rcases h.graph_cases hg' with ⟨rfl, rfl⟩ | ⟨-, hold⟩
    · exact ⟨h.entry, hopen, h.snapshot⟩
    · exact hs.filed u g' hold
  built u hu := by
    rw [h.workspace] at hu
    rw [h.graphs]
    by_cases heq : e = u
    · exact .inr ⟨g, if_pos heq⟩
    · rw [if_neg heq]
      exact (hs.built u hu).imp_left fun hmem => (List.mem_cons.1 hmem).resolve_left (Ne.symm heq)

theorem Orderly.compileAll (hs : Orderly c todo s)
    (hopen : ∀ e ∈ todo, s.workspace.contains e = true)
    (h : compileAll c todo s = some (published, s')) : Orderly c [] s' :=
  compileAll_run (P := fun todo _ s => Orderly c todo s) []
    (fun he hbuilt hs => hbuilt.orderly he hs) hopen h hs

theorem Orderly.noteOpened (hs : Orderly c [] s) :
    Orderly c ((s.noteOpened uri text).affected uri) (s.noteOpened uri text) where
  filed u g hg := (hs.filed u g hg).imp_right fun h =>
    h.imp_left fun hu => contains_noteOpened.2 (.inr hu)
  built u hu := by
    rcases contains_noteOpened.1 hu with rfl | hold
    · exact .inl (mem_affected_iff.2 (.inr ⟨rfl, hu⟩))
    · exact .inr ((hs.built u hold).resolve_left List.not_mem_nil)

theorem Orderly.noteClosed (hs : Orderly c [] s) : Orderly c [] (s.noteClosed uri) where
  filed u g hg := by
    obtain ⟨hne, hold⟩ := of_getElem?_noteClosed hg
    exact (hs.filed u g hold).imp_right fun h =>
      h.imp_left fun hu => contains_noteClosed.2 ⟨hne, hu⟩
  built u hu := by
    obtain ⟨hne, hold⟩ := contains_noteClosed.1 hu
    rw [getElem?_noteClosed, if_neg (Ne.symm hne)]
    exact hs.built u hold

theorem Orderly.more (hs : Orderly c [] s) : Orderly c todo s :=
  ⟨hs.filed, fun u hu => .inr ((hs.built u hu).resolve_left List.not_mem_nil)⟩

theorem Orderly.refresh_built (hs : Orderly c [] s) {notices : List Url}
    (h : refresh c { s with notices } e = some (published, s')) :
    (s.graphs[e]? = none ∧ published = [] ∧ s' = { s with notices }) ∨
      ∃ current g, s.graphs[e]? = some current ∧
        Built c { s with notices } e (.ofGraph current ∅) g s' ∧
        published = (s.store e (.ok g)).1 :=
  Server.refresh_built (s := { s with notices })
    (fun u g hg => ⟨(hs.filed u g hg).1, hs.opened u g hg⟩) h

theorem Emits.orderly (h : Emits c s published s') (hs : Orderly c [] s) : Orderly c [] s' := by
  cases h with
  | @opens _ uri text _ h =>
    rw [openDocument_eq] at h
    exact hs.noteOpened.compileAll (contains_of_affected_opened uri text hs.opened) h
  | @closes _ uri _ h =>
    obtain ⟨first, h⟩ := closeDocument_eq_some h
    exact hs.noteClosed.more.compileAll (contains_of_affected_closed uri hs.opened) h
  | works =>
    obtain ⟨hworkspace, hgraphs⟩ := untouched_work c s
    exact ⟨by rw [hworkspace, hgraphs]; exact hs.filed,
      by rw [hworkspace, hgraphs]; exact hs.built⟩
  | @refreshes _ document notices _ h =>
    have hnoticed : Orderly c [] { s with notices } := ⟨hs.filed, hs.built⟩
    rcases hs.refresh_built h with ⟨-, -, rfl⟩ | ⟨current, g, hcurrent, hbuilt, -⟩
    · exact hnoticed
    · exact hbuilt.orderly (hs.opened _ current hcurrent) hnoticed.more
  | turns world => exact ⟨hs.filed, hs.built⟩

theorem orderly_start (site : Site σ) : Orderly c [] (start site) where
  filed e g hg := by simp [start] at hg
  built e he := by simp [start, FileMap.contains_eq_isSome] at he

theorem Runs.orderly (h : Runs c s shown s') (hs : Orderly c [] s) : Orderly c [] s' := by
  induction h with
  | refl => exact hs
  | step _ he ih => exact he.orderly ih

end Server

end ModuleGraph
