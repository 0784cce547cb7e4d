import Mathlib.Logic.Relation
import ModuleGraph.Linking.Server
import ModuleGraph.Proofs.Journal
import ModuleGraph.Proofs.Rounds
import ModuleGraph.Proofs.Snapshot

/-!
# What the steps of a server do

An open document is read from the workspace, so that a build of it always comes
to a graph. A build, first or again, queues what its graph waits for, and storing
puts the graph under the document. `Prepared` says so of a build, `Compiled` of a
build that is stored, and nothing else about the server changes. `Built` adds
where the graph comes from: it is that of a survey of the workspace as it is, from
the ledger as it is, which has nothing fetched.

A handler stores one build for each of its documents. What it publishes is what
these builds publish, one after the other, so that whatever is said about the
documents to do and the lists published so far can be carried through the whole
handler (`compileAll_run`).

Opening, closing and refreshing are made of these; `Step` is one of them or one
batch of the worker, and `Reachable` are the states of a server that takes such
steps in any order.
-/

namespace ModuleGraph

/-! ## Builds of open documents -/

namespace Setting

variable {σ : Type} {setting : Setting σ} {n : Nat} {site site' : Site σ} {ws : Workspace}
  {prior : Prior} {entry : Url} {result : Except BuildError Graph}

theorem ok_of_contains (hopen : ws.contains entry = true)
    (h : setting.buildWith n site ws prior entry = some (result, site')) :
    ∃ g, result = .ok g ∧ g.entry = entry := by
  cases result with
  | error e =>
    obtain ⟨f, hf⟩ := FileMap.contains_iff.1 hopen
    obtain ⟨hfetch, -⟩ := buildWith_error h
    rw [Discovery.Context.fetch, hf] at hfetch
    cases hfetch
  | ok g =>
    obtain ⟨s, -, rfl, -⟩ := buildWith_ok h
    exact ⟨_, rfl, rfl⟩

end Setting

namespace Server

variable {σ : Type} {c : Config σ} {s s' : Server σ} {e u uri : Url} {text : String}
  {g current : Graph} {prior : Prior} {result : Except BuildError Graph}
  {published shown : Publication} {todo : List Url}

/-! ## Building and storing -/

/-- A build gave a graph of the document and queued what the graph waits for. -/
structure Prepared (c : Config σ) (s : Server σ) (e : Url) (g : Graph) (s' : Server σ) : Prop where
  entry : g.entry = e
  snapshot : c.setting.Snapshot g
  queue : s'.queue = s.queue ++ (RestoreRequest.ofGraph? g).toList
  workspace : s'.workspace = s.workspace
  graphs : s'.graphs = s.graphs
  notices : s'.notices = s.notices

theorem prepared_of_prepare (hopen : s.workspace.contains e = true)
    (h : prepare c s e = some (result, s')) : ∃ g, result = .ok g ∧ Prepared c s e g s' := by
  obtain ⟨⟨r, site⟩, hbuild, heq⟩ := Option.map_eq_some_iff.1 h
  obtain ⟨rfl, rfl⟩ := Prod.mk.inj heq
  obtain ⟨g, rfl, hentry⟩ := Setting.ok_of_contains hopen hbuild
  exact ⟨g, rfl, hentry, .build hbuild, rfl, rfl, rfl, rfl⟩

theorem getElem?_store_ok : (s.store e (.ok g)).2.graphs[u]? =
    if e = u then some g else s.graphs[u]? := by
  simp only [store, Std.ExtTreeMap.getElem?_insert, Std.LawfulEqCmp.compare_eq_iff_eq]

/-- A build was stored. -/
structure Compiled (c : Config σ) (s : Server σ) (e : Url) (g : Graph) (s' : Server σ) : Prop where
  entry : g.entry = e
  snapshot : c.setting.Snapshot g
  queue : s'.queue = s.queue ++ (RestoreRequest.ofGraph? g).toList
  workspace : s'.workspace = s.workspace
  graphs : ∀ u : Url, s'.graphs[u]? = if e = u then some g else s.graphs[u]?
  notices : s'.notices = s.notices

theorem Prepared.store (h : Prepared c s e g s') : Compiled c s e g (s'.store e (.ok g)).2 where
  entry := h.entry
  snapshot := h.snapshot
  queue := h.queue
  workspace := h.workspace
  graphs u := by rw [getElem?_store_ok, h.graphs]
  notices := h.notices

theorem Compiled.graph_cases {g' : Graph} (h : Compiled c s e g s')
    (hg' : s'.graphs[u]? = some g') :
    (u = e ∧ g' = g) ∨ (u ≠ e ∧ s.graphs[u]? = some g') := by
  rw [h.graphs] at hg'
  split at hg'
  · next heq => exact .inl ⟨heq.symm, (Option.some.inj hg').symm⟩
  · next hne => exact .inr ⟨Ne.symm hne, hg'⟩

/-- A build that takes something over was stored. -/
structure Built (c : Config σ) (s : Server σ) (e : Url) (prior : Prior) (g : Graph)
    (s' : Server σ) : Prop extends Compiled c s e g s' where
  found : c.setting.Found s.workspace e prior s.site.ledger g s'.site
  world : s'.site.world = s.site.world
  size : g.files.size ≤ c.budget
  asks : s.site.ledger.Asks s'.site.ledger

theorem built_of_buildWith {site : Site σ} (hopen : s.workspace.contains e = true)
    (h : c.setting.buildWith c.budget s.site s.workspace prior e = some (result, site)) :
    ∃ g, result = .ok g ∧
      (c.setting.Snapshot g →
        Built c s e prior g ((enqueueResult { s with site } result).store e result).2) ∧
      ((enqueueResult { s with site } result).store e result).1 = (s.store e (.ok g)).1 := by
  obtain ⟨g, rfl, hentry⟩ := Setting.ok_of_contains hopen h
  obtain ⟨hfound, hworld⟩ := Setting.found_of_buildWith h
  obtain ⟨sv, -, hg, -, hsize, -⟩ := Setting.buildWith_ok h
  refine ⟨g, rfl, fun hsnapshot => ?_, rfl⟩
  have hprepared : Prepared c s e g (enqueueResult { s with site } (.ok g)) :=
    ⟨hentry, hsnapshot, rfl, rfl, rfl, rfl⟩
  exact ⟨hprepared.store, hfound, hworld, hg ▸ hsize, Setting.buildWith_notes h⟩

theorem compileAll_built (hopen : s.workspace.contains e = true)
    (h : compileAll c (e :: todo) s = some (published, s')) :
    ∃ g s₁ later, Built c s e .none g s₁ ∧ compileAll c todo s₁ = some (later, s') ∧
      published = (s.store e (.ok g)).1 ++ later := by
  rw [compileAll] at h
  obtain ⟨⟨result, s₁⟩, hprepare, h⟩ := Option.bind_eq_some_iff.1 h
  obtain ⟨⟨later, s₂⟩, hlater, h⟩ := Option.bind_eq_some_iff.1 h
  obtain ⟨rfl, rfl⟩ := Prod.mk.inj (Option.some.inj h)
  obtain ⟨⟨r, site⟩, hbuild, heq⟩ := Option.map_eq_some_iff.1 hprepare
  obtain ⟨rfl, rfl⟩ := Prod.mk.inj heq
  obtain ⟨g, rfl, hbuilt, hpublished⟩ := built_of_buildWith hopen hbuild
  exact ⟨g, _, later, hbuilt (.build hbuild), hlater, congrArg (· ++ later) hpublished⟩

/-- What is so of the documents to do, the lists published and the server, and is kept when one
document is compiled, is so when all of them are. -/
theorem compileAll_run {P : List Url → Publication → Server σ → Prop} (shown : Publication)
    (hstep : ∀ {todo : List Url} {e : Url} {s : Server σ} {g : Graph} {s' : Server σ}
      {shown : Publication}, s.workspace.contains e = true → Built c s e .none g s' →
        P (e :: todo) shown s → P todo (shown ++ (s.store e (.ok g)).1) s')
    (hopen : ∀ e ∈ todo, s.workspace.contains e = true)
    (h : compileAll c todo s = some (published, s')) (hP : P todo shown s) :
    P [] (shown ++ published) s' := by
  induction todo generalizing s shown published with
  | nil =>
    obtain ⟨rfl, rfl⟩ := Prod.mk.inj (Option.some.inj h)
    rw [List.append_nil]
    exact hP
  | cons e todo ih =>
    have he := hopen e (List.mem_cons_self ..)
    obtain ⟨g, s₁, later, hbuilt, hlater, rfl⟩ := compileAll_built he h
    rw [← List.append_assoc]
    refine ih _ (fun u hu => ?_) hlater (hstep he hbuilt hP)
    rw [hbuilt.workspace]
    exact hopen u (List.mem_cons_of_mem _ hu)

/-- A refresh builds the document's graph again from the graph that there is, or does nothing. -/
theorem refresh_built
    (hentry : ∀ u g, s.graphs[u]? = some g → g.entry = u ∧ s.workspace.contains u = true)
    (h : refresh c s e = some (published, s')) :
    (s.graphs[e]? = none ∧ published = [] ∧ s' = s) ∨
      ∃ current g, s.graphs[e]? = some current ∧ Built c s e (.ofGraph current ∅) g s' ∧
        published = (s.store e (.ok g)).1 := by
  rw [refresh] at h
  split at h
  · next hnone =>
    obtain ⟨rfl, rfl⟩ := Prod.mk.inj (Option.some.inj h)
    exact .inl ⟨hnone, rfl, rfl⟩
  · next current hcurrent =>
    obtain ⟨rfl, hopen⟩ := hentry e current hcurrent
    obtain ⟨⟨result, s₁⟩, hupdate, h⟩ := Option.bind_eq_some_iff.1 h
    obtain ⟨⟨r, site⟩, hbuild, heq⟩ := Option.map_eq_some_iff.1 hupdate
    obtain ⟨rfl, rfl⟩ := Prod.mk.inj heq
    obtain ⟨g, rfl, hbuilt, hpublished⟩ := built_of_buildWith hopen hbuild
    obtain ⟨rfl, rfl⟩ := Prod.mk.inj (Option.some.inj h)
    exact .inr ⟨current, g, hcurrent, hbuilt (.rebuild hbuild), hpublished⟩

/-! ## Opening and closing -/

/-- The server with the text of a document, before anything is compiled. -/
def noteOpened (s : Server σ) (uri : Url) (text : String) : Server σ :=
  { s with
    site := { s.site with ledger := s.site.ledger.forget uri }
    workspace := s.workspace.put (.parse uri text) }

/-- The server without a document, before anything is compiled. -/
def noteClosed (s : Server σ) (uri : Url) : Server σ :=
  { s with
    workspace := s.workspace.erase uri
    site := { s.site with ledger := s.site.ledger.forget uri }
    graphs := s.graphs.erase uri }

theorem openDocument_eq : openDocument c s uri text =
    compileAll c ((s.noteOpened uri text).affected uri) (s.noteOpened uri text) := rfl

theorem closeDocument_eq_some (h : closeDocument c s uri = some (published, s')) :
    ∃ first, compileAll c ((s.noteClosed uri).affected uri) (s.noteClosed uri) =
      some (first, s') := by
  obtain ⟨⟨first, s₁⟩, hcompile, h⟩ := Option.bind_eq_some_iff.1 h
  obtain ⟨-, rfl⟩ := Prod.mk.inj (Option.some.inj h)
  exact ⟨first, hcompile⟩

theorem contains_noteOpened :
    (s.noteOpened uri text).workspace.contains u = true ↔
      u = uri ∨ s.workspace.contains u = true := by
  have huri : (SourceFile.parse uri text).uri = uri := rfl
  rw [FileMap.contains_iff, FileMap.contains_iff, noteOpened]
  simp only [FileMap.getElem?_put, huri]
  split
  · next hu => simp [hu]
  · next hu => simp [Ne.symm hu]

theorem contains_noteClosed :
    (s.noteClosed uri).workspace.contains u = true ↔
      u ≠ uri ∧ s.workspace.contains u = true := by
  rw [FileMap.contains_iff, FileMap.contains_iff, noteClosed]
  simp only [FileMap.getElem?_erase]
  split
  · next hu => simp [hu]
  · next hu => simp [Ne.symm hu]

theorem getElem?_noteClosed :
    (s.noteClosed uri).graphs[u]? = if uri = u then none else s.graphs[u]? := by
  simp only [noteClosed, Std.ExtTreeMap.getElem?_erase, Std.LawfulEqCmp.compare_eq_iff_eq]

theorem of_getElem?_noteClosed (hg : (s.noteClosed uri).graphs[u]? = some g) :
    u ≠ uri ∧ s.graphs[u]? = some g := by
  rw [getElem?_noteClosed] at hg
  split at hg
  · cases hg
  · next hne => exact ⟨Ne.symm hne, hg⟩

/-- A document is affected when its graph has the file, or when it is the file and open. -/
theorem mem_affected_iff : e ∈ s.affected uri ↔
    (e ≠ uri ∧ ∃ g, s.graphs[e]? = some g ∧ g.files.contains uri = true) ∨
      (e = uri ∧ s.workspace.contains uri = true) := by
  have hreaching : e ∈ (s.graphs.filter fun entry g => entry != uri && g.files.contains uri).map
      (fun _ _ => ()) ↔ e ≠ uri ∧ ∃ g, s.graphs[e]? = some g ∧ g.files.contains uri = true := by
    rw [Std.ExtTreeMap.mem_map, Std.ExtTreeMap.mem_iff_isSome_getElem?,
      Std.ExtTreeMap.getElem?_filter', Option.isSome_filter]
    cases s.graphs[e]? <;> simp
  rw [affected, Std.ExtTreeMap.mem_keys]
  split
  · next hopen =>
    rw [Std.ExtTreeMap.mem_insert, Std.LawfulEqCmp.compare_eq_iff_eq, hreaching]
    simp only [hopen, and_true, eq_comm, or_comm]
  · next hopen =>
    rw [hreaching]
    simp [hopen]

/-- When only open documents have graphs, only open documents are affected. -/
theorem contains_of_mem_affected
    (hopen : ∀ (u : Url) g, s.graphs[u]? = some g → s.workspace.contains u = true)
    (he : e ∈ s.affected uri) : s.workspace.contains e = true := by
  rcases mem_affected_iff.1 he with ⟨-, g, hg, -⟩ | ⟨rfl, huri⟩
  · exact hopen e g hg
  · exact huri

theorem nodup_affected : (s.affected uri).Nodup := by
  rw [affected]
  exact Std.ExtTreeMap.nodup_keys

/-- Without other documents, a document that is opened is the one to be compiled. -/
theorem affected_start {site : Site σ} :
    ((start site).noteOpened uri text).affected uri = [uri] := by
  refine List.perm_singleton.1 ((List.perm_ext_iff_of_nodup nodup_affected
    (List.nodup_singleton uri)).2 fun e => ?_)
  rw [mem_affected_iff, List.mem_singleton, and_iff_left (contains_noteOpened.2 (.inl rfl))]
  simp [noteOpened, start]

/-! ## Steps -/

/-- One step of a server. Between the others, the world may change on its own. -/
inductive Step (c : Config σ) : Server σ → Server σ → Prop where
  | opens {s s' : Server σ} {uri : Url} {text : String} {published : Publication}
      (h : openDocument c s uri text = some (published, s')) : Step c s s'
  | closes {s s' : Server σ} {uri : Url} {published : Publication}
      (h : closeDocument c s uri = some (published, s')) : Step c s s'
  | works {s : Server σ} : Step c s (work c s)
  | refreshes {s s' : Server σ} {done : Option (Url × Publication)}
      (h : refreshNext c s = some (done, s')) : Step c s s'
  | turns {s : Server σ} (world : σ) : Step c s { s with site := { s.site with world := world } }

/-- The states of a server that starts without documents. -/
def Reachable (c : Config σ) (site : Site σ) (s : Server σ) : Prop :=
  Relation.ReflTransGen (Step c) (start site) s

end Server

/-- A server for the small setting. -/
def Sample.config : Server.Config Bool := ⟨setting, 2⟩

end ModuleGraph
