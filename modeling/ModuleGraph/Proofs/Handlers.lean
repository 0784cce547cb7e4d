import ModuleGraph.Proofs.ServerSteps

/-!
# Handlers that a refresh comes between

A handler of the editor, which opens or closes a document, is not one step. For
each document that it compiles it first builds and queues, and then stores the
graph, and in between the worker may restore what is queued and the refresh of a
notified document may run. `Moves` are these smaller steps; every step of a
server is a run of them (`moves_of_step`).

A refresh that finds no graph for its document takes the document for closed,
and does nothing. The handler that opens a document makes it open long before it
stores its graph, and the notice can come in between: that is the one way in
which a refresh can be wrong (`notice_dropped`), and then the document waits for
what is restored already, with nothing on its way any more (`exists_stuck`).
-/

namespace ModuleGraph

/-- A handler on its way: the document it was called for, the documents it has still to compile,
the build it has not stored yet, what it has to publish, and the graph that a closed document
had. -/
structure Handler where
  document : Url
  todo : List Url
  built : Option (Url × Except BuildError Graph)
  published : Publication
  previous : Option Graph

/-- A server and the handler that runs. One runs at a time. -/
structure Session (σ : Type) where
  server : Server σ
  handler : Option Handler

namespace Handler

/-- The handler has not stored the document's graph yet. -/
def Compiles (h : Handler) (e : Url) : Prop :=
  e ∈ h.todo ∨ ∃ result, h.built = some (e, result)

section

variable {document e u : Url} {todo : List Url} {result : Except BuildError Graph}
  {published : Publication} {previous : Option Graph}

@[simp] theorem compiles_none :
    Compiles ⟨document, todo, none, published, previous⟩ u ↔ u ∈ todo := by
  simp [Compiles]

@[simp] theorem compiles_some :
    Compiles ⟨document, todo, some (e, result), published, previous⟩ u ↔ u ∈ todo ∨ u = e := by
  simp [Compiles, eq_comm]

end

/-- What the handler publishes when it is done. -/
def answer {σ : Type} (h : Handler) (s : Server σ) : Publication :=
  h.published ++ (h.previous.map (Server.cleared ·
    fun file => s.graphs.values.any (·.files.contains file))).getD []

end Handler

namespace Session

open Server

variable {σ : Type} {c : Server.Config σ} {site : Site σ} {x y : Session σ} {s s' : Server σ}
  {e u uri : Url} {text : String} {todo rest : List Url} {published : Publication} {h : Handler}

/-- A step that nothing comes between. -/
inductive Moves (c : Server.Config σ) : Session σ → Session σ → Prop where
  | opens {s : Server σ} (uri : Url) (text : String) :
      Moves c ⟨s, none⟩ ⟨s.noteOpened uri text,
        some ⟨uri, (s.noteOpened uri text).affected uri, none, [], none⟩⟩
  | closes {s : Server σ} (uri : Url) :
      Moves c ⟨s, none⟩ ⟨s.noteClosed uri,
        some ⟨uri, (s.noteClosed uri).affected uri, none, [], s.graphs[uri]?⟩⟩
  | builds {s s' : Server σ} {document e : Url} {todo : List Url} {published : Publication}
      {previous : Option Graph} {result : Except BuildError Graph}
      (hprepare : prepare c s e = some (result, s')) :
      Moves c ⟨s, some ⟨document, e :: todo, none, published, previous⟩⟩
        ⟨s', some ⟨document, todo, some (e, result), published, previous⟩⟩
  | stores {s : Server σ} {document e : Url} {todo : List Url} {published : Publication}
      {previous : Option Graph} {result : Except BuildError Graph} :
      Moves c ⟨s, some ⟨document, todo, some (e, result), published, previous⟩⟩
        ⟨(s.store e result).2,
          some ⟨document, todo, none, published ++ (s.store e result).1, previous⟩⟩
  | returns {s : Server σ} {document : Url} {published : Publication} {previous : Option Graph} :
      Moves c ⟨s, some ⟨document, [], none, published, previous⟩⟩ ⟨s, none⟩
  | works {s : Server σ} {h : Option Handler} : Moves c ⟨s, h⟩ ⟨work c s, h⟩
  | refreshes {s s' : Server σ} {h : Option Handler} {done : Option (Url × Publication)}
      (hrefresh : refreshNext c s = some (done, s')) : Moves c ⟨s, h⟩ ⟨s', h⟩
  | turns {s : Server σ} {h : Option Handler} (world : σ) :
      Moves c ⟨s, h⟩ ⟨{ s with site := { s.site with world := world } }, h⟩

/-- The states of a server that starts without documents, with the handler that runs. -/
def Reachable (c : Server.Config σ) (site : Site σ) (x : Session σ) : Prop :=
  Relation.ReflTransGen (Moves c) ⟨Server.start site, none⟩ x

/-! ## Handlers that run alone -/

/-- A handler that nothing comes between compiles its documents as one step does. -/
theorem moves_compileAll {document : Url} {first : Publication} {previous : Option Graph}
    (h : compileAll c todo s = some (published, s')) :
    Relation.ReflTransGen (Moves c) ⟨s, some ⟨document, todo, none, first, previous⟩⟩
      ⟨s', some ⟨document, [], none, first ++ published, previous⟩⟩ := by
  induction todo generalizing s first published with
  | nil =>
    obtain ⟨rfl, rfl⟩ := Prod.mk.inj (Option.some.inj h)
    rw [List.append_nil]
  | cons e todo ih =>
    rw [compileAll] at h
    obtain ⟨⟨result, s₁⟩, hprepare, h⟩ := Option.bind_eq_some_iff.1 h
    obtain ⟨⟨later, s₂⟩, hlater, h⟩ := Option.bind_eq_some_iff.1 h
    obtain ⟨rfl, rfl⟩ := Prod.mk.inj (Option.some.inj h)
    rw [← List.append_assoc]
    exact .head (.builds hprepare) (.head .stores (ih hlater))

/-- The handler that opens a document publishes what opening it as one step does. -/
theorem moves_openDocument (h : openDocument c s uri text = some (published, s')) :
    ∃ handler : Handler, handler.answer s' = published ∧
      Relation.ReflTransGen (Moves c) ⟨s, none⟩ ⟨s', some handler⟩ ∧
      Moves c ⟨s', some handler⟩ ⟨s', none⟩ := by
  rw [openDocument_eq] at h
  refine ⟨⟨uri, [], none, published, none⟩, List.append_nil _, ?_, .returns⟩
  exact .head (.opens uri text) (moves_compileAll h)

/-- The handler that closes a document publishes what closing it as one step does. -/
theorem moves_closeDocument (h : closeDocument c s uri = some (published, s')) :
    ∃ handler : Handler, handler.answer s' = published ∧
      Relation.ReflTransGen (Moves c) ⟨s, none⟩ ⟨s', some handler⟩ ∧
      Moves c ⟨s', some handler⟩ ⟨s', none⟩ := by
  obtain ⟨⟨first, s₁⟩, hcompile, h⟩ := Option.bind_eq_some_iff.1 h
  obtain ⟨rfl, rfl⟩ := Prod.mk.inj (Option.some.inj h)
  refine ⟨⟨uri, [], none, first, s.graphs[uri]?⟩, rfl, ?_, .returns⟩
  exact .head (.closes uri) (moves_compileAll hcompile)

/-- A step of a server is a run in which no two things come between each other. -/
theorem moves_of_step (h : Step c s s') :
    Relation.ReflTransGen (Moves c) ⟨s, none⟩ ⟨s', none⟩ := by
  cases h with
  | opens h =>
    obtain ⟨handler, -, hrun, hreturn⟩ := moves_openDocument h
    exact hrun.tail hreturn
  | closes h =>
    obtain ⟨handler, -, hrun, hreturn⟩ := moves_closeDocument h
    exact hrun.tail hreturn
  | works => exact .single .works
  | refreshes h => exact .single (.refreshes h)
  | turns world => exact .single (.turns world)

theorem reachable_of_reachable (h : Server.Reachable c site s) : Reachable c site ⟨s, none⟩ := by
  induction h with
  | refl => exact .refl
  | tail _ hstep ih => exact ih.trans (moves_of_step hstep)

/-! ## What a run keeps -/

/-- The handler that runs has not stored the document's graph. -/
def Compiling (x : Session σ) (e : Url) : Prop :=
  ∃ h, x.handler = some h ∧ h.Compiles e

/-- The handler that runs is the document's own, and has not stored its graph. -/
def Opening (x : Session σ) (e : Url) : Prop :=
  ∃ h, x.handler = some h ∧ h.document = e ∧ h.Compiles e

@[simp] theorem compiling_none : ¬ Compiling ⟨s, none⟩ e := by simp [Compiling]

@[simp] theorem compiling_some : Compiling ⟨s, some h⟩ e ↔ h.Compiles e := by simp [Compiling]

@[simp] theorem opening_none : ¬ Opening ⟨s, none⟩ e := by simp [Opening]

@[simp] theorem opening_some : Opening ⟨s, some h⟩ e ↔ h.document = e ∧ h.Compiles e := by
  simp [Opening]

/-- What holds between any two moves. -/
structure Sound (x : Session σ) : Prop where
  /-- Graphs are of open documents. -/
  graphs : ∀ (e : Url) g, x.server.graphs[e]? = some g →
    g.entry = e ∧ x.server.workspace.contains e = true
  /-- Only open documents are compiled. -/
  compiled : ∀ e, x.Compiling e → x.server.workspace.contains e = true
  /-- A build that is to be stored came to a graph. -/
  built : ∀ h e result, x.handler = some h → h.built = some (e, result) →
    ∃ g, result = .ok g ∧ g.entry = e
  /-- An open document has a graph, unless it is just being opened. -/
  stored : ∀ e, x.server.workspace.contains e = true →
    (∃ g, x.server.graphs[e]? = some g) ∨ x.Opening e

theorem sound_start : Sound ⟨Server.start site, none⟩ where
  graphs e g hg := by simp [Server.start] at hg
  compiled e he := absurd he compiling_none
  built h e result hh := by cases hh
  stored e hopen := by
    obtain ⟨f, hf⟩ := FileMap.contains_iff.1 hopen
    simp [Server.start] at hf

/-- A handler that begins is sound when its server's graphs are, and compiles what is affected. -/
theorem Sound.begins {previous : Option Graph}
    (hgraphs : ∀ (e : Url) g, s.graphs[e]? = some g → g.entry = e ∧ s.workspace.contains e = true)
    (hstored : ∀ e, s.workspace.contains e = true → (∃ g, s.graphs[e]? = some g) ∨ e = uri) :
    Sound (⟨s, some ⟨uri, s.affected uri, none, [], previous⟩⟩ : Session σ) where
  graphs := hgraphs
  compiled e he := by
    rw [compiling_some, Handler.compiles_none] at he
    exact contains_of_mem_affected (fun u g hg => (hgraphs u g hg).2) he
  built h e result hh hbuilt := by
    obtain rfl := Option.some.inj hh
    cases hbuilt
  stored e hopen := by
    refine (hstored e hopen).imp_right ?_
    rintro rfl
    exact opening_some.2 ⟨rfl, Handler.compiles_none.2 (mem_affected_iff.2 (.inr ⟨rfl, hopen⟩))⟩

theorem Sound.opens (hx : Sound (⟨s, none⟩ : Session σ)) :
    Sound ⟨s.noteOpened uri text,
      some ⟨uri, (s.noteOpened uri text).affected uri, none, [], none⟩⟩ := by
  refine .begins (fun e g hg => ?_) fun e hopen => ?_
  · obtain ⟨hentry, hopen⟩ := hx.graphs e g hg
    exact ⟨hentry, contains_noteOpened.2 (.inr hopen)⟩
  · rcases contains_noteOpened.1 hopen with he | hopen
    · exact .inr he
    · exact .inl ((hx.stored e hopen).resolve_right opening_none)

theorem Sound.closes (hx : Sound (⟨s, none⟩ : Session σ)) :
    Sound ⟨s.noteClosed uri,
      some ⟨uri, (s.noteClosed uri).affected uri, none, [], s.graphs[uri]?⟩⟩ := by
  refine .begins (fun e g hg => ?_) fun e hopen => ?_
  · rw [getElem?_noteClosed] at hg
    split at hg
    · cases hg
    · next hne =>
      obtain ⟨hentry, hopen⟩ := hx.graphs e g hg
      exact ⟨hentry, contains_noteClosed.2 ⟨Ne.symm hne, hopen⟩⟩
  · obtain ⟨hne, hopen⟩ := contains_noteClosed.1 hopen
    rw [getElem?_noteClosed, if_neg (Ne.symm hne)]
    exact .inl ((hx.stored e hopen).resolve_right opening_none)

theorem Sound.builds {document : Url} {previous : Option Graph} {result : Except BuildError Graph}
    (hx : Sound ⟨s, some ⟨document, e :: todo, none, published, previous⟩⟩)
    (hprepare : prepare c s e = some (result, s')) :
    Sound ⟨s', some ⟨document, todo, some (e, result), published, previous⟩⟩ := by
  -- the first document to compile is now the one that is built, and no other changes its state
  have hsame (u : Url) :
      Handler.Compiles ⟨document, todo, some (e, result), published, previous⟩ u ↔
        Handler.Compiles ⟨document, e :: todo, none, published, previous⟩ u := by
    rw [Handler.compiles_some, Handler.compiles_none, List.mem_cons, or_comm]
  have hopen : s.workspace.contains e = true :=
    hx.compiled e (compiling_some.2 (Handler.compiles_none.2 (List.mem_cons_self ..)))
  obtain ⟨g, rfl, hprepared⟩ := prepared_of_prepare hopen hprepare
  refine ⟨fun u g' hg' => ?_, fun u hu => ?_, fun h u result hh hbuilt => ?_, fun u hu => ?_⟩
  · rw [hprepared.graphs] at hg'
    rw [hprepared.workspace]
    exact hx.graphs u g' hg'
  · rw [compiling_some, hsame] at hu
    rw [hprepared.workspace]
    exact hx.compiled u (compiling_some.2 hu)
  · obtain rfl := Option.some.inj hh
    obtain ⟨rfl, rfl⟩ := Prod.mk.inj (Option.some.inj hbuilt)
    exact ⟨g, rfl, hprepared.entry⟩
  · rw [hprepared.workspace] at hu
    rw [hprepared.graphs, opening_some, hsame]
    exact (hx.stored u hu).imp_right opening_some.1

theorem Sound.stores {document : Url} {previous : Option Graph} {result : Except BuildError Graph}
    {later : Publication}
    (hx : Sound ⟨s, some ⟨document, todo, some (e, result), published, previous⟩⟩) :
    Sound ⟨(s.store e result).2, some ⟨document, todo, none, later, previous⟩⟩ := by
  obtain ⟨g, rfl, hentry⟩ := hx.built _ e result rfl rfl
  have hopen : s.workspace.contains e = true :=
    hx.compiled e (compiling_some.2 (Handler.compiles_some.2 (.inr rfl)))
  refine ⟨fun u g' hg' => ?_, fun u hu => ?_, fun h u result hh hbuilt => ?_, fun u hu => ?_⟩
  · rw [getElem?_store_ok] at hg'
    split at hg'
    · next heq =>
      obtain rfl := Option.some.inj hg'
      exact ⟨hentry.trans heq, heq ▸ hopen⟩
    · exact hx.graphs u g' hg'
  · rw [compiling_some, Handler.compiles_none] at hu
    exact hx.compiled u (compiling_some.2 (Handler.compiles_some.2 (.inl hu)))
  · obtain rfl := Option.some.inj hh
    cases hbuilt
  · rw [getElem?_store_ok, opening_some, Handler.compiles_none]
    split
    · exact .inl ⟨g, rfl⟩
    · next hne =>
      refine (hx.stored u hu).imp_right fun hopening => ?_
      rw [opening_some, Handler.compiles_some] at hopening
      exact ⟨hopening.1, hopening.2.resolve_right (Ne.symm hne)⟩

theorem Sound.returns {document : Url} {previous : Option Graph}
    (hx : Sound (⟨s, some ⟨document, [], none, published, previous⟩⟩ : Session σ)) :
    Sound ⟨s, none⟩ where
  graphs := hx.graphs
  compiled e he := absurd he compiling_none
  built h e result hh := by cases hh
  stored e hopen := by
    refine .inl ((hx.stored e hopen).resolve_right fun hopening => ?_)
    rw [opening_some, Handler.compiles_none] at hopening
    cases hopening.2

/-- What only touches graphs of open documents, and gives no document up, keeps what holds. -/
theorem Sound.of_graphs {h : Option Handler} (hx : Sound ⟨s, h⟩)
    (hworkspace : s'.workspace = s.workspace)
    (hgraphs : ∀ (u : Url) g, s'.graphs[u]? = some g →
      g.entry = u ∧ s.workspace.contains u = true)
    (hkept : ∀ (u : Url) g, s.graphs[u]? = some g → ∃ g', s'.graphs[u]? = some g') :
    Sound ⟨s', h⟩ where
  graphs e g hg := hworkspace ▸ hgraphs e g hg
  compiled e he := hworkspace ▸ hx.compiled e he
  built := hx.built
  stored e hopen := by
    rw [hworkspace] at hopen
    exact (hx.stored e hopen).imp_left fun ⟨g, hg⟩ => hkept e g hg

theorem Sound.refreshes {h : Option Handler} {done : Option (Url × Publication)}
    (hx : Sound ⟨s, h⟩) (hrefresh : refreshNext c s = some (done, s')) : Sound ⟨s', h⟩ := by
  rw [refreshNext] at hrefresh
  split at hrefresh
  · obtain ⟨-, rfl⟩ := Prod.mk.inj (Option.some.inj hrefresh)
    exact hx
  · next document rest hnotices =>
    obtain ⟨⟨published, s₁⟩, hdocument, hrefresh⟩ := Option.bind_eq_some_iff.1 hrefresh
    obtain ⟨-, rfl⟩ := Prod.mk.inj (Option.some.inj hrefresh)
    rcases refresh_built (s := { s with notices := rest }) hx.graphs hdocument with
      ⟨-, -, rfl⟩ | ⟨current, g, hcurrent, hbuilt, -⟩
    · exact hx.of_graphs rfl hx.graphs fun u g hg => ⟨g, hg⟩
    · refine hx.of_graphs hbuilt.workspace (fun u g' hg' => ?_) fun u g' hg' => ?_
      · rcases hbuilt.graph_cases hg' with ⟨rfl, rfl⟩ | ⟨-, hold⟩
        · exact ⟨hbuilt.entry, (hx.graphs _ current hcurrent).2⟩
        · exact hx.graphs u g' hold
      · rw [hbuilt.graphs]
        split
        · exact ⟨g, rfl⟩
        · exact ⟨g', hg'⟩

theorem graphs_work (c : Server.Config σ) (s : Server σ) :
    (work c s).graphs = s.graphs ∧ (work c s).workspace = s.workspace := by
  rw [work]
  split <;> exact ⟨rfl, rfl⟩

theorem sound_move (hmove : Moves c x y) (hx : Sound x) : Sound y := by
  cases hmove with
  | opens => exact hx.opens
  | closes => exact hx.closes
  | builds hprepare => exact hx.builds hprepare
  | stores => exact hx.stores
  | returns => exact hx.returns
  | @works s h =>
    obtain ⟨hgraphs, hworkspace⟩ := graphs_work c s
    refine hx.of_graphs hworkspace (fun u g hg => ?_) fun u g hg => ⟨g, ?_⟩
    · exact hx.graphs u g (hgraphs ▸ hg)
    · rw [hgraphs]
      exact hg
  | refreshes hrefresh => exact hx.refreshes hrefresh
  | turns world => exact hx.of_graphs rfl hx.graphs fun u g hg => ⟨g, hg⟩

theorem sound_of_reachable (h : Reachable c site x) : Sound x := by
  induction h with
  | refl => exact sound_start
  | tail _ hmove ih => exact sound_move hmove ih

/-! ## Notices that come to nothing -/

theorem refreshNext_of_none (hnotices : s.notices = e :: rest) (hgraph : s.graphs[e]? = none) :
    refreshNext c s = some (some (e, []), { s with notices := rest }) := by
  rw [refreshNext, hnotices]
  dsimp only
  rw [refresh]
  dsimp only
  rw [hgraph]
  rfl

/-- A refresh that finds no graph takes its notice and does nothing. Its document is neither open
nor being compiled, unless the handler that opens it has not stored its graph yet. -/
theorem notice_dropped (h : Reachable c site x) (hnotices : x.server.notices = e :: rest)
    (hgraph : x.server.graphs[e]? = none) :
    refreshNext c x.server = some (some (e, []), { x.server with notices := rest }) ∧
      (x.server.workspace.contains e = false ∧ ¬ x.Compiling e ↔ ¬ x.Opening e) := by
  have hx := sound_of_reachable h
  refine ⟨refreshNext_of_none hnotices hgraph, fun hclosed hopening => ?_, fun hnot => ?_⟩
  · obtain ⟨handler, hhandler, -, hcompiles⟩ := hopening
    exact hclosed.2 ⟨handler, hhandler, hcompiles⟩
  · have hclosed : ¬ x.server.workspace.contains e = true := fun hopen => by
      obtain ⟨g, hg⟩ := (hx.stored e hopen).resolve_right hnot
      exact Option.some_ne_none g (hg.symm.trans hgraph)
    exact ⟨by simpa using hclosed, fun hcompiling => hclosed (hx.compiled e hcompiling)⟩

/-- A refresh finds no graph only for documents that were closed. -/
def NoticesKept (c : Server.Config σ) (site : Site σ) : Prop :=
  ∀ (x : Session σ) e rest, Reachable c site x → x.server.notices = e :: rest →
    x.server.graphs[e]? = none → x.server.workspace.contains e = false ∧ ¬ x.Compiling e

end Session

namespace Sample

open Server Session

theorem exists_closeDocument : ∃ first s published s',
    openDocument config (start site) main mainText = some (first, s) ∧
      closeDocument config (work config s) main = some (published, s') ∧
      s'.notices = [main] ∧ s'.graphs[main]? = none := by
  have hcheck : ((openDocument config (start site) main mainText).any fun r =>
      (closeDocument config (work config r.2) main).any fun r =>
        r.2.notices == [main] && !r.2.graphs[main]?.isSome) = true := by decide +kernel
  obtain ⟨⟨first, s⟩, hopen, hcheck⟩ := (Option.any_eq_true _ _).1 hcheck
  obtain ⟨⟨published, s'⟩, hclose, hcheck⟩ := (Option.any_eq_true _ _).1 hcheck
  rw [Bool.and_eq_true, beq_iff_eq, Bool.not_eq_true', Option.isSome_eq_false_iff,
    Option.isNone_iff_eq_none] at hcheck
  exact ⟨first, s, published, s', hopen, hclose, hcheck⟩

/-- The notice of a document that was closed while its modules were restored. -/
theorem notice_dropped_main : ∃ x : Session Bool, Session.Reachable config site x ∧
    ¬ x.Opening main ∧
    refreshNext config x.server = some (some (main, []), { x.server with notices := [] }) ∧
      (x.server.workspace.contains main = false ∧ ¬ x.Compiling main ↔ ¬ x.Opening main) := by
  obtain ⟨first, s, published, s', hopen, hclose, hnotices, hgraph⟩ := exists_closeDocument
  have hreachable : Server.Reachable config site s' :=
    .tail (.tail (.single (.opens hopen)) .works) (.closes hclose)
  have hsession := reachable_of_reachable hreachable
  refine ⟨⟨s', none⟩, hsession, ?_, notice_dropped hsession hnotices hgraph⟩
  rintro ⟨h, hh, -⟩
  cases hh

/-- The document is open, and nothing is compiled yet. -/
def opened : Server Bool := (start site).noteOpened main mainText

theorem exists_prepare : ∃ g s, prepare config opened main = some (.ok g, s) ∧
    g.pending.isEmpty = false ∧ s.queue.map (·.document) = [main] := by
  have hcheck : ((prepare config opened main).any fun r =>
      r.1.toOption.any fun g => !g.pending.isEmpty && r.2.queue.map (·.document) == [main]) =
        true := by decide +kernel
  obtain ⟨⟨result, s⟩, hprepare, hcheck⟩ := (Option.any_eq_true _ _).1 hcheck
  obtain ⟨g, hg, hcheck⟩ := (Option.any_eq_true _ _).1 hcheck
  cases result with
  | ok g' =>
    obtain rfl := Option.some.inj hg
    rw [Bool.and_eq_true, Bool.not_eq_true', beq_iff_eq] at hcheck
    exact ⟨g', s, hprepare, hcheck⟩
  | error e => cases hg

theorem contains_opened : opened.workspace.contains main = true :=
  contains_noteOpened.2 (.inl rfl)

/-- The worker and the refresh can come between the build of a document and its storing. -/
theorem exists_between : ∃ g s, Session.Reachable config site
      ⟨s, some ⟨main, [], some (main, .ok g), [], none⟩⟩ ∧
    g.pending.isEmpty = false ∧ s.workspace.contains main = true ∧ s.queue = [] ∧
      s.notices = [main] ∧ s.graphs[main]? = none := by
  obtain ⟨g, s, hprepare, hpending, hqueue⟩ := exists_prepare
  obtain ⟨g', hg', hprepared⟩ := prepared_of_prepare contains_opened hprepare
  have hopens := Moves.opens (c := config) (s := start site) main mainText
  rw [affected_start] at hopens
  refine ⟨g, work config s, ?_, hpending, ?_⟩
  · exact .tail (.tail (.single hopens) (.builds hprepare)) .works
  · have hnotices : s.notices = [] := hprepared.notices
    have hgraphs : s.graphs[main]? = none := by
      rw [hprepared.graphs]
      simp [opened, noteOpened, start]
    have hsome : s.queue.isEmpty = false := by
      rw [List.isEmpty_eq_false_iff]
      intro hnil
      rw [hnil] at hqueue
      cases hqueue
    rw [(graphs_work config s).1, (graphs_work config s).2, hprepared.workspace, work,
      if_neg (by simp [hsome])]
    refine ⟨contains_opened, rfl, ?_, hgraphs⟩
    rw [hnotices, Routes.restoreRequests]
    dsimp only
    rw [hqueue]
    rfl

/-- The notice of a document that is open comes to nothing. -/
theorem not_noticesKept : ¬ NoticesKept config site := by
  intro h
  obtain ⟨g, s, hreachable, -, hopen, -, hnotices, hgraph⟩ := exists_between
  have hclosed := (h _ main [] hreachable hnotices hgraph).1
  rw [hopen] at hclosed
  cases hclosed

/-- After that the document waits, with nothing on its way that would end it. -/
theorem exists_stuck : ∃ s g, Session.Reachable config site ⟨s, none⟩ ∧
    s.graphs[main]? = some g ∧ g.pending.isEmpty = false ∧ s.queue = [] ∧ s.notices = [] := by
  obtain ⟨g, s, hreachable, hpending, -, hqueue, hnotices, hgraph⟩ := exists_between
  have hrefresh := refreshNext_of_none hnotices hgraph (c := config)
  refine ⟨_, g, .tail (.tail (.tail hreachable (.refreshes hrefresh)) .stores) .returns, ?_,
    hpending, hqueue, rfl⟩
  rw [getElem?_store_ok, if_pos rfl]

end Sample

end ModuleGraph
