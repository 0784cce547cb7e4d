import ModuleGraph.Proofs.Handlers
import ModuleGraph.Proofs.Screen

/-!
# Closings that overtake a refresh

The handlers of the editor and the refreshes of notified documents are two
tasks, and a refresh is not one step either: it reads the graph of its document,
builds it again, and stores what that came to. `Moves` lets handlers run between
these. Each move that matters for a document is noted in a log, so that one can
say what came after what.

A refresh looks for the graph first, and does nothing for a closed document. It
does not look again before it stores. When the document is closed in between,
building goes on from the graph that was read, which has the document's file, and
never fails (`exists_rebuilt`); so that the closed document has a graph again.

This is the one way in which a closed document comes back: for each document, a
run is without a graph or a list for it after it was closed exactly when no
closing overtakes one of its refreshes (`staysClosed_iff`). The invariant `Traced`
says why. It is about one document at a time, because a document that did come
back is built again by handlers like any other.
-/

namespace ModuleGraph

/-- A refresh on its way: it has read the document's graph, or built it again. -/
inductive Refreshing where
  | read (document : Url) (current : Graph)
  | built (document : Url) (result : Except BuildError Graph)

/-- The document that is refreshed. -/
def Refreshing.document : Refreshing → Url
  | read document _ => document
  | built document _ => document

/-- A server, the handler that runs, and the refresh that runs beside it. -/
structure SharedSession (σ : Type) where
  server : Server σ
  handler : Option Handler
  refreshing : Option Refreshing

/-- What happens to a document. -/
inductive Event where
  | opened (document : Url)
  | closed (document : Url)
  /-- A refresh reads the document's graph. -/
  | read (document : Url)
  /-- A handler stores what building the document came to. -/
  | stored (document : Url) (published : Publication)
  /-- A refresh stores what building the document again came to. -/
  | refreshed (document : Url) (published : Publication)

/-! ## Logs -/

namespace Event

/-- A store that publishes a list for its document. -/
def Tells (e : Url) : Event → Prop
  | stored document published => document = e ∧ published.shown e ≠ none
  | refreshed document published => document = e ∧ published.shown e ≠ none
  | _ => False

variable {e : Url} {log log' : List Event} {event : Event}

/-- The document was closed, and not opened since. -/
def ClosedIn (e : Url) (log : List Event) : Prop :=
  ∃ before after, log = before ++ closed e :: after ∧ opened e ∉ after

/-- A store published a list for the document after it was closed and before it was opened
again. -/
def Disturbed (e : Url) (log : List Event) : Prop :=
  ∃ before event after, log = before ++ event :: after ∧ event.Tells e ∧ ClosedIn e before

/-- A refresh read the document's graph, the document was closed and not opened again, and then
the refresh stored. -/
def Overtaken (e : Url) (log : List Event) : Prop :=
  ∃ before during published after,
    log = before ++ read e :: during ++ refreshed e published :: after ∧
    (∀ u, read u ∉ during) ∧ ClosedIn e during

theorem not_closedIn_nil : ¬ ClosedIn e [] := by
  rintro ⟨before, after, h, -⟩
  simp at h

/-- The last event of a log is the one that was split off, or stands in what follows it. -/
theorem concat_eq_append_cons {before after : List Event} {last : Event}
    (h : log ++ [last] = before ++ event :: after) :
    after = [] ∧ event = last ∧ before = log ∨
      ∃ more, after = more ++ [last] ∧ log = before ++ event :: more := by
  rcases List.eq_nil_or_concat after with rfl | ⟨more, final, rfl⟩
  · obtain ⟨hlog, hlast⟩ := List.append_inj' h rfl
    exact .inl ⟨rfl, (List.singleton_inj.1 hlast).symm, hlog.symm⟩
  · have hsplit : log ++ [last] = (before ++ event :: more) ++ [final] := by simpa using h
    obtain ⟨hlog, hlast⟩ := List.append_inj' hsplit rfl
    obtain rfl := List.singleton_inj.1 hlast
    exact .inr ⟨more, List.concat_eq_append .., hlog⟩

theorem closedIn_concat_iff :
    ClosedIn e (log ++ [event]) ↔ event = closed e ∨ ClosedIn e log ∧ event ≠ opened e := by
  constructor
  · rintro ⟨before, after, h, hafter⟩
    rcases concat_eq_append_cons h with ⟨-, hevent, -⟩ | ⟨more, rfl, hlog⟩
    · exact .inl hevent.symm
    · rw [List.mem_append, not_or, List.mem_singleton] at hafter
      exact .inr ⟨⟨before, more, hlog, hafter.1⟩, Ne.symm hafter.2⟩
  · rintro (rfl | ⟨⟨before, after, rfl, hafter⟩, hne⟩)
    · exact ⟨log, [], rfl, List.not_mem_nil⟩
    · refine ⟨before, after ++ [event], by simp, ?_⟩
      rw [List.mem_append, not_or, List.mem_singleton]
      exact ⟨hafter, Ne.symm hne⟩

theorem ClosedIn.append_left (h : ClosedIn e log) : ClosedIn e (log' ++ log) := by
  obtain ⟨before, after, rfl, hafter⟩ := h
  exact ⟨log' ++ before, after, by simp, hafter⟩

theorem Overtaken.append (h : Overtaken e log) : Overtaken e (log ++ log') := by
  obtain ⟨before, during, published, after, rfl, hduring⟩ := h
  exact ⟨before, during, published, after ++ log', by simp, hduring⟩

theorem disturbed_concat (h : Disturbed e (log ++ [event])) :
    Disturbed e log ∨ event.Tells e ∧ ClosedIn e log := by
  obtain ⟨before, told, after, h, htells, hclosed⟩ := h
  rcases concat_eq_append_cons h with ⟨-, rfl, rfl⟩ | ⟨more, -, hlog⟩
  · exact .inr ⟨htells, hclosed⟩
  · exact .inl ⟨before, told, more, hlog, htells, hclosed⟩

/-- An overtaken refresh disturbs when its store says something. -/
theorem Overtaken.disturbed (h : Overtaken e log)
    (htells : ∀ published, refreshed e published ∈ log → published.shown e ≠ none) :
    Disturbed e log := by
  obtain ⟨before, during, published, after, rfl, -, hclosed⟩ := h
  refine ⟨before ++ read e :: during, _, after, rfl, ⟨rfl, htells published (by simp)⟩, ?_⟩
  rw [List.append_cons]
  exact hclosed.append_left

end Event

namespace SharedSession

open Server Event Publication

variable {σ : Type} {c : Server.Config σ} {site : Site σ} {x y : SharedSession σ}
  {s s' : Server σ} {e u uri : Url} {text : String} {todo rest : List Url}
  {published : Publication} {log : List Event} {noted : Option Event} {g current : Graph}
  {result : Except BuildError Graph} {handler : Option Handler} {refreshing : Option Refreshing}

/-- A move, and the event that is noted. A refresh that finds no graph drops its notice. -/
inductive Moves (c : Server.Config σ) :
    SharedSession σ → Option Event → SharedSession σ → Prop where
  | opens {s : Server σ} {refreshing : Option Refreshing} (uri : Url) (text : String) :
      Moves c ⟨s, none, refreshing⟩ (some (.opened uri)) ⟨s.noteOpened uri text,
        some ⟨uri, (s.noteOpened uri text).affected uri, none, [], none⟩, refreshing⟩
  | closes {s : Server σ} {refreshing : Option Refreshing} (uri : Url) :
      Moves c ⟨s, none, refreshing⟩ (some (.closed uri)) ⟨s.noteClosed uri,
        some ⟨uri, (s.noteClosed uri).affected uri, none, [], s.graphs[uri]?⟩, refreshing⟩
  | builds {s s' : Server σ} {document e : Url} {todo : List Url} {published : Publication}
      {previous : Option Graph} {result : Except BuildError Graph}
      {refreshing : Option Refreshing} (hprepare : prepare c s e = some (result, s')) :
      Moves c ⟨s, some ⟨document, e :: todo, none, published, previous⟩, refreshing⟩ none
        ⟨s', some ⟨document, todo, some (e, result), published, previous⟩, refreshing⟩
  | stores {s : Server σ} {document e : Url} {todo : List Url} {published : Publication}
      {previous : Option Graph} {result : Except BuildError Graph}
      {refreshing : Option Refreshing} :
      Moves c ⟨s, some ⟨document, todo, some (e, result), published, previous⟩, refreshing⟩
        (some (.stored e (s.store e result).1))
        ⟨(s.store e result).2,
          some ⟨document, todo, none, published ++ (s.store e result).1, previous⟩, refreshing⟩
  | returns {s : Server σ} {document : Url} {published : Publication} {previous : Option Graph}
      {refreshing : Option Refreshing} :
      Moves c ⟨s, some ⟨document, [], none, published, previous⟩, refreshing⟩ none
        ⟨s, none, refreshing⟩
  | drops {s : Server σ} {handler : Option Handler} {e : Url} {rest : List Url}
      (hnotices : s.notices = e :: rest) (hgraph : s.graphs[e]? = none) :
      Moves c ⟨s, handler, none⟩ none ⟨{ s with notices := rest }, handler, none⟩
  | reads {s : Server σ} {handler : Option Handler} {e : Url} {rest : List Url} {current : Graph}
      (hnotices : s.notices = e :: rest) (hgraph : s.graphs[e]? = some current) :
      Moves c ⟨s, handler, none⟩ (some (.read e))
        ⟨{ s with notices := rest }, handler, some (.read e current)⟩
  | updates {s s' : Server σ} {handler : Option Handler} {e : Url} {current : Graph}
      {result : Except BuildError Graph} (hupdate : update c s current = some (result, s')) :
      Moves c ⟨s, handler, some (.read e current)⟩ none ⟨s', handler, some (.built e result)⟩
  | settles {s : Server σ} {handler : Option Handler} {e : Url}
      {result : Except BuildError Graph} :
      Moves c ⟨s, handler, some (.built e result)⟩ (some (.refreshed e (s.store e result).1))
        ⟨(s.store e result).2, handler, none⟩
  | works {s : Server σ} {handler : Option Handler} {refreshing : Option Refreshing} :
      Moves c ⟨s, handler, refreshing⟩ none ⟨work c s, handler, refreshing⟩
  | turns {s : Server σ} {handler : Option Handler} {refreshing : Option Refreshing} (world : σ) :
      Moves c ⟨s, handler, refreshing⟩ none
        ⟨{ s with site := { s.site with world := world } }, handler, refreshing⟩

/-- The states of a server that starts without documents, each with what was noted on the way. -/
inductive Runs (c : Server.Config σ) (site : Site σ) : List Event → SharedSession σ → Prop where
  | start : Runs c site [] ⟨Server.start site, none, none⟩
  | move {log : List Event} {x y : SharedSession σ} {noted : Option Event}
      (h : Runs c site log x) (hmove : Moves c x noted y) : Runs c site (log ++ noted.toList) y

/-! ## What moves do to graphs -/

theorem getElem?_store : (s.store e result).2.graphs[u]? =
    if e = u then result.toOption else s.graphs[u]? := by
  cases result with
  | ok g => exact getElem?_store_ok
  | error err =>
    simp only [store, Std.ExtTreeMap.getElem?_erase, Std.LawfulEqCmp.compare_eq_iff_eq]
    rfl

theorem workspace_store : (s.store e result).2.workspace = s.workspace := by
  cases result <;> rfl

theorem enqueueResult_untouched (s : Server σ) (result : Except BuildError Graph) :
    (enqueueResult s result).workspace = s.workspace ∧
      (enqueueResult s result).graphs = s.graphs := by
  cases result <;> exact ⟨rfl, rfl⟩

/-- A graph of the document that has the document's own file. -/
structure OfDocument (g : Graph) (e : Url) : Prop where
  entry : g.entry = e
  file : ∃ f, g.files[e]? = some f

theorem ofDocument_of_buildWith {ws : Workspace} {site' : Site σ} {prior : Prior}
    (h : c.setting.buildWith c.budget site ws prior e = some (.ok g, site')) : OfDocument g e := by
  have hfound := (Setting.found_of_buildWith h).1
  exact ⟨hfound.entry_eq, hfound.entry_file⟩

theorem prepare_eq (h : prepare c s e = some (result, s')) :
    s'.workspace = s.workspace ∧ s'.graphs = s.graphs ∧ ∀ g, result = .ok g → OfDocument g e := by
  obtain ⟨⟨r, site⟩, hbuild, heq⟩ := Option.map_eq_some_iff.1 h
  obtain ⟨rfl, rfl⟩ := Prod.mk.inj heq
  obtain ⟨hworkspace, hgraphs⟩ := enqueueResult_untouched { s with site } r
  refine ⟨hworkspace, hgraphs, ?_⟩
  rintro g rfl
  exact ofDocument_of_buildWith hbuild

/-- Building again goes on from a graph that has the document's file, and comes to one. -/
theorem exists_rebuilt (hcurrent : OfDocument current e)
    (h : update c s current = some (result, s')) :
    s'.workspace = s.workspace ∧ s'.graphs = s.graphs ∧ ∃ g, result = .ok g ∧ OfDocument g e := by
  obtain ⟨⟨r, site⟩, hbuild, heq⟩ := Option.map_eq_some_iff.1 h
  obtain ⟨rfl, rfl⟩ := Prod.mk.inj heq
  obtain ⟨hworkspace, hgraphs⟩ := enqueueResult_untouched { s with site } r
  refine ⟨hworkspace, hgraphs, ?_⟩
  obtain ⟨rfl, f, hf⟩ := hcurrent
  cases r with
  | ok g => exact ⟨g, rfl, ofDocument_of_buildWith hbuild⟩
  | error err =>
    obtain ⟨f', hf'⟩ : ∃ f', Discovery.Context.fetch
        ⟨c.setting, s.site.world, s.workspace, .ofGraph current ∅⟩ current.entry = Except.ok f' :=
      Setting.exists_fetch_ofGraph hf
    have herror := (Setting.buildWith_error hbuild).1
    rw [hf'] at herror
    cases herror

theorem shown_store_ne_none (h : ∀ g, result = .ok g → OfDocument g e) :
    shown (s.store e result).1 e ≠ none := by
  cases result with
  | error err => simp [store, shown]
  | ok g =>
    obtain ⟨-, f, hf⟩ := h g rfl
    have hfile : g.files.contains e = true := FileMap.contains_iff.2 ⟨f, hf⟩
    rcases shown_store s e g e with ⟨-, hshown⟩ | ⟨hnone, -⟩ | ⟨hnone, -⟩
    · simp [hshown]
    · rw [hfile] at hnone
      cases hnone
    · rw [hfile] at hnone
      cases hnone

/-! ## What a run keeps -/

/-- Graphs have the files of their documents, and what is to be stored comes from such graphs. -/
structure Filed (x : SharedSession σ) : Prop where
  graphs : ∀ (e : Url) g, x.server.graphs[e]? = some g → OfDocument g e
  built : ∀ h e g, x.handler = some h → h.built = some (e, .ok g) → OfDocument g e
  read : ∀ e g, x.refreshing = some (.read e g) → OfDocument g e
  rebuilt : ∀ e result, x.refreshing = some (.built e result) →
    ∃ g, result = .ok g ∧ OfDocument g e

theorem filed_start : Filed ⟨Server.start site, none, none⟩ where
  graphs e g hg := by simp [Server.start] at hg
  built h e g hh := by cases hh
  read e g hr := by cases hr
  rebuilt e result hr := by cases hr

theorem Filed.of_graphs (hx : Filed ⟨s, handler, refreshing⟩)
    (hgraphs : ∀ (u : Url) g, s'.graphs[u]? = some g → s.graphs[u]? = some g) :
    Filed ⟨s', handler, refreshing⟩ :=
  ⟨fun u g hg => hx.graphs u g (hgraphs u g hg), hx.built, hx.read, hx.rebuilt⟩

theorem Filed.of_store (hx : Filed ⟨s, handler, refreshing⟩)
    (hresult : ∀ g, result = .ok g → OfDocument g e) :
    Filed ⟨(s.store e result).2, handler, refreshing⟩ where
  graphs u g hg := by
    rw [getElem?_store] at hg
    split at hg
    · next heq =>
      cases result with
      | ok g' =>
        obtain rfl := Option.some.inj hg
        exact heq ▸ hresult g' rfl
      | error err => cases hg
    · exact hx.graphs u g hg
  built := hx.built
  read := hx.read
  rebuilt := hx.rebuilt

/-- The handler has nothing built, or something of a document. -/
theorem Filed.of_handler {h : Handler} (hx : Filed ⟨s, handler, refreshing⟩)
    (hbuilt : ∀ e g, h.built = some (e, .ok g) → OfDocument g e) :
    Filed ⟨s, some h, refreshing⟩ where
  graphs := hx.graphs
  built h' e g hh := by
    obtain rfl := Option.some.inj hh
    exact hbuilt e g
  read := hx.read
  rebuilt := hx.rebuilt

theorem filed_move (hmove : Moves c x noted y) (hx : Filed x) : Filed y := by
  cases hmove with
  | @opens s refreshing uri text =>
    have hnoted : Filed ⟨s.noteOpened uri text, none, refreshing⟩ := hx.of_graphs fun u g hg => hg
    exact hnoted.of_handler nofun
  | @closes s refreshing uri =>
    have hnoted : Filed ⟨s.noteClosed uri, none, refreshing⟩ :=
      hx.of_graphs fun u g hg => (of_getElem?_noteClosed hg).2
    exact hnoted.of_handler nofun
  | builds hprepare =>
    obtain ⟨-, hgraphs, hresult⟩ := prepare_eq hprepare
    refine (hx.of_graphs fun u g hg => hgraphs ▸ hg).of_handler fun u g hbuilt => ?_
    obtain ⟨rfl, rfl⟩ := Prod.mk.inj (Option.some.inj hbuilt)
    exact hresult g rfl
  | stores =>
    refine (hx.of_store ?_).of_handler nofun
    rintro g rfl
    exact hx.built _ _ g rfl rfl
  | returns => exact ⟨hx.graphs, nofun, hx.read, hx.rebuilt⟩
  | drops => exact hx.of_graphs fun u g hg => hg
  | reads hnotices hgraph =>
    refine ⟨hx.graphs, hx.built, fun u g hread => ?_, (fun u result hbuilt => nomatch hbuilt)⟩
    obtain ⟨rfl, rfl⟩ := Refreshing.read.inj (Option.some.inj hread)
    exact hx.graphs _ _ hgraph
  | updates hupdate =>
    obtain ⟨-, hgraphs, hresult⟩ := exists_rebuilt (hx.read _ _ rfl) hupdate
    refine ⟨fun u g hg => hx.graphs u g (hgraphs ▸ hg), hx.built, (fun u g hread => nomatch hread),
      fun u result hbuilt => ?_⟩
    obtain ⟨rfl, rfl⟩ := Refreshing.built.inj (Option.some.inj hbuilt)
    exact hresult
  | @settles s handler e result =>
    have hstored : Filed ⟨(s.store e result).2, handler, some (.built e result)⟩ :=
      hx.of_store fun g hg => by
        obtain ⟨g', rfl, hg'⟩ := hx.rebuilt e result rfl
        exact Except.ok.inj hg ▸ hg'
    exact ⟨hstored.graphs, hstored.built, nofun, nofun⟩
  | works => exact hx.of_graphs fun u g hg => (untouched_work c _).2 ▸ hg
  | turns world => exact hx.of_graphs fun u g hg => hg

theorem Runs.filed (h : Runs c site log x) : Filed x := by
  induction h with
  | start => exact filed_start
  | move _ hmove ih => exact filed_move hmove ih

/-- A refresh that stores says something of its document. -/
theorem Runs.shown_ne_none (h : Runs c site log x) (hmem : refreshed e published ∈ log) :
    shown published e ≠ none := by
  induction h with
  | start => cases hmem
  | @move log x y noted hrun hmove ih =>
    rcases List.mem_append.1 hmem with hold | hnow
    · exact ih hold
    · cases hmove with
      | settles =>
        obtain ⟨rfl, rfl⟩ := Event.refreshed.inj (List.mem_singleton.1 hnow)
        obtain ⟨g, rfl, hg⟩ := hrun.filed.rebuilt _ _ rfl
        refine shown_store_ne_none fun g' hg' => ?_
        exact Except.ok.inj hg' ▸ hg
      | opens | closes | stores | reads =>
        cases List.mem_singleton.1 hnow
      | _ => cases hnow

/-! ## One document -/

/-- The document is open, or a refresh of it has been overtaken before. -/
def Excused (e : Url) (log : List Event) (s : Server σ) : Prop :=
  s.workspace.contains e = true ∨ Overtaken e log

theorem Excused.move {events : List Event} (h : Excused e log s)
    (hopen : s.workspace.contains e = true → s'.workspace.contains e = true) :
    Excused e (log ++ events) s' :=
  h.imp hopen Overtaken.append

/-- How a document stands, as long as no refresh of it was overtaken. -/
structure Traced (e : Url) (log : List Event) (x : SharedSession σ) : Prop where
  closed : ClosedIn e log → x.server.workspace.contains e = false
  graph : ∀ g, x.server.graphs[e]? = some g → Excused e log x.server
  compiled : ∀ h, x.handler = some h → h.Compiles e → Excused e log x.server
  /-- A refresh of the document that is on its way began when the document was open. -/
  refreshing : ∀ r, x.refreshing = some r → r.document = e →
    ∃ before during, log = before ++ read e :: during ∧ (∀ u, read u ∉ during) ∧
      (Excused e log x.server ∨ ClosedIn e during)

theorem traced_start : Traced e [] ⟨Server.start site, none, none⟩ where
  closed h := absurd h not_closedIn_nil
  graph g hg := by simp [Server.start] at hg
  compiled h hh := by cases hh
  refreshing r hr := by cases hr

/-- Whether an event neither opens nor closes a document, nor is the start of a refresh. -/
def IsQuiet : Event → Prop
  | .stored _ _ | .refreshed _ _ => True
  | _ => False

theorem closedIn_append_quiet (hquiet : ∀ event ∈ noted, IsQuiet event) :
    ClosedIn e (log ++ noted.toList) ↔ ClosedIn e log := by
  cases noted with
  | none => rw [Option.toList_none, List.append_nil]
  | some event =>
    have h := hquiet event rfl
    rw [Option.toList_some, closedIn_concat_iff]
    cases event <;> simp_all [IsQuiet]

/-- A move that leaves the documents as they are and begins no refresh. -/
theorem Traced.of_quiet (hx : Traced e log x) (hquiet : ∀ event ∈ noted, IsQuiet event)
    (hworkspace : y.server.workspace = x.server.workspace)
    (hgraph : ∀ g, y.server.graphs[e]? = some g → Excused e (log ++ noted.toList) x.server)
    (hcompiled : ∀ h, y.handler = some h → h.Compiles e →
      ∃ h', x.handler = some h' ∧ h'.Compiles e)
    (hrefreshing : ∀ r, y.refreshing = some r → r.document = e →
      ∃ r', x.refreshing = some r' ∧ r'.document = e) :
    Traced e (log ++ noted.toList) y := by
  have hopen : x.server.workspace.contains e = true → y.server.workspace.contains e = true :=
    fun h => hworkspace ▸ h
  refine ⟨fun hclosed => ?_, fun g hg => ?_, fun h hh hcompiles => ?_, fun r hr hdocument => ?_⟩
  · rw [closedIn_append_quiet hquiet] at hclosed
    rw [hworkspace]
    exact hx.closed hclosed
  · exact (hgraph g hg).imp_left hopen
  · obtain ⟨h', hh', hcompiles'⟩ := hcompiled h hh hcompiles
    exact (hx.compiled h' hh' hcompiles').move hopen
  · obtain ⟨r', hr', hdocument'⟩ := hrefreshing r hr hdocument
    obtain ⟨before, during, rfl, hreads, hstate⟩ := hx.refreshing r' hr' hdocument'
    refine ⟨before, during ++ noted.toList, by simp, fun u hu => ?_, ?_⟩
    · rcases List.mem_append.1 hu with hu | hu
      · exact hreads u hu
      · exact hquiet _ (Option.mem_toList.1 hu)
    · exact hstate.imp (·.move hopen) (closedIn_append_quiet hquiet).2

theorem Traced.opens (hx : Traced e log ⟨s, none, refreshing⟩) :
    Traced e (log ++ [.opened uri]) ⟨s.noteOpened uri text,
      some ⟨uri, (s.noteOpened uri text).affected uri, none, [], none⟩, refreshing⟩ := by
  have hopen : s.workspace.contains e = true →
      (s.noteOpened uri text).workspace.contains e = true :=
    fun h => contains_noteOpened.2 (.inr h)
  have hself : e = uri → (s.noteOpened uri text).workspace.contains e = true :=
    fun h => contains_noteOpened.2 (.inl h)
  refine ⟨fun hclosed => ?_, fun g hg => (hx.graph g hg).move hopen, fun h hh hcompiles => ?_,
    fun r hr hdocument => ?_⟩
  · rcases closedIn_concat_iff.1 hclosed with hevent | ⟨hclosed, hne⟩
    · cases hevent
    · rw [Bool.eq_false_iff, ne_eq, contains_noteOpened, not_or, ← ne_eq]
      exact ⟨fun h => hne (h ▸ rfl), Bool.eq_false_iff.1 (hx.closed hclosed)⟩
  · obtain rfl := Option.some.inj hh
    rcases mem_affected_iff.1 (Handler.compiles_none.1 hcompiles) with ⟨-, g, hg, -⟩ | ⟨heq, -⟩
    · exact (hx.graph g hg).move hopen
    · exact .inl (hself heq)
  · obtain ⟨before, during, rfl, hreads, hstate⟩ := hx.refreshing r hr hdocument
    refine ⟨before, during ++ [.opened uri], by simp, by simpa using hreads, ?_⟩
    by_cases heq : e = uri
    · exact .inl (.inl (hself heq))
    · refine hstate.imp (·.move hopen) fun hclosed => closedIn_concat_iff.2 (.inr ⟨hclosed, ?_⟩)
      exact fun h => heq (Event.opened.inj h).symm

theorem Traced.closes (hx : Traced e log ⟨s, none, refreshing⟩) :
    Traced e (log ++ [.closed uri]) ⟨s.noteClosed uri,
      some ⟨uri, (s.noteClosed uri).affected uri, none, [], s.graphs[uri]?⟩, refreshing⟩ := by
  have hopen (hne : e ≠ uri) : s.workspace.contains e = true →
      (s.noteClosed uri).workspace.contains e = true :=
    fun h => contains_noteClosed.2 ⟨hne, h⟩
  refine ⟨fun hclosed => ?_, fun g hg => ?_, fun h hh hcompiles => ?_, fun r hr hdocument => ?_⟩
  · rw [Bool.eq_false_iff, ne_eq, contains_noteClosed, not_and]
    intro hne
    rcases closedIn_concat_iff.1 hclosed with hevent | ⟨hclosed, -⟩
    · exact absurd (Event.closed.inj hevent).symm hne
    · exact Bool.eq_false_iff.1 (hx.closed hclosed)
  · obtain ⟨hne, hold⟩ := of_getElem?_noteClosed hg
    exact (hx.graph g hold).move (hopen hne)
  · obtain rfl := Option.some.inj hh
    rcases mem_affected_iff.1 (Handler.compiles_none.1 hcompiles) with ⟨hne, g, hg, -⟩ | ⟨-, huri⟩
    · exact (hx.graph g (of_getElem?_noteClosed hg).2).move (hopen hne)
    · exact absurd rfl (contains_noteClosed.1 huri).1
  · obtain ⟨before, during, rfl, hreads, hstate⟩ := hx.refreshing r hr hdocument
    refine ⟨before, during ++ [.closed uri], by simp, by simpa using hreads, ?_⟩
    by_cases heq : e = uri
    · exact .inr (closedIn_concat_iff.2 (.inl (heq ▸ rfl)))
    · exact hstate.imp (·.move (hopen heq)) fun hclosed =>
        closedIn_concat_iff.2 (.inr ⟨hclosed, nofun⟩)

/-- A graph of the document after a store is the one that was stored, or was there before. -/
theorem Traced.graph_of_store (hx : Traced e log x)
    (hg : (x.server.store u result).2.graphs[e]? = some g)
    (hstored : u = e → Excused e (log ++ noted.toList) x.server) :
    Excused e (log ++ noted.toList) x.server := by
  rw [getElem?_store] at hg
  split at hg
  · next heq => exact hstored heq
  · exact (hx.graph g hg).move id

theorem Traced.settles
    (hx : Traced e log ⟨s, handler, some (.built u result)⟩) (heq : u = e) :
    Excused e (log ++ [.refreshed u (s.store u result).1]) s := by
  subst heq
  obtain ⟨before, during, rfl, hreads, hstate⟩ := hx.refreshing _ rfl rfl
  rcases hstate with hexcused | hclosed
  · exact hexcused.move id
  · exact .inr ⟨before, during, _, [], rfl, hreads, hclosed⟩

theorem Traced.reads (hx : Traced e log ⟨s, handler, none⟩) (hgraph : s.graphs[u]? = some current) :
    Traced e (log ++ [.read u]) ⟨{ s with notices := rest }, handler, some (.read u current)⟩ where
  closed h := hx.closed ((closedIn_concat_iff.1 h).resolve_left nofun).1
  graph g hg := (hx.graph g hg).move id
  compiled h hh hcompiles := (hx.compiled h hh hcompiles).move id
  refreshing r hr hdocument := by
    obtain rfl := Option.some.inj hr
    obtain rfl : u = e := hdocument
    exact ⟨log, [], rfl, by simp, .inl ((hx.graph current hgraph).move id)⟩

theorem traced_move (hmove : Moves c x noted y) (hx : Traced e log x) :
    Traced e (log ++ noted.toList) y := by
  have hsilent : ∀ event ∈ (none : Option Event), IsQuiet event := nofun
  cases hmove with
  | opens => exact hx.opens
  | closes => exact hx.closes
  | reads _ hgraph => exact hx.reads hgraph
  | @builds s s' document u todo published previous result refreshing hprepare =>
    obtain ⟨hworkspace, hgraphs, -⟩ := prepare_eq hprepare
    refine hx.of_quiet hsilent hworkspace (fun g hg => (hx.graph g (hgraphs ▸ hg)).move id) ?_
      fun r hr hdocument => ⟨r, hr, hdocument⟩
    rintro h hh hcompiles
    obtain rfl := Option.some.inj hh
    refine ⟨_, rfl, ?_⟩
    rw [Handler.compiles_some] at hcompiles
    rw [Handler.compiles_none, List.mem_cons]
    exact hcompiles.symm
  | @stores s document u todo published previous result refreshing =>
    refine hx.of_quiet (by simp [IsQuiet]) workspace_store (fun g hg => ?_) ?_
      fun r hr hdocument => ⟨r, hr, hdocument⟩
    · refine hx.graph_of_store hg fun heq => ?_
      exact (hx.compiled _ rfl (Handler.compiles_some.2 (.inr heq.symm))).move id
    · rintro h hh hcompiles
      obtain rfl := Option.some.inj hh
      exact ⟨_, rfl, Handler.compiles_some.2 (.inl (Handler.compiles_none.1 hcompiles))⟩
  | returns =>
    exact hx.of_quiet hsilent rfl (fun g hg => (hx.graph g hg).move id) nofun
      fun r hr hdocument => ⟨r, hr, hdocument⟩
  | drops =>
    exact hx.of_quiet hsilent rfl (fun g hg => (hx.graph g hg).move id)
      (fun h hh hcompiles => ⟨h, hh, hcompiles⟩) nofun
  | @updates s s' handler u current result hupdate =>
    obtain ⟨⟨r, site⟩, -, heq⟩ := Option.map_eq_some_iff.1 hupdate
    obtain ⟨rfl, rfl⟩ := Prod.mk.inj heq
    obtain ⟨hworkspace, hgraphs⟩ := enqueueResult_untouched { s with site } r
    refine hx.of_quiet hsilent hworkspace (fun g hg => (hx.graph g (hgraphs ▸ hg)).move id)
      (fun h hh hcompiles => ⟨h, hh, hcompiles⟩) ?_
    rintro r' hr' hdocument
    obtain rfl := Option.some.inj hr'
    exact ⟨_, rfl, hdocument⟩
  | settles =>
    exact hx.of_quiet (by simp [IsQuiet]) workspace_store
      (fun g hg => hx.graph_of_store hg hx.settles) (fun h hh hcompiles => ⟨h, hh, hcompiles⟩) nofun
  | works =>
    obtain ⟨hworkspace, hgraphs⟩ := untouched_work c _
    exact hx.of_quiet hsilent hworkspace (fun g hg => (hx.graph g (hgraphs ▸ hg)).move id)
      (fun h hh hcompiles => ⟨h, hh, hcompiles⟩) fun r hr hdocument => ⟨r, hr, hdocument⟩
  | turns world =>
    exact hx.of_quiet hsilent rfl (fun g hg => (hx.graph g hg).move id)
      (fun h hh hcompiles => ⟨h, hh, hcompiles⟩) fun r hr hdocument => ⟨r, hr, hdocument⟩

theorem Runs.traced (h : Runs c site log x) (e : Url) : Traced e log x := by
  induction h with
  | start => exact traced_start
  | move _ hmove ih => exact traced_move hmove ih

/-! ## Closed documents -/

theorem Runs.overtaken_of_disturbed (h : Runs c site log x) (hdisturbed : Disturbed e log) :
    Overtaken e log := by
  induction h with
  | start =>
    obtain ⟨before, event, after, h, -⟩ := hdisturbed
    simp at h
  | @move log x y noted hrun hmove ih =>
    cases noted with
    | none => 
      rw [Option.toList_none, List.append_nil] at hdisturbed ⊢
      exact ih hdisturbed
    | some event =>
      rcases disturbed_concat hdisturbed with hold | ⟨htells, hclosed⟩
      · exact (ih hold).append
      · have hx := hrun.traced e
        have hnot := hx.closed hclosed
        cases hmove with
        | stores =>
          obtain ⟨rfl, -⟩ := htells
          have hexcused := hx.compiled _ rfl (Handler.compiles_some.2 (.inr rfl))
          exact (hexcused.resolve_left (by simp [hnot])).append
        | settles =>
          obtain ⟨rfl, -⟩ := htells
          exact (hx.settles rfl).resolve_left (by simp [hnot])
        | opens | closes | reads => cases htells

/-- A refresh that stores leaves a graph of its document, whether it is open or not. -/
theorem Runs.exists_graph_of_settles
    (h : Runs c site log ⟨s, handler, some (.built e result)⟩) :
    ∃ g, (s.store e result).2.graphs[e]? = some g := by
  obtain ⟨g, rfl, -⟩ := h.filed.rebuilt e result rfl
  exact ⟨g, by rw [getElem?_store, if_pos rfl]; rfl⟩

/-- The document has a graph only while it is open, unless something is on its way, and nothing
was published for it by a store between a closing and the next opening. -/
structure StaysClosed (e : Url) (log : List Event) (x : SharedSession σ) : Prop where
  graph : x.handler = none → x.refreshing = none → ∀ g, x.server.graphs[e]? = some g →
    x.server.workspace.contains e = true
  quiet : ¬ Disturbed e log

/-- A closed document stays closed exactly when no closing overtook a refresh of it. -/
theorem staysClosed_iff (h : Runs c site log x) (e : Url) :
    StaysClosed e log x ↔ ¬ Overtaken e log := by
  constructor
  · intro hstays hovertaken
    exact hstays.quiet (hovertaken.disturbed fun _ hmem => h.shown_ne_none hmem)
  · intro hnot
    exact ⟨fun _ _ g hg => ((h.traced e).graph g hg).resolve_right hnot,
      fun hdisturbed => hnot (h.overtaken_of_disturbed hdisturbed)⟩

/-- No document comes back after it was closed. -/
def KeepsClosed (c : Server.Config σ) (site : Site σ) : Prop :=
  ∀ log x, Runs c site log x → ∀ e, StaysClosed e log x

end SharedSession

namespace Sample

open Server Event SharedSession

/-- A refresh of the entry file has read its graph. The file can be closed before or after the
graph is built again and stored. -/
theorem exists_read : ∃ p s current r r' s₁ s₂,
    SharedSession.Runs config site [.opened main, .stored main p, .read main]
      ⟨s, none, some (.read main current)⟩ ∧
    ((s.noteClosed main).affected main = [] ∧
      update config (s.noteClosed main) current = some (r, s₁)) ∧
    update config s current = some (r', s₂) ∧
      (((s₂.store main r').2.noteClosed main).affected main) = [] := by
  let noticed (r : Except BuildError Graph × Server Bool) : Server Bool :=
    work config (r.2.store main r.1).2
  have hcheck : ((prepare config opened main).any fun r => (noticed r).notices == [main] &&
      (noticed r).graphs[main]?.any fun current =>
        let s : Server Bool := { noticed r with notices := [] }
        (((s.noteClosed main).affected main).isEmpty &&
          (update config (s.noteClosed main) current).isSome) &&
        (update config s current).any fun r =>
          ((r.2.store main r.1).2.noteClosed main).affected main |>.isEmpty) = true := by
    decide +kernel
  obtain ⟨⟨r, s⟩, hprepare, hcheck⟩ := (Option.any_eq_true _ _).1 hcheck
  rw [Bool.and_eq_true, beq_iff_eq] at hcheck
  obtain ⟨current, hcurrent, hrest⟩ := (Option.any_eq_true _ _).1 hcheck.2
  rw [Bool.and_eq_true, Bool.and_eq_true, List.isEmpty_iff] at hrest
  obtain ⟨⟨r₁, s₁⟩, hclosed⟩ := Option.isSome_iff_exists.1 hrest.1.2
  obtain ⟨⟨r₂, s₂⟩, hupdate, hafter⟩ := (Option.any_eq_true _ _).1 hrest.2
  have hopens : SharedSession.Moves config ⟨start site, none, none⟩ _ _ := .opens main mainText
  rw [affected_start] at hopens
  have hcompiled := ((SharedSession.Runs.start.move hopens).move (.builds hprepare)).move .stores
  have hread := ((hcompiled.move .returns).move .works).move (.reads hcheck.1 hcurrent)
  exact ⟨_, _, current, r₁, r₂, s₁, s₂, hread, ⟨hrest.1.1, hclosed⟩, hupdate,
    List.isEmpty_iff.1 hafter⟩

/-- Closed after the refresh has stored, the entry file stays closed. -/
theorem staysClosed_main : ∃ p q s, SharedSession.Runs config site
      [.opened main, .stored main p, .read main, .refreshed main q, .closed main] ⟨s, none, none⟩ ∧
    s.workspace.contains main = false ∧
    StaysClosed main [.opened main, .stored main p, .read main, .refreshed main q, .closed main]
      ⟨s, none, none⟩ := by
  obtain ⟨p, s, current, -, result, -, s₂, hrun, -, hupdate, haffected⟩ := exists_read
  have hcloses := ((hrun.move (.updates hupdate)).move .settles).move (.closes main)
  rw [haffected] at hcloses
  have hdone := hcloses.move .returns
  refine ⟨p, _, _, hdone, ?_, (staysClosed_iff hdone main).2 ?_⟩
  · rw [Bool.eq_false_iff, ne_eq, contains_noteClosed]
    exact fun h => h.1 rfl
  · -- no refresh stores after the closing
    rintro ⟨before, during, q, after, h, -, between, later, rfl, -⟩
    have hsub : [Event.closed main, .refreshed main q].Sublist
        (before ++ .read main :: (between ++ .closed main :: later) ++
          .refreshed main q :: after) := by
      refine @List.Sublist.append _ [Event.closed main] _ _ _ ?_ (by simp)
      simp
    rw [← h] at hsub
    simp [List.cons_sublist_cons'] at hsub

/-- Closed between the two, the entry file has a graph again. -/
theorem not_keepsClosed : ¬ KeepsClosed config site := by
  intro h
  obtain ⟨p, s, current, result, -, s₁, -, hrun, ⟨haffected, hupdate⟩, -⟩ := exists_read
  have hcloses := hrun.move (.closes main)
  rw [haffected] at hcloses
  have hbuilt := (hcloses.move .returns).move (.updates hupdate)
  obtain ⟨g, hg⟩ := hbuilt.exists_graph_of_settles
  have hopen := (h _ _ (hbuilt.move .settles) main).graph rfl rfl g hg
  obtain ⟨hworkspace, -, -⟩ := exists_rebuilt (hrun.filed.read main current rfl) hupdate
  rw [workspace_store, hworkspace, contains_noteClosed] at hopen
  exact hopen.1 rfl

end Sample

end ModuleGraph
