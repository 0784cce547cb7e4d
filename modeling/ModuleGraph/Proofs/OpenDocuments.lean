import ModuleGraph.Proofs.OncePerPass
import ModuleGraph.Proofs.ServerRuns

/-!
# Open documents have a graph

A build can fail for one reason: its entry file cannot be had. The server builds
open documents only, whose text is in the workspace, so that none of its builds
fails, and what a failed build would leave behind is never seen. That it builds
open documents only is in turn because the graphs are those of open documents
(`Orderly`): they say which documents a change affects, and what a refresh that
comes late may still build.

Whether a build comes to an end at all is another question, as modules can go on
declaring others for ever. When there are only so many files to read it does, on
a budget that has room for them and for the open documents: the files of a graph
are always among these (`Contained`), also when they were read before documents
were closed.
-/

namespace ModuleGraph

namespace Server

variable {σ : Type} {c : Config σ} {site : Site σ} {s s' t : Server σ} {e u uri : Url}
  {text : String} {g current : Graph} {prior : Prior} {result : Except BuildError Graph}
  {published shown : Publication} {todo readable : List Url} {notices : List Url}

/-! ## The builds that a step runs -/

/-- Compiling documents comes to one of them, and this is the server then. -/
inductive ComesTo (c : Config σ) : List Url → Server σ → Url → Server σ → Prop where
  | here {s : Server σ} {e : Url} {todo : List Url} : ComesTo c (e :: todo) s e s
  | later {s s₁ t : Server σ} {e u : Url} {todo : List Url} {result : Except BuildError Graph}
      (hprepare : prepare c s e = some (result, s₁))
      (h : ComesTo c todo (s₁.store e result).2 u t) : ComesTo c (e :: todo) s u t

/-- A step from this server on builds the document, with this result. A document may be refreshed
at any time. -/
inductive Compiles (c : Config σ) (s : Server σ) (e : Url) (result : Except BuildError Graph) :
    Prop where
  | opens {t s' : Server σ} (uri : Url) (text : String)
      (h : ComesTo c ((s.noteOpened uri text).affected uri) (s.noteOpened uri text) e t)
      (hprepare : prepare c t e = some (result, s'))
  | closes {t s' : Server σ} (uri : Url)
      (h : ComesTo c ((s.noteClosed uri).affected uri) (s.noteClosed uri) e t)
      (hprepare : prepare c t e = some (result, s'))
  | refreshes {current : Graph} {s' : Server σ} (notices : List Url)
      (hcurrent : s.graphs[e]? = some current)
      (hupdate : update c { s with notices } current = some (result, s'))

/-- Compiling documents comes to open documents, and changes the text of none. -/
theorem ComesTo.contains (h : ComesTo c todo s e t)
    (hopen : ∀ u ∈ todo, s.workspace.contains u = true) :
    t.workspace = s.workspace ∧ s.workspace.contains e = true := by
  induction h with
  | here => exact ⟨rfl, hopen _ (List.mem_cons_self ..)⟩
  | later hprepare h ih =>
    obtain ⟨g, rfl, hprepared⟩ := prepared_of_prepare (hopen _ (List.mem_cons_self ..)) hprepare
    have hworkspace := hprepared.store.workspace
    obtain ⟨ht, he⟩ := ih fun u hu => by
      rw [hworkspace]
      exact hopen u (List.mem_cons_of_mem _ hu)
    rw [hworkspace] at ht he
    exact ⟨ht, he⟩

theorem ComesTo.ok (h : ComesTo c todo s e t)
    (hopen : ∀ u ∈ todo, s.workspace.contains u = true)
    (hprepare : prepare c t e = some (result, s')) : ∃ g, result = .ok g ∧ g.entry = e := by
  obtain ⟨hworkspace, he⟩ := h.contains hopen
  rw [← hworkspace] at he
  obtain ⟨g, rfl, hprepared⟩ := prepared_of_prepare he hprepare
  exact ⟨g, rfl, hprepared.entry⟩

/-- Every build that a step runs gives a graph. -/
theorem Compiles.ok (h : Compiles c s e result) (hs : Orderly c [] s) :
    ∃ g, result = .ok g ∧ g.entry = e := by
  cases h with
  | opens uri text h hprepare =>
    exact h.ok (contains_of_affected_opened uri text hs.opened) hprepare
  | closes uri h hprepare => exact h.ok (contains_of_affected_closed uri hs.opened) hprepare
  | refreshes notices hcurrent hupdate =>
    obtain ⟨rfl, hopen, -⟩ := hs.filed e _ hcurrent
    obtain ⟨⟨r, site⟩, hbuild, heq⟩ := Option.map_eq_some_iff.1 hupdate
    obtain ⟨rfl, -⟩ := Prod.mk.inj heq
    exact Setting.ok_of_contains hopen hbuild

/-! ## Steps come to an end -/

/-- When every build comes to an end, compiling does. -/
theorem exists_compileAll
    (h : ∀ e t, ComesTo c todo s e t → ∃ result s', prepare c t e = some (result, s')) :
    ∃ published s', compileAll c todo s = some (published, s') := by
  induction todo generalizing s with
  | nil => exact ⟨_, _, rfl⟩
  | cons e todo ih =>
    obtain ⟨result, s₁, hprepare⟩ := h e s .here
    obtain ⟨later, s', hlater⟩ := ih fun u t hu => h u t (.later hprepare hu)
    exact ⟨_, s', Option.bind_eq_some_iff.2
      ⟨_, hprepare, Option.bind_eq_some_iff.2 ⟨_, hlater, rfl⟩⟩⟩

/-- The files of the graphs are open or can be read, apart from those of graphs that are to be
built again. -/
def Contained (readable todo : List Url) (s : Server σ) : Prop :=
  ∀ (e : Url) g, s.graphs[e]? = some g → e ∈ todo ∨
    ∀ u, g.files.contains u = true → u ∈ readable ∨ s.workspace.contains u = true

theorem contained_start : Contained readable [] (start site) := by
  intro e g hg
  simp [start] at hg

theorem Contained.more (hs : Contained readable [] s) : Contained readable todo s :=
  fun e g hg => .inr ((hs e g hg).resolve_left List.not_mem_nil)

theorem Contained.noteOpened (hs : Contained readable [] s) :
    Contained readable [] (s.noteOpened uri text) := by
  intro e g hg
  refine .inr fun u hu => ?_
  exact ((hs e g hg).resolve_left List.not_mem_nil u hu).imp_right fun hopen =>
    contains_noteOpened.2 (.inr hopen)

/-- The file that is closed was in graphs that are to be built again only. -/
theorem Contained.noteClosed (hs : Contained readable [] s) :
    Contained readable ((s.noteClosed uri).affected uri) (s.noteClosed uri) := by
  intro e g hg
  by_cases huri : g.files.contains uri = true
  · exact .inl (mem_affected_closed hg huri)
  · refine .inr fun u hu => ?_
    have hne : u ≠ uri := fun heq => huri (heq ▸ hu)
    exact ((hs e g (of_getElem?_noteClosed hg).2).resolve_left List.not_mem_nil u hu).imp_right
      fun hopen => contains_noteClosed.2 ⟨hne, hopen⟩

theorem size_noteOpened_le (uri : Url) (text : String) :
    (s.noteOpened uri text).workspace.size ≤ s.workspace.size + 1 :=
  Std.ExtTreeMap.size_insert_le

theorem size_noteClosed_le (uri : Url) :
    (s.noteClosed uri).workspace.size ≤ s.workspace.size :=
  Std.ExtTreeMap.size_erase_le

/-! ### With finitely many files to read -/

section Readable

variable (hread : ∀ world u text, c.setting.read world u = .ok text → u ∈ readable)
include hread

/-- What a build reaches can be read, or is open, or is taken over. -/
theorem readable_or_open_of_reached {world : σ} {l : Ledger} {ws : Workspace}
    (hprior : ∀ u, prior.files.contains u = true → u ∈ readable ∨ ws.contains u = true)
    (hu : Discovery.Reached ⟨c.setting, world, ws, prior⟩ l e u) :
    u ∈ readable ∨ ws.contains u = true := by
  have hmem := hu.mem (hread _)
  simp only [List.mem_append, FileMap.mem_keys_iff, ← FileMap.contains_iff] at hmem
  rcases hmem with hmem | hmem | hmem
  · exact .inl hmem
  · exact .inr hmem
  · exact hprior u hmem

theorem Built.contained (h : Built c s e prior g s')
    (hprior : ∀ u, prior.files.contains u = true → u ∈ readable ∨ s.workspace.contains u = true)
    (hs : Contained readable (e :: todo) s) : Contained readable todo s' := by
  intro u g' hg'
  rw [h.workspace]
  rcases h.graph_cases hg' with ⟨rfl, rfl⟩ | ⟨hne, hold⟩
  · refine .inr fun v hv => ?_
    obtain ⟨sv, hsv, hg, -⟩ := h.found
    rw [hg, Discovery.files_graph] at hv
    obtain ⟨f, hf⟩ := FileMap.contains_iff.1 hv
    exact readable_or_open_of_reached hread hprior ((hsv.files v f).1 hf).1
  · exact (hs u g' hold).imp_left fun hmem => (List.mem_cons.1 hmem).resolve_left hne

theorem Contained.compileAll (hs : Contained readable todo s)
    (hopen : ∀ e ∈ todo, s.workspace.contains e = true)
    (h : compileAll c todo s = some (published, s')) : Contained readable [] s' :=
  compileAll_run (P := fun todo _ s => Contained readable todo s) []
    (fun _ hbuilt hs => hbuilt.contained hread (by simp [Prior.none, FileMap.contains_eq_isSome])
      hs) hopen h hs

theorem Emits.contained (h : Emits c s published s') (hs : Orderly c [] s)
    (hc : Contained readable [] s) : Contained readable [] s' := by
  cases h with
  | @opens _ uri text _ h =>
    rw [openDocument_eq] at h
    exact hc.noteOpened.more.compileAll hread (contains_of_affected_opened uri text hs.opened) h
  | @closes _ uri _ h =>
    obtain ⟨first, h⟩ := closeDocument_eq_some h
    exact hc.noteClosed.compileAll hread (contains_of_affected_closed uri hs.opened) h
  | works =>
    obtain ⟨hworkspace, hgraphs⟩ := untouched_work c s
    rw [Contained, hworkspace, hgraphs]
    exact hc
  | @refreshes _ document notices _ h =>
    have hnoticed : Contained readable [] { s with notices } := hc
    rcases hs.refresh_built h with ⟨-, -, rfl⟩ | ⟨current, g, hcurrent, hbuilt, -⟩
    · exact hnoticed
    · exact hbuilt.contained hread ((hc _ current hcurrent).resolve_left List.not_mem_nil)
        hnoticed.more
  | turns world => exact hc

theorem Runs.contained (h : Runs c (start site) shown s) : Contained readable [] s := by
  induction h with
  | refl => exact contained_start
  | step hrun he ih => exact he.contained hread (hrun.orderly (orderly_start site)) ih

/-- A build comes to an end on a budget for what can be read and what is open, when it takes over
nothing else. -/
theorem exists_buildWith_of_readable (prior : Prior) (e : Url)
    (hprior : ∀ u, prior.files.contains u = true → u ∈ readable ∨ s.workspace.contains u = true)
    (hn : readable.length + s.workspace.size ≤ c.budget) :
    ∃ result site, c.setting.buildWith c.budget s.site s.workspace prior e =
      some (result, site) := by
  have hlength : (readable ++ s.workspace.keys).length ≤ c.budget := by
    rwa [List.length_append, FileMap.length_keys]
  have hreached (u : Url)
      (hu : Discovery.Reached ⟨c.setting, s.site.world, s.workspace, prior⟩ s.site.ledger e u) :
      u ∈ readable ++ s.workspace.keys := by
    rw [List.mem_append, FileMap.mem_keys_iff, ← FileMap.contains_iff]
    exact readable_or_open_of_reached hread hprior hu
  obtain ⟨⟨result, site⟩, hbuild⟩ := Setting.exists_buildWith _ hreached hlength
  exact ⟨result, site, hbuild⟩

theorem exists_compileAll_of_readable (hopen : ∀ e ∈ todo, s.workspace.contains e = true)
    (hn : readable.length + s.workspace.size ≤ c.budget) :
    ∃ published s', compileAll c todo s = some (published, s') := by
  refine exists_compileAll fun e t h => ?_
  rw [← (h.contains hopen).1] at hn
  obtain ⟨result, site, hbuild⟩ := exists_buildWith_of_readable hread .none e
    (by simp [Prior.none, FileMap.contains_eq_isSome]) hn
  exact ⟨_, _, Option.map_eq_some_iff.2 ⟨_, hbuild, rfl⟩⟩

theorem exists_refresh (hc : Contained readable [] s)
    (hn : readable.length + s.workspace.size ≤ c.budget) (e : Url) :
    ∃ published s', refresh c s e = some (published, s') := by
  rw [refresh]
  cases hcurrent : s.graphs[e]? with
  | none => exact ⟨_, _, rfl⟩
  | some current =>
    obtain ⟨result, site, hbuild⟩ := exists_buildWith_of_readable hread
      (.ofGraph current ∅) current.entry
      ((hc e current hcurrent).resolve_left List.not_mem_nil) hn
    exact ⟨_, _, Option.bind_eq_some_iff.2
      ⟨_, Option.map_eq_some_iff.2 ⟨_, hbuild, rfl⟩, rfl⟩⟩

end Readable

/-! ## Documents and graphs -/

/-- The documents that have a graph are the open ones, and no step from here on has a build that
fails. -/
structure Attended (c : Config σ) (s : Server σ) : Prop where
  compiled : ∀ e : Url, s.graphs.contains e = true ↔ s.workspace.contains e = true
  succeeds : ∀ e result, Compiles c s e result → ∃ g, result = .ok g ∧ g.entry = e

/-- Every step from here on comes to an end. -/
structure Proceeds (c : Config σ) (s : Server σ) : Prop where
  opens : ∀ uri text, ∃ published s', openDocument c s uri text = some (published, s')
  closes : ∀ uri, ∃ published s', closeDocument c s uri = some (published, s')
  refreshes : ∀ notices e, ∃ published s',
    refresh c { s with notices } e = some (published, s')

theorem Orderly.attended (hs : Orderly c [] s) : Attended c s where
  compiled e := by
    rw [Std.ExtTreeMap.contains_eq_isSome_getElem?, Option.isSome_iff_exists]
    refine ⟨fun ⟨g, hg⟩ => hs.opened e g hg, fun hopen => ?_⟩
    exact (hs.built e hopen).resolve_left List.not_mem_nil
  succeeds _ _ h := h.ok hs

theorem Orderly.proceeds (hs : Orderly c [] s) (hc : Contained readable [] s)
    (hread : ∀ world u text, c.setting.read world u = .ok text → u ∈ readable)
    (hn : readable.length + s.workspace.size < c.budget) : Proceeds c s where
  opens uri text := by
    have hsize := size_noteOpened_le (s := s) uri text
    rw [openDocument_eq]
    exact exists_compileAll_of_readable hread (contains_of_affected_opened uri text hs.opened)
      (by omega)
  closes uri := by
    have hsize := size_noteClosed_le (s := s) uri
    obtain ⟨first, s', hcompile⟩ := exists_compileAll_of_readable hread
      (contains_of_affected_closed uri hs.opened) (by omega)
    exact ⟨_, s', Option.bind_eq_some_iff.2 ⟨_, hcompile, rfl⟩⟩
  refreshes notices e := exists_refresh (s := { s with notices }) hread hc (Nat.le_of_lt hn) e

/-- Whatever is opened, closed, restored and refreshed, the documents that have a graph are the
open ones and every build gives a graph. With room for the files that can be read and for the
open documents, every step comes to an end. -/
theorem open_iff_compiled (h : Runs c (start site) shown s) :
    Attended c s ∧ ∀ readable : List Url,
      (∀ world u text, c.setting.read world u = .ok text → u ∈ readable) →
        readable.length + s.workspace.size < c.budget → Proceeds c s := by
  have hs := h.orderly (orderly_start site)
  exact ⟨hs.attended, fun _ hread hn => hs.proceeds (h.contained hread) hread hn⟩

end Server

namespace Sample

open Server

/-- A server with room for one open document besides the two files. -/
def roomy : Server.Config Bool := ⟨setting, 4⟩

/-- One document is open and has a graph, and the server has room for the next step. -/
theorem open_iff_compiled_main : ∃ shown s, Runs roomy (start site) shown s ∧
    s.workspace.contains main = true ∧ Attended roomy s ∧ Proceeds roomy s := by
  have hcheck : ((openDocument roomy (start site) main mainText).any fun r =>
      r.2.workspace.contains main && r.2.workspace.size == 1) = true := by decide +kernel
  obtain ⟨⟨shown, s⟩, hopen, hcheck⟩ := (Option.any_eq_true _ _).1 hcheck
  rw [Bool.and_eq_true, beq_iff_eq] at hcheck
  have hrun : Runs roomy (start site) ([] ++ shown) s := .step .refl (.opens hopen)
  have hsize : [main, part].length + s.workspace.size < roomy.budget := by
    rw [hcheck.2]
    decide
  exact ⟨_, s, hrun, hcheck.1, (open_iff_compiled hrun).1,
    (open_iff_compiled hrun).2 [main, part] (fun _ => readable_setting) hsize⟩

end Sample

end ModuleGraph
