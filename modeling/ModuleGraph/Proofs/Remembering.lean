import ModuleGraph.Proofs.ServerRuns

/-!
# What a server remembers of its documents

References are written down by declaration ids, and an id has the digest of the
text that it was found in. When a document is opened or closed, all that is
written down of the file is forgotten, and a build writes down only what it finds
in the text that is open. One might think that nothing of an earlier text is left
then (`CurrentMemo`).

But the worker writes down what it restores, and a request may have been queued
for an earlier text. So there is a second way into the memo, and there are just
these two: of an open document, the ids in the memo are those of its text and
those that the worker has restored since the document was last opened
(`memo_iff`). Nothing takes them out before the document is opened again or
closed, and `not_currentMemo` is a run in which there are some.
-/

namespace ModuleGraph

namespace Server

open Discovery

variable {σ : Type} {c : Config σ} {site : Site σ} {x s s' : Server σ} {e u uri : Url}
  {text : String} {g : Graph} {prior : Prior} {published shown : Publication} {todo : List Url}
  {id : DeclarationId} {f : SourceFile} {d : Declaration} {ds : List Declaration}

/-! ## Builds -/

/-- If the file of the declaration is open, the declaration is of its text. -/
def OfOpenText (ws : Workspace) (d : Declaration) : Prop :=
  ∀ f, ws[d.id.uri]? = some f → d.id.digest = f.digest

/-- A build writes down nothing else. -/
theorem Built.writes_open (h : Built c s e prior g s') :
    s.site.ledger.Writes c.setting.routes (OfOpenText s.workspace) s'.site.ledger := by
  refine h.found.writes.mono fun d hd f hf => ?_
  obtain ⟨file, hfile, hdecl⟩ := Option.bind_eq_some_iff.1 hd
  have hfetch := (h.found.files_iff.1 hfile).2
  rw [Context.fetch, hf] at hfetch
  cases hfetch
  rw [SourceFile.declaration?] at hdecl
  split at hdecl
  · next hid => exact hid.2
  · cases hdecl

theorem writes_open_compileAll (hopen : ∀ e ∈ todo, s.workspace.contains e = true)
    (h : compileAll c todo s = some (published, s')) :
    s'.workspace = s.workspace ∧
      s.site.ledger.Writes c.setting.routes (OfOpenText s.workspace) s'.site.ledger :=
  compileAll_run (P := fun _ _ s' => s'.workspace = s.workspace ∧
      s.site.ledger.Writes c.setting.routes (OfOpenText s.workspace) s'.site.ledger) []
    (fun _ hbuilt ⟨hworkspace, hwrites⟩ => ⟨hbuilt.workspace.trans hworkspace,
      hwrites.trans (hworkspace ▸ hbuilt.writes_open)⟩) hopen h ⟨rfl, .of_eq rfl⟩

/-! ## The record of a run -/

/-- What bears on what is remembered of documents. -/
inductive Mark where
  | opened (uri : Url)
  | restored (batch : List Declaration)

/-- The states that a server comes to, with what has been opened and what the worker has
restored, the last first. -/
inductive Record (c : Config σ) (x : Server σ) : List Mark → Server σ → Prop where
  | refl : Record c x [] x
  | opens {log : List Mark} {s s' : Server σ} {uri : Url} {text : String}
      {published : Publication} (h : Record c x log s)
      (hopen : openDocument c s uri text = some (published, s')) :
      Record c x (.opened uri :: log) s'
  | closes {log : List Mark} {s s' : Server σ} {uri : Url} {published : Publication}
      (h : Record c x log s) (hclose : closeDocument c s uri = some (published, s')) :
      Record c x log s'
  | works {log : List Mark} {s : Server σ} (h : Record c x log s) (hqueue : s.queue ≠ []) :
      Record c x (.restored s.batch :: log) (work c s)
  | refreshes {log : List Mark} {s s' : Server σ} {document : Url} {notices : List Url}
      {published : Publication} (h : Record c x log s)
      (hrefresh : refresh c { s with notices } document = some (published, s')) :
      Record c x log s'
  | turns {log : List Mark} {s : Server σ} (h : Record c x log s) (world : σ) :
      Record c x log { s with site := { s.site with world := world } }

variable {log : List Mark}

theorem Record.runs (h : Record c x log s) : ∃ shown, Runs c x shown s := by
  induction h with
  | refl => exact ⟨[], .refl⟩
  | opens _ hopen ih => exact ih.imp' _ fun _ hruns => hruns.step (.opens hopen)
  | closes _ hclose ih => exact ih.imp' _ fun _ hruns => hruns.step (.closes hclose)
  | works _ _ ih => exact ih.imp' _ fun _ hruns => hruns.step .works
  | refreshes _ hrefresh ih => exact ih.imp' _ fun _ hruns => hruns.step (.refreshes hrefresh)
  | turns _ world ih => exact ih.imp' _ fun _ hruns => hruns.step (.turns world)

/-- Every run has its record. -/
theorem Runs.record (h : Runs c x shown s) : ∃ log, Record c x log s := by
  induction h with
  | refl => exact ⟨[], .refl⟩
  | @step s s' _ _ _ he ih =>
    obtain ⟨log, h⟩ := ih
    cases he with
    | opens hopen => exact ⟨_, h.opens hopen⟩
    | closes hclose => exact ⟨_, h.closes hclose⟩
    | refreshes hrefresh => exact ⟨_, h.refreshes hrefresh⟩
    | turns world => exact ⟨_, h.turns world⟩
    | works =>
      by_cases hqueue : s.queue = []
      · rw [work, hqueue]
        exact ⟨_, h⟩
      · exact ⟨_, h.works hqueue⟩

/-- The worker has restored the id since its document was last opened. -/
def RestoredSince (id : DeclarationId) : List Mark → Prop
  | [] => False
  | .opened uri :: earlier => id.uri ≠ uri ∧ RestoredSince id earlier
  | .restored batch :: earlier => (∃ d ∈ batch, d.id = id) ∨ RestoredSince id earlier

/-! ## What is remembered -/

theorem Record.orderly (h : Record c (start site) log s) : Orderly c [] s := by
  obtain ⟨shown, hruns⟩ := h.runs
  exact hruns.orderly (orderly_start site)

/-- Ids of other texts than the open ones are not touched by a build. -/
theorem getElem?_of_writes_open {l l' : Ledger} {ws : Workspace}
    (h : l.Writes c.setting.routes (OfOpenText ws) l') (hf : ws[id.uri]? = some f)
    (hstale : id.digest ≠ f.digest) : l'.references[id]? = l.references[id]? := by
  rcases h id with heq | ⟨-, d, hd, rfl, -⟩
  · exact heq
  · exact absurd (hd f hf) hstale

theorem mem_of_getElem?_eq {l l' : Ledger} (h : l'.references[id]? = l.references[id]?) :
    id ∈ l'.references ↔ id ∈ l.references := by
  rw [Std.ExtTreeMap.mem_iff_isSome_getElem?, h, Std.ExtTreeMap.mem_iff_isSome_getElem?]

theorem mem_forget_iff {l : Ledger} :
    id ∈ (l.forget uri).references ↔ id.uri ≠ uri ∧ id ∈ l.references := by
  rw [Std.ExtTreeMap.mem_iff_isSome_getElem?, Ledger.getElem?_forget,
    Std.ExtTreeMap.mem_iff_isSome_getElem?]
  split <;> simp_all

/-- A restore writes down the ids that it is given. -/
theorem mem_references_restore {routes : Routes σ} :
    id ∈ (routes.restore site ds).2.ledger.references ↔
      (∃ d ∈ ds, d.id = id) ∨ id ∈ site.ledger.references := by
  have hwrites := (Routes.restore_restores routes site ds).writes
  simp only [Std.ExtTreeMap.mem_iff_isSome_getElem?, Option.isSome_iff_exists]
  constructor
  · rintro ⟨y, hy⟩
    rcases hwrites.old_or_read hy with hold | ⟨d, hd, hid, -⟩
    · exact .inr ⟨y, hold⟩
    · exact .inl ⟨d, hd, hid⟩
  · rintro (⟨d, hd, rfl⟩ | ⟨y, hy⟩)
    · rw [Routes.references_restore]
      exact Routes.written_claims routes site.ledger hd
    · exact ⟨y, hwrites.keeps hy⟩

/-- Of an open document, what is remembered of other texts is what the worker has restored since
the document was opened. -/
theorem Record.memo_iff (h : Record c (start site) log s) (hf : s.workspace[id.uri]? = some f)
    (hstale : id.digest ≠ f.digest) :
    id ∈ s.site.ledger.references ↔ RestoredSince id log := by
  induction h with
  | refl => simp [start] at hf
  | @opens log s s' uri text published h hopen ih =>
    rw [openDocument_eq] at hopen
    obtain ⟨hworkspace, hwrites⟩ := writes_open_compileAll
      (contains_of_affected_opened uri text h.orderly.opened) hopen
    rw [hworkspace] at hf
    rw [mem_of_getElem?_eq (getElem?_of_writes_open hwrites hf hstale), RestoredSince]
    refine mem_forget_iff.trans (and_congr_right fun hne => ih ?_)
    have hput : (s.workspace.put (.parse uri text))[id.uri]? = some f := hf
    have huri : (SourceFile.parse uri text).uri ≠ id.uri := Ne.symm hne
    rwa [FileMap.getElem?_put, if_neg huri] at hput
  | @closes log s s' uri published h hclose ih =>
    obtain ⟨first, hclose⟩ := closeDocument_eq_some hclose
    obtain ⟨hworkspace, hwrites⟩ := writes_open_compileAll
      (contains_of_affected_closed uri h.orderly.opened) hclose
    rw [hworkspace] at hf
    rw [mem_of_getElem?_eq (getElem?_of_writes_open hwrites hf hstale)]
    have herase : (s.workspace.erase uri)[id.uri]? = some f := hf
    rw [FileMap.getElem?_erase] at herase
    split at herase
    · cases herase
    · next hne => exact mem_forget_iff.trans ((and_iff_right (Ne.symm hne)).trans (ih herase))
  | @works log s h hqueue ih =>
    have hsite : (work c s).site = (c.setting.routes.restore s.site s.batch).2 := by
      rw [work, if_neg fun hempty => hqueue (List.isEmpty_iff.1 hempty)]
      rfl
    rw [(untouched_work c s).1] at hf
    rw [hsite, mem_references_restore, RestoredSince]
    exact or_congr_right (ih hf)
  | @refreshes log s s' document notices published h hrefresh ih =>
    rcases h.orderly.refresh_built hrefresh with ⟨-, -, rfl⟩ | ⟨current, g, -, hbuilt, -⟩
    · exact ih hf
    · rw [hbuilt.workspace] at hf
      rw [mem_of_getElem?_eq (getElem?_of_writes_open hbuilt.writes_open hf hstale)]
      exact ih hf
  | turns _ _ ih => exact ih hf

/-- Of the document, if it is open, nothing is remembered but its current text. -/
def CurrentMemo (s : Server σ) (u : Url) : Prop :=
  ∀ f, s.workspace[u]? = some f → ∀ id ∈ s.site.ledger.references, id.uri = u →
    id.digest = f.digest

/-- That is so if the worker has restored nothing of another text since the document was opened,
and only then. -/
theorem currentMemo_iff (h : Record c (start site) log s) :
    s.CurrentMemo u ↔ ∀ f, s.workspace[u]? = some f → ∀ id, RestoredSince id log → id.uri = u →
      id.digest = f.digest := by
  refine forall_congr' fun f => forall_congr' fun hf => forall_congr' fun id => ?_
  by_cases hdigest : id.digest = f.digest
  · simp only [hdigest, implies_true]
  · constructor
    · rintro hcurrent hrestored rfl
      exact hcurrent ((h.memo_iff hf hdigest).2 hrestored) rfl
    · rintro hcurrent hmem rfl
      exact hcurrent ((h.memo_iff hf hdigest).1 hmem) rfl

end Server

namespace Sample

open Server

/-- A document is edited while its request is queued, and then the worker gets around to it. -/
def reworded : Option (Server Bool) := do
  let (_, s) ← openDocument config (start site) main partText
  let (_, s) ← openDocument config s main "module b 'nuget:b@1'"
  return work config s

theorem reachable_reworded {s : Server Bool} (h : reworded = some s) : Reachable config site s := by
  rw [reworded] at h
  obtain ⟨⟨_, s₁⟩, hopen, h⟩ := Option.bind_eq_some_iff.1 h
  obtain ⟨⟨_, s₂⟩, hedit, h⟩ := Option.bind_eq_some_iff.1 h
  obtain rfl := Option.some.inj h
  exact ((Relation.ReflTransGen.single (.opens hopen)).tail (.opens hedit)).tail .works

/-- The reference of the first text is remembered after the second one was opened. -/
theorem not_currentMemo : ¬ ∀ s, Reachable config site s → ∀ u, s.CurrentMemo u := by
  intro hall
  have hcheck : (reworded.any fun s => s.workspace[main]?.any fun f =>
      s.site.ledger.references.keys.any fun id =>
        id.uri == main && id.digest != f.digest) = true := by
    decide +kernel
  obtain ⟨s, hs, hcheck⟩ := (Option.any_eq_true _ _).1 hcheck
  obtain ⟨f, hf, hcheck⟩ := (Option.any_eq_true _ _).1 hcheck
  obtain ⟨id, hid, hcheck⟩ := List.any_eq_true.1 hcheck
  simp only [Bool.and_eq_true, beq_iff_eq, bne_iff_ne] at hcheck
  obtain ⟨huri, hstale⟩ := hcheck
  exact hstale (hall s (reachable_reworded hs) main f hf id (Std.ExtTreeMap.mem_keys.1 hid) huri)

/-- Everything that is remembered of a document with one text is current. -/
theorem currentMemo_unedited : ∃ log s f, Record config (start site) log s ∧
    s.workspace[main]? = some f ∧ s.site.ledger.references.isEmpty = false ∧
      s.CurrentMemo main := by
  have hcheck : (openDocument config (start site) main mainText).any (fun r =>
      !r.2.queue.isEmpty && r.2.workspace[main]?.any fun f =>
        r.2.batch.all (fun d => d.id.digest == f.digest) &&
          !(work config r.2).site.ledger.references.isEmpty) = true := by
    decide +kernel
  obtain ⟨⟨published, s⟩, hopen, hcheck⟩ := (Option.any_eq_true _ _).1 hcheck
  obtain ⟨hqueue, hcheck⟩ := Bool.and_eq_true_iff.1 hcheck
  obtain ⟨f, hf, hcheck⟩ := (Option.any_eq_true _ _).1 hcheck
  obtain ⟨hbatch, hmemo⟩ := Bool.and_eq_true_iff.1 hcheck
  have hrecord : Record config (start site) [.restored s.batch, .opened main] (work config s) :=
    .works (.opens .refl hopen) fun hnil => by simp [hnil] at hqueue
  have hfile : (work config s).workspace[main]? = some f := (untouched_work config s).1 ▸ hf
  refine ⟨_, _, f, hrecord, hfile, by simpa using hmemo, (currentMemo_iff hrecord).2 ?_⟩
  rintro f' hf' id (⟨d, hd, rfl⟩ | ⟨-, hnever⟩) -
  · obtain rfl := Option.some.inj (hfile.symm.trans hf')
    exact beq_iff_eq.1 (List.all_eq_true.1 hbatch d hd)
  · exact hnever.elim

end Sample

end ModuleGraph
