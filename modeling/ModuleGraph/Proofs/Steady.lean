import Mathlib.Data.Set.Basic
import ModuleGraph.Proofs.Rounds

/-!
# Rounds in which nothing new is learned

What registries fetch they keep, failures that are remembered stay, and both are
of references that are written in the files that are open or can be read. A
round is steady when neither has grown. Then every declaration of the graph
stands as it did in the round before: what led to a file leads to it again, so
that no file is lost, and when no file is new either, the same declarations are
missing.
-/

namespace ModuleGraph

namespace Setting

open Discovery

variable {σ : Type} {setting : Setting σ} {ws : Workspace} {entry : Url} {site s s' : Site σ}
  {g g' : Graph} {i j k n : Nat} {id : DeclarationId} {d : Declaration} {l : Ledger}
  {r : Reference} {readable : List (Url × String)} {stock : σ → Set Reference}

/-! ## What there is to be found -/

/-- The world is one that restores lead to. -/
def Later (setting : Setting σ) (w w' : σ) : Prop :=
  ∃ batch, setting.routes.Grown batch w w'

theorem Later.refl {w : σ} : setting.Later w w := ⟨[], .refl⟩

theorem Later.trans {w w' w'' : σ} (h : setting.Later w w') (h' : setting.Later w' w'') :
    setting.Later w w'' := by
  obtain ⟨batch, h⟩ := h
  obtain ⟨batch', h'⟩ := h'
  exact ⟨batch ++ batch', (h.mono fun _ => List.mem_append_left _).trans
    (h'.mono fun _ => List.mem_append_right _)⟩

/-- However often something is restored, only these texts can be read. -/
def Reads (setting : Setting σ) (start : σ) (readable : List (Url × String)) : Prop :=
  ∀ w, setting.Later start w → ∀ u text, setting.read w u = .ok text → (u, text) ∈ readable

/-- The files that are open and those that can be read. -/
def sources (ws : Workspace) (readable : List (Url × String)) : List SourceFile :=
  ws.keys.filterMap (ws[·]?) ++ readable.map fun p => .parse p.1 p.2

/-- The declarations of all these files. -/
def Declared (ws : Workspace) (readable : List (Url × String)) (d : Declaration) : Prop :=
  ∃ f ∈ sources ws readable, d ∈ f.declarations

theorem mem_sources_of_fetch {w : σ} {prior : Prior} {u : Url} {f : SourceFile}
    (hread : setting.Reads site.world readable) (hw : setting.Later site.world w)
    (hprior : ∀ (u : Url) f, prior.files[u]? = some f → f ∈ sources ws readable)
    (h : Context.fetch ⟨setting, w, ws, prior⟩ u = .ok f) : f ∈ sources ws readable := by
  rw [Context.fetch] at h
  split at h
  · next hws =>
    cases h
    exact List.mem_append_left _
      (List.mem_filterMap.2 ⟨u, FileMap.mem_keys_iff.2 ⟨f, hws⟩, hws⟩)
  · next hp => cases h; exact hprior u f hp
  · split at h
    · next text htext =>
      cases h
      exact List.mem_append_right _ (List.mem_map.2 ⟨(u, text), hread w hw u text htext, rfl⟩)
    · cases h

/-- A round is in a world that restores lead to. -/
theorem Round.later (h : setting.Round ws entry site i g s) :
    setting.Later site.world s.world := by
  induction i generalizing g s with
  | zero =>
    obtain ⟨-, hw⟩ := h.found_first
    exact hw ▸ .refl
  | succ i ih =>
    obtain ⟨g₀, s₀, h₀⟩ := h.exists_of_le (Nat.le_succ i)
    obtain ⟨-, reported, s₁, hrestore, -, hw⟩ := h₀.found_next h
    obtain ⟨batch, hgrown, -⟩ := hrestore.fetched
    exact (ih h₀).trans (hw ▸ ⟨batch, hgrown⟩)

/-- The files of a round are among the sources. -/
theorem Round.mem_sources (hread : setting.Reads site.world readable)
    (h : setting.Round ws entry site i g s) :
    ∀ (u : Url) f, g.files[u]? = some f → f ∈ sources ws readable := by
  induction i generalizing g s with
  | zero =>
    intro u f hf
    refine mem_sources_of_fetch hread h.later (fun u f hf => ?_)
      (h.found_first.1.files_iff.1 hf).2
    rw [Prior.none, FileMap.getElem?_empty] at hf
    cases hf
  | succ i ih =>
    obtain ⟨g₀, s₀, h₀⟩ := h.exists_of_le (Nat.le_succ i)
    obtain ⟨-, reported, s₁, -, hfound, -⟩ := h₀.found_next h
    exact fun u f hf => mem_sources_of_fetch hread h.later (ih h₀) (hfound.files_iff.1 hf).2

theorem declared_of_declaration? (hfiles : ∀ (u : Url) f, g.files[u]? = some f →
    f ∈ sources ws readable) (h : g.declaration? id = some d) : Declared ws readable d := by
  obtain ⟨f, hf, hd⟩ := Option.bind_eq_some_iff.1 h
  exact ⟨f, hfiles _ f hf, SourceFile.mem_of_declaration? hd⟩

/-- Only references of declarations in the sources are ever written down. -/
theorem Round.writes (hread : setting.Reads site.world readable)
    (h : setting.Round ws entry site i g s) :
    site.ledger.Writes setting.routes (Declared ws readable) s.ledger := by
  induction i generalizing g s with
  | zero =>
    exact h.found_first.1.writes.mono fun d hd =>
      declared_of_declaration? (h.mem_sources hread) hd
  | succ i ih =>
    obtain ⟨g₀, s₀, h₀⟩ := h.exists_of_le (Nat.le_succ i)
    obtain ⟨-, reported, s₁, hrestore, hfound, -⟩ := h₀.found_next h
    have hpending : ∀ d ∈ g₀.pendingDeclarations, Declared ws readable d := by
      intro d hd
      exact declared_of_declaration? (h₀.mem_sources hread)
        (Graph.declaration?_of_mem_pendingDeclarations hd)
    exact ((ih h₀).trans (hrestore.writes.mono hpending)).trans
      (hfound.writes.mono fun d hd => declared_of_declaration? (h.mem_sources hread) hd)

/-- When nothing was written down before and no two sources have the same URL, a
declaration has the reference that it writes. -/
theorem Round.referenceIn_eq_read (hread : setting.Reads site.world readable)
    (hempty : site.ledger.references = ∅)
    (hurl : ∀ f ∈ sources ws readable, ∀ f' ∈ sources ws readable, f.uri = f'.uri → f = f')
    (h : setting.Round ws entry site i g s) (hd : g.declaration? id = some d) :
    setting.routes.referenceIn s.ledger d = setting.routes.read d := by
  obtain ⟨f, hf, hmem⟩ := declared_of_declaration? (h.mem_sources hread) hd
  rw [Routes.referenceIn]
  rcases h.writes hread d.id with heq | ⟨-, d', ⟨f', hf', hmem'⟩, hid, hnew⟩
  · rw [heq, hempty, Std.ExtTreeMap.getElem?_empty]
    rfl
  · have huri : f'.uri = f.uri := by
      rw [← SourceFile.id_uri_of_mem hmem', hid, SourceFile.id_uri_of_mem hmem]
    obtain rfl := hurl f' hf' f hf huri
    obtain rfl := SourceFile.eq_of_id_eq hmem' hmem hid
    rw [hnew]
    rfl

/-- The references that a ledger knows, and those that declarations of the sources write. -/
def references (setting : Setting σ) (l : Ledger) (ws : Workspace)
    (readable : List (Url × String)) : List Reference :=
  (l.references.toList.map (·.2) ++
    ((sources ws readable).flatMap SourceFile.declarations).map setting.routes.read).filterMap
      Except.toOption

theorem mem_references_of_writes
    (h : site.ledger.Writes setting.routes (Declared ws readable) l)
    (hr : l.references[id]? = some (.ok r)) :
    r ∈ setting.references site.ledger ws readable := by
  refine List.mem_filterMap.2 ⟨.ok r, ?_, rfl⟩
  rcases h.old_or_read hr with hold | ⟨d, ⟨f, hf, hd⟩, -, hread⟩
  · exact List.mem_append_left _
      (List.mem_map.2 ⟨(id, .ok r), Std.ExtTreeMap.mem_toList_iff_getElem?_eq_some.2 hold, rfl⟩)
  · exact List.mem_append_right _
      (List.mem_map.2 ⟨d, List.mem_flatMap.2 ⟨f, hf, hd⟩, hread⟩)

/-! ## What registries go by -/

/-- Readers and registries answer the same in both worlds. -/
structure SameAnswers (setting : Setting σ) (w w' : σ) : Prop where
  read : ∀ u, setting.read w u = setting.read w' u
  restoreRequired : ∀ s registry, setting.routes.registry? s = some registry → ∀ r,
    registry.restoreRequired w r = registry.restoreRequired w' r
  entryPoint : ∀ s registry, setting.routes.registry? s = some registry → ∀ parent r,
    registry.entryPoint w parent r = registry.entryPoint w' parent r

/-- All answers go by what has been made available. Restores add to it, and only
what they are asked for, in this spelling or in the canonical one. -/
structure Stocked (setting : Setting σ) (start : σ) (stock : σ → Set Reference) : Prop where
  answers : ∀ w w', setting.Later start w → setting.Later start w' → stock w = stock w' →
    setting.SameAnswers w w'
  keeps : ∀ w s registry rs, setting.Later start w → setting.routes.registry? s = some registry →
    stock w ⊆ stock (registry.restore w rs).2
  adds : ∀ w s registry rs, setting.Later start w → setting.routes.registry? s = some registry →
    ∀ x ∈ stock (registry.restore w rs).2, x ∈ stock w ∨ ∃ r ∈ rs, x = r ∨ x = r.canonical

theorem Stocked.grown {w w' : σ} {batch : List Reference} (h : setting.Stocked site.world stock)
    (hw : setting.Later site.world w) (hg : setting.routes.Grown batch w w') :
    stock w ⊆ stock w' ∧
      ∀ x ∈ stock w', x ∈ stock w ∨ ∃ r ∈ batch, x = r ∨ x = r.canonical := by
  induction hg with
  | refl => exact ⟨fun _ => id, fun x => .inl⟩
  | @restore w' s registry rs hg hreg hrs ih =>
    have hw' := hw.trans ⟨batch, hg⟩
    refine ⟨ih.1.trans (h.keeps w' s registry rs hw' hreg), fun x hx => ?_⟩
    rcases h.adds w' s registry rs hw' hreg x hx with hx | ⟨r, hr, hxr⟩
    · exact ih.2 x hx
    · exact .inr ⟨r, hrs r hr, hxr⟩

/-- References and their canonical forms. -/
def spellings (rs : List Reference) : List Reference :=
  rs ++ rs.map Reference.canonical

/-- From one round to the next the stock grows, by known references. -/
theorem Round.stock_next (hst : setting.Stocked site.world stock)
    (hread : setting.Reads site.world readable) (h : setting.Round ws entry site i g s)
    (h' : setting.Round ws entry site (i + 1) g' s') :
    stock s.world ⊆ stock s'.world ∧ ∀ x ∈ stock s'.world, x ∈ stock s.world ∨
      x ∈ spellings (setting.references site.ledger ws readable) := by
  obtain ⟨-, reported, s₁, hrestore, hfound, hw⟩ := h.found_next h'
  obtain ⟨batch, hgrown, hbatch⟩ := hrestore.fetched
  have hstock := hst.grown h.later hgrown
  rw [hw]
  refine ⟨hstock.1, fun x hx => (hstock.2 x hx).imp_right ?_⟩
  rintro ⟨r, hr, hx⟩
  obtain ⟨id, hid⟩ := hbatch r hr
  have hknown := mem_references_of_writes (h'.writes hread) (hfound.writes.keeps hid)
  rcases hx with rfl | rfl
  · exact List.mem_append_left _ hknown
  · exact List.mem_append_right _ (List.mem_map_of_mem hknown)

theorem Round.failure?_next (h : setting.Round ws entry site i g s)
    (h' : setting.Round ws entry site (i + 1) g' s') {f : Failure}
    (hf : s.ledger.failure? r = some f) : s'.ledger.failure? r = some f := by
  obtain ⟨-, reported, s₁, hrestore, hfound, -⟩ := h.found_next h'
  rw [hfound.failure?_eq]
  exact hrestore.keeps r f hf

/-! ## Steady rounds -/

/-- From one site to the other, nothing that an answer goes by has changed. -/
structure Steady (stock : σ → Set Reference) (known : List Reference) (s s' : Site σ) :
    Prop where
  stock : stock s'.world = stock s.world
  failure? : ∀ r ∈ known, s'.ledger.failure? r = s.ledger.failure? r

theorem Found.reference_written {prior : Prior} (h : setting.Found ws entry prior l g s)
    (hd : g.declaration? d.id = some d) :
    s.ledger.references[d.id]? = some (setting.routes.referenceIn l d) := by
  obtain ⟨sv, hs, rfl, hl, -⟩ := h
  rw [hl]
  exact hs.references d (declaration?_graph.1 hd).1

/-- What a later ledger and a world with the same stock make of a declaration is
what the site made of it. -/
structure Unchanged (setting : Setting σ) (s : Site σ) (w : σ) (l : Ledger) (d : Declaration) :
    Prop where
  status : setting.routes.statusIn w l d = setting.routes.statusIn s.world s.ledger d
  locate : ∀ parent, setting.routes.locateIn w l parent d =
    setting.routes.locateIn s.world s.ledger parent d

/-- While a graph is found, nothing changes for its declarations. -/
theorem Found.unchanged {prior : Prior} (h : setting.Found ws entry prior l g s)
    (hd : g.declaration? d.id = some d) : setting.Unchanged s s.world l d := by
  obtain ⟨sv, hs, rfl, hl, -⟩ := h
  have hdecl := (declaration?_graph.1 hd).1
  constructor
  · rw [hl]
    exact (hs.statusIn_eq hdecl).symm
  · intro parent
    rw [hl]
    exact (hs.locateIn_eq hdecl).symm

theorem unchanged_of_written {w : σ} {x : Except Failure Reference}
    (hw : setting.SameAnswers w s.world) (hs : s.ledger.references[d.id]? = some x)
    (hl : l.references[d.id]? = some x)
    (hf : ∀ r, x = .ok r → l.failure? r = s.ledger.failure? r) :
    setting.Unchanged s w l d := by
  have href : setting.routes.referenceIn l d = x := by rw [Routes.referenceIn, hl]; rfl
  have href' : setting.routes.referenceIn s.ledger d = x := by rw [Routes.referenceIn, hs]; rfl
  have hfail : ∀ r, setting.routes.referenceIn l d = .ok r →
      l.failure? r = s.ledger.failure? r := fun r hr => hf r (href ▸ hr)
  exact ⟨Routes.statusIn_congr (href.trans href'.symm) hfail hw.restoreRequired,
    fun parent => Routes.locateIn_congr (href.trans href'.symm) hfail
      fun s registry hreg => hw.entryPoint s registry hreg parent⟩

/-- From one round to the next no file is lost, if what led to files before the restore leads to
them afterwards. -/
theorem Round.files_kept (h : setting.Round ws entry site i g s)
    (h' : setting.Round ws entry site (i + 1) g' s')
    (hkept : ∀ d t, g.declaration? d.id = some d →
      setting.routes.statusIn s.world s.ledger d = .available →
      setting.routes.locateIn s.world s.ledger d.id.uri d = .ok t →
      setting.routes.statusIn (setting.routes.restore s g.pendingDeclarations).2.world
          (setting.routes.restore s g.pendingDeclarations).2.ledger d = .available ∧
        setting.routes.locateIn (setting.routes.restore s g.pendingDeclarations).2.world
          (setting.routes.restore s g.pendingDeclarations).2.ledger d.id.uri d = .ok t)
    {u : Url} {f : SourceFile} (hu : g.files[u]? = some f) : g'.files[u]? = some f := by
  obtain ⟨prior, l, hfound⟩ := h.found
  obtain ⟨-, hfound', hw⟩ := h.restored_next h'
  generalize setting.routes.restore s g.pendingDeclarations = restored at hkept hfound' hw
  have hfetch : ∀ (u : Url) f, g.files[u]? = some f →
      Context.fetch ⟨setting, s'.world, ws, .ofGraph g restored.1⟩ u = .ok f := by
    intro u f hu
    have hold := (hfound.files_iff.1 hu).2
    rw [Context.fetch] at hold ⊢
    dsimp only [Prior.ofGraph] at hold ⊢
    rw [hu]
    cases hws : ws[u]? with
    | none => rfl
    | some f' => rw [hws] at hold; exact hold
  have hreached : ∀ u, Reached ⟨setting, s.world, ws, prior⟩ l entry u →
      Reached ⟨setting, s'.world, ws, .ofGraph g restored.1⟩ restored.2.ledger entry u := by
    intro u hu
    induction hu with
    | entry hf => exact .entry (hfetch entry _ (hfound.files_iff.2 ⟨.entry hf, hf⟩))
    | @step u t f d hu hf hd ht ih =>
      have hfile : g.files[u]? = some f := hfound.files_iff.2 ⟨hu, hf⟩
      have hdecl := Graph.declaration?_of_mem hfile hd
      have hbefore := hfound.unchanged hdecl
      obtain ⟨hstatus, hlocate, f', hf'⟩ := verdict_eq_resolved_iff.1 ht
      have htarget : g.files[t]? = some f' :=
        hfound.files_iff.2 ⟨.step hu hf hd ht, hf'⟩
      have hafter := hkept d t hdecl (hbefore.status.symm.trans hstatus)
        ((hbefore.locate _).symm.trans hlocate)
      rw [← hw] at hafter
      exact .step ih (hfetch u f hfile) hd
        (verdict_eq_resolved_iff.2 ⟨hafter.1, hafter.2, f', hfetch t f' htarget⟩)
  exact hfound'.files_iff.2 ⟨hreached u (hfound.files_iff.1 hu).1, hfetch u f hu⟩

section Steady

variable (hst : setting.Stocked site.world stock) (hread : setting.Reads site.world readable)
  (h : setting.Round ws entry site i g s) (h' : setting.Round ws entry site (i + 1) g' s')
  (hsteady : Steady stock (setting.references site.ledger ws readable) s s')

include hst hread h h' hsteady

/-- In a steady round nothing changes for a declaration of the graph, neither
while the next one is found nor afterwards. -/
theorem Round.unchanged (hd : g.declaration? d.id = some d)
    (hl : ∀ x, s.ledger.references[d.id]? = some x → l.references[d.id]? = some x)
    (hf : ∀ r, l.failure? r = s'.ledger.failure? r) : setting.Unchanged s s'.world l d := by
  obtain ⟨prior, l₀, hfound⟩ := h.found
  have hwritten := hfound.reference_written hd
  refine unchanged_of_written (hst.answers _ _ h'.later h.later hsteady.stock) hwritten
    (hl _ hwritten) fun r hr => ?_
  rw [hf r]
  rw [hr] at hwritten
  exact hsteady.failure? r (mem_references_of_writes (h.writes hread) hwritten)

/-- In a steady round no file is lost. -/
theorem Round.files_next {u : Url} {f : SourceFile} (hu : g.files[u]? = some f) :
    g'.files[u]? = some f := by
  obtain ⟨-, hfound', hw⟩ := h.restored_next h'
  refine h.files_kept h' (fun d t hd hstatus hlocate => ?_) hu
  have hunchanged := h.unchanged hst hread h' hsteady hd
    (fun x => (Routes.restore_restores ..).writes.keeps) fun r => (hfound'.failure?_eq r).symm
  rw [← hw]
  exact ⟨hunchanged.status.trans hstatus, (hunchanged.locate _).trans hlocate⟩

/-- In a steady round with the same files the same declarations are missing. -/
theorem Round.missing_next_iff (hfiles : g'.files = g.files) :
    setting.Missing g' s' id ↔ setting.Missing g s id := by
  have hdecl : g'.declaration? id = g.declaration? id := by
    rw [Graph.declaration?, Graph.declaration?, hfiles]
  rw [Missing, Missing, hdecl]
  refine exists_congr fun d => exists_congr fun r => and_congr_right fun hd => ?_
  have hid : d.id = id := Graph.id_of_declaration? hd
  obtain ⟨-, reported, s₁, hrestore, hfound', hw⟩ := h.found_next h'
  have hkeeps : ∀ x, s.ledger.references[d.id]? = some x → s'.ledger.references[d.id]? = some x :=
    fun x hx => hfound'.writes.keeps (hrestore.writes.keeps hx)
  have hunchanged := h.unchanged hst hread h' hsteady (hid ▸ hd) hkeeps fun _ => rfl
  rw [Routes.status_fst, Routes.status_fst, hunchanged.status]

end Steady

end Setting

end ModuleGraph
