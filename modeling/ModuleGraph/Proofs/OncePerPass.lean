import ModuleGraph.Proofs.Journal

/-!
# Once in a pass

A build and a rebuild are one pass over the files: the entry file is loaded, and
declarations are looked at until none is left. This file says that a pass comes
to an end, that it looks at every declaration of every file it reaches once, and
that it reads no file twice (`once_per_pass`).

That nothing is looked at twice is in `Progress`, whose declarations have ids of
their own; `explored` lists them in the order in which they are done. That
nothing is read twice rests on where a file that was read has gone: into the
graph, or, when reading it failed, among those that are remembered as unreadable
(`WasRead`). Either way it is not loaded again.
-/

namespace ModuleGraph

/-- The file that the reader is asked for. -/
def Inquiry.uri? : Inquiry → Option Url
  | read uri => some uri
  | _ => none

namespace Ledger

variable {l l' l'' : Ledger} {us us' : List Url}

/-- Between the two ledgers, these files were read, the last one first. -/
def Reads (l l' : Ledger) (us : List Url) : Prop :=
  ∃ later, l'.journal = later ++ l.journal ∧ later.filterMap Inquiry.uri? = us

theorem Notes.reads (h : Notes (·.uri? = none) l l') : l.Reads l' [] := by
  obtain ⟨later, heq, hall⟩ := h
  exact ⟨later, heq, List.filterMap_eq_nil_iff.2 hall⟩

theorem reads_note (l : Ledger) (u : Url) : l.Reads (l.note (.read u)) [u] :=
  ⟨[.read u], rfl, rfl⟩

theorem Reads.trans (h : l.Reads l' us) (h' : l'.Reads l'' us') : l.Reads l'' (us' ++ us) := by
  obtain ⟨later, heq, rfl⟩ := h
  obtain ⟨later', heq', rfl⟩ := h'
  exact ⟨later' ++ later, by rw [heq', heq, List.append_assoc], List.filterMap_append⟩

end Ledger

namespace Discovery

variable {σ : Type} {c : Context σ} {s s' : Discovery} {l : Ledger} {entry u v parent : Url}
  {d : Declaration} {f : SourceFile} {ds : List Declaration} {found files : List SourceFile}
  {n : Nat}

/-! ## What is looked at -/

/-- Looks at declarations one after the other. -/
def evaluateEach (c : Context σ) (s : Discovery) (ds : List Declaration) : Discovery :=
  ds.foldl (fun s d => (evaluate c s d.id.uri d).2) s

theorem evaluateAll_snd (c : Context σ) (s : Discovery) (found : List SourceFile)
    (hparent : ∀ d ∈ ds, d.id.uri = parent) :
    (evaluateAll c parent ds found s).2 = evaluateEach c s ds := by
  induction ds generalizing found s with
  | nil => rfl
  | cons d ds ih =>
    have hrest : ∀ e ∈ ds, e.id.uri = parent := fun e he => hparent e (List.mem_cons_of_mem d he)
    rw [evaluateAll, ih _ _ hrest, ← hparent d (List.mem_cons_self ..)]
    rfl

theorem explore_eq (h : explore c n files s = some s') :
    s' = evaluateEach c s (explored c n files s) := by
  induction n generalizing files s with
  | zero =>
    cases files with
    | nil => exact (Option.some.inj h).symm
    | cons => cases h
  | succ n ih =>
    cases files with
    | nil => exact (Option.some.inj h).symm
    | cons file rest =>
      have hfile := evaluateAll_snd c s []
        (fun d (hd : d ∈ file.declarations) => SourceFile.id_uri_of_mem hd)
      rw [ih h, explored]
      simp only [evaluateEach, List.foldl_append] at hfile ⊢
      rw [hfile]

/-- The declarations that a pass looks at, in order. -/
def evaluated (c : Context σ) (n : Nat) (l : Ledger) (entry : Url) : List Declaration :=
  match load c (start l) entry with
  | (.error _, _) => []
  | (.ok f, s) => explored c n [f] { s with files := s.files.put f }

/-! ## What is read -/

/-- The file was read: it is neither open nor taken over, and it is now in the graph or remembered
as unreadable. -/
structure WasRead (c : Context σ) (s : Discovery) (u : Url) : Prop where
  notOpen : c.workspace[u]? = none
  notPrior : c.prior.files[u]? = none
  known : s.files.contains u = true ∨ s.unreadable.contains u = true

/-- No file was read twice. -/
def ReadsOnce (c : Context σ) (l : Ledger) (s : Discovery) : Prop :=
  ∃ us, l.Reads s.ledger us ∧ us.Nodup ∧ ∀ u ∈ us, WasRead c s u

theorem WasRead.mono (h : WasRead c s u)
    (hf : s.files.contains u = true → s'.files.contains u = true)
    (hu : s.unreadable.contains u = true → s'.unreadable.contains u = true) : WasRead c s' u :=
  ⟨h.notOpen, h.notPrior, h.known.imp hf hu⟩

/-- A step that reads nothing and forgets nothing. -/
theorem ReadsOnce.mono (h : ReadsOnce c l s) (hl : s.ledger.Notes (·.uri? = none) s'.ledger)
    (hf : ∀ u, s.files.contains u = true → s'.files.contains u = true)
    (hu : s'.unreadable = s.unreadable) : ReadsOnce c l s' := by
  obtain ⟨us, hreads, hnodup, hread⟩ := h
  exact ⟨us, hreads.trans hl.reads, hnodup, fun u hmem =>
    (hread u hmem).mono (hf u) fun hknown => hu ▸ hknown⟩

/-- A step that reads a file which had not been read. -/
theorem ReadsOnce.read (h : ReadsOnce c l s) (hl : s'.ledger = s.ledger.note (.read u))
    (hf : ∀ v, s.files.contains v = true → s'.files.contains v = true)
    (hun : ∀ v, s.unreadable.contains v = true → s'.unreadable.contains v = true)
    (hnew : s.files.contains u = false) (hnot : s.unreadable.contains u = false)
    (hu : WasRead c s' u) : ReadsOnce c l s' := by
  obtain ⟨us, hreads, hnodup, hread⟩ := h
  refine ⟨u :: us, hl ▸ hreads.trans (Ledger.reads_note _ u), List.nodup_cons.2 ⟨?_, hnodup⟩, ?_⟩
  · intro hmem
    rcases (hread u hmem).known with hknown | hknown
    · rw [hnew] at hknown
      cases hknown
    · rw [hnot] at hknown
      cases hknown
  · intro v hv
    rcases List.mem_cons.1 hv with rfl | hv
    · exact hu
    · exact (hread v hv).mono (hf v) (hun v)

theorem contains_put (hv : s.files.contains v = true) : (s.files.put f).contains v = true := by
  obtain ⟨g, hg⟩ := FileMap.contains_iff.1 hv
  rw [FileMap.contains_eq_isSome, FileMap.getElem?_put]
  split
  · rfl
  · rw [hg]; rfl

theorem contains_put_self (huri : f.uri = u) : (s.files.put f).contains u = true := by
  rw [FileMap.contains_eq_isSome, FileMap.getElem?_put, if_pos huri]
  rfl

/-- A load, with the file put into the graph when there is one. -/
def putLoaded : Except Failure SourceFile × Discovery → Discovery
  | (.ok f, s) => { s with files := s.files.put f }
  | (.error _, s) => s

theorem ReadsOnce.load (h : ReadsOnce c l s) (hnew : s.files.contains u = false) :
    ReadsOnce c l (putLoaded (load c s u)) := by
  rw [Discovery.load]
  split
  · exact h.mono .refl (fun v => contains_put) rfl
  · exact h.mono .refl (fun v => contains_put) rfl
  · exact h
  · next hw hp hun =>
    have hnot : s.unreadable.contains u = false := by
      rw [Std.ExtTreeMap.contains_eq_isSome_getElem?, hun]
      rfl
    rw [readFile]
    dsimp only
    split
    · exact h.read rfl (fun v => contains_put) (fun v => id) hnew hnot
        ⟨hw, hp, .inl (contains_put_self rfl)⟩
    · refine h.read rfl (fun v => id) (fun v hv => ?_) hnew hnot ⟨hw, hp, .inr ?_⟩
      · exact Std.ExtTreeMap.contains_insert.trans (by rw [hv, Bool.or_true])
      · exact Std.ExtTreeMap.contains_insert_self

theorem ReadsOnce.visit (h : ReadsOnce c l s) : ReadsOnce c l (visit c s u).2 := by
  rw [Discovery.visit]
  split
  · exact h
  · next hnew =>
    have hload := h.load (Bool.not_eq_true _ ▸ hnew) (u := u)
    generalize Discovery.load c s u = loaded at hload ⊢
    obtain ⟨_ | f, s'⟩ := loaded <;> exact hload

theorem ReadsOnce.follow (h : ReadsOnce c l s) : ReadsOnce c l (follow c s parent d).2 := by
  have hlocate : s.ledger.Notes (·.uri? = none)
      (c.setting.routes.locate c.world s.ledger parent d).2 := Routes.locate_notes fun _ _ _ => rfl
  rw [Discovery.follow]
  generalize c.setting.routes.locate c.world s.ledger parent d = located at hlocate ⊢
  obtain ⟨_ | target, l'⟩ := located
  · exact h.mono hlocate (fun v => id) rfl
  · have hlocated : ReadsOnce c l { s with ledger := l' } := h.mono hlocate (fun v => id) rfl
    have hvisit := hlocated.visit (u := target)
    dsimp only
    generalize Discovery.visit c { s with ledger := l' } target = visited at hvisit ⊢
    obtain ⟨_ | new, s'⟩ := visited <;> exact hvisit.mono .refl (fun v => id) rfl

theorem ReadsOnce.evaluate (h : ReadsOnce c l s) : ReadsOnce c l (evaluate c s parent d).2 := by
  have hstatus : s.ledger.Notes (·.uri? = none)
      (c.setting.routes.status c.world s.ledger d).2 := Routes.status_notes fun _ _ _ => rfl
  rw [Discovery.evaluate]
  generalize c.setting.routes.status c.world s.ledger d = asked at hstatus ⊢
  obtain ⟨status, l'⟩ := asked
  have hasked : ReadsOnce c l { s with ledger := l' } := h.mono hstatus (fun v => id) rfl
  cases status with
  | failed f => exact hasked.mono .refl (fun v => id) rfl
  | needsRestore r =>
    dsimp only
    split <;> exact hasked.mono .refl (fun v => id) rfl
  | available => exact hasked.follow

theorem ReadsOnce.evaluateEach (h : ReadsOnce c l s) (ds : List Declaration) :
    ReadsOnce c l (evaluateEach c s ds) := by
  induction ds generalizing s with
  | nil => exact h
  | cons d ds ih => exact ih h.evaluate

theorem readsOnce_start : ReadsOnce c l (start l) :=
  ⟨[], Ledger.Notes.refl.reads, .nil, nofun⟩

/-! ## Whole passes -/

/-- What is read is among finitely many files, and so is what is reached. -/
theorem Reached.mem {readable : List Url} (h : Reached c l entry u)
    (hread : ∀ u text, c.setting.read c.world u = .ok text → u ∈ readable) :
    u ∈ readable ++ (c.workspace.keys ++ c.prior.files.keys) := by
  obtain ⟨f, hf⟩ := h.fetch
  rw [Context.fetch] at hf
  split at hf
  · next hw =>
    exact List.mem_append_right _ (List.mem_append_left _ (FileMap.mem_keys_iff.2 ⟨_, hw⟩))
  · next hp =>
    exact List.mem_append_right _ (List.mem_append_right _ (FileMap.mem_keys_iff.2 ⟨_, hp⟩))
  · split at hf
    · next text htext => exact List.mem_append_left _ (hread u text htext)
    · cases hf

/-- A pass: what came of the entry file, and of looking at every declaration of every file that it
leads to, once. No file was read twice, and none that is open or taken over. -/
structure Pass (c : Context σ) (n : Nat) (l : Ledger) (entry : Url)
    (r : Except BuildError Graph) (l' : Ledger) : Prop where
  reads : ∃ us, l.Reads l' us ∧ us.Nodup ∧
    ∀ u ∈ us, c.workspace[u]? = none ∧ c.prior.files[u]? = none
  nodup : ((evaluated c n l entry).map (·.id)).Nodup
  mem_evaluated : ∀ d, d ∈ evaluated c n l entry ↔
    ∃ f, Reached c l entry d.id.uri ∧ c.fetch d.id.uri = .ok f ∧ d ∈ f.declarations
  result : match load c (start l) entry with
    | (.error e, s) => r = .error ⟨entry, e⟩ ∧ l' = s.ledger
    | (.ok f, s) =>
      let s := evaluateEach c { s with files := s.files.put f } (evaluated c n l entry)
      r = .ok (s.graph entry) ∧ l' = s.ledger

theorem ReadsOnce.exists_reads (h : ReadsOnce c l s) : ∃ us, l.Reads s.ledger us ∧ us.Nodup ∧
    ∀ u ∈ us, c.workspace[u]? = none ∧ c.prior.files[u]? = none := by
  obtain ⟨us, hreads, hnodup, hread⟩ := h
  exact ⟨us, hreads, hnodup, fun u hu => ⟨(hread u hu).notOpen, (hread u hu).notPrior⟩⟩

theorem Reached.fetch_entry (h : Reached c l entry u) : ∃ f, c.fetch entry = .ok f := by
  induction h with
  | entry h => exact ⟨_, h⟩
  | step _ _ _ _ ih => exact ih

/-- When nothing is left, the declarations of all files that are reached are done. -/
theorem Progress.mem_done_iff {done : List Declaration} (h : Progress c l entry done [] s) :
    d ∈ done ↔
      ∃ f, Reached c l entry d.id.uri ∧ c.fetch d.id.uri = .ok f ∧ d ∈ f.declarations := by
  constructor
  · intro hd
    obtain ⟨f, hf, hmem⟩ := h.sources d (.inl hd)
    exact ⟨f, (h.files _ f hf).1, (h.files _ f hf).2, hmem⟩
  · rintro ⟨f, hreached, hfetch, hmem⟩
    have hf := (h.surveyed.files _ f).2 ⟨hreached, hfetch⟩
    exact (h.covered _ f hf d hmem).resolve_right List.not_mem_nil

theorem survey_pass {r : Except BuildError Discovery × Ledger}
    (h : survey c n l entry = some r) : Pass c n l entry (r.1.map (·.graph entry)) r.2 := by
  have hfst := load_fst (start_sound (c := c) (l := l)) (u := entry)
  have hk := load_keeps (c := c) (s := start l) (u := entry)
  have hfiles := files_load (c := c) (s := start l) (u := entry)
  have hreads := readsOnce_start.load (c := c) (l := l) (u := entry) (by
    rw [start, FileMap.contains_eq_isSome, FileMap.getElem?_empty]
    rfl)
  have hevaluated : evaluated c n l entry = match load c (start l) entry with
      | (.error _, _) => []
      | (.ok f, s) => explored c n [f] { s with files := s.files.put f } := rfl
  rw [survey] at h
  rcases hload : load c (start l) entry with ⟨loaded, s⟩
  rw [hload] at h hfst hk hfiles hreads hevaluated
  cases loaded with
  | error e =>
    cases h
    refine ⟨hreads.exists_reads, ?_, fun d => ?_, ?_⟩
    · rw [hevaluated]
      exact .nil
    · rw [hevaluated]
      refine iff_of_false List.not_mem_nil ?_
      rintro ⟨f, hreached, -⟩
      obtain ⟨g, hg⟩ := hreached.fetch_entry
      rw [← hfst] at hg
      cases hg
    · rw [hload]
      exact ⟨rfl, rfl⟩
  | ok f =>
    obtain ⟨s', hs', hsome⟩ := Option.bind_eq_some_iff.1 h
    cases hsome
    have hdone := (begin_progress hfst.symm hk hfiles).afterAll hs'
    have heach := explore_eq hs'
    dsimp only at hevaluated hdone
    rw [List.append_nil, ← hevaluated] at hdone
    rw [← hevaluated] at heach
    have hreads' := hreads.evaluateEach (evaluated c n l entry)
    refine ⟨?_, ?_, fun d => ?_, ?_⟩
    · rw [heach]
      exact hreads'.exists_reads
    · have hids := hdone.nodup
      rwa [List.append_nil, List.map_reverse, List.nodup_reverse] at hids
    · rw [← List.mem_reverse]
      exact hdone.mem_done_iff
    · rw [hload, heach]
      exact ⟨rfl, rfl⟩

end Discovery

namespace Setting

open Discovery

variable {σ : Type} {setting : Setting σ} {n : Nat} {site site' : Site σ} {ws : Workspace}
  {prior : Prior} {entry : Url} {readable : List Url}

theorem buildWith_pass (hread : ∀ u text, setting.read site.world u = .ok text → u ∈ readable)
    (hn : readable.length + ws.size + prior.files.size ≤ n) :
    ∃ r site', setting.buildWith n site ws prior entry = some (r, site') ∧
      Pass ⟨setting, site.world, ws, prior⟩ n site.ledger entry r site'.ledger := by
  have hlength : (readable ++ (ws.keys ++ prior.files.keys)).length ≤ n := by
    rwa [List.length_append, List.length_append, FileMap.length_keys, FileMap.length_keys,
      ← Nat.add_assoc]
  have hreached : ∀ u, Reached ⟨setting, site.world, ws, prior⟩ site.ledger entry u →
      u ∈ readable ++ (ws.keys ++ prior.files.keys) := fun u hu => hu.mem hread
  obtain ⟨⟨result, l'⟩, hsurvey⟩ := exists_survey _ hreached hlength
  refine ⟨_, ⟨site.world, l'⟩, ?_, survey_pass hsurvey⟩
  rw [buildWith_eq, hsurvey]
  rfl

/-- A build and a rebuild come to an end when only so many files can be read, whatever is open and
whatever is remembered. Each is one pass. -/
theorem once_per_pass
    (hread : ∀ u text, setting.read site.world u = .ok text → u ∈ readable) :
    (∀ ws entry n, readable.length + ws.size ≤ n →
      ∃ r site', setting.build n site ws entry = some (r, site') ∧
        Pass ⟨setting, site.world, ws, .none⟩ n site.ledger entry r site'.ledger) ∧
    ∀ ws g reported n, readable.length + ws.size + g.files.size ≤ n →
      ∃ r site', setting.rebuild n site ws g reported = some (r, site') ∧
        Pass ⟨setting, site.world, ws, .ofGraph g reported⟩ n site.ledger g.entry r
          site'.ledger :=
  ⟨fun _ _ _ hn => buildWith_pass hread hn, fun _ _ _ _ hn => buildWith_pass hread hn⟩

end Setting

namespace Sample

open Discovery

theorem readable_setting (u : Url) (text : String)
    (h : setting.read site.world u = .ok text) : u ∈ [main, part] := by
  simp only [setting] at h
  split at h
  · next hu => rw [hu]; exact List.mem_cons_self ..
  · split at h
    · next hu => rw [hu]; exact List.mem_cons_of_mem _ (List.mem_singleton_self _)
    · cases h

theorem once_per_pass_setting : ∃ r site', setting.build 2 site ∅ main = some (r, site') ∧
    Pass ⟨setting, site.world, ∅, .none⟩ 2 site.ledger main r site'.ledger :=
  (Setting.once_per_pass readable_setting).1 ∅ main 2 (by decide)

end Sample

end ModuleGraph
