import ModuleGraph.Graph.Discovery
import ModuleGraph.Proofs.Asking

/-!
# What looking at a declaration comes to

A build threads one state through everything it looks at, but what it finds out
about a declaration does not depend on when it looks. Two functions say so
without the state. `fetch` is the file of a URL: a failed reading is remembered,
so that the second answer is the first one again. `verdict` is what a
declaration comes to: what the ledger at the start of the build makes of its
reference, and then what is fetched.

The lemmas of this file say of each step of a build that it gives what these
functions give, and what it leaves unchanged.
-/

namespace ModuleGraph

/-- What looking at a declaration comes to. -/
inductive Verdict where
  | resolved (target : Url)
  | failed (failure : Failure)
  /-- The module of this reference waits to be restored. -/
  | pending (reference : Reference)
  deriving DecidableEq

namespace Verdict

/-- The file that the declaration leads to. -/
def target? : Verdict → Option Url
  | resolved target => some target
  | _ => none

/-- The failure that the declaration has. -/
def failure? : Verdict → Option Failure
  | resolved _ => none
  | failed f => some f
  | pending r => some (.restoreRequired r.qualified)

/-- The declaration's module waits to be restored. -/
def isPending : Verdict → Bool
  | pending _ => true
  | _ => false

theorem target?_eq_some_iff {v : Verdict} {t : Url} : v.target? = some t ↔ v = .resolved t := by
  cases v <;> simp [target?]

theorem isPending_iff {v : Verdict} : v.isPending = true ↔ ∃ r, v = .pending r := by
  cases v <;> simp [isPending]

end Verdict

/-- What outcomes hold of one declaration is this verdict, or nothing. -/
structure Outcomes.Shows (o : Outcomes) (id : DeclarationId) (v : Option Verdict) : Prop where
  resolution? : o.resolution? id = v.bind Verdict.target?
  failure? : o.failure? id = v.bind Verdict.failure?
  isPending : o.isPending id = v.any Verdict.isPending

/-- The outcomes with the verdict on one more declaration. -/
def Outcomes.record (o : Outcomes) (id : DeclarationId) : Verdict → Outcomes
  | .resolved target => o.resolve id target
  | .failed f => o.fail id f
  | .pending r => o.await id r

/-- What is recorded is shown, and nothing else changes. -/
theorem Outcomes.shows_record {o : Outcomes} {id k : DeclarationId} {v : Verdict}
    {w : Option Verdict} (hid : o.isPending id = false) (hk : o.Shows k w) :
    (o.record id v).Shows k (if id = k then some v else w) := by
  cases v with
  | resolved t =>
    constructor
    · rw [record, resolution?_resolve, hk.resolution?]
      split <;> rfl
    · rw [record, failure?_resolve, hk.failure?]
      split <;> rfl
    · rw [record, isPending_resolve]
      split
      · next h => rw [← h, hid]; rfl
      · exact hk.isPending
  | failed f =>
    constructor
    · rw [record, resolution?_fail, hk.resolution?]
      split <;> rfl
    · rw [record, failure?_fail, hk.failure?]
      split <;> rfl
    · rw [record, isPending_fail]
      split
      · next h => rw [← h, hid]; rfl
      · exact hk.isPending
  | pending r =>
    constructor
    · rw [record, resolution?_await, hk.resolution?]
      split <;> rfl
    · rw [record, failure?_await, hk.failure?]
      split <;> rfl
    · rw [record, isPending_await, hk.isPending]
      split
      · next h => simp [h, Verdict.isPending]
      · next h => simp [h]

namespace Discovery

variable {σ : Type} {c : Context σ} {s : Discovery} {l : Ledger} {u : Url} {d : Declaration}
  {f : SourceFile}

/-- The file of a URL in a build. -/
def Context.fetch (c : Context σ) (uri : Url) : Except Failure SourceFile :=
  match c.workspace[uri]?, c.prior.files[uri]? with
  | some file, _ => .ok file
  | none, some file => .ok file
  | none, none =>
    match c.setting.read c.world uri with
    | .ok text => .ok (.parse uri text)
    | .error e => .error (.fileRead uri.displayPath e.message)

theorem uri_of_fetch (h : c.fetch u = .ok f) : f.uri = u := by
  rw [Context.fetch] at h
  split at h
  · next hw => cases h; exact FileMap.uri_of_getElem? hw
  · next hp => cases h; exact FileMap.uri_of_getElem? hp
  · split at h
    · cases h; rfl
    · cases h

/-- What looking at a declaration comes to in a build that starts with a ledger. -/
def Context.verdict (c : Context σ) (l : Ledger) (d : Declaration) : Verdict :=
  match c.setting.routes.statusIn c.world l d with
  | .failed f => .failed f
  | .needsRestore r =>
    if c.prior.attempted d.id then .failed (restoreOutcome c l d.id r) else .pending r
  | .available =>
    match c.setting.routes.locateIn c.world l d.id.uri d with
    | .error f => .failed f
    | .ok target =>
      match c.fetch target with
      | .ok _ => .resolved target
      | .error f => .failed f

theorem verdict_eq_resolved_iff {t : Url} : c.verdict l d = .resolved t ↔
    c.setting.routes.statusIn c.world l d = .available ∧
      c.setting.routes.locateIn c.world l d.id.uri d = .ok t ∧ ∃ f, c.fetch t = .ok f := by
  rw [Context.verdict]
  cases c.setting.routes.statusIn c.world l d with
  | failed f => simp
  | needsRestore r =>
    dsimp only
    split <;> simp
  | available =>
    cases c.setting.routes.locateIn c.world l d.id.uri d with
    | error f => simp
    | ok target =>
      dsimp only
      cases hf : c.fetch target with
      | error f =>
        refine iff_of_false nofun ?_
        rintro ⟨-, ht, f', hf'⟩
        cases ht
        rw [hf] at hf'
        cases hf'
      | ok f =>
        constructor
        · intro h
          cases h
          exact ⟨rfl, rfl, f, hf⟩
        · rintro ⟨-, ht, -⟩
          cases ht
          rfl

theorem fetch_of_verdict {t : Url} (h : c.verdict l d = .resolved t) :
    ∃ f, c.fetch t = .ok f :=
  (verdict_eq_resolved_iff.1 h).2.2

/-- What waits needs a restore, and no restore has been tried for it. -/
theorem needsRestore_of_verdict {r : Reference} (h : c.verdict l d = .pending r) :
    c.setting.routes.statusIn c.world l d = .needsRestore r ∧
      c.prior.attempted d.id = false := by
  rw [Context.verdict] at h
  split at h
  · cases h
  · next hs =>
    split at h
    · cases h
    · next ha =>
      cases h
      exact ⟨hs, Bool.eq_false_iff.2 ha⟩
  · split at h
    · cases h
    · split at h <;> cases h

/-! ## Loading

A build remembers the files that it could not read. That is sound as long as
fetching them fails in the same way, which is all that is known of the memory. -/

/-- What is remembered as unreadable cannot be fetched. -/
def Sound (c : Context σ) (s : Discovery) : Prop :=
  ∀ (u : Url) (f : Failure), s.unreadable[u]? = some f → c.fetch u = .error f

theorem load_fst (hs : Sound c s) : (load c s u).1 = c.fetch u := by
  rw [load]
  split
  · next hw => rw [Context.fetch, hw]
  · next hw hp => rw [Context.fetch, hw, hp]
  · next hu => exact (hs u _ hu).symm
  · next hw hp _ =>
    rw [Context.fetch, hw, hp, readFile]
    cases c.setting.read c.world u <;> rfl

/-- What a step that only loads files may change: the files, the journal, and
what is remembered as unreadable. -/
structure Keeps (c : Context σ) (s s' : Discovery) : Prop where
  outcomes : s'.outcomes = s.outcomes
  references : s'.ledger.references = s.ledger.references
  failures : s'.ledger.failures = s.ledger.failures
  sound : Sound c s → Sound c s'

theorem Keeps.refl : Keeps c s s := ⟨rfl, rfl, rfl, id⟩

theorem readFile_keeps (hw : c.workspace[u]? = none) (hp : c.prior.files[u]? = none) :
    Keeps c s (readFile c s u).2 := by
  rw [readFile]
  split
  · exact ⟨rfl, rfl, rfl, id⟩
  · next e hr =>
    refine ⟨rfl, rfl, rfl, fun hs v f hv => ?_⟩
    rw [Std.ExtTreeMap.getElem?_insert] at hv
    split at hv
    · next huv =>
      cases hv
      rw [← Std.LawfulEqCmp.eq_of_compare huv, Context.fetch, hw, hp]
      simp only [hr]
    · exact hs v f hv

theorem load_keeps : Keeps c s (load c s u).2 := by
  rw [load]
  split
  · exact .refl
  · exact .refl
  · exact .refl
  · next hw hp _ => exact readFile_keeps hw hp

theorem files_load : (load c s u).2.files = s.files := by
  rw [load]
  split
  · rfl
  · rfl
  · rfl
  · rw [readFile]
    split <;> rfl

/-! ## Visiting

A visit gives a file only when the file is new in the graph, and after a visit
that does not fail the file is there. -/

/-- The files after a step that found a new file, or none. -/
def withNew (m : FileMap) : Option SourceFile → FileMap
  | none => m
  | some f => m.put f

/-- What a visit of a URL came to. -/
inductive Visited (c : Context σ) (s : Discovery) (u : Url) :
    Except Failure (Option SourceFile) × Discovery → Prop where
  | seen (h : s.files.contains u = true) : Visited c s u (.ok none, s)
  | new {f : SourceFile} {s' : Discovery} (h : s.files.contains u = false)
      (hf : c.fetch u = .ok f) (hfiles : s'.files = s.files.put f) (hk : Keeps c s s') :
      Visited c s u (.ok (some f), s')
  | failed {f : Failure} {s' : Discovery} (h : s.files.contains u = false)
      (hf : c.fetch u = .error f) (hfiles : s'.files = s.files) (hk : Keeps c s s') :
      Visited c s u (.error f, s')

theorem visit_visited (hs : Sound c s) : Visited c s u (visit c s u) := by
  have hfst := load_fst hs (u := u)
  have hfiles := files_load (c := c) (s := s) (u := u)
  have hk := load_keeps (c := c) (s := s) (u := u)
  rw [visit]
  split
  · next h => exact .seen h
  · next h =>
    rw [Bool.not_eq_true] at h
    split
    · next f s' hl =>
      rw [hl] at hfst hfiles hk
      exact .new h hfst.symm (congrArg (FileMap.put · f) hfiles)
        ⟨hk.outcomes, hk.references, hk.failures, hk.sound⟩
    · next f s' hl =>
      rw [hl] at hfst hfiles hk
      exact .failed h hfst.symm hfiles hk

/-! ## Looking at a declaration -/

/-- What one look at a declaration does: it records the verdict, writes the
reference down, and adds at most one file, which was not there before. -/
structure Looked (c : Context σ) (s : Discovery) (d : Declaration)
    (new : Option SourceFile) (s' : Discovery) : Prop where
  outcomes : s'.outcomes = s.outcomes.record d.id (c.verdict s.ledger d)
  files : s'.files = withNew s.files new
  fresh : ∀ f, new = some f → s.files[f.uri]? = none
  target : ∀ t, c.verdict s.ledger d = .resolved t → s'.files.contains t = true
  found : ∀ f, new = some f →
    c.verdict s.ledger d = .resolved f.uri ∧ c.fetch f.uri = .ok f
  references : s'.ledger.references = (c.setting.routes.reference s.ledger d).2.references
  failures : s'.ledger.failures = s.ledger.failures
  sound : Sound c s'

/-- A look that comes to a failure, or has to wait, leads to no file. -/
theorem Looked.of_no_target {s' : Discovery} {v : Verdict} (hv : c.verdict s.ledger d = v)
    (hn : v.target? = none) (hoc : s'.outcomes = s.outcomes.record d.id v)
    (hfiles : s'.files = s.files)
    (hrefs : s'.ledger.references = (c.setting.routes.reference s.ledger d).2.references)
    (hfails : s'.ledger.failures = s.ledger.failures) (hs : Sound c s') :
    Looked c s d none s' where
  outcomes := by rw [hoc, hv]
  files := hfiles
  fresh _ h := nomatch h
  target t ht := by
    rw [← hv, ht] at hn
    cases hn
  found _ h := nomatch h
  references := hrefs
  failures := hfails
  sound := hs

/-- A look that leads to a file of the graph adds none. -/
theorem Looked.of_seen {s' : Discovery} {t : Url}
    (hv : c.verdict s.ledger d = .resolved t) (hseen : s.files.contains t = true)
    (hoc : s'.outcomes = s.outcomes.resolve d.id t) (hfiles : s'.files = s.files)
    (hrefs : s'.ledger.references = (c.setting.routes.reference s.ledger d).2.references)
    (hfails : s'.ledger.failures = s.ledger.failures) (hs : Sound c s') :
    Looked c s d none s' where
  outcomes := by
    rw [hoc, hv]
    rfl
  files := hfiles
  fresh _ h := nomatch h
  target u hu := by
    rw [hv] at hu
    cases hu
    rw [hfiles, hseen]
  found _ h := nomatch h
  references := hrefs
  failures := hfails
  sound := hs

/-- A look that leads to another file adds that one. -/
theorem Looked.of_new {s' : Discovery} {t : Url}
    (hv : c.verdict s.ledger d = .resolved t) (hnew : s.files.contains t = false)
    (hfetch : c.fetch t = .ok f) (hoc : s'.outcomes = s.outcomes.resolve d.id t)
    (hfiles : s'.files = s.files.put f)
    (hrefs : s'.ledger.references = (c.setting.routes.reference s.ledger d).2.references)
    (hfails : s'.ledger.failures = s.ledger.failures) (hs : Sound c s') :
    Looked c s d (some f) s' := by
  obtain rfl := uri_of_fetch hfetch
  constructor
  · rw [hoc, hv]
    rfl
  · exact hfiles
  · rintro _ ⟨⟩
    simpa [FileMap.contains_eq_isSome] using hnew
  · intro u hu
    rw [hv] at hu
    cases hu
    exact FileMap.contains_iff.2 ⟨f, by rw [hfiles, FileMap.getElem?_put, if_pos rfl]⟩
  · rintro _ ⟨⟩
    exact ⟨hv, hfetch⟩
  · exact hrefs
  · exact hfails
  · exact hs

theorem Looked.old {new : Option SourceFile} {s' : Discovery} (h : Looked c s d new s')
    (hu : s.files[u]? = some f) : s'.files[u]? = some f := by
  rw [h.files]
  cases new with
  | none => exact hu
  | some g =>
    rw [withNew, FileMap.getElem?_put, if_neg]
    · exact hu
    · intro hg
      rw [← hg, h.fresh g rfl] at hu
      cases hu

theorem Looked.old_or_new {new : Option SourceFile} {s' : Discovery}
    (h : Looked c s d new s') (hu : s'.files[u]? = some f) :
    s.files[u]? = some f ∨ new = some f ∧ f.uri = u := by
  rw [h.files] at hu
  cases new with
  | none => exact .inl hu
  | some g =>
    rw [withNew, FileMap.getElem?_put] at hu
    split at hu
    · next hg => cases hu; exact .inr ⟨rfl, hg⟩
    · exact .inl hu

theorem Looked.new {s' : Discovery} (h : Looked c s d (some f) s') :
    s'.files[f.uri]? = some f := by
  rw [h.files, withNew, FileMap.getElem?_put, if_pos rfl]

theorem Looked.contains {new : Option SourceFile} {s' : Discovery} (h : Looked c s d new s')
    (hu : s.files.contains u = true) : s'.files.contains u = true := by
  obtain ⟨f, hf⟩ := FileMap.contains_iff.1 hu
  exact FileMap.contains_iff.2 ⟨f, h.old hf⟩

theorem Looked.size {new : Option SourceFile} {s' : Discovery} (h : Looked c s d new s') :
    s'.files.size = s.files.size + new.toList.length := by
  rw [h.files]
  cases new with
  | none => rfl
  | some g => exact FileMap.size_put (h.fresh g rfl)

/-- The files of a build are those that are fetched. -/
def Fetched (c : Context σ) (s : Discovery) : Prop :=
  ∀ (u : Url) (f : SourceFile), s.files[u]? = some f → c.fetch u = .ok f

theorem follow_looked (hs : Sound c s) (hf : Fetched c s) {l' : Ledger}
    (hrefs : l'.references = (c.setting.routes.reference s.ledger d).2.references)
    (hfails : l'.failures = s.ledger.failures)
    (hav : c.setting.routes.statusIn c.world s.ledger d = .available) :
    Looked c s d (follow c { s with ledger := l' } d.id.uri d).1
      (follow c { s with ledger := l' } d.id.uri d).2 := by
  have hasked := Routes.reference_of_asked hrefs
  have hloc : (c.setting.routes.locate c.world l' d.id.uri d).1 =
      c.setting.routes.locateIn c.world s.ledger d.id.uri d := by
    rw [Routes.locate_fst]
    exact Routes.locateIn_eq (by rw [← Routes.reference_fst, hasked]) hfails
  have hrefs' : (c.setting.routes.locate c.world l' d.id.uri d).2.references =
      (c.setting.routes.reference s.ledger d).2.references := by
    rw [Routes.references_locate, hasked, hrefs]
  have hfails' : (c.setting.routes.locate c.world l' d.id.uri d).2.failures =
      s.ledger.failures := by
    rw [Routes.failures_locate, hfails]
  rw [follow]
  generalize c.setting.routes.locate c.world l' d.id.uri d = answer at hloc hrefs' hfails' ⊢
  obtain ⟨target, l₂⟩ := answer
  simp only at hloc hrefs' hfails' ⊢
  cases target with
  | error f =>
    have hv : c.verdict s.ledger d = .failed f := by rw [Context.verdict, hav, ← hloc]
    exact .of_no_target hv rfl rfl rfl hrefs' hfails' hs
  | ok target =>
    have hvis := visit_visited (c := c) (s := { s with ledger := l₂ }) (u := target) hs
    dsimp only
    generalize visit c { s with ledger := l₂ } target = visited at hvis ⊢
    cases hvis with
    | seen h =>
      obtain ⟨f, hfile⟩ := FileMap.contains_iff.1 h
      have hv : c.verdict s.ledger d = .resolved target :=
        verdict_eq_resolved_iff.2 ⟨hav, hloc.symm, f, hf target f hfile⟩
      exact .of_seen hv h rfl rfl hrefs' hfails' hs
    | new h hfetch hfiles hk =>
      have hv : c.verdict s.ledger d = .resolved target :=
        verdict_eq_resolved_iff.2 ⟨hav, hloc.symm, _, hfetch⟩
      exact .of_new hv h hfetch (congrArg (Outcomes.resolve · d.id target) hk.outcomes) hfiles
        (hk.references.trans hrefs') (hk.failures.trans hfails') (hk.sound hs)
    | @failed f s' h hfetch hfiles hk =>
      have hv : c.verdict s.ledger d = .failed f := by
        rw [Context.verdict, hav, ← hloc]
        simp only [hfetch]
      exact .of_no_target hv rfl (congrArg (Outcomes.fail · d.id f) hk.outcomes) hfiles
        (hk.references.trans hrefs') (hk.failures.trans hfails') (hk.sound hs)

theorem evaluate_looked (hs : Sound c s) (hf : Fetched c s) :
    Looked c s d (evaluate c s d.id.uri d).1 (evaluate c s d.id.uri d).2 := by
  have hst := Routes.status_fst c.setting.routes c.world s.ledger d
  have hrefs := Routes.references_status c.setting.routes c.world s.ledger d
  have hfails := Routes.failures_status c.setting.routes c.world s.ledger d
  rw [evaluate]
  generalize c.setting.routes.status c.world s.ledger d = answer at hst hrefs hfails ⊢
  obtain ⟨status, l'⟩ := answer
  simp only at hst hrefs hfails ⊢
  cases status with
  | failed f =>
    have hv : c.verdict s.ledger d = .failed f := by rw [Context.verdict, ← hst]
    exact .of_no_target hv rfl rfl rfl hrefs hfails hs
  | needsRestore r =>
    have hl : restoreOutcome c l' d.id r = restoreOutcome c s.ledger d.id r := by
      simp only [restoreOutcome, Ledger.failure?, hfails]
    have hv : c.verdict s.ledger d =
        if c.prior.attempted d.id then .failed (restoreOutcome c l' d.id r)
        else .pending r := by
      rw [Context.verdict, ← hst, hl]
    dsimp only
    by_cases ha : c.prior.attempted d.id = true
    · rw [if_pos ha] at hv ⊢
      exact .of_no_target hv rfl rfl rfl hrefs hfails hs
    · rw [if_neg ha] at hv ⊢
      exact .of_no_target hv rfl rfl rfl hrefs hfails hs
  | available => exact follow_looked hs hf hrefs hfails hst.symm

end Discovery

end ModuleGraph
