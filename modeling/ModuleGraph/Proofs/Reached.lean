import Mathlib.Data.List.Perm.Basic
import Mathlib.Data.List.Nodup
import ModuleGraph.Proofs.Verdict

/-!
# A build finds what can be reached

`Reached` says which files an entry file leads to: verdicts and fetched files,
no state and no order. This file shows that a build that ends has exactly these
files, and for every declaration in them the verdict on it.

The invariant speaks of declarations, not of files: some are done, some are
still to be looked at, together they are the declarations of all files found so
far, and no id occurs twice. One look moves a declaration from the second list
to the first and puts the declarations of the file it found, if any, in its
place. In which order the rest is looked at is nowhere needed.
-/

namespace ModuleGraph.Discovery

variable {σ : Type} {c : Context σ} {s : Discovery} {l : Ledger} {entry u : Url}
  {d : Declaration} {f : SourceFile} {done todo : List Declaration}

/-- The files that an entry file leads to. -/
inductive Reached (c : Context σ) (l : Ledger) (entry : Url) : Url → Prop where
  | entry {f : SourceFile} (h : c.fetch entry = .ok f) : Reached c l entry entry
  | step {u t : Url} {f : SourceFile} {d : Declaration} (hu : Reached c l entry u)
      (hf : c.fetch u = .ok f) (hd : d ∈ f.declarations) (ht : c.verdict l d = .resolved t) :
      Reached c l entry t

theorem Reached.fetch (h : Reached c l entry u) : ∃ f, c.fetch u = .ok f := by
  cases h with
  | entry h => exact ⟨_, h⟩
  | step _ _ _ ht => exact fetch_of_verdict ht

/-- The declaration among some that has an id. -/
def lookUp (ds : List Declaration) (id : DeclarationId) : Option Declaration :=
  ds.find? (·.id == id)

theorem lookUp_cons {ds : List Declaration} {id : DeclarationId} :
    lookUp (d :: ds) id = if d.id = id then some d else lookUp ds id := by
  rw [lookUp, lookUp, List.find?_cons]
  split
  · next h => rw [if_pos (by simpa using h)]
  · next h => rw [if_neg (by simpa using h)]

theorem lookUp_eq_none {ds : List Declaration} {id : DeclarationId}
    (h : ∀ d ∈ ds, d.id ≠ id) : lookUp ds id = none := by
  simpa [lookUp] using h

theorem lookUp_of_mem {ds : List Declaration} (hn : (ds.map (·.id)).Nodup) (hd : d ∈ ds) :
    lookUp ds d.id = some d := by
  induction ds with
  | nil => cases hd
  | cons e ds ih =>
    rw [lookUp_cons]
    rw [List.map_cons, List.nodup_cons] at hn
    rcases List.mem_cons.1 hd with rfl | hd
    · rw [if_pos rfl]
    · rw [if_neg, ih hn.2 hd]
      intro he
      exact hn.1 (he ▸ List.mem_map_of_mem hd)

theorem nodup_ids_perm {ds es : List Declaration} (hp : ds.Perm es)
    (h : (ds.map (·.id)).Nodup) : (es.map (·.id)).Nodup :=
  (hp.map Declaration.id).nodup_iff.1 h

/-- How far a build has come when some declarations are done and some are to be
looked at. -/
structure Progress (c : Context σ) (l : Ledger) (entry : Url) (done todo : List Declaration)
    (s : Discovery) : Prop where
  sound : Sound c s
  files : ∀ (u : Url) f, s.files[u]? = some f → Reached c l entry u ∧ c.fetch u = .ok f
  entry : s.files.contains entry = true
  covered : ∀ (u : Url) f, s.files[u]? = some f → ∀ d ∈ f.declarations, d ∈ done ∨ d ∈ todo
  sources : ∀ d, d ∈ done ∨ d ∈ todo → ∃ f : SourceFile,
    s.files[d.id.uri]? = some f ∧ d ∈ f.declarations
  nodup : ((done ++ todo).map (·.id)).Nodup
  shows : ∀ id, s.outcomes.Shows id ((lookUp done id).map (c.verdict l))
  targets : ∀ d ∈ done, ∀ t, c.verdict l d = .resolved t → s.files.contains t = true
  references : ∀ id, s.ledger.references[id]? =
    ((lookUp done id).map (c.setting.routes.referenceIn l)).or l.references[id]?
  failures : s.ledger.failures = l.failures

/-- The declarations that are looked at by `explore`, in order. -/
def explored (c : Context σ) : (budget : Nat) → List SourceFile → Discovery → List Declaration
  | _, [], _ => []
  | 0, _ :: _, _ => []
  | budget + 1, file :: rest, s =>
    let (found, s) := evaluateAll c file.uri file.declarations [] s
    file.declarations ++ explored c budget (found ++ rest) s

namespace Progress

theorem perm {todo' : List Declaration} (h : Progress c l entry done todo s)
    (hp : todo.Perm todo') : Progress c l entry done todo' s where
  sound := h.sound
  files := h.files
  entry := h.entry
  covered u f hf d hd := (h.covered u f hf d hd).imp_right hp.mem_iff.1
  sources d hd := h.sources d (hd.imp_right hp.mem_iff.2)
  nodup := nodup_ids_perm (hp.append_left done) h.nodup
  shows := h.shows
  targets := h.targets
  references := h.references
  failures := h.failures

theorem fetched (h : Progress c l entry done todo s) : Fetched c s :=
  fun u f hf => (h.files u f hf).2

theorem not_done (h : Progress c l entry done (d :: todo) s) : lookUp done d.id = none := by
  refine lookUp_eq_none fun e he hid => ?_
  have := h.nodup
  rw [List.map_append, List.nodup_append] at this
  exact this.2.2 _ (List.mem_map_of_mem he) _ (List.mem_map_of_mem (List.mem_cons_self ..)) hid

theorem referenceIn_eq (h : Progress c l entry done (d :: todo) s) :
    c.setting.routes.referenceIn s.ledger d = c.setting.routes.referenceIn l d := by
  rw [Routes.referenceIn, Routes.referenceIn, h.references, h.not_done]
  rfl

/-- A declaration that is not done has the verdict that it had at the start. -/
theorem verdict_eq (h : Progress c l entry done (d :: todo) s) :
    c.verdict s.ledger d = c.verdict l d := by
  simp only [Context.verdict, Routes.statusIn_eq h.referenceIn_eq h.failures,
    Routes.locateIn_eq h.referenceIn_eq h.failures, restoreOutcome, Ledger.failure?,
    h.failures]

/-- No declaration of a file that is new has been heard of. -/
theorem fresh_ids (h : Progress c l entry done todo s) (hu : s.files[f.uri]? = none) :
    ∀ e, e ∈ done ∨ e ∈ todo → ∀ g ∈ f.declarations, e.id ≠ g.id := by
  intro e he g hg heq
  obtain ⟨f', hf', -⟩ := h.sources e he
  rw [heq, SourceFile.id_uri_of_mem hg, hu] at hf'
  cases hf'

theorem nodup_new (h : Progress c l entry done todo s) (hu : s.files[f.uri]? = none) :
    ((done ++ (f.declarations ++ todo)).map (·.id)).Nodup := by
  have hperm : (done ++ (f.declarations ++ todo)).Perm (f.declarations ++ (done ++ todo)) := by
    rw [← List.append_assoc, ← List.append_assoc]
    exact List.perm_append_comm.append_right todo
  refine nodup_ids_perm hperm.symm ?_
  rw [List.map_append, List.nodup_append]
  refine ⟨f.nodup_ids, h.nodup, fun a ha b hb hab => ?_⟩
  obtain ⟨g, hg, rfl⟩ := List.mem_map.1 ha
  obtain ⟨e, he, rfl⟩ := List.mem_map.1 hb
  exact h.fresh_ids hu e (List.mem_append.1 he) g hg hab.symm

/-- One look moves a declaration to those that are done. -/
theorem move (h : Progress c l entry done (d :: todo) s) {s' : Discovery}
    {new : Option SourceFile} (hl : Looked c s d new s') :
    Progress c l entry (d :: done) (new.toList.flatMap SourceFile.declarations ++ todo) s' where
  sound := hl.sound
  files u f hu := by
    rcases hl.old_or_new hu with hold | ⟨hnew, rfl⟩
    · exact h.files u f hold
    · obtain ⟨fd, hfd, hmem⟩ := h.sources d (.inr (List.mem_cons_self ..))
      obtain ⟨hverdict, hfetch⟩ := hl.found f hnew
      obtain ⟨hreach, hfd⟩ := h.files d.id.uri fd hfd
      exact ⟨.step hreach hfd hmem (h.verdict_eq ▸ hverdict), hfetch⟩
  entry := hl.contains h.entry
  covered u f hu e he := by
    rcases hl.old_or_new hu with hold | ⟨rfl, -⟩
    · rcases h.covered u f hold e he with hdone | htodo
      · exact .inl (List.mem_cons_of_mem d hdone)
      · rcases List.mem_cons.1 htodo with rfl | htodo
        · exact .inl (List.mem_cons_self ..)
        · exact .inr (List.mem_append_right _ htodo)
    · exact .inr (List.mem_append_left _ (by simpa using he))
  sources e he := by
    have hknown : ∀ e, e ∈ done ∨ e ∈ d :: todo → ∃ f : SourceFile,
        s'.files[e.id.uri]? = some f ∧ e ∈ f.declarations := fun e he =>
      (h.sources e he).imp fun f hf => ⟨hl.old hf.1, hf.2⟩
    rcases he with he | he
    · rcases List.mem_cons.1 he with rfl | he
      · exact hknown e (.inr (List.mem_cons_self ..))
      · exact hknown e (.inl he)
    · rcases List.mem_append.1 he with he | he
      · obtain ⟨g, hg, heg⟩ := List.mem_flatMap.1 he
        obtain rfl := Option.mem_toList.1 hg
        exact ⟨g, by rw [SourceFile.id_uri_of_mem heg]; exact hl.new, heg⟩
      · exact hknown e (.inr (List.mem_cons_of_mem d he))
  nodup := by
    cases new with
    | none => exact nodup_ids_perm List.perm_middle h.nodup
    | some g =>
      refine nodup_ids_perm ?_ (h.nodup_new (hl.fresh g rfl))
      simp only [Option.toList_some, List.flatMap_cons, List.flatMap_nil, List.append_nil,
        List.cons_append]
      exact ((List.perm_middle.append_left done).trans List.perm_middle)
  shows id := by
    rw [hl.outcomes, lookUp_cons, apply_ite (Option.map _), h.verdict_eq]
    refine Outcomes.shows_record ?_ (h.shows id)
    rw [(h.shows d.id).isPending, h.not_done]
    rfl
  targets e he t ht := by
    rcases List.mem_cons.1 he with rfl | he
    · exact hl.target t (h.verdict_eq ▸ ht)
    · exact hl.contains (h.targets e he t ht)
  references id := by
    rw [hl.references, Routes.references_reference, h.references, h.referenceIn_eq, lookUp_cons]
    split <;> rfl
  failures := hl.failures.trans h.failures

/-- Looking at the declarations of one file, while the files of `rest` wait.
Every file that it adds is one of those that it gives. -/
theorem afterFile (parent : Url) (ds : List Declaration) (found rest : List SourceFile)
    (hparent : ∀ d ∈ ds, d.id.uri = parent)
    (h : Progress c l entry done (ds ++ (found ++ rest).flatMap SourceFile.declarations) s) :
    Progress c l entry (ds.reverse ++ done)
      (((evaluateAll c parent ds found s).1 ++ rest).flatMap SourceFile.declarations)
      (evaluateAll c parent ds found s).2 ∧
    (evaluateAll c parent ds found s).2.files.size + found.length =
      s.files.size + (evaluateAll c parent ds found s).1.length := by
  induction ds generalizing found s done with
  | nil => exact ⟨h, rfl⟩
  | cons d ds ih =>
    have hd : d.id.uri = parent := hparent d (List.mem_cons_self ..)
    have hl := evaluate_looked h.sound h.fetched (d := d)
    rw [hd] at hl
    rw [evaluateAll]
    generalize evaluate c s parent d = step at hl ⊢
    have hmove : Progress c l entry (d :: done)
        (ds ++ (step.1.toList ++ found ++ rest).flatMap SourceFile.declarations) step.2 := by
      refine (h.move hl).perm ?_
      -- the declarations of a new file go before those of the files found earlier
      simp only [List.append_assoc, List.flatMap_append]
      exact List.perm_append_comm_assoc _ ds _
    obtain ⟨hmoved, hcount⟩ := ih (step.1.toList ++ found)
      (fun e he => hparent e (List.mem_cons_of_mem d he)) hmove
    rw [List.reverse_cons, List.append_assoc]
    refine ⟨hmoved, ?_⟩
    have := hl.size
    rw [List.length_append] at hcount
    dsimp only
    omega

/-- Looking at the declarations of files and of all that they lead to. What is done then is what
has been looked at. -/
theorem afterAll {budget : Nat} {files : List SourceFile} {s' : Discovery}
    (h : Progress c l entry done (files.flatMap SourceFile.declarations) s)
    (hs : explore c budget files s = some s') :
    Progress c l entry ((explored c budget files s).reverse ++ done) [] s' := by
  induction budget generalizing files s done with
  | zero =>
    cases files with
    | nil => cases hs; exact h
    | cons => cases hs
  | succ budget ih =>
    cases files with
    | nil => cases hs; exact h
    | cons file rest =>
      have h' := (h.afterFile file.uri file.declarations [] rest
        fun d hd => SourceFile.id_uri_of_mem hd).1
      rw [explored, List.reverse_append, List.append_assoc]
      exact ih h' hs

end Progress

/-! ## What a finished build has -/

/-- A declaration of one of the build's files. -/
def Declares (s : Discovery) (d : Declaration) : Prop :=
  ∃ f, s.files[d.id.uri]? = some f ∧ d ∈ f.declarations

/-- What a build that ends has found, said without how it went on. -/
structure Surveyed (c : Context σ) (l : Ledger) (entry : Url) (s : Discovery) : Prop where
  files : ∀ u f, s.files[u]? = some f ↔ Reached c l entry u ∧ c.fetch u = .ok f
  shows : ∀ d, Declares s d → s.outcomes.Shows d.id (some (c.verdict l d))
  blank : ∀ id, (∀ d, Declares s d → d.id ≠ id) → s.outcomes.Shows id none
  references : ∀ d, Declares s d →
    s.ledger.references[d.id]? = some (c.setting.routes.referenceIn l d)
  otherReferences : ∀ id, (∀ d, Declares s d → d.id ≠ id) →
    s.ledger.references[id]? = l.references[id]?
  failures : s.ledger.failures = l.failures

theorem Progress.contains_of_reached (h : Progress c l entry done [] s)
    (hu : Reached c l entry u) : s.files.contains u = true := by
  induction hu with
  | entry _ => exact h.entry
  | @step u t f d hu hf hd ht ih =>
    obtain ⟨g, hg⟩ := FileMap.contains_iff.1 ih
    have hfg : f = g := by
      have := h.fetched u g hg
      rw [hf] at this
      exact Except.ok.inj this
    rcases h.covered u g hg d (hfg ▸ hd) with hdone | htodo
    · exact h.targets d hdone t ht
    · cases htodo

theorem Progress.lookUp_declared (h : Progress c l entry done [] s) (hd : Declares s d) :
    lookUp done d.id = some d := by
  obtain ⟨f, hf, hd⟩ := hd
  refine lookUp_of_mem (by simpa using h.nodup) ?_
  exact (h.covered _ f hf d hd).resolve_right List.not_mem_nil

theorem Progress.lookUp_undeclared (h : Progress c l entry done [] s) {id : DeclarationId}
    (hid : ∀ d, Declares s d → d.id ≠ id) : lookUp done id = none :=
  lookUp_eq_none fun d hd => hid d (h.sources d (.inl hd))

theorem Progress.surveyed (h : Progress c l entry done [] s) : Surveyed c l entry s where
  files u f := by
    refine ⟨h.files u f, fun hu => ?_⟩
    obtain ⟨g, hg⟩ := FileMap.contains_iff.1 (h.contains_of_reached hu.1)
    have := h.fetched u g hg
    rw [hu.2] at this
    cases this
    exact hg
  shows d hd := by
    have := h.shows d.id
    rw [h.lookUp_declared hd] at this
    exact this
  blank id hid := by
    have := h.shows id
    rw [h.lookUp_undeclared hid] at this
    exact this
  references d hd := by
    rw [h.references, h.lookUp_declared hd]
    rfl
  otherReferences id hid := by
    rw [h.references, h.lookUp_undeclared hid]
    rfl
  failures := h.failures

/-- An id is that of a declaration, or nothing is known of it. -/
theorem Surveyed.declares_or_blank (h : Surveyed c l entry s) (id : DeclarationId) :
    (∃ d, Declares s d ∧ d.id = id) ∨ s.outcomes.Shows id none := by
  by_cases hid : ∃ d, Declares s d ∧ d.id = id
  · exact .inl hid
  · exact .inr (h.blank id fun d hd he => hid ⟨d, hd, he⟩)

theorem Surveyed.contains_iff (h : Surveyed c l entry s) :
    s.files.contains u = true ↔ Reached c l entry u := by
  rw [FileMap.contains_iff]
  constructor
  · rintro ⟨f, hf⟩
    exact ((h.files u f).1 hf).1
  · intro hu
    obtain ⟨f, hf⟩ := hu.fetch
    exact ⟨f, (h.files u f).2 ⟨hu, hf⟩⟩

theorem Surveyed.contains_target (h : Surveyed c l entry s) (hd : Declares s d) {t : Url}
    (ht : c.verdict l d = .resolved t) : s.files.contains t = true := by
  obtain ⟨f, hf, hmem⟩ := hd
  obtain ⟨hreach, hfetch⟩ := (h.files d.id.uri f).1 hf
  obtain ⟨g, hg⟩ := fetch_of_verdict ht
  exact FileMap.contains_iff.2 ⟨g, (h.files t g).2 ⟨.step hreach hfetch hmem ht, hg⟩⟩

end ModuleGraph.Discovery
