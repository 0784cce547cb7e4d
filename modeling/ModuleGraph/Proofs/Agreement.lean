import ModuleGraph.Proofs.Building

/-!
# Surveys that agree

A survey is told by the files that it found and by the verdicts on their
declarations. `Surveyed.Carries` asks of another build only what concerns these:
that it has the same files in hand and comes to the same verdicts on what they
declare. What is elsewhere, in which world, with which ledger, does not matter.
Then the other build has the same files and the same graph.
-/

namespace ModuleGraph

namespace Discovery

variable {σ : Type} {c c' : Context σ} {s s' : Discovery} {l l' : Ledger} {entry u : Url}
  {d : Declaration} {f : SourceFile}

/-- Another build would have the same files in hand, and the same verdicts. -/
structure Surveyed.Carries (s : Discovery) (c c' : Context σ) (l l' : Ledger) : Prop where
  fetch : ∀ u f, s.files[u]? = some f → c'.fetch u = .ok f
  verdict : ∀ d, Declares s d → c'.verdict l' d = c.verdict l d

theorem declares_of_mem (hf : s.files[u]? = some f) (hd : d ∈ f.declarations) :
    Declares s d := by
  refine ⟨f, ?_, hd⟩
  rw [SourceFile.id_uri_of_mem hd, FileMap.uri_of_getElem? hf]
  exact hf

theorem Surveyed.Carries.reached (h : Surveyed.Carries s c c' l l')
    (hs : Surveyed c l entry s) (hu : Reached c l entry u) : Reached c' l' entry u := by
  induction hu with
  | @entry f hf => exact .entry (h.fetch entry f ((hs.files entry f).2 ⟨.entry hf, hf⟩))
  | @step u t f d hu hf hd ht ih =>
    have hfile := (hs.files u f).2 ⟨hu, hf⟩
    refine .step ih (h.fetch u f hfile) hd ?_
    rw [h.verdict d (declares_of_mem hfile hd)]
    exact ht

theorem Surveyed.Carries.found (h : Surveyed.Carries s c c' l l') (hs : Surveyed c l entry s)
    (hentry : s.files.contains entry = true) (hu : Reached c' l' entry u) :
    s.files.contains u = true := by
  induction hu with
  | entry => exact hentry
  | @step u t f d hu hf hd ht ih =>
    obtain ⟨f', hf'⟩ := FileMap.contains_iff.1 ih
    have hfetch := h.fetch u f' hf'
    rw [hf] at hfetch
    obtain rfl := Except.ok.inj hfetch
    have hdeclares := declares_of_mem hf' hd
    rw [h.verdict d hdeclares] at ht
    exact hs.contains_target hdeclares ht

theorem Surveyed.Carries.graph_eq (h : Surveyed.Carries s c c' l l') (hs : Surveyed c l entry s)
    (hentry : s.files.contains entry = true) (hs' : Surveyed c' l' entry s') :
    s'.graph entry = s.graph entry := by
  have hfiles : s'.files = s.files := by
    refine FileMap.ext fun u => Option.ext fun f => ?_
    rw [hs'.files u f]
    constructor
    · -- nothing else can be reached in the other build
      rintro ⟨hu, hf⟩
      obtain ⟨f', hf'⟩ := FileMap.contains_iff.1 (h.found hs hentry hu)
      rw [h.fetch u f' hf'] at hf
      obtain rfl := Except.ok.inj hf
      exact hf'
    · intro hf
      exact ⟨h.reached hs ((hs.files u f).1 hf).1, h.fetch u f hf⟩
  have hshows (id : DeclarationId) :
      s'.outcomes.Shows id (((s.graph entry).declaration? id).map (c.verdict l)) := by
    have hshows := hs'.shows_declaration? id
    have hsame : (s'.graph entry).declaration? id = (s.graph entry).declaration? id := by
      rw [Graph.declaration?, files_graph, hfiles]
      rfl
    rw [hsame] at hshows
    cases hd : (s.graph entry).declaration? id with
    | none =>
      rw [hd] at hshows
      exact hshows
    | some d =>
      rw [hd, Option.map_some, h.verdict d (declaration?_graph.1 hd).1] at hshows
      exact hshows
  have houtcomes : s'.outcomes = s.outcomes := by
    refine Outcomes.ext_getElem? (fun id => ?_) (fun id => ?_) fun id => ?_
    · rw [(hshows id).resolution?, (hs.shows_declaration? id).resolution?]
    · rw [(hshows id).failure?, (hs.shows_declaration? id).failure?]
    · rw [(hshows id).isPending, (hs.shows_declaration? id).isPending]
  simp only [graph, houtcomes, hfiles]

end Discovery

namespace Setting

open Discovery

variable {σ : Type} {setting : Setting σ} {c : Context σ} {site : Site σ} {ws : Workspace}
  {prior : Prior} {l : Ledger} {entry : Url} {s : Discovery} {n : Nat}

/-- A build that agrees with a survey gives the graph of the survey, on a budget for its files. -/
theorem buildWith_of_carries
    (h : Surveyed.Carries s c ⟨setting, site.world, ws, prior⟩ l site.ledger)
    (hs : Surveyed c l entry s) (hentry : s.files.contains entry = true)
    (hn : s.files.size ≤ n) :
    ∃ site', setting.buildWith n site ws prior entry = some (.ok (s.graph entry), site') := by
  have hfound {u : Url} (hu : Reached ⟨setting, site.world, ws, prior⟩ site.ledger entry u) :
      u ∈ s.files.keys :=
    FileMap.mem_keys_iff.2 (FileMap.contains_iff.1 (h.found hs hentry hu))
  rw [← FileMap.length_keys] at hn
  obtain ⟨⟨result, site'⟩, hbuild⟩ := exists_buildWith s.files.keys (fun u hu => hfound hu) hn
  refine ⟨site', ?_⟩
  cases result with
  | error failed =>
    obtain ⟨herror, -⟩ := buildWith_error hbuild
    obtain ⟨f, hf⟩ := FileMap.contains_iff.1 hentry
    rw [h.fetch entry f hf] at herror
    cases herror
  | ok g =>
    obtain ⟨s', hs', rfl, -⟩ := buildWith_ok hbuild
    rw [← h.graph_eq hs hentry hs']
    exact hbuild

end Setting

end ModuleGraph
