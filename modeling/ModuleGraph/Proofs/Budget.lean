import ModuleGraph.Proofs.Reached

/-!
# How much budget a build needs

A build that ends has found some number of files, and it ends on a budget
exactly when the budget is not below that number. So budgets never decide what
is found: `survey_mono` says that a larger budget gives the same answer, and
`exists_survey` that a budget suffices as soon as the files that can be reached
are among finitely many.

Both counts rest on one equation: a round of `explore` takes one file from the
stack and puts on it as many as it adds to the graph.
-/

namespace ModuleGraph.Discovery

variable {σ : Type} {c : Context σ} {s s' : Discovery} {l : Ledger} {entry u : Url}
  {f : SourceFile} {done : List Declaration} {files : List SourceFile} {n m : Nat}

/-! ## Larger budgets -/

theorem explore_mono (h : explore c n files s = some s') (hle : n ≤ m) :
    explore c m files s = some s' := by
  induction n generalizing m files s with
  | zero =>
    cases files with
    | nil => cases h; exact explore.eq_1 ..
    | cons => cases h
  | succ n ih =>
    cases files with
    | nil => cases h; exact explore.eq_1 ..
    | cons file rest =>
      obtain ⟨m, rfl⟩ : ∃ k, m = k + 1 := ⟨m - 1, by omega⟩
      rw [explore] at h ⊢
      exact ih h (by omega)

theorem survey_mono {r : Except BuildError Discovery × Ledger}
    (h : survey c n l entry = some r) (hle : n ≤ m) : survey c m l entry = some r := by
  rw [survey] at h ⊢
  split at h
  · exact h
  · obtain ⟨s', hs', hr⟩ := Option.bind_eq_some_iff.1 h
    exact Option.bind_eq_some_iff.2 ⟨s', explore_mono hs' hle, hr⟩

/-! ## Counting files -/

/-- Exploring on a budget adds at most as many files as the budget allows. -/
theorem Progress.size_le (h : Progress c l entry done (files.flatMap SourceFile.declarations) s)
    (hs : explore c n files s = some s') : s'.files.size + files.length ≤ s.files.size + n := by
  induction n generalizing files s done with
  | zero =>
    cases files with
    | nil => cases hs; exact Nat.le_refl _
    | cons => cases hs
  | succ n ih =>
    cases files with
    | nil => cases hs; exact Nat.le_add_right ..
    | cons file rest =>
      obtain ⟨h', hcount⟩ := h.afterFile file.uri file.declarations [] rest
        fun d hd => SourceFile.id_uri_of_mem hd
      have := ih h' hs
      rw [List.length_append] at this
      simp only [List.length_nil, List.length_cons] at hcount ⊢
      omega

theorem Progress.size_le_length {todo : List Declaration} {reach : List Url}
    (h : Progress c l entry done todo s) (hr : ∀ u, Reached c l entry u → u ∈ reach) :
    s.files.size ≤ reach.length := by
  rw [← s.files.length_keys]
  refine List.Nodup.length_le_of_subset s.files.nodup_keys fun u hu => ?_
  obtain ⟨f, hf⟩ := FileMap.mem_keys_iff.1 hu
  exact hr u (h.files u f hf).1

/-- A budget suffices that allows for every file that can be reached. -/
theorem Progress.exists_explore {reach : List Url}
    (h : Progress c l entry done (files.flatMap SourceFile.declarations) s)
    (hr : ∀ u, Reached c l entry u → u ∈ reach)
    (hn : reach.length + files.length ≤ s.files.size + n) :
    ∃ s', explore c n files s = some s' := by
  induction n generalizing files s done with
  | zero =>
    cases files with
    | nil => exact ⟨s, rfl⟩
    | cons file rest =>
      have := h.size_le_length hr
      rw [List.length_cons] at hn
      omega
  | succ n ih =>
    cases files with
    | nil => exact ⟨s, rfl⟩
    | cons file rest =>
      obtain ⟨h', hcount⟩ := h.afterFile file.uri file.declarations [] rest
        fun d hd => SourceFile.id_uri_of_mem hd
      refine ih h' ?_
      simp only [List.length_nil, List.length_cons, List.length_append] at hcount hn ⊢
      omega

/-! ## Whole builds -/

theorem start_sound : Sound c (start l) := fun u f h => by
  rw [start, Std.ExtTreeMap.getElem?_empty] at h
  cases h

theorem begin_progress (hf : c.fetch entry = .ok f) (hk : Keeps c (start l) s)
    (hfiles : s.files = ∅) :
    Progress c l entry [] ([f].flatMap SourceFile.declarations)
      { s with files := s.files.put f } := by
  rw [List.flatMap_singleton]
  have huri := uri_of_fetch hf
  have hself : (s.files.put f)[entry]? = some f := by rw [FileMap.getElem?_put, if_pos huri]
  have honly : ∀ u g, (s.files.put f)[u]? = some g → entry = u ∧ f = g := by
    intro u g hg
    rw [FileMap.getElem?_put, huri, hfiles, FileMap.getElem?_empty] at hg
    split at hg
    · next hu => cases hg; exact ⟨hu, rfl⟩
    · cases hg
  refine ⟨hk.sound start_sound, fun u g hg => ?_, FileMap.contains_iff.2 ⟨f, hself⟩,
    fun u g hg d hd => ?_, fun d hd => ?_, f.nodup_ids, fun id => ?_, by simp, fun id => ?_,
    hk.failures⟩
  · obtain ⟨rfl, rfl⟩ := honly u g hg
    exact ⟨.entry hf, hf⟩
  · obtain ⟨rfl, rfl⟩ := honly u g hg
    exact .inr hd
  · have hd := hd.resolve_left List.not_mem_nil
    exact ⟨f, by rw [SourceFile.id_uri_of_mem hd, huri]; exact hself, hd⟩
  · show s.outcomes.Shows id none
    rw [hk.outcomes]
    exact ⟨Outcomes.resolution?_empty, Outcomes.failure?_empty, Outcomes.isPending_empty⟩
  · exact congrArg (·[id]?) hk.references

theorem begin_size (hfiles : s.files = ∅) : (s.files.put f).size = 1 := by
  rw [FileMap.size_put (by rw [hfiles, FileMap.getElem?_empty]), hfiles, FileMap.size_empty]

/-- A build that cannot load its entry file ends at once; another one explores
what the entry file leads to. -/
theorem survey_eq (c : Context σ) (n : Nat) (l : Ledger) (entry : Url) :
    ∃ s, Keeps c (start l) s ∧ s.files = ∅ ∧ survey c n l entry =
      match c.fetch entry with
      | .error f => some (.error ⟨entry, f⟩, s.ledger)
      | .ok f => (explore c n [f] { s with files := s.files.put f }).map
          fun s => (.ok s, s.ledger) := by
  refine ⟨(load c (start l) entry).2, load_keeps, files_load, ?_⟩
  rw [← load_fst start_sound, survey]
  generalize load c (start l) entry = loaded
  obtain ⟨result, s⟩ := loaded
  cases result with
  | error f => rfl
  | ok f => exact (Option.map_eq_bind ..).symm

/-- How a build can end. -/
inductive Ends (c : Context σ) (n : Nat) (l : Ledger) (entry : Url) :
    Except BuildError Discovery × Ledger → Prop where
  | unreadable {f : Failure} {l' : Ledger} (hf : c.fetch entry = .error f)
      (href : l'.references = l.references) (hfail : l'.failures = l.failures) :
      Ends c n l entry (.error ⟨entry, f⟩, l')
  | surveyed {f : SourceFile} {s : Discovery} (hf : c.fetch entry = .ok f)
      (hs : Surveyed c l entry s) (hn : s.files.size ≤ n) : Ends c n l entry (.ok s, s.ledger)

theorem survey_ends {r : Except BuildError Discovery × Ledger}
    (h : survey c n l entry = some r) : Ends c n l entry r := by
  obtain ⟨s, hk, hfiles, heq⟩ := survey_eq c n l entry
  rw [heq] at h
  split at h
  · next f hf =>
    cases h
    exact .unreadable hf hk.references hk.failures
  · next f hf =>
    obtain ⟨s', hs', rfl⟩ := Option.map_eq_some_iff.1 h
    have hbegin := begin_progress hf hk hfiles
    have hdone := hbegin.afterAll hs'
    have hle := hbegin.size_le hs'
    rw [begin_size hfiles, List.length_singleton] at hle
    exact .surveyed hf hdone.surveyed (by omega)

theorem survey_of_error {e : Failure} (hf : c.fetch entry = .error e) :
    ∃ l', survey c n l entry = some (.error ⟨entry, e⟩, l') := by
  obtain ⟨s, -, -, heq⟩ := survey_eq c n l entry
  rw [heq, hf]
  exact ⟨s.ledger, rfl⟩

/-- A build ends when the files that can be reached are among finitely many. -/
theorem exists_survey (reach : List Url) (hr : ∀ u, Reached c l entry u → u ∈ reach)
    (hn : reach.length ≤ n) : ∃ r, survey c n l entry = some r := by
  obtain ⟨s, hk, hfiles, heq⟩ := survey_eq c n l entry
  rw [heq]
  split
  · exact ⟨_, rfl⟩
  · next f hf =>
    obtain ⟨s', hs'⟩ := (begin_progress hf hk hfiles).exists_explore (n := n) hr (by
      rw [begin_size hfiles, List.length_singleton]
      omega)
    exact ⟨_, Option.map_eq_some_iff.2 ⟨s', hs', rfl⟩⟩

end ModuleGraph.Discovery
