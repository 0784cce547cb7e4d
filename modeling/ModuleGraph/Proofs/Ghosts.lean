import ModuleGraph.Proofs.Screen

/-!
# Only files of graphs are shown

A file leaves the graphs when a document that declared it is edited, closed or
built again. Whichever step it is, the editor hears of it: the step publishes an
empty list for the file, or a graph that has it. So a file that is shown with
diagnostics is part of some graph, and since graphs are of open documents,
nothing is shown any more when all are closed (`shown_only_reached`).

What carries this over a run is that a step which says nothing of a file leaves
it in the graphs when it was there (`Emits.reached_of_quiet`). Closing is the one
step where this is not a matter of single graphs: the closed document's graph
goes without a word when another one has the file.
-/

namespace ModuleGraph

namespace Server

open Publication

variable {σ : Type} {c : Config σ} {site : Site σ} {s x y : Server σ} {e uri file : Url}
  {published : Publication} {todo : List Url} {graphs old new : Std.ExtTreeMap Url Graph}

/-- Some graph has the file. -/
def Reached (graphs : Std.ExtTreeMap Url Graph) (file : Url) : Prop :=
  ∃ e, Reaches graphs e file

theorem reached_of_any (h : graphs.values.any (·.files.contains file) = true) :
    Reached graphs file := by
  rw [values_eq_map_toList, List.any_map, List.any_eq_true] at h
  obtain ⟨⟨e, g⟩, hmem, hfile⟩ := h
  exact ⟨e, g, Std.ExtTreeMap.mem_toList_iff_getElem?_eq_some.1 hmem, hfile⟩

/-! ## Steps that say nothing of a file -/

theorem Treats.reaches_of_quiet (h : Treats todo old new published file)
    (hquiet : shown published file = none) (hold : Reaches old e file) : Reaches new e file := by
  cases h with
  | told _ _ _ h =>
    rw [hquiet] at h
    cases h
  | wiped _ _ _ h =>
    rw [hquiet] at h
    cases h
  | quiet hsame _ =>
    obtain ⟨g, hg, hfile⟩ := hold
    exact ⟨g, (hsame e g hfile).2 hg, hfile⟩

theorem reached_closeDocument (ho : Orderly c [] x)
    (h : closeDocument c x uri = some (published, y)) (hquiet : shown published file = none)
    (hold : Reached x.graphs file) : Reached y.graphs file := by
  obtain ⟨first, hcompile, rfl⟩ := closeDocument_published h
  have htreats := treats_compileAll nodup_affected (contains_of_affected_closed uri ho.opened)
    hcompile file
  obtain ⟨e, he⟩ := hold
  by_cases heq : e = uri
  · -- the closed document's files are cleared, except those that others have
    subst heq
    refine reached_of_any (Bool.of_not_eq_false fun hnone => ?_)
    have hcleared := shown_append_of_some (p := first)
      (@shown_getD_cleared e file x.graphs (fun u => y.graphs.values.any (·.files.contains u)) he
        hnone)
    rw [hquiet] at hcleared
    cases hcleared
  · rw [shown_append, Option.or_eq_none_iff] at hquiet
    refine ⟨e, htreats.reaches_of_quiet hquiet.2 ?_⟩
    rw [Reaches, getElem?_noteClosed, if_neg (Ne.symm heq)]
    exact he

/-- A file of which a step says nothing stays in the graphs. -/
theorem Emits.reached_of_quiet (h : Emits c x published y) (ho : Orderly c [] x)
    (hquiet : shown published file = none) (hold : Reached x.graphs file) :
    Reached y.graphs file := by
  cases h with
  | closes h => exact reached_closeDocument ho h hquiet hold
  | @opens _ uri text _ h =>
    rw [openDocument_eq] at h
    have htreats := treats_compileAll nodup_affected
      (contains_of_affected_opened uri text ho.opened) h file
    exact hold.imp fun _ => htreats.reaches_of_quiet hquiet
  | works =>
    rw [(untouched_work c x).2]
    exact hold
  | @refreshes _ document notices _ h =>
    rcases ho.refresh_built h with ⟨-, rfl, rfl⟩ | ⟨current, g, -, hbuilt, rfl⟩
    · exact hold
    · have htreats : Treats [] x.graphs y.graphs ([] ++ (x.store document (.ok g)).1) file :=
        Treats.compile (s := { x with notices }) .refl hbuilt List.not_mem_nil rfl
      exact hold.imp fun _ => htreats.reaches_of_quiet hquiet
  | turns world => exact hold

/-- A file that a step leaves shown with diagnostics is part of a graph. -/
theorem Emits.reached_of_shown {list : List EditorDiagnostic} (h : Emits c x published y)
    (ho : Orderly c [] x) (hshown : shown published file = some list) (hne : list ≠ []) :
    Reached y.graphs file := by
  cases h.treated ho file with
  | told hg hfile _ => exact ⟨_, _, hg, hfile⟩
  | dropped _ _ h =>
    rcases h with h | ⟨h, -⟩ <;> rw [hshown] at h
    · exact absurd (Option.some.inj h) hne
    · cases h
  | quiet _ h =>
    rw [hshown] at h
    cases h

/-! ## Runs -/

theorem Runs.reached_of_shown {list : List EditorDiagnostic}
    (h : Runs c (start site) published s) (hshown : shown published file = some list)
    (hne : list ≠ []) : Reached s.graphs file := by
  induction h with
  | refl => cases hshown
  | @step x y before published hrun hemits ih =>
    have ho := hrun.orderly (orderly_start site)
    rw [shown_append] at hshown
    cases hnow : shown published file with
    | some now =>
      rw [hnow, Option.some_or] at hshown
      obtain rfl := Option.some.inj hshown
      exact hemits.reached_of_shown ho hnow hne
    | none =>
      rw [hnow, Option.none_or] at hshown
      exact hemits.reached_of_quiet ho hnow (ih hshown)

/-- Whatever is shown for a file, if it is not empty some graph has the file. Nothing is shown
when no document is open. -/
theorem shown_only_reached (h : Runs c (start site) published s) :
    (∀ file list, shown published file = some list → list ≠ [] → Reached s.graphs file) ∧
    ((∀ e, s.workspace.contains e = false) →
      ∀ file list, shown published file = some list → list = []) := by
  refine ⟨fun file list hshown hne => h.reached_of_shown hshown hne, ?_⟩
  intro hclosed file list hshown
  by_contra hne
  obtain ⟨e, g, hg, -⟩ := h.reached_of_shown hshown hne
  have hopen := (h.orderly (orderly_start site)).opened e g hg
  rw [hclosed e] at hopen
  cases hopen

end Server

/-! ## A file that two documents share -/

namespace Sample

open Server

/-- Two documents have a file with an error. It is shown as long as one of them is open, and no
longer. -/
theorem shown_only_reached_part : ∃ shown₁ s₁ shown₂ s₂,
    Runs config (start ⟨true, .empty⟩) shown₁ s₁ ∧ Runs config (start ⟨true, .empty⟩) shown₂ s₂ ∧
    (∃ list, shown₁.shown part = some list ∧ list ≠ [] ∧ Reached s₁.graphs part) ∧
    (∀ e, s₂.workspace.contains e = false) ∧
    ∀ file list, shown₂.shown file = some list → list = [] := by
  have hcheck : ((openAll config [] (start ⟨true, .empty⟩) shared).any fun r =>
      (closeDocument config r.2 main).any fun r₁ => (closeDocument config r₁.2 other).any fun r₂ =>
        ((r.1 ++ r₁.1).shown part).any (!·.isEmpty) && r₂.2.workspace.keys.isEmpty) = true := by
    decide +kernel
  obtain ⟨⟨first, s⟩, hshared, hcheck⟩ := (Option.any_eq_true _ _).1 hcheck
  obtain ⟨⟨second, s₁⟩, hmain, hcheck⟩ := (Option.any_eq_true _ _).1 hcheck
  obtain ⟨⟨third, s₂⟩, hother, hcheck⟩ := (Option.any_eq_true _ _).1 hcheck
  rw [Bool.and_eq_true] at hcheck
  obtain ⟨list, hlist, hne⟩ := (Option.any_eq_true _ _).1 hcheck.1
  have hlist_ne : list ≠ [] := by simpa using hne
  have hrun₁ := (Runs.refl.openAll hshared).step (.closes hmain)
  have hrun₂ := hrun₁.step (.closes hother)
  have hclosed (e : Url) : s₂.workspace.contains e = false := by
    rw [Bool.eq_false_iff]
    intro hopen
    have hmem := FileMap.mem_keys_iff.2 (FileMap.contains_iff.1 hopen)
    rw [List.isEmpty_iff.1 hcheck.2] at hmem
    cases hmem
  exact ⟨_, s₁, _, s₂, hrun₁, hrun₂,
    ⟨list, hlist, hlist_ne, (shown_only_reached hrun₁).1 part list hlist hlist_ne⟩, hclosed,
    (shown_only_reached hrun₂).2 hclosed⟩

end Sample

end ModuleGraph
