import ModuleGraph.Proofs.CycleLocality
import ModuleGraph.Proofs.CycleReport
import ModuleGraph.Proofs.Freshness
import ModuleGraph.Proofs.Readings

/-!
# Files in two graphs

Two entry files may lead to the same file. Their graphs then say the same of it,
whatever else is in them, and whichever was built first. For verdicts that is
plain, since they speak of one declaration. Whether a declaration leads into a
cycle depends on the whole graph, but only on the part that its target leads to,
and where one graph has a file the other one has, it has everything that the
file leads to as well.
-/

namespace ModuleGraph

namespace Discovery

variable {σ : Type} {c : Context σ} {l l' : Ledger} {e e' : Url} {s s' : Discovery} {u t : Url}
  {f f' : SourceFile} {d : Declaration} {id : DeclarationId}

theorem Surveyed.fetch_eq (h : Surveyed c l e s) (h' : Surveyed c l' e' s')
    (hf : s.files[u]? = some f) (hf' : s'.files[u]? = some f') : f = f' := by
  have hfetch := ((h.files u f).1 hf).2
  rw [((h'.files u f').1 hf').2] at hfetch
  exact (Except.ok.inj hfetch).symm

/-- A file that both surveys have found. -/
def Shared (s s' : Discovery) : Set Url :=
  {u | s.files.contains u = true ∧ s'.files.contains u = true}

theorem shared_symm (h : u ∈ Shared s s') : u ∈ Shared s' s :=
  ⟨h.2, h.1⟩

/-- A declaration of a shared file is one of it in both surveys. -/
theorem Surveyed.declares_of_shared (h : Surveyed c l e s) (h' : Surveyed c l' e' s')
    (hu : d.id.uri ∈ Shared s s') (hd : Declares s d) : Declares s' d := by
  obtain ⟨f, hf, hmem⟩ := hd
  obtain ⟨f', hf'⟩ := FileMap.contains_iff.1 hu.2
  exact ⟨f', hf', h.fetch_eq h' hf hf' ▸ hmem⟩

section Same

variable (h : Surveyed c l e s) (h' : Surveyed c l' e' s') (hsame : SameReadings c l l')

include h h' hsame

theorem Surveyed.resolved_of_shared (hu : id.uri ∈ Shared s s')
    (ht : s.outcomes.resolution? id = some t) :
    s'.outcomes.resolution? id = some t ∧ t ∈ Shared s s' := by
  rcases h.declares_or_blank id with ⟨d, hd, rfl⟩ | hblank
  · rw [(h.shows d hd).resolution?] at ht
    have hverdict : c.verdict l d = .resolved t := Verdict.target?_eq_some_iff.1 ht
    have hverdict' := (hsame.verdict_eq (h.declared hd)).trans hverdict
    have hd' := h.declares_of_shared h' hu hd
    refine ⟨?_, h.contains_target hd hverdict, h'.contains_target hd' hverdict'⟩
    rw [(h'.shows d hd').resolution?, hverdict']
    rfl
  · rw [hblank.resolution?] at ht
    cases ht

theorem Surveyed.leads_of_shared (hu : u ∈ Shared s s') (ht : s.outcomes.Leads u t) :
    s'.outcomes.Leads u t ∧ t ∈ Shared s s' := by
  obtain ⟨id, hid, rfl⟩ := ht
  obtain ⟨hid', hshared⟩ := h.resolved_of_shared h' hsame hu hid
  exact ⟨⟨id, hid', rfl⟩, hshared⟩

/-- A shared file lies on the same cycle in both surveys, or on none. -/
theorem Surveyed.cycles_of_shared (hu : u ∈ Shared s s') :
    (cycles s'.outcomes.edges)[u]? = (cycles s.outcomes.edges)[u]? := by
  refine cycles_congr (fun u hu t => ?_) (fun u hu t ht => ?_) hu
  · rw [Outcomes.joined_edges_iff, Outcomes.joined_edges_iff]
    exact ⟨fun ht => (h'.leads_of_shared h hsame.symm (shared_symm hu) ht).1,
      fun ht => (h.leads_of_shared h' hsame hu ht).1⟩
  · exact (h.leads_of_shared h' hsame hu (Outcomes.joined_edges_iff.1 ht)).2

theorem Surveyed.outcomes_of_shared (hu : d.id.uri ∈ Shared s s') (hd : Declares s d) :
    (s'.graph e').resolution? d.id = (s.graph e).resolution? d.id ∧
      (s'.graph e').failure? d.id = (s.graph e).failure? d.id ∧
      (s'.graph e').isPending d.id = (s.graph e).isPending d.id := by
  have hshows := h.shows d hd
  have hshows' := h'.shows d (h.declares_of_shared h' hu hd)
  rw [hsame.verdict_eq (h.declared hd)] at hshows'
  have hbroken := Outcomes.breakCycles_congr (hshows'.resolution?.trans hshows.resolution?.symm)
    (hshows'.failure?.trans hshows.failure?.symm) fun t ht =>
      h.cycles_of_shared h' hsame (h.resolved_of_shared h' hsame hu ht).2
  refine ⟨hbroken.1, hbroken.2, ?_⟩
  rw [isPending_graph, isPending_graph]
  exact hshows'.isPending.trans hshows.isPending.symm

end Same

end Discovery

namespace Setting

open Discovery Relation

variable {σ : Type} {setting : Setting σ} {n₁ n₂ : Nat} {site s₁ s₂ r₁ r₂ : Site σ}
  {ws : Workspace} {e₁ e₂ u : Url} {g₁ g₂ : Graph} {f₁ f₂ : SourceFile}

/-- A file that is in the graphs of two entry files is the same in both, and so is everything that
they say of its declarations. It makes no difference what else was built in the meantime. -/
theorem same_in_both (h₁ : ReflTransGen (setting.Builds ws) site s₁)
    (h₂ : ReflTransGen (setting.Builds ws) site s₂)
    (hb₁ : setting.build n₁ s₁ ws e₁ = some (.ok g₁, r₁))
    (hb₂ : setting.build n₂ s₂ ws e₂ = some (.ok g₂, r₂))
    (hf₁ : g₁.files[u]? = some f₁) (hf₂ : g₂.files[u]? = some f₂) :
    f₁ = f₂ ∧ ∀ d ∈ f₁.declarations, g₂.resolution? d.id = g₁.resolution? d.id ∧
      g₂.failure? d.id = g₁.failure? d.id ∧ g₂.isPending d.id = g₁.isPending d.id := by
  obtain ⟨hworld₁, hsame₁⟩ := sameReadings_of_builds h₁
  obtain ⟨hworld₂, hsame₂⟩ := sameReadings_of_builds h₂
  obtain ⟨s, hs, rfl, -⟩ := buildWith_ok hb₁
  obtain ⟨s', hs', rfl, -⟩ := buildWith_ok hb₂
  rw [hworld₁] at hs
  rw [hworld₂] at hs'
  refine ⟨hs.fetch_eq hs' hf₁ hf₂, fun d hd => ?_⟩
  have huri : d.id.uri = u :=
    (SourceFile.id_uri_of_mem hd).trans (FileMap.uri_of_getElem? hf₁)
  have hu : d.id.uri ∈ Shared s s' :=
    huri ▸ ⟨FileMap.contains_iff.2 ⟨f₁, hf₁⟩, FileMap.contains_iff.2 ⟨f₂, hf₂⟩⟩
  exact hs.outcomes_of_shared hs' (hsame₁.symm.trans hsame₂) hu (declares_of_mem hf₁ hd)

end Setting

namespace Sample

/-- A file that the part leads to, and that leads back to the part. -/
def annex : Url := ⟨"file:///annex.cfg"⟩

/-- The entry file leads to the part, which lies on a cycle with the annex. -/
def ring : Workspace :=
  ((FileMap.put ∅ (.parse main "module a './part.cfg'")).put
    (.parse part "module b './annex.cfg'")).put (.parse annex "module c './part.cfg'")

/-- The cycle is the same whether one comes upon it from the entry file or from the part. -/
theorem same_in_both_ring : ∃ g₁ g₂ s₁ s₂ f,
    paths.setting.build 3 ⟨(), .empty⟩ ring main = some (.ok g₁, s₁) ∧
      paths.setting.build 3 s₁ ring part = some (.ok g₂, s₂) ∧
      g₁.files.keys = [annex, main, part] ∧ g₂.files.keys = [annex, part] ∧
      g₁.files[annex]? = some f ∧ g₂.files[annex]? = some f ∧
      g₁.failures.values.length = 3 ∧
      ∀ d ∈ f.declarations, g₂.resolution? d.id = g₁.resolution? d.id ∧
        g₂.failure? d.id = g₁.failure? d.id ∧ g₂.isPending d.id = g₁.isPending d.id := by
  have hcheck : ((paths.setting.build 3 ⟨(), .empty⟩ ring main).any fun r =>
      r.1.toOption.any fun g => g.files.keys == [annex, main, part] &&
        (g.failures.values.length == 3 && (paths.setting.build 3 r.2 ring part).any fun r' =>
          r'.1.toOption.any (·.files.keys == [annex, part]))) = true := by decide +kernel
  obtain ⟨⟨_ | g₁, s₁⟩, hb₁, hcheck⟩ := (Option.any_eq_true _ _).1 hcheck
  · cases hcheck
  obtain ⟨hkeys₁, hcheck⟩ := (Bool.and_eq_true _ _).mp hcheck
  obtain ⟨hcount, hcheck⟩ := (Bool.and_eq_true _ _).mp hcheck
  obtain ⟨⟨_ | g₂, s₂⟩, hb₂, hkeys₂⟩ := (Option.any_eq_true _ _).1 hcheck
  · cases hkeys₂
  have hkeys₁ : g₁.files.keys = [annex, main, part] := beq_iff_eq.1 hkeys₁
  have hkeys₂ : g₂.files.keys = [annex, part] := beq_iff_eq.1 hkeys₂
  obtain ⟨f₁, hf₁⟩ := FileMap.mem_keys_iff.1 (hkeys₁ ▸ List.mem_cons_self .. : annex ∈ _)
  obtain ⟨f₂, hf₂⟩ := FileMap.mem_keys_iff.1 (hkeys₂ ▸ List.mem_cons_self .. : annex ∈ _)
  obtain ⟨rfl, hsame⟩ := Setting.same_in_both .refl (.single ⟨3, main, _, hb₁⟩) hb₁ hb₂ hf₁ hf₂
  exact ⟨g₁, g₂, s₁, s₂, f₁, hb₁, hb₂, hkeys₁, hkeys₂, hf₁, hf₂, beq_iff_eq.1 hcount, hsame⟩

end Sample

end ModuleGraph
