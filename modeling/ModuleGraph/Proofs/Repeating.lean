import ModuleGraph.Proofs.Fetching
import ModuleGraph.Proofs.Recording
import ModuleGraph.Proofs.StaticReader

/-!
# Linking a second time

Linking has fetched what it could. Doing it again at the site that it left asks
questions, fetches nothing, and gives the same graph: the last round was a build
at this site already, and nothing was pending after it. Neither has linking
fetched anything twice by then.
-/

namespace ModuleGraph

namespace Setting

variable {σ : Type} {setting : Setting σ} {ws : Workspace} {entry : Url} {site site' : Site σ}
  {n : Nat} {e : BuildError} {readable : List (Url × String)}

open Discovery

/-- When the entry file cannot be had, it cannot be had the next time either. -/
theorem build_error_again (h : setting.build n site ws entry = some (.error e, site')) :
    ∃ site'', setting.build n site' ws entry = some (.error e, site'') := by
  obtain ⟨hfetch, huri⟩ := buildWith_error h
  obtain ⟨-, -, hworld, -⟩ := buildWith_ends h
  rw [← hworld] at hfetch
  obtain ⟨l, hsurvey⟩ := survey_of_error hfetch (l := site'.ledger) (n := n)
  refine ⟨⟨site'.world, l⟩, ?_⟩
  rw [build, buildWith_eq, hsurvey, ← huri]
  rfl

/-- What has been linked has fetched every module once, and is linked again without fetching. -/
theorem link_fetches (hst : setting.Static site.world readable) (hd : setting.routes.Dependable)
    {result : Except BuildError Graph} (h : setting.link n site ws entry = some (result, site')) :
    (∃ rs, site.ledger.Fetches site'.ledger rs ∧ Reference.Distinct rs) ∧
      (∀ g, result = .ok g → g.pending.isEmpty = true) ∧
        ∃ site'', setting.link n site' ws entry = some (result, site'') ∧
          site'.ledger.Asks site''.ledger := by
  rcases link_ends h with ⟨e, s, hb, heq⟩ | ⟨i, g, s, hround, hp, hn, heq⟩
  · obtain ⟨rfl, rfl⟩ := Prod.mk.inj heq
    obtain ⟨site'', hb'⟩ := build_error_again hb
    refine ⟨⟨[], (buildWith_notes hb).fetches, .nil⟩, nofun, site'', ?_, buildWith_notes hb'⟩
    rw [link, hb']
  · obtain ⟨rfl, rfl⟩ := Prod.mk.inj heq
    obtain ⟨rs, hfetches, hdistinct, -⟩ := hround.fetched hd
    obtain ⟨site'', hb'⟩ := hround.build_eq hst hd (hn _ _ _ hround)
    refine ⟨⟨rs, hfetches, hdistinct⟩, fun g' hg' => Except.ok.inj hg' ▸ hp, site'', ?_,
      buildWith_notes hb'⟩
    rw [link, hb']
    cases n <;> exact if_pos hp

/-- With a static reader and registries that can be relied upon, linking comes to an end and
hands no module over twice. Linking again then fetches nothing, and gives the same result. What
the journals say of this is what registries put on record. -/
theorem link_again (hst : setting.Static site.world readable)
    (hd : setting.routes.Dependable) : (∃ n r, setting.link n site ws entry = some r) ∧
      ∀ n result site', setting.link n site ws entry = some (result, site') →
        (∃ rs, site.ledger.Fetches site'.ledger rs ∧ Reference.Distinct rs) ∧
          (∀ g, result = .ok g → g.pending.isEmpty = true) ∧
            setting.recording.link n site.recorded ws entry = some (result, site'.recorded) ∧
              ∃ site'', setting.link n site' ws entry = some (result, site'') ∧
                site'.ledger.Asks site''.ledger ∧
                  setting.recording.link n site'.recorded ws entry =
                    some (result, site''.recorded) := by
  refine ⟨exists_link_of_dependable hst.reads hd, fun n result site' h => ?_⟩
  obtain ⟨hfetched, hdone, site'', h', hasks⟩ := link_fetches hst hd h
  exact ⟨hfetched, hdone, link_recorded h, site'', h', hasks, link_recorded h'⟩

end Setting

namespace Sample

/-- Both files declare the module that cannot be had. It is asked for once, and when linking again
nothing is put on record. -/
theorem link_again_main : ∃ g site' site'',
    office.link 3 ⟨[], .empty⟩ ∅ main = some (.ok g, site') ∧
    g.files.keys = [main, part] ∧ g.failures.values.length = 2 ∧
    Ledger.empty.Fetches site'.ledger [hollow, whole] ∧
    office.link 3 site' ∅ main = some (.ok g, site'') ∧ site'.ledger.Asks site''.ledger ∧
    office.recording.link 3 ⟨([], []), .empty⟩ ∅ main = some (.ok g, site'.recorded) ∧
    site'.recorded.world.2 = [.restore .nuget [hollow, whole]] ∧
    office.recording.link 3 site'.recorded ∅ main = some (.ok g, site''.recorded) ∧
    site''.recorded.world.2 = [.restore .nuget [hollow, whole]] := by
  have hcheck : ((office.link 3 ⟨[], .empty⟩ ∅ main).any fun r => r.1.toOption.any fun g =>
      g.files.keys == [main, part] && (g.failures.values.length == 2 &&
        (r.2.ledger.journal.flatMap Inquiry.fetched == [hollow, whole] &&
          r.2.ledger.batches == [.restore .nuget [hollow, whole]]))) = true := by
    decide +kernel
  obtain ⟨⟨_ | g, site'⟩, hlink, hcheck⟩ := (Option.any_eq_true _ _).1 hcheck
  · cases hcheck
  obtain ⟨hkeys, hcheck⟩ := (Bool.and_eq_true _ _).mp hcheck
  obtain ⟨hcount, hcheck⟩ := (Bool.and_eq_true _ _).mp hcheck
  obtain ⟨hfetched, hbatches⟩ := (Bool.and_eq_true _ _).mp hcheck
  obtain ⟨-, hagain⟩ := Setting.link_again static_office dependable_clerk
  obtain ⟨-, -, hrecord, site'', hlink', hasks, hrecord'⟩ := hagain 3 _ site' hlink
  exact ⟨g, site', site'', hlink, beq_iff_eq.1 hkeys, beq_iff_eq.1 hcount,
    ⟨site'.ledger.journal, (List.append_nil _).symm, beq_iff_eq.1 hfetched⟩, hlink', hasks,
    hrecord, beq_iff_eq.1 hbatches, hrecord', hasks.batches_eq.trans (beq_iff_eq.1 hbatches)⟩

end Sample

end ModuleGraph
