import ModuleGraph.Proofs.Dependable
import ModuleGraph.Proofs.Journal

/-!
# No module is fetched twice

Within one restore every module is handed over once: references that mean the
same module are put together beforehand, and two registries never share a
scheme. From one round to the next it is the registries that see to it. What is
handed over has no failure and is not there, so that it is not settled; what was
handed over before is settled, in all spellings, and stays so.

`Fetches` reads the references off the journal, those of the last batch first.
-/

namespace ModuleGraph

/-- The modules that a registry is to fetch. -/
def Inquiry.fetched : Inquiry → List Reference
  | restore _ rs => rs
  | _ => []

namespace Ledger

variable {l l' l'' : Ledger} {rs rs' : List Reference}

/-- Between the two ledgers, these are the references that were handed to registries. -/
def Fetches (l l' : Ledger) (rs : List Reference) : Prop :=
  ∃ later, l'.journal = later ++ l.journal ∧ later.flatMap Inquiry.fetched = rs

theorem Notes.fetches (h : l.Asks l') : l.Fetches l' [] := by
  obtain ⟨later, heq, hall⟩ := h
  refine ⟨later, heq, List.flatMap_eq_nil_iff.2 fun i hi => ?_⟩
  cases i with
  | restore s rs => cases hall _ hi
  | read | check | locate => rfl

theorem Fetches.trans (h : l.Fetches l' rs) (h' : l'.Fetches l'' rs') :
    l.Fetches l'' (rs' ++ rs) := by
  obtain ⟨later, heq, rfl⟩ := h
  obtain ⟨later', heq', rfl⟩ := h'
  exact ⟨later' ++ later, by rw [heq', heq, List.append_assoc], List.flatMap_append⟩

end Ledger

/-- The references mean different modules. -/
def Reference.Distinct (rs : List Reference) : Prop :=
  rs.Pairwise fun r r' => r.same r' = false

namespace Routes

variable {σ : Type} {routes : Routes σ} {l : Ledger} {ds : List Declaration} {r : Reference}
  {s : Scheme} {batch : List Reference} {site : Site σ}

/-! ## One restore -/

theorem distinct_distinct (rs : List Reference) : Reference.Distinct (distinct rs) := by
  rw [distinct_eq_eraseDupsBy]
  exact (pairwise_eraseDupsBy Reference.canonical rs).imp fun hne =>
    Bool.eq_false_iff.2 fun hsame => hne (Reference.same_iff.1 hsame)

/-- One batch is handed over as it is, or not at all. -/
theorem restoreBatch_fetched (routes : Routes σ) (s : Scheme) (batch : List Reference)
    (site : Site σ) : ∃ rs, site.ledger.Fetches (routes.restoreBatch s batch site).2.ledger rs ∧
      rs.Sublist batch := by
  rw [restoreBatch]
  split
  · exact ⟨[], Ledger.Notes.refl.fetches, List.nil_sublist batch⟩
  · split
    · exact ⟨[], Ledger.Notes.refl.fetches, List.nil_sublist batch⟩
    · next registry hreg =>
      have hnote : site.ledger.Fetches (site.ledger.note (.restore registry.scheme batch)) batch :=
        ⟨[.restore registry.scheme batch], rfl, List.flatMap_singleton ..⟩
      have hasks : (site.ledger.note (.restore registry.scheme batch)).Asks
          (settleAll registry (registry.restore site.world batch).2
            (registry.restore site.world batch).1
            (site.ledger.note (.restore registry.scheme batch)) batch).2 :=
        settleAll_notes fun _ _ => rfl
      exact ⟨batch, hnote.trans hasks.fetches, .refl batch⟩

theorem restoreSchemes_fetched (routes : Routes σ) {schemes : List Scheme} (hs : schemes.Nodup)
    (hb : Reference.Distinct batch) (site : Site σ) :
    ∃ rs, site.ledger.Fetches (routes.restoreSchemes batch site schemes).2.ledger rs ∧
      Reference.Distinct rs ∧ ∀ r ∈ rs, r ∈ batch ∧ r.scheme ∈ schemes := by
  induction schemes generalizing site with
  | nil => exact ⟨[], Ledger.Notes.refl.fetches, .nil, nofun⟩
  | cons s rest ih =>
    obtain ⟨hnot, hrest⟩ := List.nodup_cons.1 hs
    obtain ⟨rs, hfetches, hsub⟩ :=
      restoreBatch_fetched routes s (batch.filter (·.scheme == s)) site
    have hmem : ∀ r ∈ rs, r ∈ batch ∧ r.scheme = s := fun r hr => by
      simpa using List.mem_filter.1 (hsub.subset hr)
    rw [restoreSchemes]
    generalize routes.restoreBatch s (batch.filter (·.scheme == s)) site = first at hfetches ⊢
    obtain ⟨failures, site₁⟩ := first
    obtain ⟨rs', hfetches', hdistinct, hmem'⟩ := ih hrest site₁
    refine ⟨rs' ++ rs, hfetches.trans hfetches', List.pairwise_append.2
      ⟨hdistinct, (hb.filter _).sublist hsub, fun r' hr' r hr => ?_⟩, fun r hr => ?_⟩
    · -- the other schemes come later, and have modules of their own
      rw [Bool.eq_false_iff]
      intro hsame
      refine hnot ?_
      rw [← (hmem r hr).2, ← Reference.scheme_eq_of_same hsame]
      exact (hmem' r' hr').2
    · rcases List.mem_append.1 hr with hr | hr
      · exact (hmem' r hr).imp_right (List.mem_cons_of_mem s)
      · obtain ⟨hbatch, hscheme⟩ := hmem r hr
        exact ⟨hbatch, hscheme ▸ List.mem_cons_self ..⟩

theorem restore_fetched (routes : Routes σ) (site : Site σ) (ds : List Declaration) :
    ∃ rs, site.ledger.Fetches (routes.restore site ds).2.ledger rs ∧ Reference.Distinct rs ∧
      ∀ r ∈ rs, r ∈ routes.fresh site.ledger ds := by
  have hclaims : site.ledger.Asks (routes.claims site.ledger ds).2 := .of_eq (journal_claims ..)
  obtain ⟨rs, hfetches, hdistinct, hmem⟩ := restoreSchemes_fetched routes
    (by decide : Scheme.all.Nodup) ((distinct_distinct _).filter _)
    ⟨site.world, (routes.claims site.ledger ds).2⟩
  refine ⟨rs, ?_, hdistinct, fun r hr => (hmem r hr).1⟩
  rw [restore_snd, ← List.append_nil rs]
  exact hclaims.fetches.trans hfetches

end Routes

/-! ## All rounds -/

namespace Setting

open Discovery

variable {σ : Type} {setting : Setting σ} {ws : Workspace} {entry : Url} {g : Graph}
  {site s : Site σ} {i : Nat} {r x : Reference}

/-- What is to be fetched for what is pending is not settled. -/
theorem Round.not_settled_of_fresh (h : setting.Round ws entry site i g s)
    (hr : r ∈ setting.routes.fresh s.ledger g.pendingDeclarations) :
    ¬ setting.routes.Settled s.world s.ledger r := by
  intro hsettled
  obtain ⟨-, d, hd, href⟩ := Routes.of_mem_fresh hr
  have hp := isPending_of_mem_pendingDeclarations h.consistent hd
  obtain ⟨e, x, he, hst⟩ := h.missing_of_isPending hp
  have hid := Graph.id_of_declaration? he
  -- the declaration has been written down when the graph was found
  obtain ⟨prior, l, hfound⟩ := h.found
  have hwritten := hfound.reference_written (hid.symm ▸ he : g.declaration? e.id = some e)
  have hwrites : s.ledger.Writes setting.routes (· ∈ g.pendingDeclarations)
      (setting.routes.claims s.ledger g.pendingDeclarations).2 := Routes.writes_claims fun _ h => h
  have hkept := hwrites.keeps hwritten
  rw [hid, href] at hkept
  rw [Routes.status_fst] at hst
  refine Routes.statusIn_ne_needsRestore hsettled ?_ hst
  rw [Routes.referenceIn, hwritten, ← Option.some.inj hkept]
  rfl

/-- Over all rounds no two references to one module are handed over. What was handed over is
settled in every spelling. -/
theorem Round.fetched (hd : setting.routes.Dependable) (h : setting.Round ws entry site i g s) :
    ∃ rs, site.ledger.Fetches s.ledger rs ∧ Reference.Distinct rs ∧
      ∀ r ∈ rs, ∀ x, r.same x = true → setting.routes.Settled s.world s.ledger x := by
  induction h with
  | first hb => exact ⟨[], (buildWith_notes hb).fetches, .nil, nofun⟩
  | @next i n g g' s s' h hp hb ih =>
    obtain ⟨rs, hfetches, hdistinct, hsettled⟩ := ih
    obtain ⟨rs', hfetches', hdistinct', hfresh⟩ :=
      Routes.restore_fetched setting.routes s g.pendingDeclarations
    have hnext : setting.Round ws entry site (i + 1) g' s' := h.next hp hb
    refine ⟨rs' ++ rs, (hfetches.trans hfetches').trans (buildWith_notes hb).fetches,
      List.pairwise_append.2 ⟨hdistinct', hdistinct, fun r' hr' r hr => ?_⟩, fun r hr x hx => ?_⟩
    · rw [Bool.eq_false_iff]
      intro hsame
      refine h.not_settled_of_fresh (hfresh r' hr') (hsettled r hr r' ?_)
      rw [Reference.same_iff] at hsame ⊢
      exact hsame.symm
    · rcases List.mem_append.1 hr with hr | hr
      · obtain ⟨-, hfound, hw⟩ := h.restored_next hnext
        exact hfound.settled hw (Routes.restore_settled_fresh hd (hfresh r hr) hx)
      · exact h.settled_next hd hnext (hsettled r hr x hx)

end Setting

end ModuleGraph
