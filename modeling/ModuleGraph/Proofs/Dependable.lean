import ModuleGraph.Proofs.Settling

/-!
# Registries that can be relied upon

What keeps linking from coming to an end is a registry that reports no error for
a module and leaves it missing. With registries that do not do so, a module that
was handed to a restore is settled: it has a failure, or it is there. A settled
module stays settled, whatever is restored after it, so that a declaration is
pending in one round at most, and there are finitely many declarations.

`Dependable` is what is needed for that. Modules are fetched in one spelling, and
errors are given in one spelling, so that it speaks of all spellings of what was
to be fetched. Registries that do what they say can be relied upon
(`Honest.dependable`).
-/

namespace ModuleGraph

variable {σ : Type} {routes : Routes σ} {w : σ} {l : Ledger} {d : Declaration}
  {ds : List Declaration} {site : Site σ} {id : DeclarationId} {r x : Reference}
  {registry : Registry σ} {errors : List (Reference × RestoreError)} {batch : List Reference}
  {s : Scheme}

namespace Routes

/-- What linking relies on. -/
structure Dependable (routes : Routes σ) : Prop where
  /-- A module that was to be fetched and that is not reported is there. -/
  fetches : ∀ s registry, routes.registry? s = some registry → ∀ w batch,
    (∀ r ∈ batch, r.scheme = s) → ∀ r ∈ batch, ∀ x, r.same x = true →
      (∀ p ∈ (registry.restore w batch).1, p.1.same x = false) →
        registry.restoreRequired (registry.restore w batch).2 x = false
  /-- No restore takes away another module. -/
  keeps : ∀ s registry, routes.registry? s = some registry → ∀ w batch,
    (∀ r ∈ batch, r.scheme = s) → ∀ x registry', routes.registry? x.scheme = some registry' →
      (∀ r ∈ batch, r.same x = false) → registry'.restoreRequired w x = false →
        registry'.restoreRequired (registry.restore w batch).2 x = false

/-- Registries do what they say. -/
structure Honest (routes : Routes σ) : Prop where
  /-- A module that was to be fetched and that is not reported is there. -/
  fetches : ∀ s registry, routes.registry? s = some registry → ∀ w batch, ∀ r ∈ batch,
    (∀ p ∈ (registry.restore w batch).1, p.1.same r = false) →
      registry.restoreRequired (registry.restore w batch).2 r = false
  /-- No restore takes away what is there. -/
  keeps : ∀ s registry, routes.registry? s = some registry → ∀ s' registry',
    routes.registry? s' = some registry' → ∀ w batch r,
      registry.restoreRequired w r = false →
        registry.restoreRequired (registry'.restore w batch).2 r = false
  /-- All spellings of a reference mean one module. -/
  spelling : ∀ s registry, routes.registry? s = some registry → ∀ w r r', r.same r' = true →
    registry.restoreRequired w r = registry.restoreRequired w r'

theorem Honest.dependable (hh : routes.Honest) : routes.Dependable where
  fetches s registry hreg w batch _ r hr x hsame hnone := by
    rw [← hh.spelling s registry hreg _ r x hsame]
    refine hh.fetches s registry hreg w batch r hr fun p hp => ?_
    rw [← hnone p hp, Bool.eq_iff_iff, Reference.same_iff, Reference.same_iff,
      Reference.same_iff.1 hsame]
  keeps s registry hreg w batch _ x registry' hreg' _ hthere :=
    hh.keeps _ registry' hreg' s registry hreg w batch x hthere

/-- The module has a failure, or there is nothing to be restored. -/
def Settled (routes : Routes σ) (world : σ) (l : Ledger) (r : Reference) : Prop :=
  (∃ f, l.failure? r = some f) ∨ ∀ registry, routes.registry? r.scheme = some registry →
    registry.restoreRequired world r = false

theorem statusIn_ne_needsRestore (h : routes.Settled w l r)
    (href : routes.referenceIn l d = .ok r) : routes.statusIn w l d ≠ .needsRestore x := by
  intro hst
  rw [statusIn, href] at hst
  dsimp only at hst
  rw [statusOf] at hst
  split at hst
  · cases hst
  · cases hst
  · next registry hnone hreg =>
    rcases h with ⟨f, hf⟩ | hthere
    · rw [hnone] at hf
      cases hf
    · dsimp only at hst
      rw [hthere registry hreg] at hst
      cases hst

theorem Settled.of_failures_eq {l' : Ledger} (h : routes.Settled w l r)
    (hl : l'.failures = l.failures) : routes.Settled w l' r :=
  h.imp_left fun ⟨f, hf⟩ => ⟨f, (failure?_of_failures_eq hl r).trans hf⟩

/-! ## Settling -/

section Errors

variable (he : ∃ p ∈ errors, p.1.same x = true)

include he

/-- A module that an error is about is not forgiven. -/
theorem failure?_settle_of_error (hx : (∃ f, l.failure? x = some f) ∨ r.same x = true) :
    ∃ f, (settle registry w errors l r).2.failure? x = some f := by
  obtain ⟨p, hp, hpx⟩ := he
  rw [settle]
  split
  · rw [Ledger.failure?_remember]
    split
    · exact ⟨_, rfl⟩
    · next hne => exact hx.resolve_right hne
  · next hnone =>
    have hne : ¬ r.same x = true := by
      intro hsame
      refine List.find?_eq_none.1 hnone p hp ?_
      rw [Reference.same_iff] at hpx hsame ⊢
      exact hpx.trans hsame.symm
    have hold := hx.resolve_right hne
    dsimp only
    split
    · exact hold
    · rw [Ledger.failure?_forgive, if_neg hne]
      exact hold

theorem failure?_settleAll_of_error
    (hx : (∃ f, l.failure? x = some f) ∨ ∃ r ∈ batch, r.same x = true) :
    ∃ f, (settleAll registry w errors l batch).2.failure? x = some f := by
  induction batch generalizing l with
  | nil => exact hx.resolve_right fun ⟨r, hr, _⟩ => absurd hr List.not_mem_nil
  | cons r rs ih =>
    have hhead (hx : (∃ f, l.failure? x = some f) ∨ r.same x = true) :
        ∃ f, (settle registry w errors l r).2.failure? x = some f :=
      failure?_settle_of_error he hx
    rw [settleAll]
    generalize settle registry w errors l r = settled at hhead ⊢
    obtain ⟨f, l'⟩ := settled
    refine ih ?_
    rcases hx with hold | ⟨r', hr', hsame⟩
    · exact .inl (hhead (.inl hold))
    · rcases List.mem_cons.1 hr' with rfl | hr'
      · exact .inl (hhead (.inr hsame))
      · exact .inr ⟨r', hr', hsame⟩

end Errors

/-! ## Restoring -/

/-- Everything in the batch is settled, and what was settled stays so. -/
theorem restoreBatch_settled (hd : routes.Dependable) (hs : ∀ r ∈ batch, r.scheme = s)
    (hx : (∃ r ∈ batch, r.same x = true) ∨ routes.Settled site.world site.ledger x) :
    routes.Settled (routes.restoreBatch s batch site).2.world
      (routes.restoreBatch s batch site).2.ledger x := by
  have hfetches := restoreBatch_fetches routes s batch site
  rw [restoreBatch] at hfetches ⊢
  split
  · next hempty =>
    rw [List.isEmpty_iff.1 hempty] at hx
    refine hx.resolve_left ?_
    rintro ⟨r, hr, -⟩
    exact List.not_mem_nil hr
  · next hsome =>
    rw [if_neg hsome] at hfetches
    split
    · next hnone =>
      rcases hx with ⟨r, hr, hsame⟩ | hold
      · refine .inr fun registry hreg => ?_
        rw [← Reference.scheme_eq_of_same hsame, hs r hr, hnone] at hreg
        cases hreg
      · exact hold
    · next registry hreg =>
      simp only [hreg] at hfetches
      dsimp only
      by_cases hbatch : ∃ r ∈ batch, r.same x = true
      · by_cases he : ∃ p ∈ (registry.restore site.world batch).1, p.1.same x = true
        · exact .inl (failure?_settleAll_of_error he (.inr hbatch))
        · -- nothing was reported, so that the module is there
          obtain ⟨r, hr, hsame⟩ := hbatch
          refine .inr fun registry' hreg' => ?_
          rw [← Reference.scheme_eq_of_same hsame, hs r hr, hreg] at hreg'
          obtain rfl := Option.some.inj hreg'
          exact hd.fetches s registry hreg site.world batch hs r hr x hsame fun p hp =>
            Bool.eq_false_iff.2 fun hpx => he ⟨p, hp, hpx⟩
      · have hother : ∀ r ∈ batch, r.same x = false := fun r hr =>
          Bool.eq_false_iff.2 fun hsame => hbatch ⟨r, hr, hsame⟩
        rcases hx.resolve_left hbatch with ⟨f, hf⟩ | hthere
        · exact .inl ⟨f, (hfetches.ledger.others x hother).trans hf⟩
        · exact .inr fun registry' hreg' => hd.keeps s registry hreg site.world batch hs x registry'
            hreg' hother (hthere registry' hreg')

theorem restoreSchemes_settled (hd : routes.Dependable) {schemes : List Scheme}
    (hx : (∃ r ∈ batch, r.scheme ∈ schemes ∧ r.same x = true) ∨
      routes.Settled site.world site.ledger x) :
    routes.Settled (routes.restoreSchemes batch site schemes).2.world
      (routes.restoreSchemes batch site schemes).2.ledger x := by
  induction schemes generalizing site with
  | nil => exact hx.resolve_left fun ⟨r, _, hr, _⟩ => absurd hr List.not_mem_nil
  | cons s rest ih =>
    have hscheme : ∀ r ∈ batch.filter (·.scheme == s), r.scheme = s := fun r hr => by
      simpa using (List.mem_filter.1 hr).2
    have hhead (hx : (∃ r ∈ batch.filter (·.scheme == s), r.same x = true) ∨
        routes.Settled site.world site.ledger x) := restoreBatch_settled hd hscheme hx
    rw [restoreSchemes]
    generalize routes.restoreBatch s (batch.filter (·.scheme == s)) site = first at hhead ⊢
    obtain ⟨failures, site₁⟩ := first
    refine ih ?_
    rcases hx with ⟨r, hr, hscheme, hsame⟩ | hold
    · rcases List.mem_cons.1 hscheme with hself | hscheme
      · exact .inr (hhead (.inl ⟨r, List.mem_filter.2 ⟨hr, by simpa using hself⟩, hsame⟩))
      · exact .inl ⟨r, hr, hscheme, hsame⟩
    · exact .inr (hhead (.inr hold))

theorem restore_keeps_settled (hd : routes.Dependable)
    (hx : routes.Settled site.world site.ledger x) :
    routes.Settled (routes.restore site ds).2.world (routes.restore site ds).2.ledger x := by
  rw [restore_snd]
  exact restoreSchemes_settled hd (.inr (hx.of_failures_eq failures_claims))

/-- What was to be fetched is settled, in every spelling. -/
theorem restore_settled_fresh (hd : routes.Dependable) (hr : r ∈ routes.fresh site.ledger ds)
    (hsame : r.same x = true) :
    routes.Settled (routes.restore site ds).2.world (routes.restore site ds).2.ledger x := by
  rw [restore_snd]
  exact restoreSchemes_settled hd (.inl ⟨r, hr, Scheme.mem_all _, hsame⟩)

/-- After a restore the modules of all declarations are settled. -/
theorem restore_settled (site : Site σ) (hd : routes.Dependable) (hmem : d ∈ ds) :
    ∃ y, (routes.restore site ds).2.ledger.references[d.id]? = some y ∧ ∀ r, y = .ok r →
      routes.Settled (routes.restore site ds).2.world (routes.restore site ds).2.ledger r := by
  obtain ⟨y, hy⟩ := written_claims routes site.ledger hmem
  refine ⟨y, by rw [references_restore]; exact hy, fun r hr => ?_⟩
  cases hf : site.ledger.failure? r with
  | some f => exact restore_keeps_settled hd (.inl ⟨f, hf⟩)
  | none =>
    obtain ⟨r', hr', hsame⟩ := exists_mem_fresh hmem (hr ▸ hy) hf
    exact restore_settled_fresh hd hr' hsame

end Routes

/-! ## Linking -/

namespace Setting

open Discovery

variable {setting : Setting σ} {ws : Workspace} {entry : Url} {g g' : Graph} {s s' : Site σ}
  {i j : Nat} {readable : List (Url × String)}

/-- The reference of an id is written down, and its module is settled. -/
def SettledId (setting : Setting σ) (s : Site σ) (id : DeclarationId) : Prop :=
  ∃ y, s.ledger.references[id]? = some y ∧
    ∀ r, y = .ok r → setting.routes.Settled s.world s.ledger r

theorem SettledId.not_missing (h : setting.SettledId s id) : ¬ setting.Missing g s id := by
  rintro ⟨d, x, hd, hst⟩
  obtain ⟨y, hy, hsettled⟩ := h
  rw [Routes.status_fst] at hst
  have href : setting.routes.referenceIn s.ledger d = y := by
    rw [Routes.referenceIn, Graph.id_of_declaration? hd, hy]
    rfl
  cases y with
  | error f =>
    rw [Routes.statusIn, href] at hst
    cases hst
  | ok r => exact Routes.statusIn_ne_needsRestore (hsettled r rfl) href hst

theorem Found.settled {prior : Prior} {s₁ : Site σ} (h : setting.Found ws entry prior s₁.ledger g s)
    (hw : s.world = s₁.world) (hx : setting.routes.Settled s₁.world s₁.ledger x) :
    setting.routes.Settled s.world s.ledger x := by
  rw [hw]
  exact hx.imp_left fun ⟨f, hf⟩ => ⟨f, (h.failure?_eq x).trans hf⟩

section Next

variable (hd : setting.routes.Dependable) (h : setting.Round ws entry site i g s)
  (h' : setting.Round ws entry site (i + 1) g' s')

include hd h h'

theorem Round.settled_next (hx : setting.routes.Settled s.world s.ledger x) :
    setting.routes.Settled s'.world s'.ledger x := by
  obtain ⟨-, hfound, hw⟩ := h.restored_next h'
  exact hfound.settled hw (Routes.restore_keeps_settled hd hx)

theorem Round.settledId_next (hid : setting.SettledId s id) : setting.SettledId s' id := by
  obtain ⟨-, hfound, -⟩ := h.restored_next h'
  obtain ⟨y, hy, hsettled⟩ := hid
  refine ⟨y, hfound.writes.keeps ((Routes.restore_restores ..).writes.keeps hy), fun r hr => ?_⟩
  exact h.settled_next hd h' (hsettled r hr)

theorem Round.settledId_of_isPending (hp : g.isPending id = true) :
    setting.SettledId s' id := by
  obtain ⟨-, hfound, hw⟩ := h.restored_next h'
  have hhanded : id ∈ g.pendingDeclarations.map (·.id) := by
    rw [h.consistent.handed]
    exact Std.ExtTreeSet.mem_toList.2 (Std.ExtTreeSet.contains_iff_mem.1 hp)
  obtain ⟨d, hmem, rfl⟩ := List.mem_map.1 hhanded
  obtain ⟨y, hy, hsettled⟩ := Routes.restore_settled s hd hmem
  exact ⟨y, hfound.writes.keeps hy, fun r hr => hfound.settled hw (hsettled r hr)⟩

end Next

theorem Round.settledId_of_lt (hd : setting.routes.Dependable)
    (h : setting.Round ws entry site i g s) (hp : g.isPending id = true) (hij : i < j)
    (h' : setting.Round ws entry site j g' s') : setting.SettledId s' id := by
  induction j, hij using Nat.le_induction generalizing g' s' with
  | base => exact h.settledId_of_isPending hd h' hp
  | succ j hij ih =>
    obtain ⟨g₀, s₀, h₀⟩ := h'.exists_of_le (Nat.le_succ j)
    exact h₀.settledId_next hd h' (ih h₀)

/-- A declaration is pending in one round at most. -/
theorem Round.not_isPending_of_lt (hd : setting.routes.Dependable)
    (h : setting.Round ws entry site i g s) (hp : g.isPending id = true) (hij : i < j)
    (h' : setting.Round ws entry site j g' s') : g'.isPending id = false := by
  rw [Bool.eq_false_iff]
  exact fun hp' => (h.settledId_of_lt hd hp hij h').not_missing (h'.missing_of_isPending hp')

/-- With such registries, and with finitely many texts to be read, linking comes to an end. -/
theorem exists_link_of_dependable (hread : setting.Reads site.world readable)
    (hd : setting.routes.Dependable) : ∃ n r, setting.link n site ws entry = some r := by
  by_contra hnever
  obtain ⟨rounds, hrounds, hpending⟩ := exists_rounds hread hnever
  -- the ids that have been pending grow with every round
  obtain ⟨n, hn⟩ := exists_constant
    (((sources ws readable).flatMap SourceFile.declarations).map (·.id))
    (fun i id => ∃ k, k ≤ i ∧ (rounds k).1.isPending id = true)
    fun i _ _ ⟨k, hk, hp⟩ => ⟨k, Nat.le_succ_of_le hk, hp⟩
  obtain ⟨id, hid⟩ := isEmpty_pending_iff.1 (hpending (n + 1))
  obtain ⟨d, r, hdecl, -⟩ := (hrounds (n + 1)).missing_of_isPending hid
  obtain ⟨f, hf, hmem⟩ := declared_of_declaration? ((hrounds (n + 1)).mem_sources hread) hdecl
  have hknown : id ∈ ((sources ws readable).flatMap SourceFile.declarations).map (·.id) :=
    List.mem_map.2 ⟨d, List.mem_flatMap.2 ⟨f, hf, hmem⟩, Graph.id_of_declaration? hdecl⟩
  obtain ⟨k, hk, hp⟩ := (hn n (Nat.le_refl n) id hknown).1 ⟨n + 1, Nat.le_refl _, hid⟩
  rw [(hrounds k).not_isPending_of_lt hd hp (Nat.lt_succ_of_le hk) (hrounds (n + 1))] at hid
  cases hid

end Setting

/-! ## A registry that reports what it does not have -/

namespace Sample

/-- The registry has every module but one, and says so. -/
def clerk : Registry (List Reference) where
  scheme := .nuget
  restoreRequired w r := !w.contains r.canonical
  entryPoint _ _ _ := .ok part
  restore w rs := ((rs.filter (·.same hollow)).map (·, .notFound "a"),
    (rs.filter (!·.same hollow)).map Reference.canonical ++ w)

theorem honest_clerk : (Routes.ofList [clerk]).Honest where
  fetches s registry hreg w batch r hr hnone := by
    obtain rfl := List.mem_singleton.1 (Routes.mem_of_registry?_ofList hreg)
    have hhollow : r.same hollow = false := by
      rw [Bool.eq_false_iff]
      intro hhollow
      have hreported := hnone (r, .notFound "a")
        (List.mem_map.2 ⟨r, List.mem_filter.2 ⟨hr, hhollow⟩, rfl⟩)
      rw [Reference.same_iff.2 rfl] at hreported
      cases hreported
    simp only [clerk, Bool.not_eq_false', List.contains_iff_mem]
    exact List.mem_append_left w
      (List.mem_map_of_mem (List.mem_filter.2 ⟨hr, by rw [hhollow]; rfl⟩))
  keeps s registry hreg s' registry' hreg' w batch r hthere := by
    obtain rfl := List.mem_singleton.1 (Routes.mem_of_registry?_ofList hreg)
    obtain rfl := List.mem_singleton.1 (Routes.mem_of_registry?_ofList hreg')
    simp only [clerk, Bool.not_eq_false', List.contains_iff_mem] at hthere ⊢
    exact List.mem_append_right _ hthere
  spelling s registry hreg w r r' hsame := by
    obtain rfl := List.mem_singleton.1 (Routes.mem_of_registry?_ofList hreg)
    simp only [clerk, Reference.same_iff.1 hsame]

theorem dependable_clerk : (Routes.ofList [clerk]).Dependable :=
  honest_clerk.dependable

/-- The small files with this registry. -/
def office : Setting (List Reference) where
  routes := .ofList [clerk]
  read _ u := setting.read false u

end Sample

end ModuleGraph
