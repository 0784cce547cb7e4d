import ModuleGraph.Proofs.Echoes
import ModuleGraph.Proofs.Operations

/-!
# Registries hear of their own references only

A registry has something to say about a reference of another scheme, and a site
has a failure for a reference that no registry answers for. Nobody ever hears
either of them, whatever is done at a site that starts with an empty ledger.

Two things see to it. A registry is looked up by the scheme of the very
reference that it is asked about. And a reference is written down only where its
scheme has a registry, so that the lookup succeeds for whatever is written down,
now and later. What a registry says about references of other schemes can
therefore be replaced by anything: `Registry.guarded` does so, and no answer
changes.
-/

namespace ModuleGraph

variable {σ : Type}

/-- The registry that the inquiry is made of. The file reader is none. -/
def Inquiry.scheme? : Inquiry → Option Scheme
  | read _ => none
  | check s _ | locate s _ | restore s _ => some s

/-- The registry, with another one speaking for it wherever references of other schemes are
concerned. -/
def Registry.guarded (registry other : Registry σ) : Registry σ where
  scheme := registry.scheme
  restoreRequired w r :=
    if r.scheme = registry.scheme then registry.restoreRequired w r else other.restoreRequired w r
  entryPoint w parent r :=
    if r.scheme = registry.scheme then registry.entryPoint w parent r
    else other.entryPoint w parent r
  restore w rs :=
    if ∀ r ∈ rs, r.scheme = registry.scheme then registry.restore w rs else other.restore w rs

namespace Registry

variable {registry other : Registry σ} {w : σ} {parent : Url} {r : Reference}
  {batch : List Reference}

theorem restoreRequired_guarded (h : r.scheme = registry.scheme) :
    (registry.guarded other).restoreRequired w r = registry.restoreRequired w r :=
  if_pos h

theorem entryPoint_guarded (h : r.scheme = registry.scheme) :
    (registry.guarded other).entryPoint w parent r = registry.entryPoint w parent r :=
  if_pos h

theorem restore_guarded (h : ∀ r ∈ batch, r.scheme = registry.scheme) :
    (registry.guarded other).restore w batch = registry.restore w batch :=
  if_pos h

end Registry

namespace Routes

variable {routes routes' : Routes σ} {world : σ} {l l' : Ledger} {parent : Url} {d : Declaration}
  {ds : List Declaration} {id : DeclarationId} {r : Reference} {f : Failure} {s : Scheme}
  {batch : List Reference} {site : Site σ} {op : Operation σ} {ops : List (Operation σ)}
  {registries : List (Registry σ)} {registry : Registry σ}
  {errors : List (Reference × RestoreError)} {foreign : Registry σ → Registry σ}

/-! ## What is asked -/

/-- If the inquiry goes to a registry, there is one of that scheme, and all references in it are
of the same scheme. -/
def Directs (routes : Routes σ) (i : Inquiry) : Prop :=
  ∀ s, i.scheme? = some s → routes.answersFor s = true ∧ ∀ r ∈ i.references, r.scheme = s

theorem answersFor_of_registry? (h : routes.registry? s = some registry) :
    routes.answersFor s = true := by
  rw [answersFor, h]
  rfl

theorem directs_check (h : routes.answersFor r.scheme = true) :
    routes.Directs (.check r.scheme r) := by
  rintro s ⟨rfl⟩
  exact ⟨h, fun r' hr' => List.mem_singleton.1 hr' ▸ rfl⟩

theorem directs_locate (h : routes.answersFor r.scheme = true) :
    routes.Directs (.locate r.scheme r) := by
  rintro s ⟨rfl⟩
  exact ⟨h, fun r' hr' => List.mem_singleton.1 hr' ▸ rfl⟩

theorem restoreBatch_directs (hs : ∀ r ∈ batch, r.scheme = s) :
    site.ledger.Notes routes.Directs (routes.restoreBatch s batch site).2.ledger := by
  rw [restoreBatch]
  split
  · exact .refl
  · split
    · exact .refl
    · next registry hreg =>
      obtain rfl := routes.scheme_eq hreg
      have hanswers := answersFor_of_registry? hreg
      have hhanded : routes.Directs (.restore registry.scheme batch) := by
        rintro s ⟨rfl⟩
        exact ⟨hanswers, hs⟩
      refine (Ledger.Notes.of_note hhanded).trans (settleAll_notes fun r hr => ?_)
      rw [← hs r hr] at hanswers ⊢
      exact directs_check hanswers

theorem restoreSchemes_directs (routes : Routes σ) (batch : List Reference) (site : Site σ)
    (schemes : List Scheme) :
    site.ledger.Notes routes.Directs (routes.restoreSchemes batch site schemes).2.ledger := by
  induction schemes generalizing site with
  | nil => exact .refl
  | cons s rest ih =>
    have hhead : site.ledger.Notes routes.Directs
        (routes.restoreBatch s (batch.filter (·.scheme == s)) site).2.ledger :=
      restoreBatch_directs fun r hr => by simpa using (List.mem_filter.1 hr).2
    rw [restoreSchemes]
    exact hhead.trans (ih _)

/-- Every inquiry that an operation makes goes to the registry of its references. -/
theorem run_directs (routes : Routes σ) (site : Site σ) (op : Operation σ) :
    site.ledger.Notes routes.Directs (op.run routes site).ledger := by
  cases op with
  | reference d => exact .of_eq (journal_reference routes site.ledger d)
  | status d => exact status_notes fun r _ => directs_check
  | locate parent d => exact locate_notes fun r _ => directs_locate
  | restore ds =>
    rw [Operation.run, restore_snd]
    exact (Ledger.Notes.of_eq (journal_claims ..)).trans (restoreSchemes_directs ..)
  | forget | clearFailures | turn => exact .of_eq rfl

/-! ## What is written down -/

/-- Whatever reference is written down has a registry, and whatever failure is remembered was
reported by one. -/
structure Answered (routes : Routes σ) (l : Ledger) : Prop where
  routed : ∀ (id : DeclarationId) r, l.references[id]? = some (.ok r) → routes.Routed r
  reported : ∀ r f, l.failure? r = some f → routes.Reports f

theorem answered_empty (routes : Routes σ) : routes.Answered .empty :=
  ⟨by simp [Ledger.empty], nofun⟩

theorem routed_of_read (h : routes.read d = .ok r) : routes.Routed r := by
  rw [read] at h
  cases hpath : d.path with
  | error f => rw [hpath] at h; cases h
  | ok raw =>
    rw [hpath] at h
    exact Option.isSome_iff_exists.1 (answersFor_of_parse h)

theorem Answered.of_writes {p : Declaration → Prop} (h : routes.Answered l)
    (hw : l.Writes routes p l')
    (hf : ∀ r f, l'.failure? r = some f → l.failure? r = some f ∨ routes.Reports f) :
    routes.Answered l' where
  routed id r hr := by
    rcases hw.old_or_read hr with hold | ⟨d, -, -, hread⟩
    · exact h.routed id r hold
    · exact routed_of_read hread
  reported r _ hr := (hf r _ hr).elim (h.reported r _) id

/-- A question writes down what the declaration refers to and leaves the failures alone. -/
theorem Answered.of_asked (h : routes.Answered l)
    (hrefs : l'.references = (routes.reference l d).2.references)
    (hf : l'.failures = l.failures) : routes.Answered l' :=
  h.of_writes ((writes_reference (p := fun _ => True) trivial).trans (.of_eq hrefs))
    fun r _ hr => .inl ((failure?_of_failures_eq hf r).symm.trans hr)

theorem Answered.run (h : routes.Answered site.ledger) (op : Operation σ) :
    routes.Answered (op.run routes site).ledger := by
  cases op with
  | reference d => exact h.of_asked rfl (failures_reference ..)
  | status d => exact h.of_asked (references_status ..) (failures_status ..)
  | locate parent d => exact h.of_asked references_locate failures_locate
  | restore ds =>
    have hrestores := restore_restores routes site ds
    exact h.of_writes hrestores.writes hrestores.failed
  | forget uri => exact ⟨fun id r hr => h.routed id r (Ledger.of_getElem?_forget hr), h.reported⟩
  | clearFailures =>
    refine ⟨h.routed, fun r f hf => ?_⟩
    rw [Operation.run, Ledger.failure?_clearFailures] at hf
    cases hf
  | turn => exact h

theorem Answered.referenceIn (h : routes.Answered l) (hr : routes.referenceIn l d = .ok r) :
    routes.Routed r := by
  rw [Routes.referenceIn] at hr
  cases hd : l.references[d.id]? with
  | none =>
    rw [hd] at hr
    exact routed_of_read hr
  | some x =>
    rw [hd] at hr
    obtain rfl : x = .ok r := hr
    exact h.routed d.id r hd

theorem Answered.fresh (h : routes.Answered l) (hr : r ∈ routes.fresh l ds) :
    routes.Routed r := by
  obtain ⟨-, d, -, href⟩ := of_mem_fresh hr
  have hclaims : l.Writes routes (· ∈ ds) (routes.claims l ds).2 := writes_claims fun _ h => h
  have hanswered := h.of_writes hclaims fun r f hf =>
    .inl ((failure?_of_failures_eq failures_claims r).symm.trans hf)
  exact hanswered.routed d.id r href

/-! ## What is answered -/

theorem of_statusIn_failed (h : routes.Answered l)
    (hstatus : routes.statusIn world l d = .failed f) :
    routes.referenceIn l d = .error f ∨
      ∃ r, routes.referenceIn l d = .ok r ∧ l.failure? r = some f := by
  rw [statusIn] at hstatus
  split at hstatus
  · next href =>
    cases hstatus
    exact .inl href
  · next r href =>
    obtain ⟨registry, hreg⟩ := h.referenceIn href
    rw [statusOf, hreg] at hstatus
    split at hstatus
    · next f' _ hf =>
      cases hstatus
      exact .inr ⟨r, href, hf⟩
    · next hnone => cases hnone
    · dsimp only at hstatus
      split at hstatus <;> cases hstatus

theorem of_locateIn_error (h : routes.Answered l)
    (hlocate : routes.locateIn world l parent d = .error f) :
    routes.referenceIn l d = .error f ∨
      ∃ r, routes.referenceIn l d = .ok r ∧ (l.failure? r = some f ∨
        ∃ registry, routes.registry? r.scheme = some registry ∧
          registry.entryPoint world parent r = .error f) := by
  rw [locateIn] at hlocate
  split at hlocate
  · next href =>
    cases hlocate
    exact .inl href
  · next r href =>
    obtain ⟨registry, hreg⟩ := h.referenceIn href
    refine .inr ⟨r, href, ?_⟩
    rw [locateOf, hreg] at hlocate
    split at hlocate
    · next hf =>
      cases hlocate
      exact .inl hf
    · next hnone => cases hnone
    · next hsome =>
      cases hsome
      exact .inr ⟨registry, hreg, hlocate⟩

theorem of_restore_fails (h : routes.Answered site.ledger)
    (hf : (routes.restore site ds).1[id]? = some f) :
    routes.Reports f ∨ ∃ r : Reference, f = .restoreOutcomeMissing r.qualified := by
  rcases restore_fails hf with ⟨r, hr⟩ | hfails
  · exact .inl (h.reported r f hr)
  · cases hfails with
    | reported h => exact .inl h
    | missing r => exact .inr ⟨r, rfl⟩
    | unrouted hr hnone =>
      obtain ⟨registry, hreg⟩ := h.fresh hr
      rw [hnone] at hreg
      cases hreg

/-! ## What registries say about foreign references -/

/-- The second routes lead to the same registries, with others speaking for them. -/
def Guarded (routes routes' : Routes σ) (foreign : Registry σ → Registry σ) : Prop :=
  ∀ s, routes'.registry? s =
    (routes.registry? s).map fun registry => registry.guarded (foreign registry)

theorem guarded_ofList (registries : List (Registry σ)) (foreign : Registry σ → Registry σ) :
    (ofList registries).Guarded
      (ofList (registries.map fun registry => registry.guarded (foreign registry))) foreign := by
  intro s
  dsimp only [ofList]
  rw [← List.map_reverse, List.find?_map]
  rfl

section Guarded

variable (h : routes.Guarded routes' foreign)
include h

theorem Guarded.answersFor : routes'.answersFor = routes.answersFor := by
  funext s
  rw [Routes.answersFor, Routes.answersFor, h s, Option.isSome_map]

theorem Guarded.echo (w : σ) : routes.Echo w routes' w where
  answersFor := h.answersFor
  restoreRequired s registry registry' hreg hreg' r hr := by
    rw [h s, hreg, Option.map_some] at hreg'
    obtain rfl := Option.some.inj hreg'
    exact Registry.restoreRequired_guarded (hr.trans (routes.scheme_eq hreg).symm)
  entryPoint s registry registry' hreg hreg' parent r hr := by
    rw [h s, hreg, Option.map_some] at hreg'
    obtain rfl := Option.some.inj hreg'
    exact Registry.entryPoint_guarded (hr.trans (routes.scheme_eq hreg).symm)

omit h in
theorem settleAll_guarded {other : Registry σ} (hs : ∀ r ∈ batch, r.scheme = registry.scheme) :
    settleAll (registry.guarded other) world errors l batch =
      settleAll registry world errors l batch := by
  induction batch generalizing l with
  | nil => rfl
  | cons r rs ih =>
    have hhead : settle (registry.guarded other) world errors l r =
        settle registry world errors l r := by
      simp only [settle, Registry.restoreRequired_guarded (hs r (List.mem_cons_self ..))]
      rfl
    have htail (l : Ledger) : settleAll (registry.guarded other) world errors l rs =
        settleAll registry world errors l rs :=
      ih fun r' hr' => hs r' (List.mem_cons_of_mem r hr')
    rw [settleAll, settleAll, hhead]
    simp only [htail]

theorem Guarded.restoreBatch (hs : ∀ r ∈ batch, r.scheme = s) :
    routes'.restoreBatch s batch site = routes.restoreBatch s batch site := by
  rw [Routes.restoreBatch, Routes.restoreBatch, h s]
  cases hreg : routes.registry? s with
  | none =>
    dsimp only [Option.map_none]
    rw [unknown_congr h.answersFor]
  | some registry =>
    obtain rfl := routes.scheme_eq hreg
    simp only [Option.map_some, Registry.restore_guarded hs, settleAll_guarded hs]
    rfl

theorem Guarded.restoreSchemes (schemes : List Scheme) :
    routes'.restoreSchemes batch site schemes = routes.restoreSchemes batch site schemes := by
  induction schemes generalizing site with
  | nil => rfl
  | cons s rest ih =>
    have hhead : routes'.restoreBatch s (batch.filter (·.scheme == s)) site =
        routes.restoreBatch s (batch.filter (·.scheme == s)) site :=
      h.restoreBatch fun r hr => by simpa using (List.mem_filter.1 hr).2
    rw [Routes.restoreSchemes, Routes.restoreSchemes, hhead]
    simp only [ih]

theorem Guarded.restore (ds : List Declaration) :
    routes'.restore site ds = routes.restore site ds := by
  rw [Routes.restore, Routes.restore, claims_congr_routes h.answersFor]
  simp only [h.restoreSchemes]

/-- What other registries say about foreign references shows in no answer, and not in the site
that is left. -/
theorem Guarded.run (site : Site σ) (op : Operation σ) :
    op.run routes' site = op.run routes site ∧ op.answer routes' site = op.answer routes site := by
  cases op with
  | reference d =>
    simp only [Operation.run, Operation.answer, reference_congr_routes h.answersFor, and_self]
  | status d =>
    simp only [Operation.run, Operation.answer, (h.echo _).status, and_self]
  | locate parent d =>
    simp only [Operation.run, Operation.answer, (h.echo _).locate, and_self]
  | restore ds =>
    simp only [Operation.run, Operation.answer, h.restore, and_self]
  | forget | clearFailures | turn => exact ⟨rfl, rfl⟩

theorem Guarded.runAll (site : Site σ) (ops : List (Operation σ)) :
    Operation.runAll routes' site ops = Operation.runAll routes site ops := by
  induction ops generalizing site with
  | nil => rfl
  | cons op ops ih =>
    have hstep : op.run routes' site = op.run routes site := (h.run site op).1
    rw [Operation.runAll, List.foldl_cons, hstep]
    exact ih _

end Guarded

/-! ## Runs -/

theorem runAll_directs (routes : Routes σ) (site : Site σ) (ops : List (Operation σ)) :
    site.ledger.Notes routes.Directs (Operation.runAll routes site ops).ledger := by
  induction ops generalizing site with
  | nil => exact .refl
  | cons op ops ih => exact (run_directs routes site op).trans (ih _)

theorem Answered.runAll (h : routes.Answered site.ledger) (ops : List (Operation σ)) :
    routes.Answered (Operation.runAll routes site ops).ledger := by
  induction ops generalizing site with
  | nil => exact h
  | cons op ops ih => exact ih (h.run op)

/-- At the site, registries have been asked about references of their own scheme only, whatever
reference a declaration has leads to one of the registries, and no failure is there for want of
a registry, except where an address could not be read. -/
structure Dispatches (registries : List (Registry σ)) (site : Site σ) : Prop where
  asked : ∀ i ∈ site.ledger.journal, ∀ s, i.scheme? = some s →
    (∃ registry ∈ registries, registry.scheme = s) ∧ ∀ r ∈ i.references, r.scheme = s
  routed : ∀ d r, ((ofList registries).reference site.ledger d).1 = .ok r →
    ∃ registry ∈ registries, registry? (ofList registries) r.scheme = some registry
  handed : ∀ ds, ∀ r ∈ (ofList registries).fresh site.ledger ds,
    ∃ registry ∈ registries, registry? (ofList registries) r.scheme = some registry
  status : ∀ d f, ((ofList registries).status site.world site.ledger d).1 = .failed f →
    ((ofList registries).reference site.ledger d).1 = .error f ∨
      ∃ r, ((ofList registries).reference site.ledger d).1 = .ok r ∧
        site.ledger.failure? r = some f
  located : ∀ parent d f,
    ((ofList registries).locate site.world site.ledger parent d).1 = .error f →
      ((ofList registries).reference site.ledger d).1 = .error f ∨
        ∃ r, ((ofList registries).reference site.ledger d).1 = .ok r ∧
          (site.ledger.failure? r = some f ∨ ∃ registry ∈ registries,
            registry.scheme = r.scheme ∧ registry.entryPoint site.world parent r = .error f)
  restored : ∀ ds (id : DeclarationId) f,
    ((ofList registries).restore site ds).1[id]? = some f →
      (∃ (e : RestoreError) (r : Reference), f = e.failureOf r) ∨
        ∃ r : Reference, f = .restoreOutcomeMissing r.qualified

theorem dispatches_of_answered (hl : (ofList registries).Answered site.ledger)
    (hj : ∀ i ∈ site.ledger.journal, (ofList registries).Directs i) :
    Dispatches registries site := by
  have hmem {r : Reference} (hr : (ofList registries).Routed r) : ∃ registry ∈ registries,
      registry? (ofList registries) r.scheme = some registry := by
    obtain ⟨registry, hreg⟩ := hr
    exact ⟨registry, mem_of_registry?_ofList hreg, hreg⟩
  constructor
  case asked =>
    intro i hi s hs
    obtain ⟨hanswers, hown⟩ := hj i hi s hs
    obtain ⟨registry, hreg⟩ := Option.isSome_iff_exists.1 hanswers
    exact ⟨⟨registry, mem_of_registry?_ofList hreg, (ofList registries).scheme_eq hreg⟩, hown⟩
  case routed =>
    intro d r hr
    exact hmem (hl.referenceIn ((reference_fst ..).symm.trans hr))
  case handed => exact fun ds r hr => hmem (hl.fresh hr)
  case status =>
    intro d f hf
    rw [reference_fst]
    exact of_statusIn_failed hl ((status_fst ..).symm.trans hf)
  case located =>
    intro parent d f hf
    rw [reference_fst]
    rcases of_locateIn_error hl (locate_fst.symm.trans hf) with hf | ⟨r, href, hf⟩
    · exact .inl hf
    · refine .inr ⟨r, href, hf.imp_right ?_⟩
      rintro ⟨registry, hreg, hentry⟩
      exact ⟨registry, mem_of_registry?_ofList hreg, (ofList registries).scheme_eq hreg, hentry⟩
  case restored =>
    intro ds id f hf
    refine (of_restore_fails hl hf).imp_left ?_
    rintro ⟨_, _, _, _, _, p, _, r, rfl⟩
    exact ⟨p.2, r, rfl⟩

/-- Whatever is done with some registries, they are asked about their own references only, and
what they would say about others makes no difference. -/
theorem dispatches_own (registries : List (Registry σ)) (foreign : Registry σ → Registry σ)
    (world : σ) (ops : List (Operation σ)) :
    Dispatches registries (Operation.runAll (ofList registries) ⟨world, .empty⟩ ops) ∧
      Operation.runAll
          (ofList (registries.map fun registry => registry.guarded (foreign registry)))
          ⟨world, .empty⟩ ops =
        Operation.runAll (ofList registries) ⟨world, .empty⟩ ops ∧
      ∀ op : Operation σ,
        op.answer (ofList (registries.map fun registry => registry.guarded (foreign registry)))
            (Operation.runAll (ofList registries) ⟨world, .empty⟩ ops) =
          op.answer (ofList registries)
            (Operation.runAll (ofList registries) ⟨world, .empty⟩ ops) := by
  have hguarded := guarded_ofList registries foreign
  refine ⟨dispatches_of_answered ((answered_empty _).runAll ops) fun i hi => ?_,
    hguarded.runAll _ ops, fun op => (hguarded.run _ op).2⟩
  obtain ⟨later, hjournal, hall⟩ :=
    runAll_directs (ofList registries) ⟨world, .empty⟩ ops
  rw [hjournal] at hi
  exact hall i ((List.mem_append.1 hi).resolve_right List.not_mem_nil)

end Routes

end ModuleGraph
