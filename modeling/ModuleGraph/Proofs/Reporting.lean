import ModuleGraph.Proofs.Operations
import ModuleGraph.Proofs.Fetching
import ModuleGraph.Proofs.FirstOccurrences

/-!
# What a restore reports

A restore gives a failure for declarations, and afterwards every declaration has
a status. The two say the same thing: reported is what is not available then,
with the failure of its status, and a module that its registry neither fetched
nor reported is said to be missing.

The status is asked for at the end, and the failure was found when the module's
own batch was settled. In between other registries have been called. That they
do not change the status is what `Separate` is for, and it also says that a
registry answers alike for all spellings of a module: a module is fetched in the
spelling that occurs first, and asked about in another one.
-/

namespace ModuleGraph

/-- What is to be reported of a module that was handed over as `first`. -/
def Status.report (first : Reference) : Status → Option Failure
  | .available => none
  | .needsRestore _ => some (.restoreOutcomeMissing first.qualified)
  | .failed f => some f

/-- Between the two ledgers, registries were called for these restores, in this order. -/
def Ledger.Calls (l l' : Ledger) (calls : List Inquiry) : Prop :=
  ∃ later, l'.journal = later ++ l.journal ∧ (later.filter Inquiry.isRestore).reverse = calls

namespace Ledger

variable {l l' l'' : Ledger} {first next : List Inquiry}

theorem Notes.calls (h : l.Asks l') : l.Calls l' [] := by
  obtain ⟨later, heq, hall⟩ := h
  refine ⟨later, heq, ?_⟩
  rw [List.reverse_eq_nil_iff, List.filter_eq_nil_iff]
  exact fun i hi => Bool.eq_false_iff.1 (hall i hi)

theorem Calls.trans (h : l.Calls l' first) (h' : l'.Calls l'' next) :
    l.Calls l'' (first ++ next) := by
  obtain ⟨later, heq, rfl⟩ := h
  obtain ⟨later', heq', rfl⟩ := h'
  refine ⟨later' ++ later, by rw [heq', heq, List.append_assoc], ?_⟩
  rw [List.filter_append, List.reverse_append]

end Ledger

namespace Routes

variable {σ : Type} {routes : Routes σ} {w : σ} {l : Ledger} {d : Declaration}
  {ds : List Declaration} {site : Site σ} {id : DeclarationId} {r x : Reference}
  {registry : Registry σ} {errors : List (Reference × RestoreError)} {batch : List Reference}
  {s : Scheme} {schemes : List Scheme} {failures more : List (Reference × Failure)}

/-- The registries answer alike for all spellings of a module, and what one of them answers is
changed by its own restores only. -/
structure Separate (routes : Routes σ) : Prop where
  spelling : ∀ s registry, routes.registry? s = some registry → ∀ w r x, r.same x = true →
    registry.restoreRequired w r = registry.restoreRequired w x
  own : ∀ s registry, routes.registry? s = some registry → ∀ s' registry',
    routes.registry? s' = some registry' → s' ≠ s → ∀ w batch x,
      registry'.restoreRequired (registry.restore w batch).2 x = registry'.restoreRequired w x

/-! ## The failures of a list -/

theorem failureIn?_congr (hsame : r.same x = true) :
    failureIn? failures r = failureIn? failures x := by
  rw [failureIn?, failureIn?]
  simp only [Reference.same, Reference.same_iff.1 hsame]

theorem failureIn?_eq_none (h : ∀ p ∈ failures, p.1.same r = false) :
    failureIn? failures r = none := by
  rw [failureIn?, Option.map_eq_none_iff, List.find?_eq_none]
  intro p hp
  rw [h p hp]
  exact Bool.false_ne_true

theorem failureIn?_append :
    failureIn? (failures ++ more) r = (failureIn? failures r).or (failureIn? more r) := by
  rw [failureIn?, List.find?_append, failureIn?, failureIn?]
  cases failures.find? (·.1.same r) <;> rfl

theorem failureIn?_append_left (h : ∀ p ∈ failures, p.1.same r = false) :
    failureIn? (failures ++ more) r = failureIn? more r := by
  rw [failureIn?_append, failureIn?_eq_none h, Option.none_or]

theorem failureIn?_append_right (h : ∀ p ∈ more, p.1.same r = false) :
    failureIn? (failures ++ more) r = failureIn? failures r := by
  rw [failureIn?_append, failureIn?_eq_none h, Option.or_none]

theorem failureIn?_singleton_self {f : Option Failure} :
    failureIn? (f.toList.map (r, ·)) r = f := by
  cases f with
  | none => rfl
  | some f => simp [failureIn?, Reference.same]

/-- Who claims one module is blamed for just that module's failure. -/
theorem getElem?_blame_eq {claims : List (Reference × DeclarationId)}
    (hclaim : (r, id) ∈ claims) (hone : ∀ r', (r', id) ∈ claims → r' = r) :
    (blame claims failures)[id]? = failureIn? failures r := by
  cases hf : failureIn? failures r with
  | some f => exact getElem?_blame hclaim hone hf
  | none =>
    refine Std.ExtTreeMap.getElem?_eq_none fun hblamed => ?_
    obtain ⟨r', hr', f, hf'⟩ := mem_of_contains_blame (Std.ExtTreeMap.contains_iff_mem.2 hblamed)
    rw [hone r' hr', hf] at hf'
    cases hf'

/-! ## One batch -/

theorem fst_of_mem_settleAll {p : Reference × Failure}
    (hp : p ∈ (settleAll registry w errors l batch).1) : p.1 ∈ batch := by
  induction batch generalizing l with
  | nil => exact absurd hp List.not_mem_nil
  | cons r rs ih =>
    rw [settleAll] at hp
    rcases List.mem_append.1 hp with hp | hp
    · obtain ⟨f, -, rfl⟩ := List.mem_map.1 hp
      exact List.mem_cons_self ..
    · exact List.mem_cons_of_mem r (ih hp)

theorem fst_of_mem_restoreBatch {p : Reference × Failure}
    (hp : p ∈ (routes.restoreBatch s batch site).1) : p.1 ∈ batch := by
  rw [restoreBatch] at hp
  split at hp
  · exact absurd hp List.not_mem_nil
  · split at hp
    · obtain ⟨r, hr, rfl⟩ := List.mem_map.1 hp
      exact hr
    · exact fst_of_mem_settleAll hp

theorem fst_of_mem_restoreSchemes {p : Reference × Failure}
    (hp : p ∈ (routes.restoreSchemes batch site schemes).1) :
    p.1 ∈ batch ∧ p.1.scheme ∈ schemes := by
  induction schemes generalizing site with
  | nil => exact absurd hp List.not_mem_nil
  | cons s rest ih =>
    rw [restoreSchemes] at hp
    rcases List.mem_append.1 hp with hp | hp
    · obtain ⟨hbatch, hscheme⟩ := List.mem_filter.1 (fst_of_mem_restoreBatch hp)
      exact ⟨hbatch, eq_of_beq hscheme ▸ List.mem_cons_self ..⟩
    · exact (ih hp).imp_right (List.mem_cons_of_mem s)

/-- What a registry's module is settled as is its status from then on. -/
theorem settle_report (hreg : routes.registry? r.scheme = some registry)
    (hnone : l.failure? r = none) :
    (settle registry w errors l r).1 =
      (routes.statusOf w (settle registry w errors l r).2 r).1.report r := by
  have hself : r.same r = true := Reference.same_iff.2 rfl
  rw [settle]
  split
  · next e _ =>
    have hf : (l.remember r (e.failureOf r)).failure? r = some (e.failureOf r) := by
      rw [Ledger.failure?_remember, if_pos hself]
    rw [statusOf, hf]
    rfl
  · dsimp only
    split
    · next hrequired =>
      rw [statusOf, Ledger.failure?_note, hnone, hreg]
      dsimp only
      rw [if_pos hrequired]
      rfl
    · next hthere =>
      have hf : ((l.note (.check registry.scheme r)).forgive r).failure? r = none := by
        rw [Ledger.failure?_forgive, if_pos hself]
      rw [statusOf, hf, hreg]
      dsimp only
      rw [if_neg hthere]
      rfl

/-- The status of a module depends on the failure that is remembered of it, and on what its
registry answers. -/
theorem statusOf_congr_world {w' : σ} {l' : Ledger} (hf : l'.failure? r = l.failure? r)
    (hw : ∀ registry, routes.registry? r.scheme = some registry →
      registry.restoreRequired w' r = registry.restoreRequired w r) :
    (routes.statusOf w' l' r).1 = (routes.statusOf w l r).1 := by
  rw [statusOf, statusOf, hf]
  cases l.failure? r with
  | some f => rfl
  | none =>
    cases hreg : routes.registry? r.scheme with
    | none => rfl
    | some registry =>
      dsimp only
      rw [hw registry hreg]

/-- All spellings of a module have one status. -/
theorem report_statusOf_congr (h : routes.Separate) (hsame : r.same x = true) (a : Reference) :
    (routes.statusOf w l r).1.report a = (routes.statusOf w l x).1.report a := by
  rw [statusOf, statusOf, Ledger.failure?_congr (Reference.same_iff.1 hsame),
    Reference.scheme_eq_of_same hsame]
  cases l.failure? x with
  | some f => rfl
  | none =>
    cases hreg : routes.registry? x.scheme with
    | none => rfl
    | some registry =>
      dsimp only
      rw [h.spelling _ registry hreg w r x hsame]
      cases registry.restoreRequired w x <;> rfl

theorem settleAll_report (hreg : ∀ r ∈ batch, routes.registry? r.scheme = some registry)
    (hdistinct : Reference.Distinct batch) (l : Ledger) (hnone : ∀ r ∈ batch, l.failure? r = none) :
    ∀ r ∈ batch, failureIn? (settleAll registry w errors l batch).1 r =
      (routes.statusOf w (settleAll registry w errors l batch).2 r).1.report r := by
  induction batch generalizing l with
  | nil => exact fun r hr => absurd hr List.not_mem_nil
  | cons r rs ih =>
    obtain ⟨hother, hrest⟩ := List.pairwise_cons.1 hdistinct
    have hhead : (settle registry w errors l r).1 =
        (routes.statusOf w (settle registry w errors l r).2 r).1.report r :=
      settle_report (hreg r (List.mem_cons_self ..)) (hnone r (List.mem_cons_self ..))
    have hkeeps : l.Remembers (fun _ => True) [r] (settle registry w errors l r).2 :=
      settle_remembers fun _ _ => trivial
    rw [settleAll]
    generalize settle registry w errors l r = settled at hhead hkeeps ⊢
    obtain ⟨f, l'⟩ := settled
    have hlater : l'.Remembers (fun _ => True) rs (settleAll registry w errors l' rs).2 :=
      settleAll_remembers fun _ _ _ => trivial
    have htail := ih (fun x hx => hreg x (List.mem_cons_of_mem r hx)) hrest l'
      fun x hx => by
        rw [hkeeps.others x fun r' hr' => ?_]
        · exact hnone x (List.mem_cons_of_mem r hx)
        · rw [List.mem_singleton.1 hr']
          exact hother x hx
    intro x hx
    rcases List.mem_cons.1 hx with rfl | hx
    · -- what comes later is about other modules
      have hrs : ∀ r' ∈ rs, r'.same x = false := fun r' hr' => by
        rw [← hother r' hr', Reference.same, Reference.same, Bool.beq_comm]
      rw [failureIn?_append_right fun p hp => hrs p.1 (fst_of_mem_settleAll hp),
        failureIn?_singleton_self, statusOf_congr_world (hlater.others x hrs) fun _ _ => rfl]
      exact hhead
    · rw [failureIn?_append_left fun p hp => ?_]
      · exact htail x hx
      · obtain ⟨f, -, rfl⟩ := List.mem_map.1 hp
        exact hother x hx

theorem restoreBatch_report (routes : Routes σ) (site : Site σ) (hs : ∀ r ∈ batch, r.scheme = s)
    (hdistinct : Reference.Distinct batch) (hnone : ∀ r ∈ batch, site.ledger.failure? r = none) :
    ∀ r ∈ batch, failureIn? (routes.restoreBatch s batch site).1 r =
      (routes.statusOf (routes.restoreBatch s batch site).2.world
        (routes.restoreBatch s batch site).2.ledger r).1.report r := by
  intro r hr
  rw [restoreBatch]
  split
  · next hempty =>
    rw [List.isEmpty_iff.1 hempty] at hr
    cases hr
  · split
    · next hunrouted =>
      have hlisted : failureIn? (batch.map (·, routes.unknown s.name)) r =
          some (routes.unknown s.name) := by
        cases hf : failureIn? (batch.map (·, routes.unknown s.name)) r with
        | none =>
          rw [failureIn?, Option.map_eq_none_iff, List.find?_eq_none] at hf
          refine absurd (Reference.same_iff.2 rfl) (hf (r, _) (List.mem_map.2 ⟨r, hr, rfl⟩))
        | some f =>
          obtain ⟨p, hp, rfl⟩ := Option.map_eq_some_iff.1 hf
          obtain ⟨r', -, rfl⟩ := List.mem_map.1 (List.mem_of_find?_eq_some hp)
          rfl
      rw [hlisted, statusOf, hnone r hr, hs r hr, hunrouted]
      rfl
    · next registry hreg =>
      dsimp only
      exact settleAll_report (fun x hx => by rw [hs x hx, hreg]) hdistinct _
        (fun x hx => by rw [Ledger.failure?_note, hnone x hx]) r hr

/-! ## All schemes -/

theorem restoreBatch_other (h : routes.Separate) (site : Site σ) (hs : ∀ r ∈ batch, r.scheme = s)
    (hx : x.scheme ≠ s) :
    (routes.restoreBatch s batch site).2.ledger.failure? x = site.ledger.failure? x ∧
      (routes.statusOf (routes.restoreBatch s batch site).2.world
        (routes.restoreBatch s batch site).2.ledger x).1 =
          (routes.statusOf site.world site.ledger x).1 := by
  have hother : ∀ r ∈ batch, r.same x = false := fun r hr => by
    rw [Bool.eq_false_iff]
    intro hsame
    rw [← Reference.scheme_eq_of_same hsame, hs r hr] at hx
    exact hx rfl
  have hfailure : (routes.restoreBatch s batch site).2.ledger.failure? x =
      site.ledger.failure? x := (restoreBatch_fetches routes s batch site).ledger.others x hother
  refine ⟨hfailure, statusOf_congr_world hfailure fun registry' hreg' => ?_⟩
  rw [restoreBatch]
  split
  · rfl
  · split
    · rfl
    · next registry hreg => exact h.own s registry hreg _ registry' hreg' hx site.world batch x

/-- Restores of other schemes leave a module as it is. -/
theorem restoreSchemes_other (h : routes.Separate) (site : Site σ) (hx : x.scheme ∉ schemes) :
    (routes.restoreSchemes batch site schemes).2.ledger.failure? x = site.ledger.failure? x ∧
      (routes.statusOf (routes.restoreSchemes batch site schemes).2.world
        (routes.restoreSchemes batch site schemes).2.ledger x).1 =
          (routes.statusOf site.world site.ledger x).1 := by
  induction schemes generalizing site with
  | nil => exact ⟨rfl, rfl⟩
  | cons s rest ih =>
    obtain ⟨hs, hrest⟩ := not_or.1 (mt List.mem_cons.2 hx)
    have hscheme : ∀ r ∈ batch.filter (·.scheme == s), r.scheme = s := fun r hr =>
      eq_of_beq (List.mem_filter.1 hr).2
    obtain ⟨hfailure, hstatus⟩ := restoreBatch_other h site hscheme hs
    obtain ⟨hfailure', hstatus'⟩ :=
      ih (routes.restoreBatch s (batch.filter (·.scheme == s)) site).2 hrest
    rw [restoreSchemes]
    exact ⟨hfailure'.trans hfailure, hstatus'.trans hstatus⟩

theorem restoreSchemes_report (h : routes.Separate) (hschemes : schemes.Nodup)
    (hdistinct : Reference.Distinct batch) (site : Site σ)
    (hnone : ∀ r ∈ batch, r.scheme ∈ schemes → site.ledger.failure? r = none) :
    ∀ r ∈ batch, r.scheme ∈ schemes →
      failureIn? (routes.restoreSchemes batch site schemes).1 r =
        (routes.statusOf (routes.restoreSchemes batch site schemes).2.world
          (routes.restoreSchemes batch site schemes).2.ledger r).1.report r := by
  induction schemes generalizing site with
  | nil => exact fun r _ hr => absurd hr List.not_mem_nil
  | cons s rest ih =>
    obtain ⟨hs, hrest⟩ := List.nodup_cons.1 hschemes
    have hscheme : ∀ r ∈ batch.filter (·.scheme == s), r.scheme = s := fun r hr =>
      eq_of_beq (List.mem_filter.1 hr).2
    have hhead := restoreBatch_report routes site hscheme (hdistinct.filter _) fun r hr =>
        hnone r (List.mem_filter.1 hr).1 (hscheme r hr ▸ List.mem_cons_self ..)
    have htail := ih hrest (routes.restoreBatch s (batch.filter (·.scheme == s)) site).2
      fun r hr hmem => by
        rw [(restoreBatch_other h site hscheme (ne_of_mem_of_not_mem hmem hs)).1]
        exact hnone r hr (List.mem_cons_of_mem s hmem)
    intro r hr hmem
    rw [restoreSchemes]
    by_cases hself : r.scheme = s
    · -- what is restored after it leaves the module as it is
      have hlater : ∀ p ∈ (routes.restoreSchemes batch
          (routes.restoreBatch s (batch.filter (·.scheme == s)) site).2 rest).1,
          p.1.same r = false := fun p hp => by
        rw [Bool.eq_false_iff]
        intro hsame
        refine hs ?_
        rw [← hself, ← Reference.scheme_eq_of_same hsame]
        exact (fst_of_mem_restoreSchemes hp).2
      rw [failureIn?_append_right hlater, (restoreSchemes_other h _ (hself ▸ hs)).2]
      exact hhead r (List.mem_filter.2 ⟨hr, beq_iff_eq.2 hself⟩)
    · rw [failureIn?_append_left fun p hp => ?_]
      · exact htail r hr ((List.mem_cons.1 hmem).resolve_left hself)
      · rw [Bool.eq_false_iff]
        intro hsame
        refine hself ?_
        rw [← Reference.scheme_eq_of_same hsame]
        exact hscheme p.1 (fst_of_mem_restoreBatch hp)

/-! ## Calls -/

/-- The call for the modules of one scheme: there is none if there are no modules, or no
registry. -/
def call? (routes : Routes σ) (batch : List Reference) (s : Scheme) : Option Inquiry :=
  let rs := batch.filter (·.scheme == s)
  if routes.answersFor s && !rs.isEmpty then some (.restore s rs) else none

theorem restoreBatch_calls (routes : Routes σ) (s : Scheme) (batch : List Reference)
    (site : Site σ) :
    site.ledger.Calls (routes.restoreBatch s (batch.filter (·.scheme == s)) site).2.ledger
      (routes.call? batch s).toList := by
  rw [restoreBatch, call?]
  dsimp only
  split
  · next hempty =>
    rw [hempty]
    simpa using Ledger.Notes.refl.calls
  · next hsome =>
    split
    · next hnone =>
      simpa [answersFor, hnone] using Ledger.Notes.refl.calls
    · next registry hreg =>
      have hnote : site.ledger.Calls (site.ledger.note
          (.restore registry.scheme (batch.filter (·.scheme == s))))
          [.restore registry.scheme (batch.filter (·.scheme == s))] := ⟨[_], rfl, rfl⟩
      have hasks : (site.ledger.note (.restore registry.scheme
          (batch.filter (·.scheme == s)))).Asks (settleAll registry
            (registry.restore site.world (batch.filter (·.scheme == s))).2
            (registry.restore site.world (batch.filter (·.scheme == s))).1
            (site.ledger.note (.restore registry.scheme (batch.filter (·.scheme == s))))
            (batch.filter (·.scheme == s))).2 := settleAll_notes fun _ _ => rfl
      have hcalls := hnote.trans hasks.calls
      rw [routes.scheme_eq hreg] at hcalls ⊢
      simpa [answersFor, hreg, hsome] using hcalls

theorem restoreSchemes_calls (routes : Routes σ) (batch : List Reference) (site : Site σ)
    (schemes : List Scheme) :
    site.ledger.Calls (routes.restoreSchemes batch site schemes).2.ledger
      (schemes.filterMap (routes.call? batch)) := by
  induction schemes generalizing site with
  | nil => exact Ledger.Notes.refl.calls
  | cons s rest ih =>
    have hhead := restoreBatch_calls routes s batch site
    have htail := ih (routes.restoreBatch s (batch.filter (·.scheme == s)) site).2
    have hcalls := hhead.trans htail
    rw [restoreSchemes, List.filterMap_cons]
    cases hcall : routes.call? batch s with
    | none => rwa [hcall] at hcalls
    | some call => rwa [hcall] at hcalls

/-! ## References -/

/-- The references of declarations that can be read. -/
def readable (routes : Routes σ) (l : Ledger) (ds : List Declaration) : List Reference :=
  ds.filterMap fun d => (routes.reference l d).1.toOption

/-- Claimed is what the declarations refer to in the end, in their order. -/
theorem map_fst_claims (routes : Routes σ) (l : Ledger) (ds : List Declaration) :
    (routes.claims l ds).1.map (·.1) = routes.readable (routes.claims l ds).2 ds := by
  induction ds generalizing l with
  | nil => rfl
  | cons d ds ih =>
    have hfst := reference_fst routes l d
    have hself := references_reference routes l d d.id
    rw [if_pos rfl, ← hfst] at hself
    have hkeeps : Ledger.Writes routes (· ∈ ds) (routes.reference l d).2
        (routes.claims (routes.reference l d).2 ds).2 := writes_claims fun _ h => h
    have ih := ih (routes.reference l d).2
    rw [claims, readable, List.filterMap_cons]
    generalize routes.reference l d = asked at hself hkeeps ih ⊢
    obtain ⟨x, l'⟩ := asked
    have hlast : (routes.reference (routes.claims l' ds).2 d).1 = x := by
      rw [reference_fst, referenceIn, hkeeps.keeps hself]
      rfl
    dsimp only at ih ⊢
    cases x with
    | error f =>
      dsimp only
      rw [hlast]
      exact ih
    | ok r =>
      dsimp only
      rw [hlast]
      exact congrArg (r :: ·) ih

theorem reference_congr {l' : Ledger} (h : l'.references = l.references) (d : Declaration) :
    (routes.reference l' d).1 = (routes.reference l d).1 := by
  rw [reference_fst, reference_fst, referenceIn, referenceIn, h]

theorem fresh_eq (routes : Routes σ) (site : Site σ) (ds : List Declaration) :
    routes.fresh site.ledger ds =
      ((routes.readable (routes.restore site ds).2.ledger ds).eraseDupsBy Reference.same).filter
        fun r => (site.ledger.failure? r).isNone := by
  rw [fresh, map_fst_claims, distinct_eq_eraseDupsBy, readable, readable]
  simp only [reference_congr (references_restore routes site ds)]

/-! ## The report -/

/-- A module without a remembered failure is handed over, and reported as its status afterwards
says. -/
theorem restore_of_no_failure (h : routes.Separate) (hd : d ∈ ds)
    (href : (routes.restore site ds).2.ledger.references[d.id]? = some (.ok r))
    (hnone : site.ledger.failure? r = none) :
    ∃ first ∈ routes.fresh site.ledger ds, first.same r = true ∧
      (routes.restore site ds).1[d.id]? = (routes.statusOf (routes.restore site ds).2.world
        (routes.restore site ds).2.ledger r).1.report first := by
  rw [references_restore] at href
  obtain ⟨first, hfirst, hsame⟩ := exists_mem_fresh hd href hnone
  have hclaim : (r, d.id) ∈ (routes.claims site.ledger ds).1 :=
    mem_claims_iff.2 ⟨⟨d, hd, rfl⟩, href⟩
  -- no failure is known of it beforehand
  have hunknown : ∀ p ∈ (distinct ((routes.claims site.ledger ds).1.map (·.1))).filterMap
      (fun r => (site.ledger.failure? r).map (r, ·)), p.1.same r = false := fun p hp => by
    obtain ⟨s, -, hs⟩ := List.mem_filterMap.1 hp
    obtain ⟨f, hf, rfl⟩ := Option.map_eq_some_iff.1 hs
    rw [Bool.eq_false_iff]
    intro hsame
    rw [Ledger.failure?_congr (Reference.same_iff.1 hsame), hnone] at hf
    cases hf
  have hreport := restoreSchemes_report h (by decide : Scheme.all.Nodup)
    ((distinct_distinct _).filter _) ⟨site.world, (routes.claims site.ledger ds).2⟩
    (fun x hx _ => (failure?_of_failures_eq failures_claims x).trans (mem_fresh_iff.1 hx).2)
    first hfirst (Scheme.mem_all _)
  refine ⟨first, hfirst, hsame, ?_⟩
  rw [restore_fst, restore_snd, getElem?_blame_eq hclaim fun _ => eq_of_mem_claims hclaim,
    failureIn?_append_left hunknown, ← failureIn?_congr hsame, ← report_statusOf_congr h hsame]
  exact hreport

/-- The references of one scheme that declarations write, as the ledger has them, each module once
in the spelling that occurs first, without those with a failure that is remembered before. -/
def handed (routes : Routes σ) (before : Ledger) (l : Ledger) (ds : List Declaration)
    (s : Scheme) : List Reference :=
  ((routes.readable l ds).eraseDupsBy Reference.same).filter fun r =>
    r.scheme == s && (before.failure? r).isNone

/-- The report of a restore agrees with what is there afterwards, and with what registries were
called for, in the journal and on record. -/
structure Reported (routes : Routes σ) (ds : List Declaration) (site : Site σ)
    (reported : FailureMap) (site' : Site σ) : Prop where
  owned : ∀ id ∈ reported, ∃ d ∈ ds, d.id = id ∧
    ∃ r, (routes.reference site'.ledger d).1 = .ok r
  unavailable : ∀ d ∈ ds, ∀ r, (routes.reference site'.ledger d).1 = .ok r →
    (d.id ∈ reported ↔ (routes.status site'.world site'.ledger d).1 ≠ .available)
  failed : ∀ d ∈ ds, ∀ r, (routes.reference site'.ledger d).1 = .ok r →
    ∀ f, (routes.status site'.world site'.ledger d).1 = .failed f → reported[d.id]? = some f
  missing : ∀ d ∈ ds, ∀ r, (routes.status site'.world site'.ledger d).1 = .needsRestore r →
    ∃ first ∈ routes.handed site.ledger site'.ledger ds r.scheme, first.same r = true ∧
      reported[d.id]? = some (.restoreOutcomeMissing first.qualified)
  called : site.ledger.Calls site'.ledger (Scheme.all.filterMap fun s =>
    let rs := routes.handed site.ledger site'.ledger ds s
    if routes.answersFor s && !rs.isEmpty then some (.restore s rs) else none)
  recorded : routes.recording.restore site.recorded ds = (reported, site'.recorded)

theorem filter_fresh (routes : Routes σ) (site : Site σ) (ds : List Declaration) (s : Scheme) :
    (routes.fresh site.ledger ds).filter (·.scheme == s) =
      routes.handed site.ledger (routes.restore site ds).2.ledger ds s := by
  rw [fresh_eq, List.filter_filter, handed]

/-- Whoever has a reference is reported as its status afterwards says. -/
theorem exists_report (h : routes.Separate) (hd : d ∈ ds)
    (href : (routes.reference (routes.restore site ds).2.ledger d).1 = .ok r) :
    ∃ first, (routes.restore site ds).1[d.id]? =
        (routes.status (routes.restore site ds).2.world
          (routes.restore site ds).2.ledger d).1.report first ∧
      ((routes.restore site ds).2.ledger.failure? r = none →
        first.same r = true ∧ first ∈ routes.fresh site.ledger ds) := by
  have hwritten := written_restore hd href
  rw [reference_fst] at href
  rw [status_fst]
  cases hf : site.ledger.failure? r with
  | some f =>
    have hkept := (restore_restores routes site ds).keeps r f hf
    refine ⟨r, ?_, fun hnone => ?_⟩
    · rw [restore_of_failure hd hwritten hf, statusIn_of_failure href hkept]
      rfl
    · rw [hkept] at hnone
      cases hnone
  | none =>
    obtain ⟨first, hfirst, hsame, heq⟩ := restore_of_no_failure h hd hwritten hf
    refine ⟨first, ?_, fun _ => ⟨hsame, hfirst⟩⟩
    rw [heq, statusIn, href]

/-- Whatever the ledger remembers, and whatever the declarations are: a restore with such
registries reports exactly what is not available afterwards. -/
theorem restore_reported (h : routes.Separate) (site : Site σ) (ds : List Declaration) :
    routes.Reported ds site (routes.restore site ds).1 (routes.restore site ds).2 := by
  constructor
  case owned =>
    intro id hid
    rw [restore_fst, ← Std.ExtTreeMap.contains_iff_mem] at hid
    obtain ⟨r, hclaim, -⟩ := mem_of_contains_blame hid
    obtain ⟨⟨d, hd, rfl⟩, href⟩ := mem_claims_iff.1 hclaim
    refine ⟨d, hd, rfl, r, ?_⟩
    rw [reference_fst, referenceIn, references_restore, href]
    rfl
  case unavailable =>
    intro d hd r href
    obtain ⟨first, heq, -⟩ := exists_report h hd href
    rw [← Std.ExtTreeMap.isSome_getElem?_iff_mem, heq]
    cases (routes.status (routes.restore site ds).2.world (routes.restore site ds).2.ledger d).1 <;>
      simp [Status.report]
  case failed =>
    intro d hd r href f hstatus
    obtain ⟨first, heq, -⟩ := exists_report h hd href
    rw [heq, hstatus]
    rfl
  case missing =>
    intro d hd r hstatus
    obtain ⟨href, hnone, -⟩ := of_needsRestore ((status_fst ..).symm.trans hstatus)
    rw [← reference_fst] at href
    obtain ⟨first, heq, hfirst⟩ := exists_report h hd href
    obtain ⟨hsame, hfresh⟩ := hfirst hnone
    refine ⟨first, ?_, hsame, ?_⟩
    · rw [← filter_fresh, ← Reference.scheme_eq_of_same hsame]
      exact List.mem_filter.2 ⟨hfresh, beq_self_eq_true _⟩
    · rw [heq, hstatus]
      rfl
  case called =>
    have hasked : site.ledger.Asks (routes.claims site.ledger ds).2 := .of_eq (journal_claims ..)
    have hcalls := hasked.calls.trans (restoreSchemes_calls routes (routes.fresh site.ledger ds)
      ⟨site.world, (routes.claims site.ledger ds).2⟩ Scheme.all)
    rw [← restore_snd, List.nil_append] at hcalls
    have hbatches : routes.call? (routes.fresh site.ledger ds) = fun s =>
        let rs := routes.handed site.ledger (routes.restore site ds).2.ledger ds s
        if routes.answersFor s && !rs.isEmpty then some (.restore s rs) else none := by
      funext s
      rw [call?, filter_fresh]
    rwa [hbatches] at hcalls
  case recorded => exact restore_recording routes site ds

end Routes

namespace Sample

/-- The registry reports one module, loses another one, and fetches the others. -/
def loft : Registry (List Reference) where
  scheme := .nuget
  restoreRequired w r := !w.contains r.canonical
  entryPoint _ _ _ := .ok part
  restore w rs := ((rs.filter (·.same hollow)).map (·, .notFound "a"),
    (rs.filter fun r => !r.same hollow && !r.same whole).map Reference.canonical ++ w)

def house : Routes (List Reference) := .ofList [.relative, loft]

theorem separate_house : house.Separate := by
  have hcases : ∀ s registry, house.registry? s = some registry →
      registry = .relative ∨ registry = loft := fun s registry hreg => by
    simpa using Routes.mem_of_registry?_ofList hreg
  constructor
  · intro s registry hreg w r x hsame
    rcases hcases s registry hreg with rfl | rfl
    · rfl
    · simp only [loft, Reference.same_iff.1 hsame]
  · intro s registry hreg s' registry' hreg' hne w batch x
    rcases hcases s' registry' hreg' with rfl | rfl
    · rfl
    · -- the other registry is the one of paths, which changes nothing
      rcases hcases s registry hreg with rfl | rfl
      · rfl
      · exact absurd ((house.scheme_eq hreg').symm.trans (house.scheme_eq hreg)) hne

/-- Declarations of all kinds, with a module in two spellings, of a file whose text is left open. -/
def motley : List Declaration :=
  declarationsOf main ⟨"d1"⟩ (["nuget:a@1", "nuget:b@1", "nuget:B@1", "nuget:d@1", "./part.cfg",
    "ftp:g"].map fun path => ⟨path, .ok path, default⟩)

/-- Three of the declarations are reported, and two registries are called once each, as they put
on record. -/
theorem restore_reported_motley :
    house.Separate ∧
      house.Reported motley ⟨[], .empty⟩ (house.restore ⟨[], .empty⟩ motley).1
        (house.restore ⟨[], .empty⟩ motley).2 ∧
      (house.restore ⟨[], .empty⟩ motley).1.size = 3 ∧
      ((house.restore ⟨[], .empty⟩ motley).2.ledger.journal.filter Inquiry.isRestore).length = 2 ∧
      (house.recording.restore ⟨([], []), .empty⟩ motley).2.world.2 =
        (house.restore ⟨[], .empty⟩ motley).2.ledger.batches := by
  have hreported := Routes.restore_reported separate_house ⟨[], .empty⟩ motley
  -- the two counts are evaluated together, as each needs the whole restore
  have hcounts : (house.restore ⟨[], .empty⟩ motley).1.size = 3 ∧
      ((house.restore ⟨[], .empty⟩ motley).2.ledger.journal.filter
        Inquiry.isRestore).length = 2 := by
    decide +kernel
  exact ⟨separate_house, hreported, hcounts.1, hcounts.2,
    congrArg (fun restored => restored.2.world.2) hreported.recorded⟩

end Sample

end ModuleGraph
