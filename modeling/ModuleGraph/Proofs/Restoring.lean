import ModuleGraph.Proofs.Asking
import ModuleGraph.Proofs.FirstOccurrences

/-!
# What a restore changes

A restore asks for references, which writes them down, and hands them to
registries in batches. This file says what is left of the site it started from:
references that were written down stay as they are, and so do failures that were
remembered. A failure that was not there before is one that a registry has
reported. The world has grown by what registries fetched, and they fetched
nothing but references that are written down.
-/

namespace ModuleGraph

variable {σ : Type} {routes : Routes σ} {world w w' : σ} {l l' l'' : Ledger}
  {d : Declaration} {ds : List Declaration} {id : DeclarationId} {r s : Reference}
  {registry : Registry σ} {batch : List Reference} {site : Site σ}

/-! ## The memo -/

/-- The second ledger has the references of the first one, and the references
that some more declarations write. -/
def Ledger.Writes (routes : Routes σ) (p : Declaration → Prop) (l l' : Ledger) : Prop :=
  ∀ id : DeclarationId, l'.references[id]? = l.references[id]? ∨
    l.references[id]? = none ∧ ∃ d, p d ∧ d.id = id ∧ l'.references[id]? = some (routes.read d)

namespace Ledger.Writes

variable {p q : Declaration → Prop}

theorem of_eq (h : l'.references = l.references) : Writes routes p l l' :=
  fun id => .inl (by rw [h])

theorem mono (h : Writes routes p l l') (hpq : ∀ d, p d → q d) : Writes routes q l l' :=
  fun id => (h id).imp_right fun ⟨hnone, d, hd, hid⟩ => ⟨hnone, d, hpq d hd, hid⟩

theorem trans (h : Writes routes p l l') (h' : Writes routes p l' l'') :
    Writes routes p l l'' := by
  intro id
  rcases h' id with heq | ⟨hnone, hnew⟩
  · rw [heq]
    exact h id
  · rcases h id with heq | ⟨-, d, -, -, hsome⟩
    · exact .inr ⟨heq ▸ hnone, hnew⟩
    · rw [hnone] at hsome
      cases hsome

/-- What is written down was there before, or a declaration has written it. -/
theorem old_or_read (h : Writes routes p l l') {x : Except Failure Reference}
    (hx : l'.references[id]? = some x) :
    l.references[id]? = some x ∨ ∃ d, p d ∧ d.id = id ∧ routes.read d = x := by
  rcases h id with heq | ⟨-, d, hd, hid, hnew⟩
  · exact .inl (heq ▸ hx)
  · rw [hnew] at hx
    exact .inr ⟨d, hd, hid, Option.some.inj hx⟩

theorem keeps (h : Writes routes p l l') {x : Except Failure Reference}
    (hx : l.references[id]? = some x) : l'.references[id]? = some x := by
  rcases h id with heq | ⟨hnone, -⟩
  · rw [heq, hx]
  · rw [hnone] at hx
    cases hx

end Ledger.Writes

namespace Routes

theorem writes_reference {p : Declaration → Prop} (hd : p d) :
    l.Writes routes p (routes.reference l d).2 := by
  intro id
  rw [references_reference]
  split
  · next hid =>
    subst hid
    rw [referenceIn]
    cases h : l.references[d.id]? with
    | none => exact .inr ⟨rfl, d, hd, rfl, rfl⟩
    | some x => exact .inl rfl
  · exact .inl rfl

theorem writes_claims {p : Declaration → Prop} (hp : ∀ d ∈ ds, p d) :
    l.Writes routes p (routes.claims l ds).2 := by
  induction ds generalizing l with
  | nil => exact .of_eq rfl
  | cons d ds ih =>
    have hhead : l.Writes routes p (routes.reference l d).2 :=
      writes_reference (hp d (List.mem_cons_self ..))
    have htail := ih (l := (routes.reference l d).2) fun e he =>
      hp e (List.mem_cons_of_mem d he)
    rw [claims]
    generalize routes.reference l d = asked at hhead htail ⊢
    obtain ⟨x, l'⟩ := asked
    dsimp only at htail ⊢
    cases x <;> exact hhead.trans htail

@[simp] theorem failures_claims : (routes.claims l ds).2.failures = l.failures := by
  induction ds generalizing l with
  | nil => rfl
  | cons d ds ih =>
    have hhead := failures_reference routes l d
    rw [claims]
    generalize routes.reference l d = asked at hhead ⊢
    obtain ⟨x, l'⟩ := asked
    dsimp only at hhead ⊢
    cases x <;> exact ih.trans hhead

/-- What is asked for is written down in the end. -/
theorem written_claims (routes : Routes σ) (l : Ledger) (hd : d ∈ ds) :
    ∃ x, (routes.claims l ds).2.references[d.id]? = some x := by
  induction ds generalizing l with
  | nil => cases hd
  | cons e ds ih =>
    have hself := references_reference routes l e e.id
    rw [if_pos rfl] at hself
    have hkeeps : Ledger.Writes routes (· ∈ ds) (routes.reference l e).2
        (routes.claims (routes.reference l e).2 ds).2 := writes_claims fun _ h => h
    have hwritten : ∃ x, (routes.claims (routes.reference l e).2 ds).2.references[d.id]? =
        some x := by
      rcases List.mem_cons.1 hd with rfl | hd
      · exact ⟨_, hkeeps.keeps hself⟩
      · exact ih _ hd
    rw [claims]
    generalize routes.reference l e = asked at hwritten ⊢
    obtain ⟨x, l'⟩ := asked
    cases x <;> exact hwritten

/-- Claimed are the modules of references that can be read, each as it is written
down in the end. -/
theorem mem_claims_iff : (r, id) ∈ (routes.claims l ds).1 ↔
    (∃ d ∈ ds, d.id = id) ∧ (routes.claims l ds).2.references[id]? = some (.ok r) := by
  induction ds generalizing l with
  | nil => simp [claims]
  | cons d ds ih =>
    have hfst := reference_fst routes l d
    have hself := references_reference routes l d d.id
    rw [if_pos rfl, ← hfst] at hself
    have hkeeps : Ledger.Writes routes (· ∈ ds) (routes.reference l d).2
        (routes.claims (routes.reference l d).2 ds).2 := writes_claims fun _ h => h
    have ih := ih (l := (routes.reference l d).2)
    rw [claims]
    generalize routes.reference l d = asked at hself hkeeps ih ⊢
    obtain ⟨x, l'⟩ := asked
    have hhead := hkeeps.keeps hself
    dsimp only at hhead ih ⊢
    simp only [List.mem_cons, exists_eq_or_imp]
    cases x with
    | error f =>
      dsimp only
      rw [ih]
      refine and_congr_left fun href => (or_iff_right fun hid => ?_).symm
      rw [← hid, hhead] at href
      cases href
    | ok r' =>
      dsimp only
      rw [List.mem_cons, ih, Prod.mk.injEq, or_and_right]
      refine or_congr_left ⟨fun ⟨hr, hid⟩ => ?_, fun ⟨hid, href⟩ => ?_⟩
      · rw [hr, hid]
        exact ⟨rfl, hhead⟩
      · rw [← hid, hhead] at href
        cases href
        exact ⟨rfl, hid.symm⟩

/-- Every id claims one module. -/
theorem eq_of_mem_claims (h : (r, id) ∈ (routes.claims l ds).1)
    (h' : (s, id) ∈ (routes.claims l ds).1) : s = r := by
  have href := (mem_claims_iff.1 h).2
  have href' := (mem_claims_iff.1 h').2
  rw [href] at href'
  cases href'
  rfl

end Routes

/-! ## The remembered failures -/

/-- The second ledger differs from the first one in its journal and in failures
of the batch, and a failure that is new there has the property. -/
structure Ledger.Remembers (q : Failure → Prop) (batch : List Reference) (l l' : Ledger) :
    Prop where
  references : l'.references = l.references
  others : ∀ s, (∀ r ∈ batch, r.same s = false) → l'.failure? s = l.failure? s
  failed : ∀ s f, l'.failure? s = some f → l.failure? s = some f ∨ q f

namespace Ledger.Remembers

variable {q : Failure → Prop} {more : List Reference}

theorem refl : Remembers q batch l l :=
  ⟨rfl, fun _ _ => rfl, fun _ _ => .inl⟩

theorem mono (h : Remembers q batch l l') (hsub : ∀ r ∈ batch, r ∈ more) :
    Remembers q more l l' :=
  ⟨h.references, fun s hs => h.others s fun r hr => hs r (hsub r hr), h.failed⟩

theorem trans (h : Remembers q batch l l') (h' : Remembers q batch l' l'') :
    Remembers q batch l l'' where
  references := h'.references.trans h.references
  others s hs := (h'.others s hs).trans (h.others s hs)
  failed s f hf := (h'.failed s f hf).elim (h.failed s f) .inr

end Ledger.Remembers

namespace Routes

variable {errors : List (Reference × RestoreError)} {q : Failure → Prop}

theorem settle_remembers (hq : ∀ p ∈ errors, q (p.2.failureOf r)) :
    l.Remembers q [r] (settle registry w errors l r).2 := by
  have hself : ∀ {s}, (∀ r' ∈ [r], r'.same s = false) → r.same s = false :=
    fun hs => hs r (List.mem_singleton_self r)
  rw [settle]
  split
  · next e he =>
    refine ⟨rfl, fun s hs => ?_, fun s f hf => ?_⟩
    · rw [Ledger.failure?_remember, hself hs]
      rfl
    · rw [Ledger.failure?_remember] at hf
      split at hf
      · cases hf
        exact .inr (hq _ (List.mem_of_find?_eq_some he))
      · exact .inl hf
  · dsimp only
    split
    · exact ⟨rfl, fun _ _ => rfl, fun _ _ => .inl⟩
    · refine ⟨rfl, fun s hs => ?_, fun s f hf => ?_⟩
      · rw [Ledger.failure?_forgive, hself hs]
        rfl
      · rw [Ledger.failure?_forgive] at hf
        split at hf
        · cases hf
        · exact .inl hf

theorem settleAll_remembers (hq : ∀ p ∈ errors, ∀ r, q (p.2.failureOf r)) :
    l.Remembers q batch (settleAll registry w errors l batch).2 := by
  induction batch generalizing l with
  | nil => exact .refl
  | cons r rs ih =>
    have hhead : l.Remembers q [r] (settle registry w errors l r).2 :=
      settle_remembers fun p hp => hq p hp r
    rw [settleAll]
    generalize settle registry w errors l r = settled at hhead ⊢
    obtain ⟨f, l'⟩ := settled
    exact (hhead.mono (by simp)).trans (ih.mono fun r' hr' => List.mem_cons_of_mem r hr')

/-! ## The world -/

/-- The worlds that fetching some references leads to. -/
inductive Grown (routes : Routes σ) (batch : List Reference) (w : σ) : σ → Prop where
  | refl : Grown routes batch w w
  | restore {w' : σ} {s : Scheme} {registry : Registry σ} {rs : List Reference}
      (h : Grown routes batch w w') (hreg : routes.registry? s = some registry)
      (hrs : ∀ r ∈ rs, r ∈ batch) : Grown routes batch w (registry.restore w' rs).2

theorem Grown.mono {more : List Reference} (h : routes.Grown batch w w')
    (hsub : ∀ r ∈ batch, r ∈ more) : routes.Grown more w w' := by
  induction h with
  | refl => exact .refl
  | restore _ hreg hrs ih => exact .restore ih hreg fun r hr => hsub r (hrs r hr)

theorem Grown.trans {w'' : σ} (h : routes.Grown batch w w') (h' : routes.Grown batch w' w'') :
    routes.Grown batch w w'' := by
  induction h' with
  | refl => exact h
  | restore _ hreg hrs ih => exact .restore ih hreg hrs

/-- The failure is one that a registry reports. -/
def Reports (routes : Routes σ) (f : Failure) : Prop :=
  ∃ (s : Scheme) (registry : Registry σ) (w : σ) (rs : List Reference),
    routes.registry? s = some registry ∧
      ∃ p ∈ (registry.restore w rs).1, ∃ r, f = p.2.failureOf r

/-! ## Restoring -/

/-- What fetching a batch does to a site. -/
structure Fetches (routes : Routes σ) (batch : List Reference) (site site' : Site σ) :
    Prop where
  world : routes.Grown batch site.world site'.world
  ledger : site.ledger.Remembers routes.Reports batch site'.ledger

theorem restoreBatch_fetches (routes : Routes σ) (s : Scheme) (batch : List Reference)
    (site : Site σ) :
    routes.Fetches batch site (routes.restoreBatch s batch site).2 := by
  rw [restoreBatch]
  split
  · exact ⟨.refl, .refl⟩
  · split
    · exact ⟨.refl, .refl⟩
    · next registry hreg =>
      refine ⟨.restore .refl hreg fun _ => id, ?_⟩
      have hsettled : Ledger.Remembers routes.Reports batch
          (site.ledger.note (.restore registry.scheme batch))
          (settleAll registry (registry.restore site.world batch).2
            (registry.restore site.world batch).1
            (site.ledger.note (.restore registry.scheme batch)) batch).2 :=
        settleAll_remembers fun p hp r => ⟨s, registry, site.world, batch, hreg, p, hp, r, rfl⟩
      exact ⟨hsettled.references, hsettled.others, hsettled.failed⟩

theorem restoreSchemes_fetches (routes : Routes σ) (batch : List Reference) (site : Site σ)
    (schemes : List Scheme) :
    routes.Fetches batch site (routes.restoreSchemes batch site schemes).2 := by
  induction schemes generalizing site with
  | nil => exact ⟨.refl, .refl⟩
  | cons s rest ih =>
    have hhead := restoreBatch_fetches routes s (batch.filter (·.scheme == s)) site
    rw [restoreSchemes]
    generalize routes.restoreBatch s (batch.filter (·.scheme == s)) site = first at hhead ⊢
    obtain ⟨failures, site₁⟩ := first
    have hsub : ∀ r ∈ batch.filter (·.scheme == s), r ∈ batch := fun r hr =>
      (List.mem_filter.1 hr).1
    have htail := ih site₁
    exact ⟨(hhead.world.mono hsub).trans htail.world,
      (hhead.ledger.mono hsub).trans htail.ledger⟩

/-! ## The failures of a restore -/

/-- How fetching some modules can fail. -/
inductive Fails (routes : Routes σ) (batch : List Reference) : Failure → Prop where
  | reported {f : Failure} (h : routes.Reports f) : Fails routes batch f
  | missing (r : Reference) : Fails routes batch (.restoreOutcomeMissing r.qualified)
  | unrouted {r : Reference} (hr : r ∈ batch) (hnone : routes.registry? r.scheme = none) :
    Fails routes batch (routes.unknown r.scheme.name)

theorem Fails.mono {more : List Reference} {f : Failure} (h : routes.Fails batch f)
    (hsub : ∀ r ∈ batch, r ∈ more) : routes.Fails more f := by
  cases h with
  | reported h => exact .reported h
  | missing r => exact .missing r
  | unrouted hr hnone => exact .unrouted (hsub _ hr) hnone

theorem settle_fails {f : Failure} (hreported : ∀ p ∈ errors, routes.Reports (p.2.failureOf r))
    (h : (settle registry w errors l r).1 = some f) : routes.Fails batch f := by
  rw [settle] at h
  split at h
  · next he =>
    cases h
    exact .reported (hreported _ (List.mem_of_find?_eq_some he))
  · dsimp only at h
    split at h
    · cases h
      exact .missing r
    · cases h

theorem settleAll_fails {rs : List Reference} {p : Reference × Failure}
    (hreported : ∀ p ∈ errors, ∀ r, routes.Reports (p.2.failureOf r))
    (h : p ∈ (settleAll registry w errors l rs).1) : routes.Fails batch p.2 := by
  induction rs generalizing l with
  | nil => cases h
  | cons r rs ih =>
    have hhead : ∀ f, (settle registry w errors l r).1 = some f → routes.Fails batch f :=
      fun f => settle_fails fun p hp => hreported p hp r
    rw [settleAll] at h
    generalize settle registry w errors l r = settled at hhead h
    obtain ⟨failed, l'⟩ := settled
    rcases List.mem_append.1 h with h | h
    · obtain ⟨f, hf, rfl⟩ := List.mem_map.1 h
      exact hhead f (Option.mem_toList.1 hf)
    · exact ih h

theorem restoreBatch_fails {p : Reference × Failure} {s : Scheme}
    (hs : ∀ r ∈ batch, r.scheme = s) (h : p ∈ (routes.restoreBatch s batch site).1) :
    routes.Fails batch p.2 := by
  rw [restoreBatch] at h
  split at h
  · cases h
  · split at h
    · next hnone =>
      obtain ⟨r, hr, rfl⟩ := List.mem_map.1 h
      obtain rfl := hs r hr
      exact .unrouted hr hnone
    · next registry hreg =>
      exact settleAll_fails
        (fun p hp r => ⟨s, registry, site.world, batch, hreg, p, hp, r, rfl⟩) h

theorem restoreSchemes_fails {p : Reference × Failure} {schemes : List Scheme}
    (h : p ∈ (routes.restoreSchemes batch site schemes).1) : routes.Fails batch p.2 := by
  induction schemes generalizing site with
  | nil => cases h
  | cons s schemes ih =>
    rw [restoreSchemes] at h
    rcases List.mem_append.1 h with h | h
    · exact (restoreBatch_fails (fun r hr => by simpa using (List.mem_filter.1 hr).2) h).mono
        fun r hr => (List.mem_filter.1 hr).1
    · exact ih h

/-- Blamed is only who claims a module with a failure, and for that failure. -/
theorem of_getElem?_blame {claims : List (Reference × DeclarationId)}
    {failures : List (Reference × Failure)} {f : Failure}
    (h : (blame claims failures)[id]? = some f) :
    ∃ r, (r, id) ∈ claims ∧ failureIn? failures r = some f := by
  revert h
  refine List.foldlRecOn (motive := fun m : FailureMap => m[id]? = some f →
    ∃ r, (r, id) ∈ claims ∧ failureIn? failures r = some f) claims _ ?_ fun m ih p hp hm => ?_
  · rw [Std.ExtTreeMap.getElem?_empty]
    exact nofun
  · dsimp only at hm
    split at hm
    · next g hg =>
      rw [Std.ExtTreeMap.getElem?_insert] at hm
      split at hm
      · next hid =>
        cases hm
        exact ⟨p.1, Std.LawfulEqCmp.compare_eq_iff_eq.1 hid ▸ hp, hg⟩
      · exact ih hm
    · exact ih hm

theorem mem_of_contains_blame {claims : List (Reference × DeclarationId)}
    {failures : List (Reference × Failure)} (h : (blame claims failures).contains id = true) :
    ∃ r, (r, id) ∈ claims ∧ ∃ f, failureIn? failures r = some f := by
  rw [← Std.ExtTreeMap.isSome_getElem?_eq_contains, Option.isSome_iff_exists] at h
  obtain ⟨f, hf⟩ := h
  obtain ⟨r, hr, hfailure⟩ := of_getElem?_blame hf
  exact ⟨r, hr, f, hfailure⟩

/-- The last claim of an id decides, and what is there already is kept when it is the same. -/
theorem getElem?_foldl_blame {claims : List (Reference × DeclarationId)}
    {failures : List (Reference × Failure)} {f : Failure} {m : FailureMap}
    (hm : (r, id) ∈ claims ∨ m[id]? = some f) (hone : ∀ r', (r', id) ∈ claims → r' = r)
    (hf : failureIn? failures r = some f) :
    (claims.foldl (fun m (r, id) =>
      match failureIn? failures r with
      | some f => m.insert id f
      | none => m) m)[id]? = some f := by
  induction claims generalizing m with
  | nil => exact hm.resolve_left List.not_mem_nil
  | cons p claims ih =>
    obtain ⟨r', id'⟩ := p
    refine ih ?_ fun r' hr' => hone r' (List.mem_cons_of_mem _ hr')
    by_cases hid : id' = id
    · subst hid
      obtain rfl := hone r' (List.mem_cons_self ..)
      simp [hf]
    · refine hm.imp (fun hr => ?_) fun hm => ?_
      · exact (List.mem_cons.1 hr).resolve_left fun h => hid (Prod.mk.inj h).2.symm
      · dsimp only
        split
        · rw [Std.ExtTreeMap.getElem?_insert, if_neg]
          · exact hm
          · rwa [Std.LawfulEqCmp.compare_eq_iff_eq]
        · exact hm

/-- A declaration is blamed for the failure of the module that it claims. -/
theorem getElem?_blame {claims : List (Reference × DeclarationId)}
    {failures : List (Reference × Failure)} {f : Failure}
    (hclaim : (r, id) ∈ claims) (hone : ∀ r', (r', id) ∈ claims → r' = r)
    (hf : failureIn? failures r = some f) : (blame claims failures)[id]? = some f :=
  getElem?_foldl_blame (.inl hclaim) hone hf

/-- What restoring the modules of declarations does to a site, and for which
declarations it reports failures. -/
structure Restores (routes : Routes σ) (ds : List Declaration) (site : Site σ)
    (reported : FailureMap) (site' : Site σ) : Prop where
  reported : ∀ id, reported.contains id = true → ∃ d ∈ ds, d.id = id
  fetched : ∃ batch, routes.Grown batch site.world site'.world ∧
    ∀ r ∈ batch, ∃ id : DeclarationId, site'.ledger.references[id]? = some (.ok r)
  writes : site.ledger.Writes routes (· ∈ ds) site'.ledger
  keeps : ∀ r f, site.ledger.failure? r = some f → site'.ledger.failure? r = some f
  failed : ∀ r f, site'.ledger.failure? r = some f →
    site.ledger.failure? r = some f ∨ routes.Reports f

/-- The modules that a restore of declarations is to fetch. -/
def fresh (routes : Routes σ) (l : Ledger) (ds : List Declaration) : List Reference :=
  (distinct ((routes.claims l ds).1.map (·.1))).filter fun r => (l.failure? r).isNone

theorem mem_fresh_iff : r ∈ routes.fresh l ds ↔
    r ∈ distinct ((routes.claims l ds).1.map (·.1)) ∧ l.failure? r = none := by
  rw [fresh, List.mem_filter, Option.isNone_iff_eq_none]

/-- What is to be fetched is what some of the declarations refer to. -/
theorem of_mem_fresh (h : r ∈ routes.fresh l ds) : l.failure? r = none ∧ ∃ d ∈ ds,
    (routes.claims l ds).2.references[d.id]? = some (.ok r) := by
  obtain ⟨hr, hnone⟩ := mem_fresh_iff.1 h
  obtain ⟨⟨_, id⟩, hp, rfl⟩ := List.mem_map.1 (mem_of_mem_distinct hr)
  obtain ⟨⟨d, hd, rfl⟩, href⟩ := mem_claims_iff.1 hp
  exact ⟨hnone, d, hd, href⟩

/-- What some of the declarations refer to is to be fetched in some spelling, unless there is a
failure remembered. -/
theorem exists_mem_fresh (hd : d ∈ ds)
    (hr : (routes.claims l ds).2.references[d.id]? = some (.ok r)) (hnone : l.failure? r = none) :
    ∃ r' ∈ routes.fresh l ds, r'.same r = true := by
  have hclaim : r ∈ (routes.claims l ds).1.map (·.1) :=
    List.mem_map.2 ⟨(r, d.id), mem_claims_iff.2 ⟨⟨d, hd, rfl⟩, hr⟩, rfl⟩
  obtain ⟨r', hr', hsame⟩ := exists_mem_distinct hclaim
  refine ⟨r', mem_fresh_iff.2 ⟨hr', ?_⟩, hsame⟩
  rw [← hnone]
  exact Ledger.failure?_congr (Reference.same_iff.1 hsame)

theorem restore_fst (routes : Routes σ) (site : Site σ) (ds : List Declaration) :
    (routes.restore site ds).1 = blame (routes.claims site.ledger ds).1
      ((distinct ((routes.claims site.ledger ds).1.map (·.1))).filterMap
          (fun r => (site.ledger.failure? r).map (r, ·)) ++
        (routes.restoreSchemes (routes.fresh site.ledger ds)
          ⟨site.world, (routes.claims site.ledger ds).2⟩ Scheme.all).1) := by
  have hfailure (r : Reference) : (routes.claims site.ledger ds).2.failure? r =
      site.ledger.failure? r := failure?_of_failures_eq failures_claims r
  rw [restore, fresh]
  simp only [hfailure]

theorem restore_snd (routes : Routes σ) (site : Site σ) (ds : List Declaration) :
    (routes.restore site ds).2 = (routes.restoreSchemes (routes.fresh site.ledger ds)
      ⟨site.world, (routes.claims site.ledger ds).2⟩ Scheme.all).2 := by
  have hfailure (r : Reference) : (routes.claims site.ledger ds).2.failure? r =
      site.ledger.failure? r := failure?_of_failures_eq failures_claims r
  rw [restore, fresh]
  simp only [hfailure]

/-- A failure that a restore reports was remembered before, or comes of fetching. -/
theorem restore_fails {f : Failure} (h : (routes.restore site ds).1[id]? = some f) :
    (∃ r, site.ledger.failure? r = some f) ∨ routes.Fails (routes.fresh site.ledger ds) f := by
  rw [restore_fst] at h
  obtain ⟨r, -, hr⟩ := of_getElem?_blame h
  obtain ⟨p, hp, rfl⟩ := Option.map_eq_some_iff.1 hr
  rcases List.mem_append.1 (List.mem_of_find?_eq_some hp) with hp | hp
  · obtain ⟨r', -, hr'⟩ := List.mem_filterMap.1 hp
    obtain ⟨f, hf, rfl⟩ := Option.map_eq_some_iff.1 hr'
    exact .inl ⟨r', hf⟩
  · exact .inr (restoreSchemes_fails hp)

/-- A restore writes down what its declarations refer to, and nothing else. -/
theorem references_restore (routes : Routes σ) (site : Site σ) (ds : List Declaration) :
    (routes.restore site ds).2.ledger.references = (routes.claims site.ledger ds).2.references := by
  rw [restore_snd]
  exact (restoreSchemes_fetches routes _ _ Scheme.all).ledger.references

/-- What a declaration refers to after its restore is written down. -/
theorem written_restore (hd : d ∈ ds)
    (href : (routes.reference (routes.restore site ds).2.ledger d).1 = .ok r) :
    (routes.restore site ds).2.ledger.references[d.id]? = some (.ok r) := by
  obtain ⟨x, hx⟩ := written_claims routes site.ledger hd
  rw [← references_restore] at hx
  rw [reference_fst, referenceIn, hx] at href
  obtain rfl : x = .ok r := href
  exact hx

theorem restore_restores (routes : Routes σ) (site : Site σ) (ds : List Declaration) :
    routes.Restores ds site (routes.restore site ds).1 (routes.restore site ds).2 := by
  have hfetches := restoreSchemes_fetches routes (routes.fresh site.ledger ds)
    ⟨site.world, (routes.claims site.ledger ds).2⟩ Scheme.all
  have hfailure (r : Reference) : (routes.claims site.ledger ds).2.failure? r =
      site.ledger.failure? r := failure?_of_failures_eq failures_claims r
  constructor
  case reported =>
    intro id hid
    obtain ⟨r, hr, -⟩ := mem_of_contains_blame hid
    exact (mem_claims_iff.1 hr).1
  case fetched =>
    refine ⟨routes.fresh site.ledger ds, by rw [restore_snd]; exact hfetches.world, fun r hr => ?_⟩
    obtain ⟨-, d, -, href⟩ := of_mem_fresh hr
    exact ⟨d.id, by rw [references_restore]; exact href⟩
  case writes =>
    have hwrites : site.ledger.Writes routes (· ∈ ds) (routes.claims site.ledger ds).2 :=
      writes_claims fun _ h => h
    exact hwrites.trans (.of_eq (references_restore ..))
  case keeps =>
    intro r f hf
    -- a module with a failure is not among those that are fetched
    rw [restore_snd, hfetches.ledger.others r fun r' hr' => ?_]
    · exact (hfailure r).trans hf
    · rw [Bool.eq_false_iff]
      intro hsame
      have hnone := (of_mem_fresh hr').1
      rw [Ledger.failure?_congr (Reference.same_iff.1 hsame), hf] at hnone
      cases hnone
  case failed =>
    intro r f hf
    rw [← hfailure]
    rw [restore_snd] at hf
    exact hfetches.ledger.failed r f hf

end Routes

end ModuleGraph
