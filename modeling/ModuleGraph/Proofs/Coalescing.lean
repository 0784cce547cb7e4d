import ModuleGraph.Proofs.Reporting

/-!
# Restoring together or in turn

Requests that are waiting are put together and restored in one call. With
registries that treat every module by itself, it makes no difference: a module
stands afterwards as if the requests had been restored one after the other.

The whole of a restore is thereby said for one module at a time. It finds the
module with a failure or without one, there or not, and the module is asked for
in some spelling or not at all; `Standing.settle` gives how it stands then, and
`standing_restore` says that this is what a restore comes to. Two restores in a
row are one with the first spelling of either (`Standing.settle_settle`), for
what failed is not tried again, and what was fetched is fetched again in vain.
-/

namespace ModuleGraph

/-- What a registry makes of one module in a call: the error that it reports, and whether the
module has to be fetched afterwards. -/
structure Treatment where
  error : Option RestoreError
  required : Bool

/-- How a module stands: the failure that is remembered of it, and whether it has to be fetched. -/
@[ext]
structure Standing where
  failure : Option Failure
  required : Bool

/-- How a module stands that is asked for in a spelling, or not. One with a failure is left as it
is. -/
def Standing.settle (treat : Bool → Reference → Treatment) (x : Reference)
    (asked : Option Reference) (s : Standing) : Standing :=
  match asked, s.failure with
  | some first, none =>
    let t := treat s.required x
    ⟨t.error.map (·.failureOf first), t.required⟩
  | _, _ => s

namespace Standing

variable {treat : Bool → Reference → Treatment} {x first : Reference} {a b : Option Reference}
  {s : Standing} {f : Failure}

theorem settle_none : s.settle treat x none = s := rfl

theorem settle_of_failure (h : s.failure = some f) : s.settle treat x a = s := by
  cases a with
  | none => rfl
  | some first => simp [settle, h]

theorem settle_some (h : s.failure = none) : s.settle treat x (some first) =
    ⟨(treat s.required x).error.map (·.failureOf first), (treat s.required x).required⟩ := by
  simp [settle, h]

end Standing

namespace Routes

variable {σ : Type} {routes : Routes σ} {treat : Bool → Reference → Treatment} {w : σ}
  {l l' : Ledger} {ds xs ys : List Declaration} {site site' : Site σ} {id : DeclarationId}
  {r x : Reference} {registry : Registry σ} {errors : List (Reference × RestoreError)}
  {batch : List Reference} {s : Scheme} {schemes : List Scheme}

/-- Registries treat every module of a call by itself. What they make of it depends on the module
and on whether it was there; it ends among the errors or available, and what could be fetched does
not fail when it is asked for again. -/
structure Independent (routes : Routes σ) (treat : Bool → Reference → Treatment) : Prop
    extends Separate routes where
  alike : ∀ required r x, r.same x = true → treat required r = treat required x
  honest : ∀ required r, (treat required r).error = none → (treat required r).required = false
  again : ∀ r, (treat true r).error = none → (treat false r).error = none
  reports : ∀ s registry, routes.registry? s = some registry → ∀ w batch,
    (∀ r ∈ batch, r.scheme = s) → ∀ r ∈ batch,
      ((registry.restore w batch).1.find? (·.1.same r)).map (·.2) =
        (treat (registry.restoreRequired w r) r).error
  leaves : ∀ s registry, routes.registry? s = some registry → ∀ w batch,
    (∀ r ∈ batch, r.scheme = s) → ∀ x,
      registry.restoreRequired (registry.restore w batch).2 x =
        if batch.any (·.same x) then (treat (registry.restoreRequired w x) x).required
        else registry.restoreRequired w x

/-- The two sites remember the same, and the same modules are there. -/
structure Equivalent (routes : Routes σ) (site site' : Site σ) : Prop where
  references : site'.ledger.references = site.ledger.references
  failure? : ∀ r, site'.ledger.failure? r = site.ledger.failure? r
  required : ∀ r registry, routes.registry? r.scheme = some registry →
    registry.restoreRequired site'.world r = registry.restoreRequired site.world r

/-- The module of a reference has to be fetched. -/
def required (routes : Routes σ) (w : σ) (x : Reference) : Bool :=
  (routes.registry? x.scheme).any (·.restoreRequired w x)

/-- How the module of a reference stands at a site. -/
def standing (routes : Routes σ) (site : Site σ) (x : Reference) : Standing :=
  ⟨site.ledger.failure? x, routes.required site.world x⟩

theorem required_eq (hreg : routes.registry? x.scheme = some registry) :
    routes.required w x = registry.restoreRequired w x := by
  rw [required, hreg, Option.any_some]

/-! ## One batch -/

/-- What is not among the errors has no failure then, and what is has that of its error. -/
theorem failure?_settle (registry : Registry σ) (w : σ) (errors : List (Reference × RestoreError))
    (hnone : l.failure? r = none) :
    (settle registry w errors l r).2.failure? r =
      ((errors.find? (·.1.same r)).map (·.2)).map (·.failureOf r) := by
  have hself : r.same r = true := Reference.same_iff.2 rfl
  rw [settle]
  split
  · next e he =>
    rw [he, Ledger.failure?_remember, if_pos hself]
    rfl
  · next he =>
    rw [he]
    dsimp only
    split
    · rw [Ledger.failure?_note, hnone]
      rfl
    · rw [Ledger.failure?_forgive, if_pos hself]
      rfl

theorem failure?_settleAll (registry : Registry σ) (w : σ)
    (errors : List (Reference × RestoreError)) (hdistinct : Reference.Distinct batch)
    (hnone : ∀ r ∈ batch, l.failure? r = none) : ∀ r ∈ batch,
      (settleAll registry w errors l batch).2.failure? r =
        ((errors.find? (·.1.same r)).map (·.2)).map (·.failureOf r) := by
  induction batch generalizing l with
  | nil => exact fun r hr => absurd hr List.not_mem_nil
  | cons r rs ih =>
    obtain ⟨hother, hrest⟩ := List.pairwise_cons.1 hdistinct
    obtain ⟨hr, hrs⟩ := List.forall_mem_cons.1 hnone
    have hhead := failure?_settle registry w errors hr
    have hkeeps : l.Remembers (fun _ => True) [r] (settle registry w errors l r).2 :=
      settle_remembers fun _ _ => trivial
    rw [settleAll]
    generalize settle registry w errors l r = settled at hhead hkeeps ⊢
    obtain ⟨f, l'⟩ := settled
    have hlater : l'.Remembers (fun _ => True) rs (settleAll registry w errors l' rs).2 :=
      settleAll_remembers fun _ _ _ => trivial
    intro x hx
    rcases List.mem_cons.1 hx with rfl | hx
    · rw [hlater.others x fun r' hr' => ?_]
      · exact hhead
      · rw [← hother r' hr', Reference.same, Reference.same, Bool.beq_comm]
    · refine ih hrest (fun y hy => ?_) x hx
      rw [hkeeps.others y fun r' hr' => ?_]
      · exact hrs y hy
      · rw [List.mem_singleton.1 hr']
        exact hother y hy

/-- A call leaves every module there or not as its registry treats it. -/
theorem required_restore (h : routes.Independent treat) (hreg : routes.registry? s = some registry)
    (hs : ∀ r ∈ batch, r.scheme = s) (w : σ) (x : Reference) :
    routes.required (registry.restore w batch).2 x =
      if batch.any (·.same x) then (treat (routes.required w x) x).required
      else routes.required w x := by
  by_cases hx : x.scheme = s
  · rw [required_eq (hx ▸ hreg), required_eq (hx ▸ hreg)]
    exact h.leaves s registry hreg w batch hs x
  · rw [if_neg]
    · cases hreg' : routes.registry? x.scheme with
      | none => rw [required, required, hreg']; rfl
      | some registry' =>
        rw [required_eq hreg', required_eq hreg']
        exact h.own s registry hreg x.scheme registry' hreg' hx w batch x
    · rw [Bool.not_eq_true, List.any_eq_false]
      intro r hr hsame
      rw [← Reference.scheme_eq_of_same hsame, hs r hr] at hx
      exact hx rfl

theorem standing_restoreBatch (h : routes.Independent treat) (site : Site σ)
    (hs : ∀ r ∈ batch, r.scheme = s) (hdistinct : Reference.Distinct batch)
    (hnone : ∀ r ∈ batch, site.ledger.failure? r = none) (x : Reference) :
    routes.standing (routes.restoreBatch s batch site).2 x =
      (routes.standing site x).settle treat x
        (if routes.answersFor s then batch.find? (·.same x) else none) := by
  have hothers := (restoreBatch_fetches routes s batch site).ledger.others x
  rw [restoreBatch] at hothers ⊢
  split
  · next hempty =>
    rw [List.isEmpty_iff.1 hempty, List.find?_nil, ite_self]
    rfl
  · next hsome =>
    rw [if_neg hsome] at hothers
    split
    · next hunrouted =>
      rw [answersFor, hunrouted, Option.isSome_none, if_neg Bool.false_ne_true]
      rfl
    · next registry hreg =>
      rw [hreg] at hothers
      rw [answersFor, hreg, Option.isSome_some, if_pos rfl]
      have hrequired := required_restore h hreg hs site.world x
      dsimp only at hothers ⊢
      cases hfind : batch.find? (·.same x) with
      | none =>
        have hunasked : ∀ r ∈ batch, r.same x = false := by simpa using hfind
        rw [if_neg (by simpa using hunasked)] at hrequired
        exact Standing.ext (hothers hunasked) hrequired
      | some r =>
        have hr := List.mem_of_find?_eq_some hfind
        have hsame : r.same x = true := by simpa using List.find?_some hfind
        have hcanonical := Reference.same_iff.1 hsame
        have hnothing : (routes.standing site x).failure = none := by
          rw [standing, ← Ledger.failure?_congr hcanonical]
          exact hnone r hr
        have hspelled : registry.restoreRequired site.world r = routes.required site.world x := by
          rw [required_eq (by rw [← Reference.scheme_eq_of_same hsame, hs r hr, hreg])]
          exact h.spelling s registry hreg site.world r x hsame
        have hfailure := failure?_settleAll registry
          (registry.restore site.world batch).2 (registry.restore site.world batch).1
          (l := site.ledger.note (.restore registry.scheme batch)) hdistinct hnone r hr
        rw [h.reports s registry hreg site.world batch hs r hr, hspelled,
          h.alike _ r x hsame] at hfailure
        rw [if_pos (List.any_eq_true.2 ⟨r, hr, hsame⟩)] at hrequired
        rw [Standing.settle_some hnothing]
        refine Standing.ext ?_ hrequired
        rw [standing, ← Ledger.failure?_congr hcanonical]
        exact hfailure

/-! ## All schemes -/

theorem find?_filter_scheme (hx : x.scheme = s) :
    (batch.filter (·.scheme == s)).find? (·.same x) = batch.find? (·.same x) := by
  rw [List.find?_filter]
  congr 1
  funext r
  by_cases hsame : r.same x = true
  · simp [hsame, Reference.scheme_eq_of_same hsame, hx]
  · simp [hsame]

theorem standing_restoreSchemes (h : routes.Independent treat) (hschemes : schemes.Nodup)
    (hdistinct : Reference.Distinct batch) (site : Site σ)
    (hnone : ∀ r ∈ batch, r.scheme ∈ schemes → site.ledger.failure? r = none) (x : Reference) :
    routes.standing (routes.restoreSchemes batch site schemes).2 x =
      (routes.standing site x).settle treat x
        (if x.scheme ∈ schemes ∧ routes.answersFor x.scheme then batch.find? (·.same x)
          else none) := by
  induction schemes generalizing site with
  | nil => simp [restoreSchemes, Standing.settle]
  | cons s rest ih =>
    obtain ⟨hs, hrest⟩ := List.nodup_cons.1 hschemes
    have hscheme : ∀ r ∈ batch.filter (·.scheme == s), r.scheme = s := fun r hr =>
      eq_of_beq (List.mem_filter.1 hr).2
    have hhead := standing_restoreBatch h site hscheme (hdistinct.filter _) (fun r hr =>
      hnone r (List.mem_filter.1 hr).1 (hscheme r hr ▸ List.mem_cons_self ..)) x
    have htail := ih hrest (routes.restoreBatch s (batch.filter (·.scheme == s)) site).2
      fun r hr hmem => by
        rw [(restoreBatch_other h.toSeparate site hscheme (ne_of_mem_of_not_mem hmem hs)).1]
        exact hnone r hr (List.mem_cons_of_mem s hmem)
    rw [restoreSchemes]
    dsimp only
    rw [htail, hhead]
    by_cases hx : x.scheme = s
    · rw [find?_filter_scheme hx, if_neg (by simp [hx, hs])]
      simp [hx, Standing.settle]
    · have hfind : (batch.filter (·.scheme == s)).find? (·.same x) = none := by
        rw [List.find?_eq_none]
        intro r hr hsame
        exact hx ((Reference.scheme_eq_of_same hsame).symm.trans (hscheme r hr))
      rw [hfind, ite_self]
      simp [hx, Standing.settle]

/-! ## Whole restores -/

/-- The spelling in which a module is asked for in a restore. -/
def asked (routes : Routes σ) (l : Ledger) (ds : List Declaration) (x : Reference) :
    Option Reference :=
  if routes.answersFor x.scheme then
    ((routes.claims l ds).1.map (·.1)).find? (·.same x)
  else none

theorem find?_distinct (rs : List Reference) (x : Reference) :
    (distinct rs).find? (·.same x) = rs.find? (·.same x) := by
  induction rs with
  | nil => rfl
  | cons r rs ih =>
    rw [distinct, List.find?_cons, List.find?_cons]
    cases hr : r.same x with
    | true => rfl
    | false =>
      -- other spellings of `r` are none of `x`
      rw [← ih, List.find?_filter]
      dsimp only
      congr 1
      funext y
      cases hy : y.same x with
      | false => simp
      | true =>
        have hother : r.same y = false := Bool.eq_false_iff.2 fun hsame => by
          rw [Reference.same_trans hsame hy] at hr
          cases hr
        simp [hother]

theorem exists_asked (hx : routes.answersFor x.scheme = true)
    (hclaim : (r, id) ∈ (routes.claims l ds).1) (hsame : r.same x = true) :
    ∃ first, routes.asked l ds x = some first := by
  rw [← Option.isSome_iff_exists, asked, if_pos hx, List.find?_isSome]
  exact ⟨r, List.mem_map.2 ⟨_, hclaim, rfl⟩, hsame⟩

theorem standing_restore (h : routes.Independent treat) (site : Site σ) (ds : List Declaration)
    (x : Reference) :
    routes.standing (routes.restore site ds).2 x =
      (routes.standing site x).settle treat x (routes.asked site.ledger ds x) := by
  have hfailure (r : Reference) : (routes.claims site.ledger ds).2.failure? r =
      site.ledger.failure? r := failure?_of_failures_eq failures_claims r
  have hstanding : routes.standing ⟨site.world, (routes.claims site.ledger ds).2⟩ x =
      routes.standing site x := Standing.ext (hfailure x) rfl
  have hdistinct : Reference.Distinct (routes.fresh site.ledger ds) :=
    (distinct_distinct _).filter _
  rw [restore_snd, standing_restoreSchemes h (by decide) hdistinct
    ⟨site.world, (routes.claims site.ledger ds).2⟩
    (fun r hr _ => (hfailure r).trans (mem_fresh_iff.1 hr).2) x, hstanding]
  simp only [Scheme.mem_all, true_and, asked]
  cases hx : site.ledger.failure? x with
  | some f =>
    have hfailed : (routes.standing site x).failure = some f := hx
    rw [Standing.settle_of_failure hfailed, Standing.settle_of_failure hfailed]
  | none =>
    have hfresh : (routes.fresh site.ledger ds).find? (·.same x) =
        ((routes.claims site.ledger ds).1.map (·.1)).find? (·.same x) := by
      rw [fresh, List.find?_filter, ← find?_distinct]
      congr 1
      funext r
      by_cases hsame : r.same x = true
      · simp [hsame, Ledger.failure?_congr (Reference.same_iff.1 hsame), hx]
      · simp [hsame]
    rw [hfresh]

/-- What has failed is left alone, and what was fetched is there whenever it is fetched again: so
the first spelling decides. -/
theorem Independent.settle_settle (h : routes.Independent treat) (t : Standing)
    (x : Reference) (a b : Option Reference) :
    (t.settle treat x a).settle treat x b = t.settle treat x (a.or b) := by
  cases a with
  | none => rw [Standing.settle_none, Option.none_or]
  | some first =>
    rw [Option.some_or]
    cases ht : t.failure with
    | some f =>
      rw [Standing.settle_of_failure ht, Standing.settle_of_failure ht]
    | none =>
      rw [Standing.settle_some ht]
      cases herror : (treat t.required x).error with
      | some e => exact Standing.settle_of_failure rfl
      | none =>
        have hthere := h.honest _ x herror
        have hagain : (treat false x).error = none := by
          cases hrequired : t.required with
          | false => rwa [hrequired] at herror
          | true => exact h.again x (hrequired ▸ herror)
        cases b with
        | none => rfl
        | some later =>
          rw [Standing.settle_some rfl]
          simp only [hthere, hagain, h.honest false x hagain, Option.map_none]

/-! ## Two lists -/

theorem claims_append (routes : Routes σ) (l : Ledger) (xs ys : List Declaration) :
    routes.claims l (xs ++ ys) =
      ((routes.claims l xs).1 ++ (routes.claims (routes.claims l xs).2 ys).1,
        (routes.claims (routes.claims l xs).2 ys).2) := by
  induction xs generalizing l with
  | nil => rfl
  | cons d ds ih =>
    rw [List.cons_append, claims, claims]
    generalize routes.reference l d = read
    obtain ⟨x, l'⟩ := read
    dsimp only
    rw [ih l']
    cases x <;> rfl

/-- What declarations claim depends on the references that are written down. -/
theorem claims_congr (routes : Routes σ) (h : l'.references = l.references)
    (ds : List Declaration) :
    (routes.claims l' ds).1 = (routes.claims l ds).1 ∧
      (routes.claims l' ds).2.references = (routes.claims l ds).2.references := by
  induction ds generalizing l l' with
  | nil => exact ⟨rfl, h⟩
  | cons d ds ih =>
    have hread : (routes.reference l' d).1 = (routes.reference l d).1 ∧
        (routes.reference l' d).2.references = (routes.reference l d).2.references := by
      rw [reference, reference, h]
      split <;> simp [h]
    rw [claims, claims]
    generalize routes.reference l d = read at hread ⊢
    generalize routes.reference l' d = read' at hread ⊢
    obtain ⟨x, l⟩ := read
    obtain ⟨x', l'⟩ := read'
    obtain ⟨rfl, hreferences⟩ := hread
    obtain ⟨hclaims, hlater⟩ := ih hreferences
    cases x' <;> exact ⟨by simp [hclaims], hlater⟩

/-- After a restore, some more declarations claim what they would have claimed in it. -/
theorem claims_restore (routes : Routes σ) (site : Site σ) (xs ys : List Declaration) :
    (routes.claims site.ledger (xs ++ ys)).1 = (routes.claims site.ledger xs).1 ++
        (routes.claims (routes.restore site xs).2.ledger ys).1 ∧
      (routes.claims (routes.restore site xs).2.ledger ys).2.references =
        (routes.claims site.ledger (xs ++ ys)).2.references := by
  obtain ⟨hclaims, hreferences⟩ :=
    claims_congr routes (references_restore routes site xs) ys
  rw [claims_append, hclaims]
  exact ⟨rfl, hreferences⟩

/-- Declarations that have been restored write nothing down when they are restored again, -/
theorem references_claims_again (routes : Routes σ) (site : Site σ) (xs : List Declaration) :
    (routes.claims (routes.restore site xs).2.ledger xs).2.references =
      (routes.restore site xs).2.ledger.references := by
  have hwrites : (routes.restore site xs).2.ledger.Writes routes (· ∈ xs)
      (routes.claims (routes.restore site xs).2.ledger xs).2 := writes_claims fun _ h => h
  refine Std.ExtTreeMap.ext_getElem? fun id => ?_
  rcases hwrites id with heq | ⟨hnone, d, hd, rfl, -⟩
  · exact heq
  · obtain ⟨x, hx⟩ := written_claims routes site.ledger hd
    rw [references_restore, hx] at hnone
    cases hnone

/-- and claim the same. -/
theorem mem_claims_again : (r, id) ∈ (routes.claims (routes.restore site xs).2.ledger xs).1 ↔
    (r, id) ∈ (routes.claims site.ledger xs).1 := by
  rw [mem_claims_iff, mem_claims_iff, references_claims_again, references_restore]

theorem asked_append (routes : Routes σ) (site : Site σ) (xs ys : List Declaration)
    (x : Reference) : routes.asked site.ledger (xs ++ ys) x =
      (routes.asked site.ledger xs x).or (routes.asked (routes.restore site xs).2.ledger ys x) := by
  simp only [asked, (claims_restore routes site xs ys).1, List.map_append, List.find?_append]
  split <;> rfl

/-- Every module stands as if all had been restored together. -/
theorem standing_restore_restore (h : routes.Independent treat) (site : Site σ)
    (xs ys : List Declaration) (x : Reference) :
    routes.standing (routes.restore (routes.restore site xs).2 ys).2 x =
      routes.standing (routes.restore site (xs ++ ys)).2 x := by
  rw [standing_restore h, standing_restore h, standing_restore h, h.settle_settle, asked_append]

/-- Whoever is asked for in the first list stands after it as after both. -/
theorem standing_of_claimed (h : routes.Independent treat) (site : Site σ)
    (ys : List Declaration) (hclaim : (r, id) ∈ (routes.claims site.ledger xs).1)
    (hsame : r.same x = true) :
    routes.standing (routes.restore site xs).2 x =
      routes.standing (routes.restore site (xs ++ ys)).2 x := by
  rw [standing_restore h, standing_restore h, asked_append]
  by_cases hx : routes.answersFor x.scheme = true
  · obtain ⟨first, hfirst⟩ := exists_asked hx hclaim hsame
    rw [hfirst, Option.some_or]
  · simp [asked, hx]

/-! ## Reports -/

/-- The failure of a module that is asked for. -/
def complaint (routes : Routes σ) (l : Ledger) (r : Reference) : Option Failure :=
  (l.failure? r).or
    (if routes.answersFor r.scheme then none else some (routes.unknown r.scheme.name))

/-- What is asked for without a failure is there afterwards. -/
theorem required_of_claimed (h : routes.Independent treat)
    (hclaim : (r, id) ∈ (routes.claims site.ledger ds).1)
    (hreg : routes.registry? r.scheme = some registry)
    (hnone : (routes.restore site ds).2.ledger.failure? r = none) :
    registry.restoreRequired (routes.restore site ds).2.world r = false := by
  have hanswers : routes.answersFor r.scheme = true := by rw [answersFor, hreg, Option.isSome_some]
  obtain ⟨first, hfirst⟩ := exists_asked hanswers hclaim (Reference.same_iff.2 rfl)
  have hstanding := standing_restore h site ds r
  have hnothing : (routes.standing (routes.restore site ds).2 r).failure = none := hnone
  have hrequired : (routes.standing (routes.restore site ds).2 r).required =
      registry.restoreRequired (routes.restore site ds).2.world r := required_eq hreg
  rw [hfirst] at hstanding
  rw [hstanding] at hnothing hrequired
  rw [← hrequired]
  cases hbefore : (routes.standing site r).failure with
  | some f =>
    rw [Standing.settle_of_failure hbefore, hbefore] at hnothing
    cases hnothing
  | none =>
    rw [Standing.settle_some hbefore] at hnothing ⊢
    exact h.honest _ r (Option.map_eq_none_iff.1 hnothing)

theorem getElem?_restore (h : routes.Independent treat)
    (hclaim : (r, id) ∈ (routes.claims site.ledger ds).1) :
    (routes.restore site ds).1[id]? = routes.complaint (routes.restore site ds).2.ledger r := by
  obtain ⟨⟨d, hd, rfl⟩, hwritten⟩ := mem_claims_iff.1 hclaim
  rw [← references_restore] at hwritten
  have href : routes.referenceIn (routes.restore site ds).2.ledger d = .ok r := by
    rw [referenceIn, hwritten]
    rfl
  obtain ⟨first, heq, -⟩ := exists_report h.toSeparate hd ((reference_fst ..).trans href)
  rw [heq, status_fst, statusIn, href, complaint, answersFor]
  dsimp only
  rw [statusOf]
  cases hfailure : (routes.restore site ds).2.ledger.failure? r with
  | some f => rfl
  | none =>
    cases hreg : routes.registry? r.scheme with
    | none => rfl
    | some registry =>
      simp [required_of_claimed h hclaim hreg hfailure, Status.report]

theorem getElem?_restore_of_not_claimed
    (hnone : ∀ r, (r, id) ∉ (routes.claims site.ledger ds).1) :
    (routes.restore site ds).1[id]? = none := by
  rw [restore_fst]
  refine Std.ExtTreeMap.getElem?_eq_none fun hblamed => ?_
  obtain ⟨r, hr, -⟩ := mem_of_contains_blame (Std.ExtTreeMap.contains_iff_mem.2 hblamed)
  exact hnone r hr

theorem complaint_congr (h : l'.failure? r = l.failure? r) :
    routes.complaint l' r = routes.complaint l r := by
  rw [complaint, complaint, h]

/-- A declaration is told in the first restore what it is told in the joint one. -/
theorem getElem?_restore_first (h : routes.Independent treat) (site : Site σ)
    (xs ys : List Declaration) (hclaim : (r, id) ∈ (routes.claims site.ledger xs).1) :
    (routes.restore site xs).1[id]? = (routes.restore site (xs ++ ys)).1[id]? := by
  have hjoint : (r, id) ∈ (routes.claims site.ledger (xs ++ ys)).1 := by
    rw [(claims_restore routes site xs ys).1]
    exact List.mem_append_left _ hclaim
  rw [getElem?_restore h hclaim, getElem?_restore h hjoint]
  exact complaint_congr <| congrArg Standing.failure <|
    standing_of_claimed h site ys hclaim (Reference.same_iff.2 rfl)

/-- So it is in the second. -/
theorem getElem?_restore_second (h : routes.Independent treat) (site : Site σ)
    (xs ys : List Declaration)
    (hclaim : (r, id) ∈ (routes.claims (routes.restore site xs).2.ledger ys).1) :
    (routes.restore (routes.restore site xs).2 ys).1[id]? =
      (routes.restore site (xs ++ ys)).1[id]? := by
  have hjoint : (r, id) ∈ (routes.claims site.ledger (xs ++ ys)).1 := by
    rw [(claims_restore routes site xs ys).1]
    exact List.mem_append_right _ hclaim
  rw [getElem?_restore h hclaim, getElem?_restore h hjoint]
  exact complaint_congr (congrArg Standing.failure (standing_restore_restore h site xs ys r))

/-- The joint report is what either of the two says, and they do not contradict each other. -/
theorem getElem?_restore_append (h : routes.Independent treat) (site : Site σ)
    (xs ys : List Declaration) (id : DeclarationId) :
    let first := (routes.restore site xs).1[id]?
    let second := (routes.restore (routes.restore site xs).2 ys).1[id]?
    (routes.restore site (xs ++ ys)).1[id]? = first.or second ∧
      (routes.restore site (xs ++ ys)).1[id]? = second.or first := by
  dsimp only
  by_cases hx : ∃ r, (r, id) ∈ (routes.claims site.ledger xs).1
  · obtain ⟨r, hr⟩ := hx
    rw [getElem?_restore_first h site xs ys hr]
    by_cases hy : ∃ r, (r, id) ∈ (routes.claims (routes.restore site xs).2.ledger ys).1
    · obtain ⟨r', hr'⟩ := hy
      rw [getElem?_restore_second h site xs ys hr', Option.or_self]
      exact ⟨rfl, rfl⟩
    · rw [getElem?_restore_of_not_claimed (not_exists.1 hy), Option.or_none, Option.none_or]
      exact ⟨rfl, rfl⟩
  · rw [getElem?_restore_of_not_claimed (not_exists.1 hx), Option.none_or, Option.or_none]
    by_cases hy : ∃ r, (r, id) ∈ (routes.claims (routes.restore site xs).2.ledger ys).1
    · obtain ⟨r', hr'⟩ := hy
      rw [getElem?_restore_second h site xs ys hr']
      exact ⟨rfl, rfl⟩
    · have hnone : ∀ r, (r, id) ∉ (routes.claims site.ledger (xs ++ ys)).1 := fun r hr => by
        rw [(claims_restore routes site xs ys).1] at hr
        exact (List.mem_append.1 hr).elim (fun hr => hx ⟨r, hr⟩) fun hr => hy ⟨r, hr⟩
      rw [getElem?_restore_of_not_claimed (not_exists.1 hy), getElem?_restore_of_not_claimed hnone]
      exact ⟨rfl, rfl⟩

/-! ## The law -/

theorem equivalent_of_standing
    (hreferences : site'.ledger.references = site.ledger.references)
    (hstanding : ∀ x, routes.standing site' x = routes.standing site x) :
    routes.Equivalent site site' where
  references := hreferences
  failure? r := congrArg Standing.failure (hstanding r)
  required r registry hreg := by
    have h := congrArg Standing.required (hstanding r)
    rwa [standing, standing, required_eq hreg, required_eq hreg] at h

/-- Restoring once more what has been restored leaves every module as it stands. -/
theorem standing_again (h : routes.Independent treat) (site : Site σ) (xs : List Declaration)
    (x : Reference) : routes.standing (routes.restore (routes.restore site xs).2 xs).2 x =
      routes.standing (routes.restore site xs).2 x := by
  cases hasked : routes.asked (routes.restore site xs).2.ledger xs x with
  | none => rw [standing_restore h, hasked, Standing.settle_none]
  | some later =>
    rw [asked] at hasked
    split at hasked
    · obtain ⟨⟨r, id⟩, hclaim, rfl⟩ := List.mem_map.1 (List.mem_of_find?_eq_some hasked)
      have hsame : r.same x = true := by simpa using List.find?_some hasked
      rw [standing_restore_restore h,
        standing_of_claimed h site xs (mem_claims_again.1 hclaim) hsame]
    · cases hasked

theorem report_again (h : routes.Independent treat) (site : Site σ) (xs : List Declaration)
    (id : DeclarationId) : (routes.restore (routes.restore site xs).2 xs).1[id]? =
      (routes.restore site xs).1[id]? := by
  by_cases hx : ∃ r, (r, id) ∈ (routes.claims site.ledger xs).1
  · obtain ⟨r, hr⟩ := hx
    rw [getElem?_restore_first h site xs xs hr,
      getElem?_restore_second h site xs xs (mem_claims_again.2 hr)]
  · rw [getElem?_restore_of_not_claimed (not_exists.1 hx), getElem?_restore_of_not_claimed]
    exact fun r hr => hx ⟨r, mem_claims_again.1 hr⟩

/-- Whatever is remembered, restoring two lists together leaves the site as restoring one after the
other does, and reports what the two report. Restoring one list twice is restoring it once. -/
theorem restore_append (h : routes.Independent treat) (site : Site σ) (xs ys : List Declaration) :
    let joint := routes.restore site (xs ++ ys)
    let first := routes.restore site xs
    let second := routes.restore first.2 ys
    let again := routes.restore first.2 xs
    joint.1 = first.1 ∪ second.1 ∧ joint.1 = second.1 ∪ first.1 ∧
      routes.Equivalent joint.2 second.2 ∧
      again.1 = first.1 ∧ routes.Equivalent first.2 again.2 := by
  have hreport := getElem?_restore_append h site xs ys
  refine ⟨Std.ExtTreeMap.ext_getElem? fun id => ?_, Std.ExtTreeMap.ext_getElem? fun id => ?_,
    equivalent_of_standing ?_ (standing_restore_restore h site xs ys),
    Std.ExtTreeMap.ext_getElem? (report_again h site xs),
    equivalent_of_standing ?_ (standing_again h site xs)⟩
  · rw [Std.ExtTreeMap.getElem?_union]
    exact (hreport id).2
  · rw [Std.ExtTreeMap.getElem?_union]
    exact (hreport id).1
  · rw [references_restore, references_restore]
    exact (claims_restore routes site xs ys).2
  · rw [references_restore]
    exact references_claims_again routes site xs

end Routes

namespace Sample

/-- What becomes of modules in the shed: one of them is not found, the others can be fetched. -/
def shedTreat (required : Bool) (r : Reference) : Treatment :=
  if r.same hollow then ⟨some (.notFound "a"), required⟩ else ⟨none, false⟩

def shed : Registry (List Reference) where
  scheme := .nuget
  restoreRequired w r := !w.contains r.canonical
  entryPoint _ _ _ := .ok part
  restore w rs := ((rs.filter (·.same hollow)).map (·, .notFound "a"),
    (rs.filter fun r => !r.same hollow).map Reference.canonical ++ w)

def yard : Routes (List Reference) := .ofList [shed]

theorem shedTreat_congr {r x : Reference} (hsame : r.same x = true) (required : Bool) :
    shedTreat required r = shedTreat required x := by
  rw [shedTreat, shedTreat, Reference.same, Reference.same, Reference.same_iff.1 hsame]

theorem reports_shed (w : List Reference) {batch : List Reference} {r : Reference}
    (hr : r ∈ batch) : ((shed.restore w batch).1.find? (·.1.same r)).map (·.2) =
      (shedTreat (shed.restoreRequired w r) r).error := by
  have hfound : ((batch.filter (·.same hollow)).find? (·.same r)).isSome = r.same hollow := by
    rw [Bool.eq_iff_iff, List.find?_isSome]
    constructor
    · rintro ⟨x, hx, hsame⟩
      rw [Reference.same_iff, ← Reference.same_iff.1 hsame, ← Reference.same_iff]
      exact (List.mem_filter.1 hx).2
    · exact fun hhollow => ⟨r, List.mem_filter.2 ⟨hr, hhollow⟩, Reference.same_iff.2 rfl⟩
  simp only [shed, shedTreat, List.find?_map, Option.map_map]
  rw [← hfound]
  show Option.map _ ((batch.filter (·.same hollow)).find? (·.same r)) = _
  cases (batch.filter (·.same hollow)).find? (·.same r) <;> rfl

theorem leaves_shed (w batch : List Reference) (x : Reference) :
    shed.restoreRequired (shed.restore w batch).2 x =
      if batch.any (·.same x) then (shedTreat (shed.restoreRequired w x) x).required
      else shed.restoreRequired w x := by
  have hfetched : ((batch.filter fun r => !r.same hollow).map Reference.canonical).contains
      x.canonical = (batch.any (·.same x) && !x.same hollow) := by
    rw [Bool.eq_iff_iff]
    simp only [List.contains_iff_mem, List.mem_map, List.mem_filter, Bool.and_eq_true,
      List.any_eq_true, Bool.not_eq_true', Reference.same]
    constructor
    · rintro ⟨r, ⟨hr, hother⟩, hsame⟩
      exact ⟨⟨r, hr, beq_iff_eq.2 hsame⟩, hsame ▸ hother⟩
    · rintro ⟨⟨r, hr, hsame⟩, hother⟩
      exact ⟨r, ⟨hr, (eq_of_beq hsame).symm ▸ hother⟩, eq_of_beq hsame⟩
  simp only [shed, shedTreat, List.contains_append, hfetched]
  cases batch.any (·.same x) <;> cases x.same hollow <;> simp

theorem independent_yard : yard.Independent shedTreat := by
  have hshed : ∀ s registry, yard.registry? s = some registry → registry = shed ∧ s = .nuget := by
    intro s registry hreg
    obtain rfl := List.mem_singleton.1 (Routes.mem_of_registry?_ofList hreg)
    exact ⟨rfl, (yard.scheme_eq hreg).symm⟩
  have hsound : ∀ required r, (shedTreat required r).error = none →
      ∀ later, shedTreat later r = ⟨none, false⟩ := by
    intro required r herror later
    unfold shedTreat at herror ⊢
    split at herror
    · cases herror
    · next hother => rw [if_neg hother]
  constructor
  case toSeparate =>
    constructor
    · intro s registry hreg w r x hsame
      obtain ⟨rfl, -⟩ := hshed s registry hreg
      simp only [shed, Reference.same_iff.1 hsame]
    · intro s registry hreg s' registry' hreg' hne
      obtain ⟨rfl, rfl⟩ := hshed s registry hreg
      exact absurd (hshed s' registry' hreg').2 hne
  case alike => exact fun required r x hsame => shedTreat_congr hsame required
  case honest => exact fun required r herror => by rw [hsound required r herror]
  case again => exact fun r herror => by rw [hsound true r herror]
  case reports =>
    intro s registry hreg w batch hs r hr
    obtain ⟨rfl, -⟩ := hshed s registry hreg
    exact reports_shed w hr
  case leaves =>
    intro s registry hreg w batch hs x
    obtain ⟨rfl, -⟩ := hshed s registry hreg
    exact leaves_shed w batch x

/-- The modules of a file, the one that is not found in two spellings, and a path, for which no
registry answers. -/
def load : List Declaration :=
  declarationsOf main ⟨"d1"⟩ (["nuget:a@1", "nuget:b@1", "nuget:A@1", "nuget:d@1",
    "./part.cfg"].map fun path => ⟨path, .ok path, default⟩)

/-- In two lists, the module that is not found is reported for each, in the spelling of the
first. -/
theorem restore_append_load :
    let joint := yard.restore ⟨[], .empty⟩ (load.take 2 ++ load.drop 2)
    let first := yard.restore ⟨[], .empty⟩ (load.take 2)
    let second := yard.restore first.2 (load.drop 2)
    yard.Independent shedTreat ∧ joint.1 = first.1 ∪ second.1 ∧
      yard.Equivalent joint.2 second.2 ∧
      (joint.1.size, first.1.size, second.1.size) = (2, 1, 1) ∧
      second.1[(⟨main, ⟨"d1"⟩, 2⟩ : DeclarationId)]? =
        first.1[(⟨main, ⟨"d1"⟩, 0⟩ : DeclarationId)]? := by
  obtain ⟨hreport, -, hequivalent, -⟩ :=
    Routes.restore_append independent_yard ⟨[], .empty⟩ (load.take 2) (load.drop 2)
  exact ⟨independent_yard, hreport, hequivalent, by decide +kernel⟩

end Sample

end ModuleGraph
