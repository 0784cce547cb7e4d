import Mathlib.Logic.Relation
import ModuleGraph.Proofs.Agreement
import ModuleGraph.Proofs.Rounds

/-!
# What builds leave written down

A build writes the references of the declarations that it looks at into the
ledger, and later ones find them there. They find what they would have read
themselves: whatever was written down before, a build of the same files reads a
declaration as it was read before the first of these builds. `SameReadings` is
what builds keep up, in whatever number and of whatever files, and under it a
build comes to the same graph. Restores keep it up as well: from ledgers that
make the same of the declarations, the same is fetched, and the same remembered.
-/

namespace ModuleGraph

/-! ## Failures under a restore -/

/-- The second site is the same world, with the same failures remembered in it. -/
structure Site.Matches {σ : Type} (site site' : Site σ) : Prop where
  world : site'.world = site.world
  failures : site'.ledger.failures = site.ledger.failures

namespace Routes

variable {σ : Type} {registry : Registry σ} {w : σ} {errors : List (Reference × RestoreError)}
  {l l' : Ledger} {r : Reference} {batch : List Reference} {site site' : Site σ}

theorem failures_settle_congr (h : l'.failures = l.failures) :
    (settle registry w errors l' r).2.failures = (settle registry w errors l r).2.failures := by
  rw [settle, settle]
  split
  · simp only [Ledger.remember, h]
  · dsimp only
    split
    · exact h
    · simp only [Ledger.forgive, Ledger.note, h]

theorem failures_settleAll_congr (h : l'.failures = l.failures) :
    (settleAll registry w errors l' batch).2.failures =
      (settleAll registry w errors l batch).2.failures := by
  induction batch generalizing l l' with
  | nil => exact h
  | cons r rs ih =>
    rw [settleAll, settleAll]
    exact ih (failures_settle_congr h)

theorem restoreBatch_matches (routes : Routes σ) (s : Scheme) (batch : List Reference)
    (h : site.Matches site') :
    (routes.restoreBatch s batch site).2.Matches (routes.restoreBatch s batch site').2 := by
  rw [restoreBatch, restoreBatch]
  split
  · exact h
  · split
    · exact h
    · next registry _ =>
      rw [h.world]
      exact ⟨rfl, failures_settleAll_congr h.failures⟩

theorem restoreSchemes_matches (routes : Routes σ) (batch : List Reference)
    (schemes : List Scheme) (h : site.Matches site') :
    (routes.restoreSchemes batch site schemes).2.Matches
      (routes.restoreSchemes batch site' schemes).2 := by
  induction schemes generalizing site site' with
  | nil => exact h
  | cons s rest ih =>
    rw [restoreSchemes, restoreSchemes]
    exact ih (restoreBatch_matches routes s _ h)

end Routes

namespace Discovery

variable {σ : Type} {c : Context σ} {s : Discovery} {l l' l'' : Ledger} {entry : Url}
  {d d' : Declaration} {ds : List Declaration} {p : Declaration → Prop} {site site' : Site σ}

/-! ## Readings -/

/-- The declaration is one of the file that a build has for it. -/
def Context.Declared (c : Context σ) (d : Declaration) : Prop :=
  ∃ f, c.fetch d.id.uri = .ok f ∧ d ∈ f.declarations

theorem Context.Declared.eq_of_id (h : c.Declared d) (h' : c.Declared d') (hid : d'.id = d.id) :
    d' = d := by
  obtain ⟨f, hf, hd⟩ := h
  obtain ⟨f', hf', hd'⟩ := h'
  rw [hid, hf] at hf'
  obtain rfl := Except.ok.inj hf'
  exact SourceFile.eq_of_id_eq hd' hd hid

theorem Surveyed.declared (h : Surveyed c l entry s) (hd : Declares s d) : c.Declared d := by
  obtain ⟨f, hf, hmem⟩ := hd
  exact ⟨f, ((h.files d.id.uri f).1 hf).2, hmem⟩

/-- The ledgers make the same of every declaration of a file that a build can have. -/
structure SameReadings (c : Context σ) (l l' : Ledger) : Prop where
  referenceIn : ∀ d, c.Declared d →
    c.setting.routes.referenceIn l' d = c.setting.routes.referenceIn l d
  failures : l'.failures = l.failures

theorem SameReadings.refl : SameReadings c l l := ⟨fun _ _ => rfl, rfl⟩

theorem SameReadings.trans (h : SameReadings c l l') (h' : SameReadings c l' l'') :
    SameReadings c l l'' :=
  ⟨fun d hd => (h'.referenceIn d hd).trans (h.referenceIn d hd), h'.failures.trans h.failures⟩

theorem SameReadings.symm (h : SameReadings c l l') : SameReadings c l' l :=
  ⟨fun d hd => (h.referenceIn d hd).symm, h.failures.symm⟩

theorem SameReadings.verdict_eq (h : SameReadings c l l') (hd : c.Declared d) :
    c.verdict l' d = c.verdict l d := by
  simp only [Context.verdict, Routes.statusIn_eq (h.referenceIn d hd) h.failures,
    Routes.locateIn_eq (h.referenceIn d hd) h.failures, restoreOutcome, Ledger.failure?,
    h.failures]

/-- What is written down for such declarations is what is read anyway. -/
theorem referenceIn_of_writes (h : l.Writes c.setting.routes p l') (hp : ∀ d, p d → c.Declared d)
    (hd : c.Declared d) :
    c.setting.routes.referenceIn l' d = c.setting.routes.referenceIn l d := by
  rw [Routes.referenceIn, Routes.referenceIn]
  rcases h d.id with heq | ⟨hnone, d', hd', hid, hnew⟩
  · rw [heq]
  · rw [hnew, hnone, hd.eq_of_id (hp d' hd') hid]
    rfl

theorem sameReadings_of_writes (h : l.Writes c.setting.routes p l') (hp : ∀ d, p d → c.Declared d)
    (hf : l'.failures = l.failures) : SameReadings c l l' :=
  ⟨fun _ hd => referenceIn_of_writes h hp hd, hf⟩

theorem Surveyed.sameReadings (h : Surveyed c l entry s) : SameReadings c l s.ledger :=
  sameReadings_of_writes h.writes (fun _ hd => h.declared hd) h.failures

/-! ## Restores -/

theorem SameReadings.claims_fst (h : SameReadings c l l') (hds : ∀ d ∈ ds, c.Declared d) :
    (c.setting.routes.claims l' ds).1 = (c.setting.routes.claims l ds).1 := by
  induction ds generalizing l l' with
  | nil => rfl
  | cons d ds ih =>
    have hwritten (l : Ledger) : SameReadings c l (c.setting.routes.reference l d).2 :=
      sameReadings_of_writes (p := (· = d)) (Routes.writes_reference rfl)
        (fun e he => he ▸ hds d (List.mem_cons_self ..)) (Routes.failures_reference ..)
    have htail := ih ((hwritten l).symm.trans (h.trans (hwritten l')))
      fun e he => hds e (List.mem_cons_of_mem d he)
    rw [Routes.claims, Routes.claims]
    simp only [Routes.reference_fst, htail, h.referenceIn d (hds d (List.mem_cons_self ..))]
    cases c.setting.routes.referenceIn l d <;> rfl

theorem SameReadings.fresh_eq (h : SameReadings c l l') (hds : ∀ d ∈ ds, c.Declared d) :
    c.setting.routes.fresh l' ds = c.setting.routes.fresh l ds := by
  simp only [Routes.fresh, h.claims_fst hds, Ledger.failure?, h.failures]

/-- Ledgers that make the same of declarations do so after a restore of some of them. -/
theorem SameReadings.restore (h : SameReadings c site.ledger site'.ledger)
    (hw : site'.world = site.world) (hds : ∀ d ∈ ds, c.Declared d) :
    (c.setting.routes.restore site' ds).2.world = (c.setting.routes.restore site ds).2.world ∧
      SameReadings c (c.setting.routes.restore site ds).2.ledger
        (c.setting.routes.restore site' ds).2.ledger := by
  have hclaimed : Site.Matches ⟨site.world, (c.setting.routes.claims site.ledger ds).2⟩
      ⟨site'.world, (c.setting.routes.claims site'.ledger ds).2⟩ :=
    ⟨hw, by simp only [Routes.failures_claims, h.failures]⟩
  have hmatches := Routes.restoreSchemes_matches c.setting.routes
    (c.setting.routes.fresh site.ledger ds) Scheme.all hclaimed
  have hsnd := Routes.restore_snd c.setting.routes site' ds
  rw [h.fresh_eq hds] at hsnd
  rw [← Routes.restore_snd, ← hsnd] at hmatches
  have hwrites (site : Site σ) := (Routes.restore_restores c.setting.routes site ds).writes
  refine ⟨hmatches.world, fun d hd => ?_, hmatches.failures⟩
  rw [referenceIn_of_writes (hwrites site) hds hd, referenceIn_of_writes (hwrites site') hds hd]
  exact h.referenceIn d hd

end Discovery

namespace Setting

open Discovery Relation

variable {σ : Type} {setting : Setting σ} {ws : Workspace} {site site' : Site σ}

/-- From one site to the other by a build of some file, whatever comes of it. -/
def Builds (setting : Setting σ) (ws : Workspace) (site site' : Site σ) : Prop :=
  ∃ n entry result, setting.build n site ws entry = some (result, site')

theorem sameReadings_of_buildWith {n : Nat} {prior : Prior} {entry : Url}
    {result : Except BuildError Graph}
    (h : setting.buildWith n site ws prior entry = some (result, site')) :
    site'.world = site.world ∧
      SameReadings ⟨setting, site.world, ws, prior⟩ site.ledger site'.ledger := by
  obtain ⟨found, hends, hworld, -⟩ := buildWith_ends h
  refine ⟨hworld, ?_⟩
  generalize site'.ledger = l' at hends
  cases hends with
  | unreadable hf href hfail =>
    exact ⟨fun d _ => by rw [Routes.referenceIn, href, Routes.referenceIn], hfail⟩
  | surveyed hf hs hn => exact hs.sameReadings

theorem sameReadings_of_builds (h : ReflTransGen (setting.Builds ws) site site') :
    site'.world = site.world ∧
      SameReadings ⟨setting, site.world, ws, .none⟩ site.ledger site'.ledger := by
  induction h with
  | refl => exact ⟨rfl, .refl⟩
  | tail _ hbuild ih =>
    obtain ⟨n, entry, result, hbuild⟩ := hbuild
    obtain ⟨hworld, hsame⟩ := ih
    obtain ⟨hworld', hsame'⟩ := sameReadings_of_buildWith hbuild
    rw [hworld] at hworld' hsame'
    exact ⟨hworld', hsame.trans hsame'⟩

end Setting

end ModuleGraph
