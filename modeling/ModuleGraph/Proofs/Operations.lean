import ModuleGraph.Proofs.Recording

/-!
# Remembered failures stick

A module that could not be restored is not tried again: its failure is
remembered, and whoever asks about the module gets that failure for an answer.
This file says so of everything that can be done at a site, in any order, while
the registries do what they like. Only clearing the failures ends it.

What keeps a failure is that it comes first. A question about a module looks for
a failure before it looks for a registry, and a restore leaves out the modules
that have one, so that it can neither replace nor forgive them.
-/

namespace ModuleGraph

/-- What can be done at a site. In a turn the world changes on its own. -/
inductive Operation (σ : Type) where
  | reference (d : Declaration)
  | status (d : Declaration)
  | locate (parent : Url) (d : Declaration)
  | restore (ds : List Declaration)
  | forget (uri : Url)
  | clearFailures
  | turn (world : σ)

namespace Operation

variable {σ : Type}

def run (routes : Routes σ) (site : Site σ) : Operation σ → Site σ
  | reference d => { site with ledger := (routes.reference site.ledger d).2 }
  | status d => { site with ledger := (routes.status site.world site.ledger d).2 }
  | locate parent d => { site with ledger := (routes.locate site.world site.ledger parent d).2 }
  | restore ds => (routes.restore site ds).2
  | forget uri => { site with ledger := site.ledger.forget uri }
  | clearFailures => { site with ledger := site.ledger.clearFailures }
  | turn world => { site with world := world }

def runAll (routes : Routes σ) (site : Site σ) (ops : List (Operation σ)) : Site σ :=
  ops.foldl (run routes) site

/-- What an operation gives back. -/
inductive Answer where
  | reference (result : Except Failure Reference)
  | status (result : Status)
  | located (result : Except Failure Url)
  | restored (failures : FailureMap)
  | done

def answer (routes : Routes σ) (site : Site σ) : Operation σ → Answer
  | reference d => .reference (routes.reference site.ledger d).1
  | status d => .status (routes.status site.world site.ledger d).1
  | locate parent d => .located (routes.locate site.world site.ledger parent d).1
  | restore ds => .restored (routes.restore site ds).1
  | forget _ | clearFailures | turn _ => .done

end Operation

namespace Routes

variable {σ : Type} {routes : Routes σ} {site : Site σ} {r s : Reference} {f : Failure}
  {d : Declaration} {ds : List Declaration} {op : Operation σ} {ops : List (Operation σ)}

/-- The failure is all that anybody hears of the module, under any spelling. What a declaration
refers to is what the site has for it, and that of a restore is the site it leaves. -/
structure Barred (routes : Routes σ) (site : Site σ) (r : Reference) (f : Failure) : Prop where
  failure? : ∀ s, r.same s = true → site.ledger.failure? s = some f
  status : ∀ s d, r.same s = true → (routes.reference site.ledger d).1 = .ok s →
    (routes.status site.world site.ledger d).1 = .failed f
  locate : ∀ s parent d, r.same s = true → (routes.reference site.ledger d).1 = .ok s →
    (routes.locate site.world site.ledger parent d).1 = .error f
  restore : ∀ s ds, ∀ d ∈ ds, r.same s = true →
    (routes.reference (routes.restore site ds).2.ledger d).1 = .ok s →
      (routes.restore site ds).1[d.id]? = some f

/-! ## Answers -/

theorem statusIn_of_failure (href : routes.referenceIn site.ledger d = .ok r)
    (hf : site.ledger.failure? r = some f) :
    routes.statusIn site.world site.ledger d = .failed f := by
  rw [statusIn, href]
  dsimp only
  rw [statusOf, hf]

theorem locateIn_of_failure {parent : Url} (href : routes.referenceIn site.ledger d = .ok r)
    (hf : site.ledger.failure? r = some f) :
    routes.locateIn site.world site.ledger parent d = .error f := by
  rw [locateIn, href]
  dsimp only
  rw [locateOf, hf]

/-- A failure that all of a module's spellings have in a list is found there first. -/
theorem failureIn?_known {modules : List Reference} {l : Ledger}
    {more : List (Reference × Failure)} (hr : ∃ s ∈ modules, s.same r = true)
    (hf : l.failure? r = some f) :
    failureIn? (modules.filterMap (fun s => (l.failure? s).map (s, ·)) ++ more) r = some f := by
  induction modules with
  | nil =>
    obtain ⟨s, hs, -⟩ := hr
    cases hs
  | cons s modules ih =>
    by_cases hsame : s.same r = true
    · have hs : l.failure? s = some f := by
        rw [← hf]
        exact Ledger.failure?_congr (Reference.same_iff.1 hsame)
      simp [failureIn?, hs, hsame]
    · obtain ⟨s', hs', hsame'⟩ := hr
      have hs' : s' ∈ modules := (List.mem_cons.1 hs').resolve_left fun h => hsame (h ▸ hsame')
      have ih := ih ⟨s', hs', hsame'⟩
      rw [List.filterMap_cons]
      cases l.failure? s with
      | none => exact ih
      | some f' =>
        rw [← ih]
        simp [failureIn?, hsame]

/-- A restore blames a declaration for the failure that is remembered of its module. -/
theorem restore_of_failure (hd : d ∈ ds)
    (href : (routes.restore site ds).2.ledger.references[d.id]? = some (.ok r))
    (hf : site.ledger.failure? r = some f) : (routes.restore site ds).1[d.id]? = some f := by
  rw [references_restore] at href
  have hclaim : (r, d.id) ∈ (routes.claims site.ledger ds).1 :=
    mem_claims_iff.2 ⟨⟨d, hd, rfl⟩, href⟩
  rw [restore_fst]
  exact getElem?_blame hclaim (fun _ => eq_of_mem_claims hclaim)
    (failureIn?_known (exists_mem_distinct (List.mem_map.2 ⟨_, hclaim, rfl⟩)) hf)

theorem barred_of_failure (hf : site.ledger.failure? r = some f) : routes.Barred site r f := by
  have hspelled (s : Reference) (hs : r.same s = true) : site.ledger.failure? s = some f := by
    rw [← hf]
    exact (Ledger.failure?_congr (Reference.same_iff.1 hs)).symm
  refine ⟨hspelled, fun s d hs href => ?_, fun s parent d hs href => ?_,
    fun s ds d hd hs href => ?_⟩
  · rw [reference_fst] at href
    rw [status_fst]
    exact statusIn_of_failure href (hspelled s hs)
  · rw [reference_fst] at href
    rw [locate_fst]
    exact locateIn_of_failure href (hspelled s hs)
  · exact restore_of_failure hd (written_restore hd href) (hspelled s hs)

/-! ## Operations -/

/-- An operation asks registries only about modules without a failure. -/
theorem run_notes (routes : Routes σ) (site : Site σ) (op : Operation σ) :
    site.ledger.Notes (fun i => ∀ s ∈ i.references, site.ledger.failure? s = none)
      (op.run routes site).ledger := by
  have hone {s : Reference} (hs : site.ledger.failure? s = none) :
      ∀ s' ∈ [s], site.ledger.failure? s' = none := by
    intro s' hs'
    obtain rfl := List.mem_singleton.1 hs'
    exact hs
  cases op with
  | reference d => exact .of_eq (journal_reference routes site.ledger d)
  | status d => exact status_notes fun s hs _ => hone hs
  | locate parent d => exact locate_notes fun s hs _ => hone hs
  | restore ds =>
    exact (restore_hands routes site ds).notes.mono fun i hi s hs => (of_mem_fresh (hi s hs)).1
  | forget | clearFailures | turn => exact .of_eq rfl

theorem run_keeps (hop : op ≠ .clearFailures) (hf : site.ledger.failure? r = some f) :
    (op.run routes site).ledger.failure? r = some f := by
  cases op with
  | reference d =>
    rw [← hf]
    exact failure?_of_failures_eq (failures_reference routes site.ledger d) r
  | status d =>
    rw [← hf]
    exact failure?_of_failures_eq (failures_status routes site.world site.ledger d) r
  | locate parent d =>
    rw [← hf]
    exact failure?_of_failures_eq failures_locate r
  | restore ds => exact (restore_restores routes site ds).keeps r f hf
  | forget | turn => exact hf
  | clearFailures => exact absurd rfl hop

end Routes

/-! ## Operations with a record -/

namespace Operation

/-- The operation where there is a record. What changes the world on its own leaves the record as
it is. -/
def recording (record : List Inquiry) : Operation σ → Operation (σ × List Inquiry)
  | reference d => reference d
  | status d => status d
  | locate parent d => locate parent d
  | restore ds => restore ds
  | forget uri => forget uri
  | clearFailures => clearFailures
  | turn world => turn (world, record)

/-- The operations from a site on, where there is a record. -/
def recordingAll (routes : Routes σ) :
    Site σ → List (Operation σ) → List (Operation (σ × List Inquiry))
  | _, [] => []
  | site, op :: ops =>
    op.recording site.ledger.batches :: recordingAll routes (op.run routes site) ops

theorem run_recording (routes : Routes σ) (site : Site σ) (op : Operation σ) :
    (op.recording site.ledger.batches).run routes.recording site.recorded =
      (op.run routes site).recorded := by
  symm
  have hecho := routes.echo_recording site.world site.ledger.batches
  cases op with
  | reference d =>
    have hasks : site.ledger.Asks (routes.reference site.ledger d).2 :=
      .of_eq (Routes.journal_reference routes site.ledger d)
    rw [run, Site.recorded_of_asks hasks, ← Routes.reference_congr_routes hecho.answersFor]
    rfl
  | status d =>
    rw [run, Site.recorded_of_asks (Routes.status_notes fun _ _ _ => rfl), ← hecho.status]
    rfl
  | locate parent d =>
    rw [run, Site.recorded_of_asks (Routes.locate_notes fun _ _ _ => rfl), ← hecho.locate]
    rfl
  | restore ds => exact congrArg Prod.snd (Routes.restore_recording routes site ds).symm
  | forget | clearFailures | turn => rfl

/-- The batches that registries are called with in a row of operations are those that the journal
has. -/
theorem runAll_recording (routes : Routes σ) (site : Site σ) (ops : List (Operation σ)) :
    runAll routes.recording site.recorded (recordingAll routes site ops) =
      (runAll routes site ops).recorded := by
  induction ops generalizing site with
  | nil => rfl
  | cons op ops ih =>
    have hhead := run_recording routes site op
    rw [runAll, recordingAll, List.foldl_cons, hhead]
    exact ih (op.run routes site)

end Operation

namespace Routes

/-- As long as failures are not cleared, a failure that is remembered stays what it is, is all
that is heard of the module, and no registry is asked about the module any more. The batches that
the journal tells of are those that registries put on record. -/
theorem failure_sticks (hops : .clearFailures ∉ ops) (hf : site.ledger.failure? r = some f) :
    routes.Barred (Operation.runAll routes site ops) r f ∧
      site.ledger.Notes (fun i => ∀ s ∈ i.references, r.same s = false)
        (Operation.runAll routes site ops).ledger ∧
      Operation.runAll routes.recording site.recorded (Operation.recordingAll routes site ops) =
        (Operation.runAll routes site ops).recorded := by
  refine and_assoc.1 ⟨?_, Operation.runAll_recording routes site ops⟩
  induction ops generalizing site with
  | nil => exact ⟨barred_of_failure hf, .refl⟩
  | cons op ops ih =>
    obtain ⟨hop, hops⟩ := not_or.1 (mt List.mem_cons.2 hops)
    obtain ⟨hbarred, hlater⟩ := ih hops (run_keeps (Ne.symm hop) hf)
    refine ⟨hbarred, ((run_notes routes site op).mono fun i hi s hs => ?_).trans hlater⟩
    rw [Bool.eq_false_iff]
    intro hsame
    have hnone := hi s hs
    rw [← Ledger.failure?_congr (Reference.same_iff.1 hsame), hf] at hnone
    cases hnone

end Routes

namespace Sample

/-- A shelf that is closed at first. As long as it is, nothing can be fetched. -/
def closedShelf : Registry Bool where
  scheme := .nuget
  restoreRequired opened _ := !opened
  entryPoint _ _ _ := .ok part
  restore opened rs := (if opened then [] else rs.map (·, .notFound "a@1"), opened)

def closedSite : Site Bool :=
  ((Routes.ofList [closedShelf]).restore site (SourceFile.parse part partText).declarations).2

/-- The shelf opens, and the module is asked for again under another spelling. -/
def reopening : List (Operation Bool) :=
  [.turn true, .restore (SourceFile.parse part "module a 'nuget:A@1'").declarations]

/-- The failure of the first restore is all that is heard of the module, and that restore is all
that is on record. -/
theorem failure_sticks_reopening :
    .clearFailures ∉ reopening ∧
      closedSite.ledger.failure? hollow = some ((RestoreError.notFound "a@1").failureOf hollow) ∧
      (Routes.ofList [closedShelf]).Barred
        (Operation.runAll (Routes.ofList [closedShelf]) closedSite reopening) hollow
        ((RestoreError.notFound "a@1").failureOf hollow) ∧
      closedSite.ledger.Notes (fun i => ∀ s ∈ i.references, hollow.same s = false)
        (Operation.runAll (Routes.ofList [closedShelf]) closedSite reopening).ledger ∧
      (Operation.runAll (Routes.ofList [closedShelf]).recording closedSite.recorded
        (Operation.recordingAll (Routes.ofList [closedShelf]) closedSite reopening)).world.2 =
          [.restore .nuget [hollow]] := by
  have hops : .clearFailures ∉ reopening := by simp [reopening]
  have hf : closedSite.ledger.failure? hollow =
      some ((RestoreError.notFound "a@1").failureOf hollow) := by decide +kernel
  obtain ⟨hbarred, hnotes, hrecord⟩ := Routes.failure_sticks hops hf
  refine ⟨hops, hf, hbarred, hnotes, ?_⟩
  rw [hrecord]
  decide +kernel

end Sample

end ModuleGraph
