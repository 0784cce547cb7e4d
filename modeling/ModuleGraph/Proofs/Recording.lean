import ModuleGraph.Proofs.Echoes
import ModuleGraph.Proofs.Journal

/-!
# Registries that keep a record

The journal is written beside the calls that it tells of, and not by the
registries that are called. So that what is read off it holds of the calls,
this file has the registries write themselves: `Registry.recording` puts every
batch that it is called with into the world, and answers as before.

If the record and the journal tell of the same batches at first, then they do so
after a restore (`restore_recording`) and after linking (`link_recording`). That
is so for any registries, and whatever they do.
-/

namespace ModuleGraph

variable {σ : Type}

/-- The registry over worlds with a record of the batches that registries were called with, the
last one first. -/
def Registry.recording (registry : Registry σ) : Registry (σ × List Inquiry) where
  scheme := registry.scheme
  restoreRequired w r := registry.restoreRequired w.1 r
  entryPoint w parent r := registry.entryPoint w.1 parent r
  restore w batch :=
    let (errors, world) := registry.restore w.1 batch
    (errors, world, .restore registry.scheme batch :: w.2)

theorem Registry.restore_recording (registry : Registry σ) (w : σ) (record : List Inquiry)
    (batch : List Reference) : registry.recording.restore (w, record) batch =
      ((registry.restore w batch).1, (registry.restore w batch).2,
        .restore registry.scheme batch :: record) := rfl

/-- The routes to the same registries, which keep a record. -/
def Routes.recording (routes : Routes σ) : Routes (σ × List Inquiry) where
  registry? s := (routes.registry? s).map Registry.recording
  scheme_eq h := by
    obtain ⟨registry, hreg, rfl⟩ := Option.map_eq_some_iff.1 h
    exact routes.scheme_eq hreg

def Setting.recording (setting : Setting σ) : Setting (σ × List Inquiry) where
  routes := setting.routes.recording
  read w uri := setting.read w.1 uri

/-- The batches that the journal tells of, the last one first. -/
def Ledger.batches (l : Ledger) : List Inquiry :=
  l.journal.filter Inquiry.isRestore

/-- The site with a record that tells what its journal does. -/
def Site.recorded (site : Site σ) : Site (σ × List Inquiry) :=
  ⟨(site.world, site.ledger.batches), site.ledger⟩

/-! ## Answers -/

theorem Ledger.Notes.batches_eq {l l' : Ledger} (h : l.Asks l') : l'.batches = l.batches := by
  obtain ⟨later, heq, hall⟩ := h
  have hnone : later.filter Inquiry.isRestore = [] :=
    List.filter_eq_nil_iff.2 fun i hi => Bool.eq_false_iff.1 (hall i hi)
  rw [batches, batches, heq, List.filter_append, hnone, List.nil_append]

theorem Site.recorded_of_asks {site : Site σ} {l : Ledger} (h : site.ledger.Asks l) :
    (⟨site.world, l⟩ : Site σ).recorded = ⟨site.recorded.world, l⟩ := by
  rw [recorded, recorded, h.batches_eq]

namespace Routes

variable {routes : Routes σ} {registry : Registry σ} {errors : List (Reference × RestoreError)}
  {w : σ} {l : Ledger} {batch : List Reference} {record : List Inquiry}

theorem registry?_recording (routes : Routes σ) (s : Scheme) :
    routes.recording.registry? s = (routes.registry? s).map Registry.recording := rfl

theorem answersFor_recording (routes : Routes σ) :
    routes.recording.answersFor = routes.answersFor := by
  funext s
  rw [answersFor, answersFor, registry?_recording, Option.isSome_map]

/-- A record changes no answer. -/
theorem echo_recording (routes : Routes σ) (w : σ) (record : List Inquiry) :
    routes.Echo w routes.recording (w, record) where
  answersFor := answersFor_recording routes
  restoreRequired s registry registry' hreg hreg' r _ := by
    rw [registry?_recording, hreg] at hreg'
    obtain rfl := Option.some.inj hreg'
    rfl
  entryPoint s registry registry' hreg hreg' parent r _ := by
    rw [registry?_recording, hreg] at hreg'
    obtain rfl := Option.some.inj hreg'
    rfl

/-! ## Restores -/

theorem settleAll_recording : settleAll registry.recording (w, record) errors l batch =
    settleAll registry w errors l batch := by
  induction batch generalizing l with
  | nil => rfl
  | cons r rs ih =>
    have hhead : settle registry.recording (w, record) errors l r = settle registry w errors l r :=
      rfl
    rw [settleAll, settleAll, hhead]
    simp only [ih]

theorem restoreBatch_recording (routes : Routes σ) (s : Scheme) (batch : List Reference)
    (site : Site σ) : routes.recording.restoreBatch s batch site.recorded =
      ((routes.restoreBatch s batch site).1, (routes.restoreBatch s batch site).2.recorded) := by
  rw [restoreBatch, restoreBatch]
  split
  · rfl
  · rw [registry?_recording]
    cases routes.registry? s with
    | none =>
      dsimp only [Option.map_none]
      rw [unknown_congr (answersFor_recording routes)]
    | some registry =>
      have hnoted : (settleAll registry (registry.restore site.world batch).2
          (registry.restore site.world batch).1
          (site.ledger.note (.restore registry.scheme batch)) batch).2.batches =
            .restore registry.scheme batch :: site.ledger.batches :=
        Ledger.Notes.batches_eq (settleAll_notes fun _ _ => rfl)
      simp only [Option.map_some, Site.recorded, Registry.restore_recording, settleAll_recording,
        hnoted]
      rfl

theorem restoreSchemes_recording (routes : Routes σ) (batch : List Reference) (site : Site σ)
    (schemes : List Scheme) : routes.recording.restoreSchemes batch site.recorded schemes =
      ((routes.restoreSchemes batch site schemes).1,
        (routes.restoreSchemes batch site schemes).2.recorded) := by
  induction schemes generalizing site with
  | nil => rfl
  | cons s rest ih =>
    rw [restoreSchemes, restoreSchemes, restoreBatch_recording]
    simp only [ih]

/-- The batches that registries are called with in a restore are those that the journal has. -/
theorem restore_recording (routes : Routes σ) (site : Site σ) (ds : List Declaration) :
    routes.recording.restore site.recorded ds =
      ((routes.restore site ds).1, (routes.restore site ds).2.recorded) := by
  have hclaims : routes.recording.claims site.recorded.ledger ds = routes.claims site.ledger ds :=
    claims_congr_routes (answersFor_recording routes) site.ledger ds
  rw [restore, restore, hclaims]
  dsimp only
  rw [← Site.recorded_of_asks (.of_eq (journal_claims ..)), restoreSchemes_recording]

end Routes

/-! ## Linking -/

namespace Setting

variable (setting : Setting σ) (n : Nat) (ws : Workspace)

theorem buildWith_recording (site : Site σ) (prior : Prior) (entry : Url) :
    setting.recording.buildWith n site.recorded ws prior entry =
      (setting.buildWith n site ws prior entry).map fun (g, s) => (g, s.recorded) := by
  have hecho : setting.Echo site.world setting.recording (site.world, site.ledger.batches) :=
    ⟨setting.routes.echo_recording _ _, fun _ => rfl⟩
  refine (hecho.buildWith n site.ledger ws prior entry).trans (Option.map_congr ?_)
  rintro ⟨g, s⟩ hb
  have hasks := buildWith_notes hb
  rw [buildWith] at hb
  obtain ⟨⟨_, l⟩, -, heq⟩ := Option.map_eq_some_iff.1 hb
  obtain ⟨-, rfl⟩ := Prod.mk.inj heq
  exact congrArg (Prod.mk g) (Site.recorded_of_asks hasks).symm

theorem settle_recording (rounds : Nat) (g : Graph) (site : Site σ) :
    setting.recording.settle n ws rounds g site.recorded =
      (setting.settle n ws rounds g site).map fun (r, s) => (r, s.recorded) := by
  induction rounds generalizing g site with
  | zero =>
    rw [settle, settle]
    split <;> rfl
  | succ rounds ih =>
    rw [settle, settle]
    split
    · rfl
    · have hrestore : setting.recording.routes.restore site.recorded g.pendingDeclarations = _ :=
        Routes.restore_recording setting.routes site g.pendingDeclarations
      rw [hrestore]
      dsimp only
      rw [rebuild, rebuild, buildWith_recording]
      generalize setting.buildWith n (setting.routes.restore site g.pendingDeclarations).2 ws
        (.ofGraph g (setting.routes.restore site g.pendingDeclarations).1) g.entry = built
      rcases built with _ | ⟨_ | g', s⟩
      · rfl
      · rfl
      · exact ih g' s

/-- The batches that registries are called with in linking are those that the journal has. -/
theorem link_recording (site : Site σ) (entry : Url) :
    setting.recording.link n site.recorded ws entry =
      (setting.link n site ws entry).map fun (r, s) => (r, s.recorded) := by
  rw [link, link, build, build, buildWith_recording]
  generalize setting.buildWith n site ws .none entry = built
  rcases built with _ | ⟨_ | g, s⟩
  · rfl
  · rfl
  · exact settle_recording setting n ws n g s

variable {setting n ws}

theorem link_recorded {site s : Site σ} {entry : Url} {r : Except BuildError Graph}
    (h : setting.link n site ws entry = some (r, s)) :
    setting.recording.link n site.recorded ws entry = some (r, s.recorded) := by
  rw [link_recording, h]
  rfl

end Setting

end ModuleGraph
