import ModuleGraph.Linking.Build

/-!
# Settings that answer the same

A world matters to a build only through what registries and the file reader
answer in it. So where the answers are the same, everything that is asked comes
out the same, the ledger included (`Routes.Echo.status`, `Routes.Echo.locate`),
and so do builds (`Setting.Echo.buildWith`). The registries may be different
ones, and their worlds of different types.

A registry only has to give the same answers about references of its own scheme,
for it is asked about no others.
-/

namespace ModuleGraph

variable {σ τ : Type}

namespace Routes

variable {routes : Routes σ} {routes' : Routes τ} {w : σ} {w' : τ} {l : Ledger} {parent : Url}
  {d : Declaration} {r : Reference} {s : Scheme}

/-! ## Routes with the same schemes -/

theorem unknown_congr (h : routes'.answersFor = routes.answersFor) (name : String) :
    routes'.unknown name = routes.unknown name := by
  rw [unknown, unknown, available, available, h]

theorem parse_congr (h : routes'.answersFor = routes.answersFor) (raw : String) :
    routes'.parse raw = routes.parse raw := by
  simp only [parse, h, unknown_congr h]

/-- What an address means depends on which schemes have a registry, and on no registry. -/
theorem read_congr (h : routes'.answersFor = routes.answersFor) (d : Declaration) :
    routes'.read d = routes.read d := by
  rw [read, read]
  exact congrArg _ (funext (parse_congr h))

theorem reference_congr_routes (h : routes'.answersFor = routes.answersFor) (l : Ledger)
    (d : Declaration) : routes'.reference l d = routes.reference l d := by
  rw [reference, reference, read_congr h]

theorem claims_congr_routes (h : routes'.answersFor = routes.answersFor) (l : Ledger)
    (ds : List Declaration) : routes'.claims l ds = routes.claims l ds := by
  induction ds generalizing l with
  | nil => rfl
  | cons d ds ih =>
    rw [claims, claims, reference_congr_routes h]
    simp only [ih]

/-! ## Routes with the same answers -/

/-- The second routes answer in the second world as the first ones do in the first world. -/
structure Echo (routes : Routes σ) (w : σ) (routes' : Routes τ) (w' : τ) : Prop where
  answersFor : routes'.answersFor = routes.answersFor
  restoreRequired : ∀ s registry registry', routes.registry? s = some registry →
    routes'.registry? s = some registry' → ∀ r, r.scheme = s →
      registry'.restoreRequired w' r = registry.restoreRequired w r
  entryPoint : ∀ s registry registry', routes.registry? s = some registry →
    routes'.registry? s = some registry' → ∀ parent r, r.scheme = s →
      registry'.entryPoint w' parent r = registry.entryPoint w parent r

/-- Routes to the same schemes have no registry for a scheme, or a pair of them. -/
theorem registry?_cases (h : routes'.answersFor = routes.answersFor) (s : Scheme) :
    (routes.registry? s = none ∧ routes'.registry? s = none) ∨
      ∃ registry registry', routes.registry? s = some registry ∧
        routes'.registry? s = some registry' := by
  have hs := congrFun h s
  rw [answersFor, answersFor] at hs
  cases hreg : routes.registry? s with
  | none =>
    rw [hreg, Option.isSome_none, Option.isSome_eq_false_iff, Option.isNone_iff_eq_none] at hs
    exact .inl ⟨rfl, hs⟩
  | some registry =>
    rw [hreg, Option.isSome_some, Option.isSome_iff_exists] at hs
    obtain ⟨registry', hreg'⟩ := hs
    exact .inr ⟨registry, registry', rfl, hreg'⟩

namespace Echo

variable (h : routes.Echo w routes' w')
include h

theorem statusOf : routes'.statusOf w' l r = routes.statusOf w l r := by
  rw [Routes.statusOf, Routes.statusOf]
  cases l.failure? r with
  | some f => rfl
  | none =>
    rcases registry?_cases h.answersFor r.scheme with ⟨hreg, hreg'⟩ |
      ⟨registry, registry', hreg, hreg'⟩
    · rw [hreg, hreg']
      dsimp only
      rw [unknown_congr h.answersFor]
    · rw [hreg, hreg']
      dsimp only
      rw [h.restoreRequired _ _ _ hreg hreg' r rfl, routes.scheme_eq hreg, routes'.scheme_eq hreg']

theorem locateOf : routes'.locateOf w' l parent r = routes.locateOf w l parent r := by
  rw [Routes.locateOf, Routes.locateOf]
  cases l.failure? r with
  | some f => rfl
  | none =>
    rcases registry?_cases h.answersFor r.scheme with ⟨hreg, hreg'⟩ |
      ⟨registry, registry', hreg, hreg'⟩
    · rw [hreg, hreg']
      dsimp only
      rw [unknown_congr h.answersFor]
    · rw [hreg, hreg']
      dsimp only
      rw [h.entryPoint _ _ _ hreg hreg' parent r rfl, routes.scheme_eq hreg,
        routes'.scheme_eq hreg']

theorem status : routes'.status w' l d = routes.status w l d := by
  rw [Routes.status, Routes.status, reference_congr_routes h.answersFor]
  generalize routes.reference l d = asked
  obtain ⟨x, l'⟩ := asked
  cases x with
  | error f => rfl
  | ok r => exact h.statusOf

theorem locate : routes'.locate w' l parent d = routes.locate w l parent d := by
  rw [Routes.locate, Routes.locate, reference_congr_routes h.answersFor]
  generalize routes.reference l d = asked
  obtain ⟨x, l'⟩ := asked
  cases x with
  | error f => rfl
  | ok r => exact h.locateOf

end Echo

end Routes

/-! ## Builds -/

/-- The second setting answers in the second world as the first one does in the first world. -/
structure Setting.Echo (setting : Setting σ) (w : σ) (setting' : Setting τ) (w' : τ) : Prop where
  routes : setting.routes.Echo w setting'.routes w'
  read : ∀ u, setting'.read w' u = setting.read w u

namespace Setting.Echo

open Discovery

variable {setting : Setting σ} {setting' : Setting τ} {w : σ} {w' : τ} {ws : Workspace}
  {prior : Prior} {s : Discovery} {u parent : Url} {d : Declaration}
  (h : setting.Echo w setting' w')
include h

theorem load : Discovery.load ⟨setting', w', ws, prior⟩ s u =
    Discovery.load ⟨setting, w, ws, prior⟩ s u := by
  rw [Discovery.load, Discovery.load, readFile, readFile]
  dsimp only
  rw [h.read]

theorem visit : Discovery.visit ⟨setting', w', ws, prior⟩ s u =
    Discovery.visit ⟨setting, w, ws, prior⟩ s u := by
  rw [Discovery.visit, Discovery.visit, h.load]

theorem follow : Discovery.follow ⟨setting', w', ws, prior⟩ s parent d =
    Discovery.follow ⟨setting, w, ws, prior⟩ s parent d := by
  simp only [Discovery.follow, h.routes.locate, h.visit]

theorem evaluate : Discovery.evaluate ⟨setting', w', ws, prior⟩ s parent d =
    Discovery.evaluate ⟨setting, w, ws, prior⟩ s parent d := by
  simp only [Discovery.evaluate, h.routes.status, h.follow]
  rfl

theorem evaluateAll (ds : List Declaration) (found : List SourceFile) :
    Discovery.evaluateAll ⟨setting', w', ws, prior⟩ parent ds found s =
      Discovery.evaluateAll ⟨setting, w, ws, prior⟩ parent ds found s := by
  induction ds generalizing found s with
  | nil => rfl
  | cons d ds ih =>
    rw [Discovery.evaluateAll, Discovery.evaluateAll, h.evaluate]
    exact ih _

theorem explore (n : Nat) (files : List SourceFile) :
    Discovery.explore ⟨setting', w', ws, prior⟩ n files s =
      Discovery.explore ⟨setting, w, ws, prior⟩ n files s := by
  induction n generalizing files s with
  | zero => cases files <;> rfl
  | succ n ih =>
    cases files with
    | nil => rfl
    | cons file rest =>
      rw [Discovery.explore, Discovery.explore, h.evaluateAll]
      exact ih _

/-- The builds differ in the worlds that they leave as they are. -/
theorem buildWith (n : Nat) (l : Ledger) (ws : Workspace) (prior : Prior) (entry : Url) :
    setting'.buildWith n ⟨w', l⟩ ws prior entry =
      (setting.buildWith n ⟨w, l⟩ ws prior entry).map fun (g, site) => (g, ⟨w', site.ledger⟩) := by
  rw [Setting.buildWith, Setting.buildWith, discover, discover, survey, survey, h.load]
  simp only [h.explore, Option.map_map]
  rfl

end Setting.Echo

end ModuleGraph
