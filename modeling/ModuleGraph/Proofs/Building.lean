import ModuleGraph.Linking.Build
import ModuleGraph.Proofs.BreakingCycles
import ModuleGraph.Proofs.Budget

/-!
# Builds as surveys

`build` and `rebuild` are one survey each, followed by the breaking of cycles.
This file carries what is known of a survey over to them: where the graph of a
build comes from, and when there is a graph at all.
-/

namespace ModuleGraph

theorem Graph.declaration?_of_mem {g : Graph} {u : Url} {f : SourceFile} {d : Declaration}
    (hf : g.files[u]? = some f) (hd : d ∈ f.declarations) : g.declaration? d.id = some d := by
  rw [declaration?, SourceFile.id_uri_of_mem hd, FileMap.uri_of_getElem? hf, hf]
  exact SourceFile.declaration?_of_mem hd

theorem Graph.id_of_declaration? {g : Graph} {id : DeclarationId} {d : Declaration}
    (h : g.declaration? id = some d) : d.id = id := by
  obtain ⟨f, -, hd⟩ := Option.bind_eq_some_iff.1 h
  exact SourceFile.id_of_declaration? hd

theorem Graph.exists_file_of_declaration? {g : Graph} {id : DeclarationId} {d : Declaration}
    (h : g.declaration? id = some d) : ∃ file : SourceFile, d ∈ file.declarations := by
  obtain ⟨file, -, hd⟩ := Option.bind_eq_some_iff.1 h
  exact ⟨file, SourceFile.mem_of_declaration? hd⟩

/-- What is handed over for a restore stands in a file of the graph. -/
theorem Graph.declaration?_of_mem_pendingDeclarations {g : Graph} {d : Declaration}
    (h : d ∈ g.pendingDeclarations) : g.declaration? d.id = some d := by
  obtain ⟨id, -, hid⟩ := List.mem_filterMap.1 h
  obtain rfl := id_of_declaration? hid
  exact hid

namespace Discovery

variable {s : Discovery} {entry : Url} {id : DeclarationId}

/-! ## The graph of a finished build -/

@[simp] theorem entry_graph : (s.graph entry).entry = entry := rfl

@[simp] theorem files_graph : (s.graph entry).files = s.files := rfl

theorem resolution?_graph :
    (s.graph entry).resolution? id = s.outcomes.breakCycles.resolution? id := rfl

theorem failure?_graph :
    (s.graph entry).failure? id = s.outcomes.breakCycles.failure? id := rfl

theorem isPending_graph : (s.graph entry).isPending id = s.outcomes.isPending id :=
  Outcomes.isPending_breakCycles

/-- What has no target keeps its failure. -/
theorem failure?_graph_of_unresolved (h : s.outcomes.resolution? id = none) :
    (s.graph entry).failure? id = s.outcomes.failure? id :=
  (Outcomes.breakCycles_of_no_cycle (by simp [h])).2

/-- The declarations of a graph are those of its files, each under its own id. -/
theorem declaration?_graph {d : Declaration} :
    (s.graph entry).declaration? id = some d ↔ Declares s d ∧ d.id = id := by
  rw [Graph.declaration?, files_graph, Option.bind_eq_some_iff]
  constructor
  · rintro ⟨f, hf, hd⟩
    have hid := SourceFile.id_of_declaration? hd
    exact ⟨⟨f, hid ▸ hf, SourceFile.mem_of_declaration? hd⟩, hid⟩
  · rintro ⟨⟨f, hf, hd⟩, rfl⟩
    exact ⟨f, hf, SourceFile.declaration?_of_mem hd⟩

/-- Before cycles are broken, every id shows the verdict on its declaration, if
the graph has one. -/
theorem Surveyed.shows_declaration? {σ : Type} {c : Context σ} {l : Ledger}
    (h : Surveyed c l entry s) (id : DeclarationId) :
    s.outcomes.Shows id (((s.graph entry).declaration? id).map (c.verdict l)) := by
  cases hd : (s.graph entry).declaration? id with
  | none =>
    refine h.blank id fun d hdecl hid => ?_
    rw [declaration?_graph.2 ⟨hdecl, hid⟩] at hd
    cases hd
  | some d =>
    obtain ⟨hdecl, rfl⟩ := declaration?_graph.1 hd
    exact h.shows d hdecl

end Discovery

namespace Setting

open Discovery

variable {σ : Type} {setting : Setting σ} {n : Nat} {site site' : Site σ} {ws : Workspace}
  {prior : Prior} {entry : Url} {g : Graph}

theorem buildWith_eq : setting.buildWith n site ws prior entry =
    (survey ⟨setting, site.world, ws, prior⟩ n site.ledger entry).map
      fun r => (r.1.map (·.graph entry), ⟨site.world, r.2⟩) := by
  rw [buildWith, discover, Option.map_map]
  rfl

theorem buildWith_ends {r : Except BuildError Graph}
    (h : setting.buildWith n site ws prior entry = some (r, site')) :
    ∃ result, Ends ⟨setting, site.world, ws, prior⟩ n site.ledger entry
        (result, site'.ledger) ∧
      site'.world = site.world ∧ r = result.map (·.graph entry) := by
  rw [buildWith_eq] at h
  obtain ⟨⟨result, l'⟩, hs, heq⟩ := Option.map_eq_some_iff.1 h
  cases heq
  exact ⟨result, survey_ends hs, rfl, rfl⟩

theorem buildWith_ok (h : setting.buildWith n site ws prior entry = some (.ok g, site')) :
    ∃ s, Surveyed ⟨setting, site.world, ws, prior⟩ site.ledger entry s ∧
      g = s.graph entry ∧ site' = ⟨site.world, s.ledger⟩ ∧ s.files.size ≤ n ∧
      ∃ f, Context.fetch ⟨setting, site.world, ws, prior⟩ entry = .ok f := by
  obtain ⟨result, hends, hw, hg⟩ := buildWith_ends h
  obtain ⟨w, l'⟩ := site'
  dsimp only at hends hw
  cases hends with
  | unreadable => cases hg
  | surveyed hf hs hn =>
    cases hg
    cases hw
    exact ⟨_, hs, rfl, rfl, hn, _, hf⟩

/-- There is no graph when the entry file cannot be had, and no other reason. -/
theorem buildWith_error {e : BuildError}
    (h : setting.buildWith n site ws prior entry = some (.error e, site')) :
    Context.fetch ⟨setting, site.world, ws, prior⟩ entry = .error e.failure ∧
      e.uri = entry := by
  obtain ⟨result, hends, -, hg⟩ := buildWith_ends h
  generalize site'.ledger = l' at hends
  cases hends with
  | unreadable hf => cases hg; exact ⟨hf, rfl⟩
  | surveyed => cases hg

theorem exists_buildWith (reach : List Url)
    (hr : ∀ u, Reached ⟨setting, site.world, ws, prior⟩ site.ledger entry u → u ∈ reach)
    (hn : reach.length ≤ n) : ∃ r, setting.buildWith n site ws prior entry = some r := by
  obtain ⟨r, hs⟩ := exists_survey reach hr hn
  rw [buildWith_eq, hs]
  exact ⟨_, rfl⟩

theorem buildWith_mono {m : Nat} {r : Except BuildError Graph × Site σ}
    (h : setting.buildWith n site ws prior entry = some r) (hle : n ≤ m) :
    setting.buildWith m site ws prior entry = some r := by
  rw [buildWith_eq] at h ⊢
  obtain ⟨a, hs, rfl⟩ := Option.map_eq_some_iff.1 h
  rw [survey_mono hs hle]
  rfl

theorem buildWith_unique {m : Nat} {r r' : Except BuildError Graph × Site σ}
    (h : setting.buildWith n site ws prior entry = some r)
    (h' : setting.buildWith m site ws prior entry = some r') : r = r' :=
  Option.some.inj ((buildWith_mono h (Nat.le_max_left n m)).symm.trans
    (buildWith_mono h' (Nat.le_max_right n m)))

end Setting

/-! ## A small setting

Statements about builds are tried on this setting, in which a restore may come
to nothing. -/

namespace Sample

/-- A module that is never there, whatever is restored. -/
def hollow : Reference := .nuget ⟨"a", "1"⟩

/-- A module that is there once it has been restored. -/
def whole : Reference := .nuget ⟨"b", "1"⟩

/-- The entry file, which declares both modules. -/
def main : Url := ⟨"file:///main.cfg"⟩

/-- The file of the second module, which declares the first one again. -/
def part : Url := ⟨"file:///part.cfg"⟩

/-- The registry of both modules. The world says whether the second one is there. -/
def shelf : Registry Bool where
  scheme := .nuget
  restoreRequired stocked r := !(stocked && r == whole)
  entryPoint _ _ _ := .ok part
  restore stocked rs := ([], stocked || rs.contains whole)

/-- The text of the entry file. -/
def mainText : String := "module a 'nuget:a@1'\nmodule b 'nuget:b@1'"

/-- The text of the second module. -/
def partText : String := "module a 'nuget:a@1'"

/-- The setting of the two files. -/
def setting : Setting Bool where
  routes := .ofList [shelf]
  read _ u :=
    if u = main then .ok mainText
    else if u = part then .ok partText
    else .error .notFound

theorem eq_shelf {s : Scheme} {registry : Registry Bool}
    (h : setting.routes.registry? s = some registry) : registry = shelf :=
  List.mem_singleton.1 (Routes.mem_of_registry?_ofList h)

/-- Nothing has been restored. -/
def site : Site Bool := ⟨false, .empty⟩

/-- The graph that a build gives, if it gives one. -/
def graph? (r : Option (Except BuildError Graph × Site Bool)) : Option Graph :=
  match r with
  | some (.ok g, _) => some g
  | _ => none

theorem of_graph? {r : Option (Except BuildError Graph × Site Bool)} {g : Graph}
    (h : graph? r = some g) : ∃ site', r = some (.ok g, site') := by
  unfold graph? at h
  split at h
  · cases h; exact ⟨_, rfl⟩
  · cases h

/-- The first build finds the entry file and waits for both modules. A restore
then brings the second one. -/
theorem exists_build :
    ∃ g s, setting.build 2 site ∅ main = some (.ok g, s) ∧ g.pending.size = 2 ∧
      g.files.keys = [main] ∧
      (setting.routes.restore s g.pendingDeclarations).2.world = true := by
  have hcheck : (match setting.build 2 site ∅ main with
      | some (.ok g, s) => g.pending.size == 2 && (g.files.keys == [main] &&
        (setting.routes.restore s g.pendingDeclarations).2.world)
      | _ => false) = true := by decide +kernel
  split at hcheck
  · next g s h =>
    rw [Bool.and_eq_true, Bool.and_eq_true, beq_iff_eq, beq_iff_eq] at hcheck
    exact ⟨g, s, h, hcheck⟩
  · cases hcheck

end Sample

end ModuleGraph
