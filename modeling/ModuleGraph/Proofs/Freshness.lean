import ModuleGraph.Proofs.Agreement
import ModuleGraph.Proofs.ServerRuns

/-!
# Graphs that are still right

When a document is opened or closed, the graphs that have it as a file are built
again. The other graphs are kept, and one would like them to be what a build
gives now. A build depends on more than its own files, though: a declaration
fails when the file that it leads to cannot be read, and that file is none of
the graph's. When it is opened, the declaration leads to a file at last, and the
graph knows nothing of it (`stale_main`).

That is the only way in which opening and closing leave a graph behind
(`current_unless_missed`). A survey stands as long as the files that it found
are those of the workspace, and as long as the ledger has what it read of their
declarations. Then a build now looks at the same declarations and comes to the
same verdicts, but for those of declarations that lead to a file which is open
now and was not found then.
-/

namespace ModuleGraph

namespace Discovery

variable {σ : Type} {u : Url}

theorem fetch_congr {setting : Setting σ} {world : σ} {ws ws' : Workspace} {prior : Prior}
    (h : ws[u]? = ws'[u]?) : Context.fetch ⟨setting, world, ws, prior⟩ u =
      Context.fetch ⟨setting, world, ws', prior⟩ u := by
  simp only [Context.fetch, h]

end Discovery

namespace Server

open Discovery

variable {σ : Type} {c : Config σ} {site : Site σ} {s s' s₁ : Server σ} {e u uri : Url}
  {text : String} {g : Graph} {prior : Prior} {published : Publication} {todo : List Url}
  {ws : Workspace} {l : Ledger} {sv : Discovery} {d : Declaration}

/-! ## Surveys that stand -/

/-- A survey of a document stands: the files that it found are still those of the workspace, and
what it read of their declarations is still written down. -/
structure Standing (c : Config σ) (s : Server σ) (e : Url) (ws : Workspace) (l : Ledger)
    (sv : Discovery) : Prop where
  surveyed : Surveyed ⟨c.setting, s.site.world, ws, .none⟩ l e sv
  entry : sv.files.contains e = true
  size : sv.files.size ≤ c.budget
  workspace : ∀ u, sv.files.contains u = true → ws[u]? = s.workspace[u]?
  failures : s.site.ledger.failures = l.failures
  references : ∀ d, Declares sv d →
    s.site.ledger.references[d.id]? = some (c.setting.routes.referenceIn l d)

/-- The graph is that of a survey that stands. -/
def Stands (c : Config σ) (s : Server σ) (e : Url) (g : Graph) : Prop :=
  ∃ ws l sv, Standing c s e ws l sv ∧ g = sv.graph e

/-- A declaration of the graph leads to a file that is open and that the graph does not have. -/
def Missed (c : Config σ) (s : Server σ) (g : Graph) : Prop :=
  ∃ d t, g.declaration? d.id = some d ∧
    (c.setting.routes.status s.site.world s.site.ledger d).1 = .available ∧
    (c.setting.routes.locate s.site.world s.site.ledger d.id.uri d).1 = .ok t ∧
    s.workspace.contains t = true ∧ g.files.contains t = false

theorem Standing.referenceIn_eq (h : Standing c s e ws l sv) (hd : Declares sv d) :
    c.setting.routes.referenceIn s.site.ledger d = c.setting.routes.referenceIn l d := by
  rw [Routes.referenceIn, h.references d hd]
  rfl

/-- What a declaration leads to is what it was then: a file that was not found was not open
then, and when nothing is missed it is not open now. -/
theorem Standing.target_eq (h : Standing c s e ws l sv) (hmissed : ¬ Missed c s (sv.graph e))
    (hd : Declares sv d) (havailable : c.setting.routes.statusIn s.site.world l d = .available)
    {t : Url} (htarget : c.setting.routes.locateIn s.site.world l d.id.uri d = .ok t) :
    s.workspace[t]? = ws[t]? := by
  have href := h.referenceIn_eq hd
  by_cases hfound : sv.files.contains t = true
  · exact (h.workspace t hfound).symm
  · have hthen : ws[t]? = none := by
      rw [Option.eq_none_iff_forall_ne_some]
      intro f hf
      refine hfound (h.surveyed.contains_target hd
        (verdict_eq_resolved_iff.2 ⟨havailable, htarget, f, ?_⟩))
      simp only [Context.fetch, hf]
    have hnow : s.workspace[t]? = none := by
      rw [Option.eq_none_iff_forall_ne_some]
      intro f hf
      refine hmissed ⟨d, t, declaration?_graph.2 ⟨hd, rfl⟩, ?_, ?_,
        FileMap.contains_iff.2 ⟨f, hf⟩, Bool.eq_false_iff.2 hfound⟩
      · rw [Routes.status_fst, Routes.statusIn_eq href h.failures, havailable]
      · rw [Routes.locate_fst, Routes.locateIn_eq href h.failures, htarget]
    rw [hthen, hnow]

/-- As long as nothing is missed, a build now would come to the same verdicts. -/
theorem Standing.carries (h : Standing c s e ws l sv) (hmissed : ¬ Missed c s (sv.graph e)) :
    Surveyed.Carries sv ⟨c.setting, s.site.world, ws, .none⟩
      ⟨c.setting, s.site.world, s.workspace, .none⟩ l s.site.ledger where
  fetch u f hf := by
    rw [← ((h.surveyed.files u f).1 hf).2]
    exact fetch_congr (h.workspace u (FileMap.contains_iff.2 ⟨f, hf⟩)).symm
  verdict d hd := by
    have href := h.referenceIn_eq hd
    have htargets (t : Url) := h.target_eq hmissed hd (t := t)
    rw [Context.verdict, Context.verdict]
    dsimp only
    rw [Routes.statusIn_eq href h.failures, Routes.locateIn_eq href h.failures]
    cases havailable : c.setting.routes.statusIn s.site.world l d with
    | failed f => rfl
    | needsRestore r => rfl
    | available =>
      cases htarget : c.setting.routes.locateIn s.site.world l d.id.uri d with
      | error f => rfl
      | ok t =>
        dsimp only
        rw [fetch_congr (htargets t havailable htarget)]

theorem Standing.build_eq (h : Standing c s e ws l sv) (hmissed : ¬ Missed c s (sv.graph e)) :
    ∃ site', c.setting.build c.budget s.site s.workspace e = some (.ok (sv.graph e), site') :=
  Setting.buildWith_of_carries (h.carries hmissed) h.surveyed h.entry h.size

theorem files_ne_of_missed (hmissed : Missed c s g) {n : Nat} {g' : Graph} {site' : Site σ}
    (h : c.setting.build n s.site s.workspace e = some (.ok g', site')) :
    g'.files ≠ g.files := by
  intro hfiles
  obtain ⟨d, t, hd, hstatus, hlocate, hopen, hnot⟩ := hmissed
  obtain ⟨s', hs', rfl, -⟩ := Setting.buildWith_ok h
  have hd : (s'.graph e).declaration? d.id = some d := by
    rw [Graph.declaration?, hfiles]
    exact hd
  obtain ⟨f, hf⟩ := FileMap.contains_iff.1 hopen
  have hfetch : ∃ f, Context.fetch ⟨c.setting, s.site.world, s.workspace, .none⟩ t = .ok f :=
    ⟨f, by simp only [Context.fetch, hf]⟩
  rw [Routes.status_fst] at hstatus
  rw [Routes.locate_fst] at hlocate
  have hfound := hs'.contains_target (declaration?_graph.1 hd).1
    (verdict_eq_resolved_iff.2 ⟨hstatus, hlocate, hfetch⟩)
  rw [show s'.files = g.files from hfiles, hnot] at hfound
  cases hfound

/-! ## Surveys that go on standing -/

theorem Standing.edited (h : Standing c s e ws l sv) (huri : sv.files.contains uri = false)
    (hworld : s'.site.world = s.site.world)
    (hworkspace : ∀ u : Url, u ≠ uri → s'.workspace[u]? = s.workspace[u]?)
    (hledger : s'.site.ledger = s.site.ledger.forget uri) : Standing c s' e ws l sv where
  surveyed := hworld ▸ h.surveyed
  entry := h.entry
  size := h.size
  workspace u hu := by
    rw [hworkspace u]
    · exact h.workspace u hu
    · rintro rfl
      rw [huri] at hu
      cases hu
  failures := by
    rw [hledger]
    exact h.failures
  references d hd := by
    rw [hledger, Ledger.getElem?_forget, if_neg]
    · exact h.references d hd
    · -- only declarations of the file are forgotten, and the survey has none of them
      rintro rfl
      obtain ⟨f, hf, -⟩ := hd
      rw [FileMap.contains_iff.2 ⟨f, hf⟩] at huri
      cases huri

theorem Standing.built (h : Standing c s e ws l sv) (hbuilt : Built c s u prior g s') :
    Standing c s' e ws l sv where
  surveyed := hbuilt.world ▸ h.surveyed
  entry := h.entry
  size := h.size
  workspace v hv := by
    rw [hbuilt.workspace]
    exact h.workspace v hv
  failures := by
    obtain ⟨sv', hsv', -, hledger, -⟩ := hbuilt.found
    rw [hledger, hsv'.failures]
    exact h.failures
  references d hd := hbuilt.found.writes.keeps (h.references d hd)

theorem Built.stands (h : Built c s e .none g s') : Stands c s' e g := by
  obtain ⟨f, hf⟩ := h.found.entry_file
  obtain ⟨sv, hsv, rfl, hledger, -⟩ := h.found
  refine ⟨s.workspace, s.site.ledger, sv, ⟨hsv, FileMap.contains_iff.2 ⟨f, hf⟩, h.size, ?_, ?_, ?_⟩,
    rfl⟩
  · intro u _
    rw [h.workspace]
  · rw [hledger]
    exact hsv.failures
  · intro d hd
    rw [hledger]
    exact hsv.references d hd

/-- All graphs stand but those of documents that are still to be compiled. -/
structure Kept (c : Config σ) (todo : List Url) (s : Server σ) : Prop extends Orderly c todo s where
  stands : ∀ (e : Url) g, s.graphs[e]? = some g → e ∈ todo ∨ Stands c s e g

theorem Built.kept (h : Built c s e .none g s') (hopen : s.workspace.contains e = true)
    (hs : Kept c (e :: todo) s) : Kept c todo s' where
  toOrderly := h.orderly hopen hs.toOrderly
  stands u g' hg' := by
    rcases h.graph_cases hg' with ⟨rfl, rfl⟩ | ⟨hne, hold⟩
    · exact .inr h.stands
    · rcases hs.stands u g' hold with htodo | ⟨ws, l, sv, hstanding, heq⟩
      · exact .inl ((List.mem_cons.1 htodo).resolve_left hne)
      · exact .inr ⟨ws, l, sv, hstanding.built h, heq⟩

theorem Kept.compileAll (hs : Kept c todo s)
    (hopen : ∀ e ∈ todo, s.workspace.contains e = true)
    (h : compileAll c todo s = some (published, s')) : Kept c [] s' :=
  compileAll_run (P := fun todo _ s => Kept c todo s) []
    (fun he hbuilt hs => hbuilt.kept he hs) hopen h hs

/-- The graphs that do not have the file stand, and those that have it are to be compiled. -/
theorem Kept.edited (hs : Kept c [] s) (ho : Orderly c todo s')
    (hold : ∀ (e : Url) g, s'.graphs[e]? = some g → s.graphs[e]? = some g)
    (htodo : ∀ (e : Url) g, s'.graphs[e]? = some g → g.files.contains uri = true → e ∈ todo)
    (hworld : s'.site.world = s.site.world)
    (hworkspace : ∀ u : Url, u ≠ uri → s'.workspace[u]? = s.workspace[u]?)
    (hledger : s'.site.ledger = s.site.ledger.forget uri) : Kept c todo s' where
  toOrderly := ho
  stands e g hg := by
    by_cases huri : g.files.contains uri = true
    · exact .inl (htodo e g hg huri)
    · obtain ⟨ws, l, sv, hstanding, rfl⟩ := (hs.stands e g (hold e g hg)).resolve_left
        List.not_mem_nil
      exact .inr ⟨ws, l, sv, hstanding.edited (Bool.eq_false_iff.2 huri) hworld hworkspace hledger,
        rfl⟩

theorem Kept.openDocument (hs : Kept c [] s)
    (h : openDocument c s uri text = some (published, s')) : Kept c [] s' := by
  rw [openDocument_eq] at h
  refine Kept.compileAll ?_ (contains_of_affected_opened uri text hs.opened) h
  refine hs.edited hs.noteOpened (fun e g hg => hg) (fun e g hg => mem_affected_opened hg) rfl
    (fun u hu => ?_) rfl
  have huri : (SourceFile.parse uri text).uri = uri := rfl
  rw [noteOpened, FileMap.getElem?_put, huri, if_neg (Ne.symm hu)]

theorem Kept.closeDocument (hs : Kept c [] s)
    (h : closeDocument c s uri = some (published, s')) : Kept c [] s' := by
  obtain ⟨first, h⟩ := closeDocument_eq_some h
  refine Kept.compileAll ?_ (contains_of_affected_closed uri hs.opened) h
  refine hs.edited hs.noteClosed.more (fun e g hg => (of_getElem?_noteClosed hg).2)
    (fun e g hg => mem_affected_closed hg) rfl (fun u hu => ?_) rfl
  rw [noteClosed, FileMap.getElem?_erase, if_neg (Ne.symm hu)]

/-! ## Opening and closing -/

/-- A document is opened or closed. -/
inductive Edits (c : Config σ) : Server σ → Server σ → Prop where
  | opens {s s' : Server σ} {uri : Url} {text : String} {published : Publication}
      (h : openDocument c s uri text = some (published, s')) : Edits c s s'
  | closes {s s' : Server σ} {uri : Url} {published : Publication}
      (h : closeDocument c s uri = some (published, s')) : Edits c s s'

theorem Edits.kept (h : Edits c s s') (hs : Kept c [] s) : Kept c [] s' := by
  cases h with
  | opens h => exact hs.openDocument h
  | closes h => exact hs.closeDocument h

theorem edits_openAll {x : Server σ} {shown : Publication} {documents : List (Url × String)}
    (hedits : Relation.ReflTransGen (Edits c) x s)
    (h : openAll c shown s documents = some (published, s')) :
    Relation.ReflTransGen (Edits c) x s' := by
  induction documents generalizing shown s with
  | nil =>
    obtain ⟨-, rfl⟩ := Prod.mk.inj (Option.some.inj h)
    exact hedits
  | cons document rest ih =>
    obtain ⟨⟨first, s₁⟩, hopen, h⟩ := Option.bind_eq_some_iff.1 h
    exact ih (hedits.tail (.opens hopen)) h

theorem kept_start (site : Site σ) : Kept c [] (start site) where
  toOrderly := orderly_start site
  stands e g hg := by simp [start] at hg

theorem kept_of_edits (h : Relation.ReflTransGen (Edits c) (start site) s) : Kept c [] s := by
  induction h with
  | refl => exact kept_start site
  | tail _ hedits ih => exact hedits.kept ih

/-- After documents were opened and closed, each open document has the graph that a build of it
gives now, unless the graph misses a file. Then a build gives another one. -/
theorem current_unless_missed (h : Relation.ReflTransGen (Edits c) (start site) s)
    (hopen : s.workspace.contains e = true) : ∃ g, s.graphs[e]? = some g ∧
      (¬ Missed c s g → ∃ site',
        c.setting.build c.budget s.site s.workspace e = some (.ok g, site')) ∧
      (Missed c s g → ∀ n g' site',
        c.setting.build n s.site s.workspace e = some (.ok g', site') → g'.files ≠ g.files) := by
  have hkept := kept_of_edits h
  obtain ⟨g, hg⟩ := (hkept.built e hopen).resolve_left List.not_mem_nil
  obtain ⟨ws, l, sv, hstanding, rfl⟩ := (hkept.stands e g hg).resolve_left List.not_mem_nil
  exact ⟨_, hg, hstanding.build_eq, fun hmissed n g' site' => files_ne_of_missed hmissed⟩

end Server

/-! ## A graph that is left behind -/

namespace Sample

open Server

/-- Paths are all that is declared, and only open files can be read. -/
def paths : Server.Config Unit := ⟨⟨.ofList [.relative], fun _ _ => .error .notFound⟩, 2⟩

def besideText : String := "module a './part.cfg'"

/-- With the part opened first, the entry file's graph is what a build gives. -/
theorem current_beside : ∃ s g site', Relation.ReflTransGen (Edits paths) (start ⟨(), .empty⟩) s ∧
    s.graphs[main]? = some g ∧ g.files.contains part = true ∧
    paths.setting.build paths.budget s.site s.workspace main = some (.ok g, site') := by
  have hcheck : ((openAll paths [] (start ⟨(), .empty⟩) [(part, ""), (main, besideText)]).any
      fun (_, s) => s.workspace.contains main && s.graphs[main]?.any fun g =>
        g.files.contains part && s.workspace.keys.all g.files.contains) = true := by decide +kernel
  obtain ⟨⟨published, s⟩, hs, hcheck⟩ := (Option.any_eq_true _ _).1 hcheck
  obtain ⟨hopen, hcheck⟩ := (Bool.and_eq_true _ _).mp hcheck
  obtain ⟨g, hg, hcheck⟩ := (Option.any_eq_true _ _).1 hcheck
  obtain ⟨hpart, hall⟩ := (Bool.and_eq_true _ _).mp hcheck
  have hedits := edits_openAll .refl hs
  obtain ⟨g', hg', hcurrent, -⟩ := current_unless_missed hedits hopen
  obtain rfl := Option.some.inj (hg.symm.trans hg')
  obtain ⟨site', hbuild⟩ := hcurrent (by
    rintro ⟨d, t, -, -, -, ht, hmissed⟩
    have hmem := List.all_eq_true.1 hall t (FileMap.mem_keys_iff.2 (FileMap.contains_iff.1 ht))
    rw [hmissed] at hmem
    cases hmem)
  exact ⟨s, g, site', hedits, hg, hpart, hbuild⟩

/-- With the part opened second, the entry file's graph goes on without it. -/
theorem stale_main : ∃ s g g' site', Relation.ReflTransGen (Edits paths) (start ⟨(), .empty⟩) s ∧
    s.graphs[main]? = some g ∧ g.files.contains part = false ∧
    paths.setting.build paths.budget s.site s.workspace main = some (.ok g', site') ∧
    g'.files.contains part = true := by
  have hcheck : ((openAll paths [] (start ⟨(), .empty⟩) [(main, besideText), (part, "")]).any
      fun r => r.2.graphs[main]?.any fun g => !g.files.contains part &&
        (paths.setting.build paths.budget r.2.site r.2.workspace main).any fun built =>
          built.1.toOption.any (·.files.contains part)) = true := by decide +kernel
  obtain ⟨⟨published, s⟩, hs, hcheck⟩ := (Option.any_eq_true _ _).1 hcheck
  obtain ⟨g, hg, hcheck⟩ := (Option.any_eq_true _ _).1 hcheck
  obtain ⟨hpart, hcheck⟩ := (Bool.and_eq_true _ _).mp hcheck
  obtain ⟨⟨_ | g', site'⟩, hbuild, hcheck⟩ := (Option.any_eq_true _ _).1 hcheck
  · cases hcheck
  exact ⟨s, g, g', site', edits_openAll .refl hs, hg, by simpa using hpart, hbuild, hcheck⟩

end Sample

end ModuleGraph
