import ModuleGraph.Proofs.Dependable
import ModuleGraph.Proofs.Readings

/-!
# Rounds are builds

A round of linking is a rebuild, which takes over the files of the round before
and which declarations a restore was tried for. Neither makes a difference when
the reader is static and registries can be relied upon. The files are those that
would be read, and no module that was tried is still missing. So a build at the
site of the rebuild gives the same graph, and so does a rebuild that takes over
anything else of this kind (`FoundAfresh.build_eq`).
-/

namespace ModuleGraph

namespace Discovery

variable {σ : Type} {setting : Setting σ} {w w' : σ} {ws : Workspace} {p p' : Prior}
  {l l' : Ledger} {entry : Url} {sv : Discovery}

theorem SameReadings.of_fetch_eq (h : SameReadings ⟨setting, w, ws, p⟩ l l')
    (hfetch : ∀ u, Context.fetch ⟨setting, w', ws, p'⟩ u = Context.fetch ⟨setting, w, ws, p⟩ u) :
    SameReadings ⟨setting, w', ws, p'⟩ l l' :=
  ⟨fun d ⟨f, hf, hd⟩ => h.referenceIn d ⟨f, (hfetch _).symm.trans hf, hd⟩, h.failures⟩

/-- What a build takes over makes no difference when its files are those of the other one and
neither has tried a module that is missing. -/
theorem Surveyed.carries_of_prior (hs : Surveyed ⟨setting, w, ws, p⟩ l entry sv)
    (hfetch : ∀ u, Context.fetch ⟨setting, w, ws, p'⟩ u = Context.fetch ⟨setting, w, ws, p⟩ u)
    (hsame : SameReadings ⟨setting, w, ws, p⟩ l l')
    (hnew : ∀ d r, setting.routes.statusIn w l d = .needsRestore r →
      p.attempted d.id = false ∧ p'.attempted d.id = false) :
    Surveyed.Carries sv ⟨setting, w, ws, p⟩ ⟨setting, w, ws, p'⟩ l l' where
  fetch u f hf := (hfetch u).trans ((hs.files u f).1 hf).2
  verdict d hd := by
    have hdeclared := hs.declared hd
    have hstatus : setting.routes.statusIn w l' d = setting.routes.statusIn w l d :=
      Routes.statusIn_eq (hsame.referenceIn d hdeclared) hsame.failures
    rw [← hsame.verdict_eq hdeclared, Context.verdict, Context.verdict]
    dsimp only
    rw [hstatus]
    cases hst : setting.routes.statusIn w l d with
    | failed f => rfl
    | needsRestore r =>
      obtain ⟨hp, hp'⟩ := hnew d r hst
      dsimp only
      rw [if_neg (Bool.eq_false_iff.1 hp), if_neg (Bool.eq_false_iff.1 hp')]
    | available => simp only [hfetch]

end Discovery

namespace Setting

open Discovery

variable {σ : Type} {setting : Setting σ} {ws : Workspace} {entry : Url} {site s s' t : Site σ}
  {start w : σ} {g g' : Graph} {i n : Nat} {readable : List (Url × String)} {p p' : Prior}
  {l : Ledger} {sv : Discovery} {id : DeclarationId} {d : Declaration} {r : Reference}

/-! ## Readers -/

/-- No restore changes what is read, and finitely many texts can be read. -/
structure Static (setting : Setting σ) (start : σ) (readable : List (Url × String)) : Prop where
  same : ∀ w, setting.Later start w → ∀ u, setting.read w u = setting.read start u
  finite : ∀ u text, setting.read start u = .ok text → (u, text) ∈ readable

theorem Static.reads (h : setting.Static start readable) : setting.Reads start readable :=
  fun w hw u text htext => h.finite u text (h.same w hw u ▸ htext)

/-- Files that are taken over are those that are read, if they once were. -/
theorem Static.fetch_eq (h : setting.Static start readable) (hw : setting.Later start w)
    (hp : ∀ (u : Url) f, p.files[u]? = some f →
      Context.fetch ⟨setting, start, ws, .none⟩ u = .ok f) (u : Url) :
    Context.fetch ⟨setting, w, ws, p⟩ u = Context.fetch ⟨setting, start, ws, .none⟩ u := by
  have hempty : Prior.none.files[u]? = none := FileMap.getElem?_empty
  have hread := h.same w hw u
  have hp := hp u
  rw [Context.fetch] at hp ⊢
  rw [Context.fetch]
  dsimp only at hp ⊢
  rw [hempty] at hp ⊢
  cases hws : ws[u]? with
  | some f => rfl
  | none =>
    rw [hws] at hp
    cases hfile : p.files[u]? with
    | some f => exact (hp f hfile).symm
    | none =>
      dsimp only
      rw [hread]

theorem Static.fetch_none (h : setting.Static start readable) (hw : setting.Later start w)
    (u : Url) : Context.fetch ⟨setting, w, ws, .none⟩ u =
      Context.fetch ⟨setting, start, ws, .none⟩ u := by
  refine h.fetch_eq hw (fun u f hf => ?_) u
  rw [Prior.none, FileMap.getElem?_empty] at hf
  cases hf

/-- The ledgers make the same of the declarations of all files that can be had at the start. -/
abbrev Alike (setting : Setting σ) (ws : Workspace) (start : σ) (l l' : Ledger) : Prop :=
  SameReadings ⟨setting, start, ws, .none⟩ l l'

/-! ## Rounds -/

/-- The graph is that of a survey for which it was of no account what it took over: it had the
files that are read, and nothing was missing for which a restore had been tried. -/
structure FoundAfresh (setting : Setting σ) (ws : Workspace) (entry : Url) (start : σ)
    (p : Prior) (l : Ledger) (sv : Discovery) (g : Graph) (s : Site σ) : Prop where
  surveyed : Surveyed ⟨setting, s.world, ws, p⟩ l entry sv
  graph : g = sv.graph entry
  ledger : s.ledger = sv.ledger
  entry : sv.files.contains entry = true
  fetch : ∀ u, Context.fetch ⟨setting, s.world, ws, p⟩ u =
    Context.fetch ⟨setting, start, ws, .none⟩ u
  untried : ∀ d r, setting.routes.statusIn s.world l d = .needsRestore r →
    p.attempted d.id = false

theorem FoundAfresh.sameReadings (h : setting.FoundAfresh ws entry start p l sv g s) :
    setting.Alike ws start l s.ledger := by
  rw [h.ledger]
  exact h.surveyed.sameReadings.of_fetch_eq fun u => (h.fetch u).symm

theorem FoundAfresh.files (h : setting.FoundAfresh ws entry start p l sv g s) {u : Url}
    {f : SourceFile} (hf : g.files[u]? = some f) :
    Context.fetch ⟨setting, start, ws, .none⟩ u = .ok f := by
  rw [h.graph, files_graph] at hf
  rw [← h.fetch]
  exact ((h.surveyed.files u f).1 hf).2

/-- Another build in this world comes to the same graph, if it was of no account for it either,
and leaves a ledger that makes the same of the declarations. -/
theorem FoundAfresh.build_eq (h : setting.FoundAfresh ws entry start p l sv g s)
    (hw : t.world = s.world) (hsame : setting.Alike ws start l t.ledger)
    (hfetch : ∀ u, Context.fetch ⟨setting, s.world, ws, p'⟩ u =
      Context.fetch ⟨setting, start, ws, .none⟩ u)
    (hnew : ∀ d r, setting.routes.statusIn s.world l d = .needsRestore r →
      p'.attempted d.id = false) (hn : g.files.size ≤ n) :
    ∃ t', setting.buildWith n t ws p' entry = some (.ok g, t') ∧ t'.world = s.world ∧
      setting.Alike ws start s.ledger t'.ledger := by
  have hcarries := h.surveyed.carries_of_prior (fun u => (hfetch u).trans (h.fetch u).symm)
    (hsame.of_fetch_eq h.fetch) fun d r hst => ⟨h.untried d r hst, hnew d r hst⟩
  obtain ⟨t', hb⟩ : ∃ t', setting.buildWith n t ws p' entry = some (.ok g, t') := by
    rw [h.graph, files_graph] at hn
    rw [h.graph]
    rw [← hw] at hcarries
    exact buildWith_of_carries hcarries (hw ▸ h.surveyed) h.entry hn
  obtain ⟨hworld, hreadings⟩ := sameReadings_of_buildWith hb
  rw [hw] at hworld hreadings
  exact ⟨t', hb, hworld, h.sameReadings.symm.trans
    (hsame.trans (hreadings.of_fetch_eq fun u => (hfetch u).symm))⟩

/-- For what a restore was tried is not missing afterwards. -/
theorem statusIn_ne_of_pending (hd : setting.routes.Dependable)
    (h : setting.Round ws entry site i g s)
    (hid : (Prior.ofGraph g (setting.routes.restore s g.pendingDeclarations).1).attempted d.id =
      true) :
    setting.routes.statusIn (setting.routes.restore s g.pendingDeclarations).2.world
      (setting.routes.restore s g.pendingDeclarations).2.ledger d ≠ .needsRestore r := by
  have hmem : d.id ∈ g.pendingDeclarations.map (·.id) := by
    rcases (Bool.or_eq_true _ _).mp hid with hp | hreported
    · rw [h.consistent.handed]
      exact Std.ExtTreeSet.mem_toList.2 (Std.ExtTreeSet.contains_iff_mem.1 hp)
    · obtain ⟨e, he, heq⟩ := (Routes.restore_restores ..).reported d.id hreported
      exact heq ▸ List.mem_map_of_mem he
  obtain ⟨e, he, hid⟩ := List.mem_map.1 hmem
  obtain ⟨y, hy, hsettled⟩ := Routes.restore_settled s hd he
  have href : setting.routes.referenceIn
      (setting.routes.restore s g.pendingDeclarations).2.ledger d = y := by
    rw [Routes.referenceIn, ← hid, hy]
    rfl
  intro hst
  cases y with
  | error f =>
    rw [Routes.statusIn, href] at hst
    cases hst
  | ok r' => exact Routes.statusIn_ne_needsRestore (hsettled r' rfl) href hst

theorem Round.foundAfresh_first (h : setting.Round ws entry site 0 g s) :
    ∃ sv, setting.FoundAfresh ws entry site.world .none site.ledger sv g s := by
  obtain ⟨⟨sv, hs, hg, hl, f, hf⟩, hw⟩ := h.found_first
  exact ⟨sv, hs, hg, hl, hs.contains_iff.2 (.entry hf), fun u => by rw [hw], fun _ _ _ => rfl⟩

section Static

variable (hst : setting.Static site.world readable) (hd : setting.routes.Dependable)

include hst hd

theorem FoundAfresh.next (hafresh : setting.FoundAfresh ws entry site.world p l sv g s)
    (h : setting.Round ws entry site i g s) (h' : setting.Round ws entry site (i + 1) g' s') :
    ∃ sv', setting.FoundAfresh ws entry site.world
      (.ofGraph g (setting.routes.restore s g.pendingDeclarations).1)
      (setting.routes.restore s g.pendingDeclarations).2.ledger sv' g' s' := by
  obtain ⟨-, ⟨sv', hs, hg, hl, f, hf⟩, hw⟩ := h.restored_next h'
  have hlater := h'.later
  refine ⟨sv', hs, hg, hl, hs.contains_iff.2 (.entry hf),
    hst.fetch_eq hlater fun u f hf => hafresh.files hf, fun d r hneeds => ?_⟩
  rw [Bool.eq_false_iff]
  intro hid
  rw [hw] at hneeds
  exact statusIn_ne_of_pending hd h hid hneeds

theorem Round.foundAfresh (h : setting.Round ws entry site i g s) :
    ∃ p l sv, setting.FoundAfresh ws entry site.world p l sv g s := by
  induction i generalizing g s with
  | zero =>
    obtain ⟨sv, hafresh⟩ := h.foundAfresh_first
    exact ⟨_, _, sv, hafresh⟩
  | succ i ih =>
    obtain ⟨g₀, s₀, h₀⟩ := h.exists_of_le (Nat.le_succ i)
    obtain ⟨p, l, sv₀, hafresh⟩ := ih h₀
    exact ⟨_, _, hafresh.next hst hd h₀ h⟩

/-- At every round, a build at its site gives its graph. -/
theorem Round.build_eq (h : setting.Round ws entry site i g s) (hn : g.files.size ≤ n) :
    ∃ s', setting.build n s ws entry = some (.ok g, s') := by
  obtain ⟨p, l, sv, hafresh⟩ := h.foundAfresh hst hd
  have hlater := h.later
  obtain ⟨s', hb, -⟩ := hafresh.build_eq rfl hafresh.sameReadings (hst.fetch_none hlater)
    (fun _ _ _ => rfl) hn
  exact ⟨s', hb⟩

end Static

end Setting

namespace Sample

theorem static_office {w : List Reference} : office.Static w readable :=
  ⟨fun _ _ _ => rfl, fun u text h => reads false .refl u text h⟩

end Sample

end ModuleGraph
