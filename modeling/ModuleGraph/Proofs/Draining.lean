import ModuleGraph.Proofs.Fetching
import ModuleGraph.Proofs.InFlight
import ModuleGraph.Proofs.ServerRuns
import ModuleGraph.Proofs.StaticReader

/-!
# Linking in the background

An editor does not wait for a restore. The server queues what a graph waits for,
the worker restores it at some time, and the document is refreshed. This is
linking with its rounds taken apart: a batch is the restore of a round, and a
refresh is its rebuild, which is not told what the restore reported and has to
make do with the failures that are remembered. With a static reader and
registries that can be relied upon, nothing is lost by that, so that the server
goes through the same graphs as linking does.

`Follows` is what the server has in common with linking, halfway through a round
as well as after it. When nothing is left to be done the document has the graph
that linking it gives.
-/

namespace ModuleGraph

variable {σ : Type}

/-! ## Rebuilds that are told of no failures -/

namespace Setting

open Discovery

variable {setting : Setting σ} {ws : Workspace} {entry : Url} {g g' : Graph}
  {site s s' t : Site σ} {i n : Nat} {readable : List (Url × String)} {d : Declaration}

section Static

variable (hst : setting.Static site.world readable) (hd : setting.routes.Dependable)

include hst hd

theorem Round.declared_of_pending (h : setting.Round ws entry site i g s)
    (hmem : d ∈ g.pendingDeclarations) :
    Context.Declared ⟨setting, site.world, ws, .none⟩ d := by
  obtain ⟨p, l, sv, hafresh⟩ := h.foundAfresh hst hd
  obtain ⟨f, hf, hfile⟩ :=
    Option.bind_eq_some_iff.1 (Graph.declaration?_of_mem_pendingDeclarations hmem)
  exact ⟨f, hafresh.files hf, SourceFile.mem_of_declaration? hfile⟩

/-- From any site that is like the one that the restore left, a rebuild that is told of no
failures gives the graph of the next round. -/
theorem Round.rebuild_eq (h : setting.Round ws entry site i g s)
    (h' : setting.Round ws entry site (i + 1) g' s')
    (hw : t.world = (setting.routes.restore s g.pendingDeclarations).2.world)
    (hsame : setting.Alike ws site.world
      (setting.routes.restore s g.pendingDeclarations).2.ledger t.ledger)
    (hn : g'.files.size ≤ n) :
    ∃ t', setting.rebuild n t ws g ∅ = some (.ok g', t') ∧ t'.world = s'.world ∧
      setting.Alike ws site.world s'.ledger t'.ledger := by
  obtain ⟨p, l, sv, hafresh⟩ := h.foundAfresh hst hd
  obtain ⟨sv', hnext⟩ := hafresh.next hst hd h h'
  obtain ⟨-, -, hworld⟩ := h.restored_next h'
  have hlater := h'.later
  obtain ⟨prior, l, hfound⟩ := h.found
  have hfetch := hst.fetch_eq (p := .ofGraph g ∅) hlater fun u f hf => hafresh.files hf
  rw [rebuild, hfound.entry_eq]
  refine hnext.build_eq (hw.trans hworld.symm) hsame hfetch (fun d r hneeds => ?_) hn
  -- what is missing was not pending, so that the failures reported are of no account
  have hpending := (Bool.or_eq_false_iff.1 (hnext.untried d r hneeds)).1
  simpa [Prior.ofGraph] using hpending

end Static

end Setting

/-! ## A server with something to do -/

theorem distinctDeclarations_eq {ds : List Declaration} (h : (ds.map (·.id)).Nodup) :
    distinctDeclarations ds = ds := by
  induction ds with
  | nil => rfl
  | cons d ds ih =>
    rw [List.map_cons, List.nodup_cons] at h
    rw [distinctDeclarations, ih h.2, List.filter_eq_self.2]
    exact fun e he => bne_iff_ne.2 fun heq => h.1 (heq ▸ List.mem_map_of_mem he)

namespace Server

open Discovery Relation

variable {c : Config σ} {P : Server σ → Prop} {site s s' : Site σ} {x y z : Server σ} {e : Url}
  {ws : Workspace} {text : String} {g g' : Graph} {i n : Nat} {l : Ledger}
  {readable : List (Url × String)} {setting : Setting σ}

/-- The worker takes what is queued, or the first of the documents that were notified is
refreshed. -/
inductive Drains (c : Config σ) : Server σ → Server σ → Prop where
  | works {x : Server σ} (h : x.queue ≠ []) : Drains c x (work c x)
  | refreshes {x y : Server σ} {done : Url × Publication}
      (h : refreshNext c x = some (some done, y)) : Drains c x y

/-- Going on like this, the server comes to an end, whichever it does first. In the end nothing is
queued, no document is to be refreshed, and the server has the property. -/
structure DrainsTo (c : Config σ) (P : Server σ → Prop) (x : Server σ) : Prop where
  ends : Acc (fun z y => Drains c y z) x
  left : ∀ y, ReflTransGen (Drains c) x y →
    (∃ z, Drains c y z) ∨ (y.queue = [] ∧ y.notices = [] ∧ P y)

theorem Drains.notices_of_queue (h : Drains c x y) (hqueue : x.queue = []) :
    x.notices ≠ [] := by
  cases h with
  | works h => exact absurd hqueue h
  | refreshes h =>
    intro hnotices
    rw [refreshNext, hnotices] at h
    cases h

theorem DrainsTo.rest (hqueue : x.queue = []) (hnotices : x.notices = []) (h : P x) :
    DrainsTo c P x := by
  have hstuck : ∀ y, ¬ Drains c x y := fun y hy => hy.notices_of_queue hqueue hnotices
  refine ⟨.intro x fun y hy => absurd hy (hstuck y), fun y hy => ?_⟩
  rcases ReflTransGen.cases_head hy with rfl | ⟨z, hz, -⟩
  · exact .inr ⟨hqueue, hnotices, h⟩
  · exact absurd hz (hstuck z)

theorem DrainsTo.step (hy : Drains c x y) (h : DrainsTo c P y)
    (hone : ∀ z, Drains c x z → z = y) : DrainsTo c P x := by
  refine ⟨.intro x fun z hz => hone z hz ▸ h.ends, fun z hz => ?_⟩
  rcases ReflTransGen.cases_head hz with rfl | ⟨z', hz', hrest⟩
  · exact .inl ⟨y, hy⟩
  · obtain rfl := hone z' hz'
    exact h.left z hrest

/-! ## One document -/

/-- The server has a graph for the document, and its site is like another one. -/
structure Follows (c : Config σ) (ws : Workspace) (start : σ) (e : Url) (g : Graph) (s : Site σ)
    (x : Server σ) : Prop where
  world : x.site.world = s.world
  alike : c.setting.Alike ws start s.ledger x.site.ledger
  workspace : x.workspace = ws
  graph : x.graphs[e]? = some g

/-- What the graph waits for is queued, and nothing else is to be done. -/
structure Waits (x : Server σ) (g : Graph) : Prop where
  queue : x.queue = (RestoreRequest.ofGraph? g).toList
  notices : x.notices = []

/-- The document is to be refreshed, and nothing else is to be done. -/
structure Notified (x : Server σ) (e : Url) : Prop where
  queue : x.queue = []
  notices : x.notices = [e]

theorem work_eq {ds : List Declaration} (hqueue : x.queue = [⟨e, ds⟩])
    (hnodup : (ds.map (·.id)).Nodup) : work c x = { x with
      site := (c.setting.routes.restore x.site ds).2
      queue := []
      notices := x.notices ++ [e] } := by
  rw [work, if_neg (by simp [hqueue]), Routes.restoreRequests, hqueue, List.flatMap_singleton,
    distinctDeclarations_eq hnodup]
  rfl

theorem refreshNext_eq {rest : List Url} (hnotices : x.notices = e :: rest)
    (hgraph : x.graphs[e]? = some g)
    (hb : c.setting.rebuild c.budget x.site x.workspace g ∅ = some (.ok g', s)) :
    ∃ published, refreshNext c x = some (some (e, published), { x with
      site := s
      graphs := x.graphs.insert e g'
      queue := x.queue ++ (RestoreRequest.ofGraph? g').toList
      notices := rest }) := by
  rw [refreshNext, hnotices]
  dsimp only
  rw [refresh, hgraph]
  dsimp only
  rw [update, hb]
  exact ⟨_, rfl⟩

section Static

variable (hst : c.setting.Static site.world readable) (hd : c.setting.routes.Dependable)

include hst hd

/-- One batch does what the restore of the round does. -/
theorem Follows.worked (h : Follows c ws site.world e g s x) (hwaits : Waits x g)
    (hround : c.setting.Round ws e site i g s) (hp : g.pending.isEmpty = false) :
    Drains c x (work c x) ∧ (∀ y, Drains c x y → y = work c x) ∧
      Follows c ws site.world e g (c.setting.routes.restore s g.pendingDeclarations).2
        (work c x) ∧ Notified (work c x) e := by
  obtain ⟨prior, l, hfound⟩ := hround.found
  have hsome : g.pendingDeclarations ≠ [] := by
    rw [← List.isEmpty_eq_false_iff, hround.consistent.isEmpty_pendingDeclarations, hp]
  have hqueue : x.queue = [⟨e, g.pendingDeclarations⟩] := by
    rw [hwaits.queue, ofGraph?_of_pending hsome, hfound.entry_eq]
    rfl
  obtain ⟨hworld, halike⟩ := SameReadings.restore h.alike h.world
    fun d hmem => hround.declared_of_pending hst hd hmem
  refine ⟨.works (by simp [hqueue]), fun y hy => ?_, ?_⟩
  · cases hy with
    | works => rfl
    | refreshes hy =>
      rw [refreshNext, hwaits.notices] at hy
      cases hy
  · rw [work_eq hqueue hround.consistent.nodup_pendingDeclarations, hwaits.notices]
    exact ⟨⟨hworld, halike, h.workspace, h.graph⟩, rfl, rfl⟩

/-- The refresh gives the graph of the next round. -/
theorem Follows.refreshed
    (h : Follows c ws site.world e g (c.setting.routes.restore s g.pendingDeclarations).2 x)
    (hnotified : Notified x e) (hround : c.setting.Round ws e site i g s)
    (hnext : c.setting.Round ws e site (i + 1) g' s') (hn : g'.files.size ≤ c.budget) :
    ∃ y, Drains c x y ∧ (∀ z, Drains c x z → z = y) ∧ Follows c ws site.world e g' s' y ∧
      Waits y g' := by
  obtain ⟨t, hb, hworld, halike⟩ := hround.rebuild_eq hst hd hnext h.world h.alike hn
  rw [← h.workspace] at hb
  obtain ⟨published, hrefresh⟩ := refreshNext_eq hnotified.notices h.graph hb
  refine ⟨_, .refreshes hrefresh, fun z hz => ?_, ⟨hworld, halike, h.workspace, ?_⟩, ?_, rfl⟩
  · cases hz with
    | works hz => exact absurd hnotified.queue hz
    | refreshes hz =>
      rw [hrefresh] at hz
      cases hz
      rfl
  · exact Std.ExtTreeMap.getElem?_insert_self
  · rw [hnotified.queue]
    rfl

/-- Where the server and linking have the same graph of a round, what is left to be done comes to
the graph that linking comes to. -/
theorem Follows.drainsTo (h : Follows c ws site.world e g s x) (hwaits : Waits x g)
    (hround : c.setting.Round ws e site i g s) (hn : ∀ j g s, c.setting.Round ws e site j g s →
      g.files.size ≤ c.budget)
    (hlast : c.setting.Round ws e site n g' s') (hp : g'.pending.isEmpty = true) :
    DrainsTo c (fun x => x.graphs[e]? = some g') x := by
  have hle := hlast.le_of_isEmpty hp hround
  -- by the number of rounds that are left, each of which is a batch and a refresh
  induction hk : n - i generalizing i g s x with
  | zero =>
    obtain rfl : i = n := Nat.le_antisymm hle (Nat.sub_eq_zero_iff_le.1 hk)
    obtain ⟨rfl, rfl⟩ := hround.unique hlast
    have hnone := hround.consistent.isEmpty_pendingDeclarations
    rw [hp] at hnone
    refine .rest ?_ hwaits.notices h.graph
    rw [hwaits.queue, RestoreRequest.ofGraph?]
    exact congrArg Option.toList (if_pos hnone)
  | succ k ih =>
    have hlt : i < n := by omega
    have hsome := hlast.pending_of_lt hlt hround
    obtain ⟨g₁, s₁, hnext⟩ := hlast.exists_of_le (Nat.succ_le_of_lt hlt)
    obtain ⟨hworks, hone, hrestored, hnotified⟩ := h.worked hst hd hwaits hround hsome
    obtain ⟨y, hrefreshes, hone', hfollows, hwaits'⟩ :=
      hrestored.refreshed hst hd hnotified hround hnext (hn _ _ _ hnext)
    exact .step hworks (.step hrefreshes (ih hfollows hwaits' hnext hlt (by omega)) hone') hone

end Static

/-! ## Opening a document -/

theorem openDocument_start (site : Site σ)
    (hb : c.setting.build c.budget ⟨site.world, site.ledger.forget e⟩
      (FileMap.put ∅ (.parse e text)) e = some (.ok g, s)) :
    ∃ published x, openDocument c (start site) e text = some (published, x) ∧ x.site = s ∧
      x.workspace = FileMap.put ∅ (.parse e text) ∧ x.graphs[e]? = some g ∧ Waits x g := by
  have hprepare : prepare c ((start site).noteOpened e text) e = some (.ok g,
      enqueueResult { (start site).noteOpened e text with site := s } (.ok g)) := by
    rw [prepare]
    exact congrArg (Option.map _) hb
  rw [openDocument_eq, affected_start, compileAll, hprepare]
  exact ⟨_, _, rfl, rfl, rfl, Std.ExtTreeMap.getElem?_insert_self, rfl, rfl⟩

/-- Forgetting what a document's declarations refer to makes no difference when it is what they
would be read as. -/
theorem alike_forget {w : σ} (hmemo : ∀ d ∈ (SourceFile.parse e text).declarations,
      setting.routes.referenceIn l d = setting.routes.read d) :
    setting.Alike (FileMap.put ∅ (.parse e text)) w l (l.forget e) := by
  refine ⟨?_, rfl⟩
  rintro d ⟨f, hf, hd⟩
  by_cases hid : d.id.uri = e
  · have hput : (FileMap.put ∅ (.parse e text))[e]? = some (.parse e text) := by
      rw [FileMap.getElem?_put]
      exact if_pos rfl
    have hparse : f = .parse e text := by
      rw [hid, Context.fetch, hput] at hf
      exact (Except.ok.inj hf).symm
    rw [hmemo d (hparse ▸ hd), Routes.referenceIn, Ledger.getElem?_forget, if_pos hid]
    rfl
  · rw [Routes.referenceIn, Ledger.getElem?_forget, if_neg hid, Routes.referenceIn]

/-- With a static reader and registries that can be relied upon, whatever the worker and the
refreshes do after a document was opened comes to an end, with the graph that linking the document
gives. Opening forgets what is remembered of the document's declarations. Linking may do so or
not, if what is remembered is what the declarations say. -/
theorem drainsTo_link (site : Site σ) (e : Url) (text : String)
    (hst : setting.Static site.world readable) (hd : setting.routes.Dependable)
    (hl : l = site.ledger.forget e ∨ l = site.ledger ∧
      ∀ d ∈ (SourceFile.parse e text).declarations,
        setting.routes.referenceIn l d = setting.routes.read d) :
    (∃ n r, setting.link n ⟨site.world, l⟩ (FileMap.put ∅ (.parse e text)) e = some r) ∧
      ∀ n r, setting.link n ⟨site.world, l⟩ (FileMap.put ∅ (.parse e text)) e = some r →
        ∃ g site', r = (.ok g, site') ∧ g.pending.isEmpty = true ∧
          ∃ published x, openDocument ⟨setting, n⟩ (start site) e text = some (published, x) ∧
            DrainsTo ⟨setting, n⟩ (fun x => x.graphs[e]? = some g) x := by
  obtain ⟨w, remembered⟩ := site
  dsimp only at hst hl ⊢
  have halike : setting.Alike (FileMap.put ∅ (.parse e text)) w l (remembered.forget e) := by
    rcases hl with rfl | ⟨rfl, hmemo⟩
    · exact .refl
    · exact alike_forget hmemo
  refine ⟨Setting.exists_link_of_dependable hst.reads hd, fun n r h => ?_⟩
  rcases Setting.link_ends h with ⟨err, s, hb, -⟩ | ⟨k, g, s, hlast, hp, hn, rfl⟩
  · have hopen : FileMap.contains (FileMap.put ∅ (.parse e text)) e = true :=
      contains_noteOpened (s := start ⟨w, remembered⟩).2 (.inl rfl)
    obtain ⟨g, hg, -⟩ := Setting.ok_of_contains hopen hb
    cases hg
  · refine ⟨g, s, rfl, hp, ?_⟩
    obtain ⟨g₀, s₀, hfirst⟩ := hlast.exists_of_le (Nat.zero_le k)
    obtain ⟨sv, hafresh⟩ := hfirst.foundAfresh_first
    have hlater := hfirst.later
    obtain ⟨t, hb, hworld, halike'⟩ := hafresh.build_eq (t := ⟨w, remembered.forget e⟩)
      (hfirst.found_first.2).symm halike (hst.fetch_none hlater) (fun _ _ _ => rfl)
      (hn _ _ _ hfirst)
    obtain ⟨published, x, hopens, hsite, hworkspace, hgraph, hwaits⟩ :=
      openDocument_start (c := ⟨setting, n⟩) ⟨w, remembered⟩ hb
    refine ⟨published, x, hopens, ?_⟩
    have hfollows : Follows ⟨setting, n⟩ (FileMap.put ∅ (.parse e text)) w e g₀ s₀ x :=
      ⟨hsite ▸ hworld, hsite ▸ halike', hworkspace, hgraph⟩
    exact hfollows.drainsTo hst hd hwaits hfirst hn hlast hp

end Server

namespace Sample

open Server

def nestedText : String := "module b 'nuget:b@1'"

/-- The module that the document declares is fetched by the first batch, and what that module
declares is handed over by the second one, and cannot be had. -/
theorem drainsTo_link_nested : ∃ g site' published x,
    office.link 3 ⟨[], .empty⟩ (FileMap.put ∅ (.parse main nestedText)) main =
      some (.ok g, site') ∧
    g.files.keys = [main, part] ∧
      site'.ledger.journal.flatMap Inquiry.fetched = [hollow, whole] ∧
      openDocument ⟨office, 3⟩ (start ⟨[], .empty⟩) main nestedText = some (published, x) ∧
        x.queue.length = 1 ∧ DrainsTo ⟨office, 3⟩ (fun x => x.graphs[main]? = some g) x := by
  have hlinked : ((office.link 3 ⟨[], .empty⟩ (FileMap.put ∅ (.parse main nestedText)) main).any
      fun r => r.1.toOption.any fun g => g.files.keys == [main, part] &&
        r.2.ledger.journal.flatMap Inquiry.fetched == [hollow, whole]) = true := by
    decide +kernel
  have hopened : ((openDocument ⟨office, 3⟩ (start ⟨[], .empty⟩) main nestedText).any fun r =>
      r.2.queue.length == 1) = true := by
    decide +kernel
  obtain ⟨r, hlink, hlinked⟩ := (Option.any_eq_true _ _).1 hlinked
  obtain ⟨⟨published, x⟩, hopen, hqueue⟩ := (Option.any_eq_true _ _).1 hopened
  obtain ⟨-, hdrains⟩ := drainsTo_link ⟨[], .empty⟩ main nestedText static_office dependable_clerk
    (.inr ⟨rfl, fun _ _ => Routes.referenceIn_empty⟩)
  obtain ⟨g, site', rfl, -, published', x', hopen', hdrain⟩ := hdrains 3 r hlink
  obtain ⟨hkeys, hfetched⟩ := (Bool.and_eq_true _ _).mp hlinked
  obtain ⟨rfl, rfl⟩ := Prod.mk.inj (Option.some.inj (hopen.symm.trans hopen'))
  exact ⟨g, site', published, x, hlink, beq_iff_eq.1 hkeys, beq_iff_eq.1 hfetched, hopen,
    beq_iff_eq.1 hqueue, hdrain⟩

end Sample

end ModuleGraph
