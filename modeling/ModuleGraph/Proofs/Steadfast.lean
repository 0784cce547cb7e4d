import ModuleGraph.Proofs.Agreement
import ModuleGraph.Proofs.CycleReport
import ModuleGraph.Proofs.Dispatching
import ModuleGraph.Proofs.Origins
import ModuleGraph.Proofs.Rebuild
import ModuleGraph.Proofs.Steady

/-!
# Registries that take nothing away

Linking restores modules and builds again, round after round, and remembers all
the while: the references of declarations, the failures of modules, the files of
the round before. Someone who comes later has none of that, only the world that
is left. This file says when a build of theirs gives the graph that linking
ended with.

With steadfast registries a module that is there stays there, with its entry
file. So no file of a graph is lost in the next one (`Round.files_steadfast`),
and what is written down of a declaration is what its path says
(`Round.referenceIn_eq`). When no module of the last graph is missing, nothing
that is remembered shows in it. What then remains are the files: a round does
not read them again, and the graph has them as they were when they were read
(`Round.build_mirrored_iff`).
-/

namespace ModuleGraph

variable {σ : Type} {routes routes' : Routes σ} {w w' : σ} {l : Ledger} {d : Declaration}
  {ds : List Declaration} {site : Site σ} {parent t : Url} {r x : Reference} {f : Failure}
  {registry : Registry σ} {batch : List Reference} {s : Scheme} {id : DeclarationId}

namespace Routes

/-! ## Answers that come from a registry -/

/-- Without a failure, the registry has been asked. -/
theorem exists_registry (h : ∀ f, routes.statusIn w l d ≠ .failed f) : ∃ r registry,
    routes.referenceIn l d = .ok r ∧ l.failure? r = none ∧
      routes.registry? r.scheme = some registry := by
  cases href : routes.referenceIn l d with
  | error f => exact absurd (by rw [statusIn, href]) (h f)
  | ok r =>
    rw [statusIn, href] at h
    dsimp only at h
    cases hf : l.failure? r with
    | some f => exact absurd (by rw [statusOf, hf]) (h f)
    | none =>
      cases hreg : routes.registry? r.scheme with
      | none => exact absurd (by rw [statusOf, hf, hreg]) (h (routes.unknown r.scheme.name))
      | some registry => exact ⟨r, registry, rfl, hf, hreg⟩

section Registry

variable (href : routes.referenceIn l d = .ok r) (hnone : l.failure? r = none)
  (hreg : routes.registry? r.scheme = some registry)

include href hnone hreg

theorem statusIn_of_registry : routes.statusIn w l d =
    if registry.restoreRequired w r then .needsRestore r else .available := by
  rw [statusIn, href]
  dsimp only
  rw [statusOf, hnone, hreg]

theorem locateIn_of_registry :
    routes.locateIn w l parent d = registry.entryPoint w parent r := by
  rw [locateIn, href]
  dsimp only
  rw [locateOf, hnone, hreg]

end Registry

/-- A module that is there is there for its registry. -/
theorem of_available (h : routes.statusIn w l d = .available) : ∃ r registry,
    routes.referenceIn l d = .ok r ∧ l.failure? r = none ∧
      routes.registry? r.scheme = some registry ∧ registry.restoreRequired w r = false := by
  obtain ⟨r, registry, href, hnone, hreg⟩ := exists_registry fun f => by rw [h]; exact nofun
  refine ⟨r, registry, href, hnone, hreg, ?_⟩
  rw [statusIn_of_registry href hnone hreg] at h
  by_contra hneeds
  rw [if_pos (Bool.eq_true_of_not_eq_false hneeds)] at h
  cases h

/-- A module that may have to be fetched: some world lacks it. -/
def Remote (routes : Routes σ) (r : Reference) : Prop :=
  ∃ registry w, routes.registry? r.scheme = some registry ∧ registry.restoreRequired w r = true

/-- A module that needs a restore is one that its registry lacks. -/
theorem exists_lacking (h : routes.statusIn w l d = .needsRestore r) :
    routes.referenceIn l d = .ok r ∧ ∃ registry,
      routes.registry? r.scheme = some registry ∧ registry.restoreRequired w r = true := by
  obtain ⟨href, hnone, registry, hreg⟩ := of_needsRestore h
  refine ⟨href, registry, hreg, ?_⟩
  rw [statusIn_of_registry href hnone hreg] at h
  by_contra hthere
  rw [if_neg hthere] at h
  cases h

/-! ## Steadfast registries -/

/-- A registry makes no difference between the spellings of a module, and whatever is fetched, a
module that is there stays there with its entry file. -/
structure Steadfast (routes : Routes σ) : Prop where
  spelling : ∀ s registry, routes.registry? s = some registry → ∀ w r x, r.same x = true →
    registry.restoreRequired w r = registry.restoreRequired w x
  keeps : ∀ s registry s' registry', routes.registry? s = some registry →
    routes.registry? s' = some registry' → ∀ w batch x, registry'.restoreRequired w x = false →
      registry'.restoreRequired (registry.restore w batch).2 x = false ∧
        ∀ parent, registry'.entryPoint (registry.restore w batch).2 parent x =
          registry'.entryPoint w parent x

theorem Steadfast.grown (hd : routes.Steadfast) (hg : routes.Grown batch w w')
    (hreg : routes.registry? s = some registry) (hthere : registry.restoreRequired w x = false) :
    registry.restoreRequired w' x = false ∧
      ∀ parent, registry.entryPoint w' parent x = registry.entryPoint w parent x := by
  induction hg with
  | refl => exact ⟨hthere, fun _ => rfl⟩
  | restore _ hreg' _ ih =>
    obtain ⟨hthere, hentry⟩ := ih
    obtain ⟨hthere, hentry'⟩ := hd.keeps _ _ _ _ hreg' hreg _ _ _ hthere
    exact ⟨hthere, fun parent => (hentry' parent).trans (hentry parent)⟩

/-- A restore of modules that their registries lack. -/
def Needed (routes : Routes σ) (site : Site σ) (ds : List Declaration) : Prop :=
  ∀ r ∈ routes.fresh site.ledger ds, ∃ registry, routes.registry? r.scheme = some registry ∧
    registry.restoreRequired site.world r = true

theorem Needed.lacking (hd : routes.Steadfast) (hneeded : routes.Needed site ds)
    (hr : r ∈ routes.fresh site.ledger ds) (hsame : r.same x = true) : ∃ registry,
      routes.registry? x.scheme = some registry ∧ registry.restoreRequired site.world x = true := by
  obtain ⟨registry, hreg, hlacks⟩ := hneeded r hr
  rw [hd.spelling _ _ hreg _ _ _ hsame] at hlacks
  exact ⟨registry, Reference.scheme_eq_of_same hsame ▸ hreg, hlacks⟩

/-- A failure that a restore leaves was there before, or is of a module that was lacking. -/
theorem Needed.failure? (hd : routes.Steadfast) (hneeded : routes.Needed site ds) (x : Reference) :
    (routes.restore site ds).2.ledger.failure? x = site.ledger.failure? x ∨
      ∃ registry, routes.registry? x.scheme = some registry ∧
        registry.restoreRequired site.world x = true := by
  by_cases hx : ∃ r ∈ routes.fresh site.ledger ds, r.same x = true
  · obtain ⟨r, hr, hsame⟩ := hx
    exact .inr (hneeded.lacking hd hr hsame)
  · refine .inl ?_
    rw [restore_snd, (restoreSchemes_fetches ..).ledger.others x fun r hr => ?_]
    · exact failure?_of_failures_eq failures_claims x
    · exact Bool.eq_false_iff.2 fun hsame => hx ⟨r, hr, hsame⟩

/-- A restore leaves alone what is there. -/
theorem Needed.keeps (hd : routes.Steadfast) (hneeded : routes.Needed site ds)
    (hwritten : site.ledger.references[d.id]? = some (routes.referenceIn site.ledger d))
    (hstatus : routes.statusIn site.world site.ledger d = .available) :
    routes.statusIn (routes.restore site ds).2.world (routes.restore site ds).2.ledger d =
        .available ∧
      ∀ parent, routes.locateIn (routes.restore site ds).2.world
          (routes.restore site ds).2.ledger parent d =
        routes.locateIn site.world site.ledger parent d := by
  obtain ⟨r, registry, href, hnone, hreg, hthere⟩ := of_available hstatus
  have hrestores := restore_restores routes site ds
  have href' : routes.referenceIn (routes.restore site ds).2.ledger d = .ok r := by
    rw [referenceIn, hrestores.writes.keeps hwritten]
    exact href
  have hnone' : (routes.restore site ds).2.ledger.failure? r = none := by
    rcases hneeded.failure? hd r with heq | ⟨registry', hreg', hlacks⟩
    · exact heq.trans hnone
    · rw [hreg] at hreg'
      rw [← Option.some.inj hreg', hthere] at hlacks
      cases hlacks
  obtain ⟨batch, hgrown, -⟩ := hrestores.fetched
  obtain ⟨hthere', hentry⟩ := hd.grown hgrown hreg hthere
  rw [statusIn_of_registry href' hnone' hreg, hthere']
  refine ⟨rfl, fun parent => ?_⟩
  rw [locateIn_of_registry href' hnone' hreg, locateIn_of_registry href hnone hreg]
  exact hentry parent

/-! ## Failures of modules that are not there -/

theorem isRestore_of_reports (h : routes.Reports f) : f.isRestore = true := by
  obtain ⟨_, _, _, _, _, _, _, r, rfl⟩ := h
  rfl

theorem isRestore_of_restore (h : routes.Answered site.ledger)
    (hf : (routes.restore site ds).1[id]? = some f) : f.isRestore = true := by
  rcases of_restore_fails h hf with hreports | ⟨r, rfl⟩
  · exact isRestore_of_reports hreports
  · rfl

/-- No registry says of an entry point that the module is not there. -/
def Sober (routes : Routes σ) : Prop :=
  ∀ s registry, routes.registry? s = some registry → ∀ w parent r,
    FailsWith (fun f => f.isRestore = false) (registry.entryPoint w parent r)

end Routes

theorem Failure.OfAddress.isRestore (h : f.OfAddress) : f.isRestore = false := by
  cases f <;> first | rfl | exact h.elim

theorem Failure.OfEntryPoint.isRestore (h : f.OfEntryPoint) : f.isRestore = false := by
  cases f <;> first | rfl | exact h.elim

theorem Failure.isCycle_of_isRestore (h : f.isRestore = true) : f.isCycle = false := by
  cases f <;> first | rfl | cases h

namespace Discovery

variable {c : Context σ}

/-- Who says of a declaration that its module is not there: the ledger, which remembers it, or its
registry. -/
theorem lacking_of_verdict (hl : c.setting.routes.Answered l) (hsober : c.setting.routes.Sober)
    (hread : FailsWith (fun f => f.isRestore = false) (c.setting.routes.referenceIn l d))
    (h : (c.verdict l d).failure? = some f) (hf : f.isRestore = true) :
    ∃ r, c.setting.routes.referenceIn l d = .ok r ∧ (l.failure? r = some f ∨
      ∃ registry, c.setting.routes.registry? r.scheme = some registry ∧
        registry.restoreRequired c.world r = true) := by
  have hno {p : Prop} (hno : f.isRestore = false) : p := by
    rw [hf] at hno
    cases hno
  rw [Context.verdict] at h
  split at h
  · next hstatus =>
    cases h
    rcases Routes.of_statusIn_failed hl hstatus with herror | ⟨r, hr, hfailure⟩
    · exact hno (hread _ herror)
    · exact ⟨r, hr, .inl hfailure⟩
  · next r hstatus =>
    obtain ⟨hr, hlacking⟩ := Routes.exists_lacking hstatus
    exact ⟨r, hr, .inr hlacking⟩
  · split at h
    · next hlocate =>
      cases h
      rcases Routes.of_locateIn_error hl hlocate with
        herror | ⟨r, hr, hfailure | ⟨registry, hreg, hentry⟩⟩
      · exact hno (hread _ herror)
      · exact ⟨r, hr, .inl hfailure⟩
      · exact hno (hsober _ _ hreg _ _ _ _ hentry)
    · split at h
      · cases h
      · next hfetch =>
        cases h
        rw [Context.fetch] at hfetch
        split at hfetch
        · cases hfetch
        · cases hfetch
        · split at hfetch
          · cases hfetch
          · cases hfetch
            cases hf

theorem verdict_of_remembered (href : c.setting.routes.referenceIn l d = .ok r)
    (hf : l.failure? r = some f) : c.verdict l d = .failed f := by
  rw [Context.verdict, Routes.statusIn, href]
  dsimp only
  rw [Routes.statusOf, hf]

/-- A module that needs a restore shows as not there, whether a restore was tried or not. -/
theorem exists_isRestore_of_needsRestore
    (hreported : ∀ (id : DeclarationId) f, c.prior.reported[id]? = some f → f.isRestore = true)
    (h : c.setting.routes.statusIn c.world l d = .needsRestore r) :
    ∃ f, (c.verdict l d).failure? = some f ∧ f.isRestore = true := by
  rw [Context.verdict, h]
  dsimp only
  split
  · refine ⟨_, rfl, ?_⟩
    rw [restoreOutcome, (Routes.of_needsRestore h).2.1]
    cases hf : c.prior.reported[d.id]? with
    | some f => exact hreported d.id f hf
    | none => rfl
  · exact ⟨_, rfl, rfl⟩

end Discovery

namespace Setting

open Discovery

variable {setting setting' : Setting σ} {ws : Workspace} {entry : Url} {start : σ}
  {s s' : Site σ} {g g' : Graph} {i n : Nat} {prior : Prior} {sv : Discovery}

/-! ## Rounds -/

theorem Found.written (h : setting.Found ws entry prior l g s)
    (hd : g.declaration? d.id = some d) : s.ledger.references[d.id]? =
      some (setting.routes.referenceIn s.ledger d) := by
  rw [Routes.referenceIn, h.reference_written hd]
  rfl

/-- What linking restores its registries lack. -/
theorem Round.needed (h : setting.Round ws entry site i g s) :
    setting.routes.Needed s g.pendingDeclarations := by
  intro r hr
  obtain ⟨-, d, hmem, hclaimed⟩ := Routes.of_mem_fresh hr
  obtain ⟨d', r', hd', hstatus⟩ :=
    h.missing_of_isPending (isPending_of_mem_pendingDeclarations h.consistent hmem)
  rw [Routes.status_fst] at hstatus
  obtain ⟨href, hlacking⟩ := Routes.exists_lacking hstatus
  obtain ⟨prior, l, hfound⟩ := h.found
  have hid : d'.id = d.id := Graph.id_of_declaration? hd'
  have hwritten := hfound.written (hid ▸ hd')
  rw [hid, href] at hwritten
  have hclaims : s.ledger.Writes setting.routes (· ∈ g.pendingDeclarations)
      (setting.routes.claims s.ledger g.pendingDeclarations).2 := Routes.writes_claims fun _ h => h
  rw [hclaims.keeps hwritten] at hclaimed
  obtain rfl : r' = r := Except.ok.inj (Option.some.inj hclaimed)
  exact hlacking

section Steadfast

variable (hd : setting.routes.Steadfast)

include hd

theorem Round.files_steadfast (h : setting.Round ws entry site i g s)
    (h' : setting.Round ws entry site (i + 1) g' s') {u : Url} {file : SourceFile}
    (hu : g.files[u]? = some file) : g'.files[u]? = some file := by
  refine h.files_kept h' (fun d t hdecl hstatus hlocate => ?_) hu
  obtain ⟨prior, l, hfound⟩ := h.found
  obtain ⟨hstatus', hlocate'⟩ := h.needed.keeps hd (hfound.written hdecl) hstatus
  exact ⟨hstatus', (hlocate' _).trans hlocate⟩

theorem Round.declaration?_steadfast (h : setting.Round ws entry site i g s)
    (h' : setting.Round ws entry site (i + 1) g' s') (hdecl : g.declaration? id = some d) :
    g'.declaration? id = some d := by
  obtain ⟨file, hfile, hmem⟩ := Option.bind_eq_some_iff.1 hdecl
  rw [Graph.declaration?, h.files_steadfast hd h' hfile]
  exact hmem

/-- What is written down is what declarations of the graph write. -/
theorem Round.written_read (h : setting.Round ws entry ⟨start, .empty⟩ i g s)
    {x : Except Failure Reference} (hx : s.ledger.references[id]? = some x) :
    ∃ d, g.declaration? id = some d ∧ setting.routes.read d = x := by
  induction i generalizing g s with
  | zero =>
    rcases h.found_first.1.writes.old_or_read hx with hold | ⟨d, hdecl, rfl, hread⟩
    · rw [Ledger.empty, Std.ExtTreeMap.getElem?_empty] at hold
      cases hold
    · exact ⟨d, hdecl, hread⟩
  | succ i ih =>
    obtain ⟨g₀, s₀, h₀⟩ := h.exists_of_le (Nat.le_succ i)
    obtain ⟨-, hfound, -⟩ := h₀.restored_next h
    have hrestores := Routes.restore_restores setting.routes s₀ g₀.pendingDeclarations
    rcases hfound.writes.old_or_read hx with hold | ⟨d, hdecl, rfl, hread⟩
    · rcases hrestores.writes.old_or_read hold with hold | ⟨d, hmem, rfl, hread⟩
      · obtain ⟨d, hdecl, hread⟩ := ih h₀ hold
        exact ⟨d, h₀.declaration?_steadfast hd h hdecl, hread⟩
      · have hdecl := Graph.declaration?_of_mem_pendingDeclarations hmem
        exact ⟨d, h₀.declaration?_steadfast hd h hdecl, hread⟩
    · exact ⟨d, hdecl, hread⟩

/-- The reference that is remembered of a declaration is the one that its path writes. -/
theorem Round.referenceIn_eq (h : setting.Round ws entry ⟨start, .empty⟩ i g s)
    (hdecl : g.declaration? d.id = some d) :
    setting.routes.referenceIn s.ledger d = setting.routes.read d := by
  obtain ⟨prior, l, hfound⟩ := h.found
  obtain ⟨d', hdecl', hread⟩ := h.written_read hd (hfound.written hdecl)
  rw [hdecl] at hdecl'
  rw [← hread, Option.some.inj hdecl']

/-- Failures are remembered of remote modules only. -/
theorem Round.remote_of_failure? (h : setting.Round ws entry ⟨start, .empty⟩ i g s)
    (hf : s.ledger.failure? r = some f) : setting.routes.Remote r := by
  induction i generalizing g s with
  | zero =>
    rw [h.found_first.1.failure?_eq] at hf
    cases hf
  | succ i ih =>
    obtain ⟨g₀, s₀, h₀⟩ := h.exists_of_le (Nat.le_succ i)
    obtain ⟨-, hfound, -⟩ := h₀.restored_next h
    rw [hfound.failure?_eq] at hf
    rcases h₀.needed.failure? hd r with heq | ⟨registry, hreg, hlacks⟩
    · exact ih h₀ (heq ▸ hf)
    · exact ⟨registry, s₀.world, hreg, hlacks⟩

end Steadfast

/-- Whatever linking has written down has a registry, and the failures that it remembers were
reported. -/
theorem Round.answered (h : setting.Round ws entry ⟨start, .empty⟩ i g s) :
    setting.routes.Answered s.ledger := by
  induction i generalizing g s with
  | zero =>
    have hfound := h.found_first.1
    exact (Routes.answered_empty _).of_writes hfound.writes fun r f hf =>
      .inl (hfound.failure?_eq r ▸ hf)
  | succ i ih =>
    obtain ⟨g₀, s₀, h₀⟩ := h.exists_of_le (Nat.le_succ i)
    obtain ⟨-, hfound, -⟩ := h₀.restored_next h
    have hrestores := Routes.restore_restores setting.routes s₀ g₀.pendingDeclarations
    have hrestored := (ih h₀).of_writes hrestores.writes hrestores.failed
    exact hrestored.of_writes hfound.writes fun r f hf => .inl (hfound.failure?_eq r ▸ hf)

/-- The graph of a round is found with a ledger and with failures that are the doing of restores. -/
theorem Round.found_restored (h : setting.Round ws entry ⟨start, .empty⟩ i g s) :
    ∃ prior l, setting.Found ws entry prior l g s ∧ setting.routes.Answered l ∧
      ∀ (id : DeclarationId) f, prior.reported[id]? = some f → f.isRestore = true := by
  cases i with
  | zero =>
    refine ⟨_, _, h.found_first.1, Routes.answered_empty _, fun id f hf => ?_⟩
    rw [Prior.none, Std.ExtTreeMap.getElem?_empty] at hf
    cases hf
  | succ i =>
    obtain ⟨g₀, s₀, h₀⟩ := h.exists_of_le (Nat.le_succ i)
    obtain ⟨-, hfound, -⟩ := h₀.restored_next h
    have hrestores := Routes.restore_restores setting.routes s₀ g₀.pendingDeclarations
    exact ⟨_, _, hfound, h₀.answered.of_writes hrestores.writes hrestores.failed,
      fun id f hf => Routes.isRestore_of_restore h₀.answered hf⟩

/-- A declaration whose module is not there refers to a remote one. -/
theorem Round.remote_of_isRestore (hd : setting.routes.Steadfast) (hsober : setting.routes.Sober)
    (h : setting.Round ws entry ⟨start, .empty⟩ i g s) (hdecl : g.declaration? d.id = some d)
    (hf : g.failure? d.id = some f) (hrestore : f.isRestore = true) :
    ∃ r, setting.routes.read d = .ok r ∧ setting.routes.Remote r := by
  obtain ⟨prior, l, hfound, hanswered, -⟩ := h.found_restored
  have hfailure (r : Reference) := hfound.failure?_eq r
  have href := h.referenceIn_eq hd hdecl
  obtain ⟨sv, hs, rfl, hl, -⟩ := hfound
  obtain ⟨d', hdeclares, hid, hverdict⟩ :=
    hs.verdict_of_failure? hf (Failure.isCycle_of_isRestore hrestore)
  obtain rfl : d' = d := by
    rw [declaration?_graph.2 ⟨hdeclares, hid⟩] at hdecl
    exact Option.some.inj hdecl
  rw [hl, hs.referenceIn_eq hdeclares] at href
  have hread : FailsWith (fun f => f.isRestore = false) (setting.routes.referenceIn l d') := by
    obtain ⟨file, -, hmem⟩ := hdeclares
    rw [href]
    exact (setting.routes.ofAddress_read hmem).mono fun _ => Failure.OfAddress.isRestore
  obtain ⟨r, hr, hfailed | ⟨registry, hreg, hlacks⟩⟩ :=
    lacking_of_verdict hanswered hsober hread hverdict hrestore
  · exact ⟨r, href ▸ hr, h.remote_of_failure? hd ((hfailure r).trans hfailed)⟩
  · exact ⟨r, href ▸ hr, registry, s.world, hreg, hlacks⟩

/-! ## The graph of someone who comes later -/

/-- In another world, other registries and another reader answer as these do in this one. What they
would fetch may be different. -/
structure Mirrors (setting setting' : Setting σ) (w w' : σ) : Prop where
  read : ∀ u, setting'.read w' u = setting.read w u
  answersFor : setting'.routes.answersFor = setting.routes.answersFor
  restoreRequired : ∀ s registry registry', setting.routes.registry? s = some registry →
    setting'.routes.registry? s = some registry' → ∀ r,
      registry'.restoreRequired w' r = registry.restoreRequired w r
  entryPoint : ∀ s registry registry', setting.routes.registry? s = some registry →
    setting'.routes.registry? s = some registry' → ∀ parent r,
      registry'.entryPoint w' parent r = registry.entryPoint w parent r

namespace Mirrors

theorem echo (hm : setting.Mirrors setting' w w') : setting.routes.Echo w setting'.routes w' where
  answersFor := hm.answersFor
  restoreRequired s registry registry' hreg hreg' r _ :=
    hm.restoreRequired s registry registry' hreg hreg' r
  entryPoint s registry registry' hreg hreg' parent r _ :=
    hm.entryPoint s registry registry' hreg hreg' parent r

variable (hm : setting.Mirrors setting' w w')
  (href : setting.routes.referenceIn l d = setting.routes.read d)
  (hnone : ∀ r, setting.routes.read d = .ok r → l.failure? r = none)

include hm href hnone

/-- With nothing to remember, a declaration stands as it does where nothing that is remembered
matters. -/
theorem statusIn : setting'.routes.statusIn w' .empty d = setting.routes.statusIn w l d := by
  have hempty (r : Reference) : Ledger.empty.failure? r = none := rfl
  rw [Routes.statusIn, Routes.statusIn, Routes.referenceIn_empty,
    Routes.read_congr hm.answersFor, href]
  cases hread : setting.routes.read d with
  | error f => rfl
  | ok r =>
    dsimp only
    rw [hm.echo.statusOf, Routes.statusOf, Routes.statusOf, hempty, hnone r hread]
    cases setting.routes.registry? r.scheme <;> rfl

theorem locateIn :
    setting'.routes.locateIn w' .empty parent d = setting.routes.locateIn w l parent d := by
  have hempty (r : Reference) : Ledger.empty.failure? r = none := rfl
  rw [Routes.locateIn, Routes.locateIn, Routes.referenceIn_empty,
    Routes.read_congr hm.answersFor, href]
  cases hread : setting.routes.read d with
  | error f => rfl
  | ok r =>
    dsimp only
    rw [hm.echo.locateOf, Routes.locateOf, Routes.locateOf, hempty, hnone r hread]
    cases setting.routes.registry? r.scheme <;> rfl

end Mirrors

/-- What a graph has is read, if its files are up to date. -/
theorem Mirrors.fetch_eq (hm : setting.Mirrors setting' w w')
    (hs : Surveyed ⟨setting, w, ws, prior⟩ l entry sv)
    (hfiles : UpToDate setting w ws (sv.graph entry)) {u : Url} {file : SourceFile}
    (hf : sv.files[u]? = some file) :
    Context.fetch ⟨setting', w', ws, .none⟩ u = .ok file := by
  have hfetch := ((hs.files u file).1 hf).2
  have hempty : Prior.none.files[u]? = none := FileMap.getElem?_empty
  rw [Context.fetch] at hfetch ⊢
  dsimp only at hfetch ⊢
  rw [hempty]
  cases hws : ws[u]? with
  | some f =>
    rw [hws] at hfetch
    exact hfetch
  | none =>
    dsimp only
    rw [hm.read, hfiles u file hf hws, ← FileMap.uri_of_getElem? hf]
    exact congrArg Except.ok file.eq_parse.symm

/-- What cannot be had in a build that takes over files cannot be had without them. -/
theorem Mirrors.fetch_error (hm : setting.Mirrors setting' w w') {u : Url}
    (h : Context.fetch ⟨setting, w, ws, prior⟩ u = .error f) :
    Context.fetch ⟨setting', w', ws, .none⟩ u = .error f := by
  have hempty : Prior.none.files[u]? = none := FileMap.getElem?_empty
  rw [Context.fetch] at h ⊢
  dsimp only at h ⊢
  rw [hempty, hm.read]
  cases hws : ws[u]? with
  | some f => rw [hws] at h; cases h
  | none =>
    cases hprior : prior.files[u]? with
    | some file => rw [hws, hprior] at h; cases h
    | none =>
      rw [hws, hprior] at h
      exact h

/-- When nothing that is remembered matters and nothing is missing, a build with nothing to
remember comes to the same verdicts. -/
theorem Mirrors.carries (hm : setting.Mirrors setting' w w')
    (hs : Surveyed ⟨setting, w, ws, prior⟩ l entry sv)
    (hfiles : UpToDate setting w ws (sv.graph entry))
    (href : ∀ d, Declares sv d → setting.routes.referenceIn l d = setting.routes.read d)
    (hnone : ∀ d r, Declares sv d → setting.routes.read d = .ok r → l.failure? r = none)
    (hthere : ∀ d r, Declares sv d → setting.routes.statusIn w l d ≠ .needsRestore r) :
    Surveyed.Carries sv ⟨setting, w, ws, prior⟩ ⟨setting', w', ws, .none⟩ l .empty where
  fetch u file hf := hm.fetch_eq hs hfiles hf
  verdict d hd := by
    have hstatus := hm.statusIn (href d hd) fun r => hnone d r hd
    have hlocate : setting'.routes.locateIn w' .empty d.id.uri d =
        setting.routes.locateIn w l d.id.uri d := hm.locateIn (href d hd) fun r => hnone d r hd
    rw [Context.verdict, Context.verdict]
    dsimp only
    rw [hstatus, hlocate]
    cases hst : setting.routes.statusIn w l d with
    | failed f => rfl
    | needsRestore r => exact absurd hst (hthere d r hd)
    | available =>
      dsimp only
      cases hloc : setting.routes.locateIn w l d.id.uri d with
      | error f => rfl
      | ok t =>
        dsimp only
        cases hfetch : Context.fetch ⟨setting, w, ws, prior⟩ t with
        | error f => rw [hm.fetch_error hfetch]
        | ok file =>
          have hresolved := verdict_eq_resolved_iff.2 ⟨hst, hloc, file, hfetch⟩
          obtain ⟨file', hfile'⟩ := FileMap.contains_iff.1 (hs.contains_target hd hresolved)
          rw [hm.fetch_eq hs hfiles hfile']

/-- Linking has ended with a graph that no missing module shows in. A build by someone who knows
nothing of it gives the graph exactly when its files are up to date. -/
theorem Round.build_mirrored_iff (hd : setting.routes.Steadfast)
    (h : setting.Round ws entry ⟨start, .empty⟩ i g s)
    (hdone : ∀ (id : DeclarationId) f, g.failure? id = some f → f.isRestore = false)
    (hm : setting.Mirrors setting' s.world w') (hn : g.files.size ≤ n) :
    (∃ s', setting'.build n ⟨w', .empty⟩ ws entry = some (.ok g, s')) ↔
      UpToDate setting s.world ws g := by
  constructor
  · rintro ⟨s', hb⟩ u file hf hws
    rw [← hm.read]
    exact upToDate_of_build hb u file hf hws
  · intro hfiles
    obtain ⟨prior, l, hfound, hanswered, hreported⟩ := h.found_restored
    obtain ⟨file, hentry⟩ := hfound.entry_file
    obtain ⟨sv, hs, rfl, hl, -⟩ := hfound
    have hverdict {d : Declaration} {f : Failure} (hdeclares : Declares sv d)
        (hf : (Context.verdict ⟨setting, s.world, ws, prior⟩ l d).failure? = some f) :
        f.isRestore = false := hdone d.id f (hs.failure?_of_verdict hdeclares hf)
    have href (d : Declaration) (hdeclares : Declares sv d) :
        setting.routes.referenceIn l d = setting.routes.read d := by
      rw [← hs.referenceIn_eq hdeclares, ← hl]
      exact h.referenceIn_eq hd (declaration?_graph.2 ⟨hdeclares, rfl⟩)
    have hcarries : Surveyed.Carries sv ⟨setting, s.world, ws, prior⟩
        ⟨setting', w', ws, .none⟩ l .empty := by
      refine hm.carries hs hfiles href (fun d r hdeclares hread => ?_) fun d r hdeclares hst => ?_
      · -- a failure that is remembered would show
        rw [Option.eq_none_iff_forall_ne_some]
        intro f hf
        have hremembered := verdict_of_remembered
          (c := ⟨setting, s.world, ws, prior⟩) ((href d hdeclares).trans hread) hf
        have hno := hverdict hdeclares (f := f) (by rw [hremembered]; rfl)
        rw [Routes.isRestore_of_reports (hanswered.reported r f hf)] at hno
        cases hno
      · -- and so would a module that is missing
        obtain ⟨f, hf, hrestore⟩ := exists_isRestore_of_needsRestore
          (c := ⟨setting, s.world, ws, prior⟩) hreported hst
        rw [hverdict hdeclares hf] at hrestore
        cases hrestore
    exact buildWith_of_carries hcarries hs (FileMap.contains_iff.2 ⟨file, hentry⟩) hn

end Setting

end ModuleGraph
