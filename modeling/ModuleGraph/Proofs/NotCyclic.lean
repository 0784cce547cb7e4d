import ModuleGraph.Proofs.Origins

/-!
# Failures that come from no cycle

Only the breaking of cycles is to say that something lies on a cycle. Texts and
addresses never fail in this way, and neither do files that cannot be read. What
is left are answers from outside: the entry points that registries give, and
failures that were remembered or reported before. When these are plain, then so
is every verdict.
-/

namespace ModuleGraph

/-- An answer that is not that something lies on a cycle. -/
def NotCyclic {α : Type} (r : Except Failure α) : Prop :=
  ∀ f, r = .error f → f.isCycle = false

/-- Texts and addresses never fail in this way. -/
theorem FailsWith.notCyclic {α : Type} {r : Except Failure α}
    (h : FailsWith Failure.OfAddress r) : NotCyclic r := by
  intro f hf
  have haddress := h f hf
  cases f <;> first | rfl | exact haddress.elim

/-- A text never says that a path lies on a cycle. -/
theorem SourceFile.notCyclic_path {f : SourceFile} {d : Declaration}
    (h : d ∈ f.declarations) : NotCyclic d.path :=
  (SourceFile.ofAddress_path h).notCyclic

/-! ## Plain verdicts -/

variable {σ : Type}

/-- No registry says of an entry point that it lies on a cycle. -/
def Routes.Plain (routes : Routes σ) (world : σ) : Prop :=
  ∀ s registry, routes.registry? s = some registry →
    ∀ parent r, NotCyclic (registry.entryPoint world parent r)

/-- Nothing that is remembered is that something lies on a cycle. -/
structure Ledger.Plain (l : Ledger) : Prop where
  references : ∀ (id : DeclarationId) r, l.references[id]? = some r → NotCyclic r
  failures : ∀ r f, l.failure? r = some f → f.isCycle = false

/-- No reported failure is that something lies on a cycle. -/
def FailureMap.Plain (m : FailureMap) : Prop :=
  ∀ (id : DeclarationId) f, m[id]? = some f → f.isCycle = false

theorem Ledger.plain_empty : Ledger.empty.Plain :=
  ⟨by simp [empty], nofun⟩

theorem FailureMap.plain_empty : FailureMap.Plain ∅ := by
  simp [Plain]

variable {routes : Routes σ} {world : σ} {l : Ledger} {d : Declaration} {f : Failure}

theorem Routes.notCyclic_read (routes : Routes σ) (hd : NotCyclic d.path) :
    NotCyclic (routes.read d) :=
  FailsWith.bind hd fun raw => (routes.ofAddress_parse raw).notCyclic

theorem Routes.notCyclic_referenceIn (hl : l.Plain) (hd : NotCyclic d.path) :
    NotCyclic (routes.referenceIn l d) := by
  rw [referenceIn]
  cases h : l.references[d.id]? with
  | none => exact routes.notCyclic_read hd
  | some r => exact hl.references d.id r h

namespace Discovery

variable {c : Context σ}

/-- Everything that a build starts from is plain. -/
structure Context.Plain (c : Context σ) (l : Ledger) : Prop where
  routes : c.setting.routes.Plain c.world
  ledger : l.Plain
  reported : c.prior.reported.Plain

theorem isCycle_restoreOutcome (hc : c.Plain l) (id : DeclarationId) (r : Reference) :
    (restoreOutcome c l id r).isCycle = false := by
  rw [restoreOutcome]
  split
  · next f hf => exact hc.reported id f hf
  · next f _ hf => exact hc.ledger.failures r f hf
  · rfl

/-- A declaration of a file fails for no cycle, as long as no cycles are broken. -/
theorem isCycle_of_verdict (hc : c.Plain l) (hd : NotCyclic d.path)
    (h : (c.verdict l d).failure? = some f) : f.isCycle = false := by
  cases origin_of_verdict h with
  | reference href => exact Routes.notCyclic_referenceIn hc.ledger hd f href
  | remembered hf => exact hc.ledger.failures _ f hf
  | restored => exact isCycle_restoreOutcome hc d.id _
  | entryPoint hreg hentry => exact hc.routes _ _ hreg _ _ f hentry
  | unrouted | waits | unread => rfl

end Discovery

end ModuleGraph
