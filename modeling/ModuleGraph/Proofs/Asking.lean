import ModuleGraph.Routing.Site

/-!
# Asking changes nothing but the memo

`reference`, `status` and `locate` hand back a ledger, and every statement about
a build would have to carry that ledger along. It does not have to: asking about
a declaration writes the declaration's own reference into the memo and leaves
the remembered failures alone, and what is written is what would have been
answered anyway. So the answers can be read off the ledger that a build starts
with.

`referenceIn`, `statusIn` and `locateIn` are the answers without the ledger. They
depend on it through the declaration's reference and the failures alone.
-/

namespace ModuleGraph

namespace Routes

variable {σ : Type} {routes : Routes σ} {world : σ} {l l' : Ledger} {parent : Url}
  {d : Declaration} {id : DeclarationId} {r : Reference}

/-- The reference of a declaration as a ledger has it, or as its path writes it. -/
def referenceIn (routes : Routes σ) (l : Ledger) (d : Declaration) : Except Failure Reference :=
  l.references[d.id]?.getD (routes.read d)

@[simp] theorem reference_fst (routes : Routes σ) (l : Ledger) (d : Declaration) :
    (routes.reference l d).1 = routes.referenceIn l d := by
  rw [reference, referenceIn]
  split
  · next r h => rw [h]; rfl
  · next h => rw [h]; rfl

@[simp] theorem referenceIn_empty : routes.referenceIn .empty d = routes.read d := by
  rw [referenceIn, Ledger.empty, Std.ExtTreeMap.getElem?_empty]
  rfl

@[simp] theorem failures_reference (routes : Routes σ) (l : Ledger) (d : Declaration) :
    (routes.reference l d).2.failures = l.failures := by
  rw [reference]
  split <;> rfl

theorem references_reference (routes : Routes σ) (l : Ledger) (d : Declaration)
    (id : DeclarationId) :
    (routes.reference l d).2.references[id]? =
      if d.id = id then some (routes.referenceIn l d) else l.references[id]? := by
  rw [reference, referenceIn]
  split
  · next r h =>
    split
    · next hid => rw [← hid, h]; rfl
    · rfl
  · next h =>
    rw [Std.ExtTreeMap.getElem?_insert, h]
    simp only [Std.LawfulEqCmp.compare_eq_iff_eq, Option.getD_none]

/-- Once a declaration's reference is written down, asking again gives it and
writes nothing. -/
theorem reference_of_asked (h : l'.references = (routes.reference l d).2.references) :
    routes.reference l' d = (routes.referenceIn l d, l') := by
  have hd : l'.references[d.id]? = some (routes.referenceIn l d) := by
    rw [h, references_reference, if_pos rfl]
  rw [reference, hd]

/-! ## The ledger that a question leaves behind -/

theorem statusOf_snd (r : Reference) :
    (routes.statusOf world l r).2.references = l.references ∧
      (routes.statusOf world l r).2.failures = l.failures := by
  rw [statusOf]
  split <;> exact ⟨rfl, rfl⟩

theorem locateOf_snd (r : Reference) :
    (routes.locateOf world l parent r).2.references = l.references ∧
      (routes.locateOf world l parent r).2.failures = l.failures := by
  rw [locateOf]
  split <;> exact ⟨rfl, rfl⟩

theorem references_status (routes : Routes σ) (world : σ) (l : Ledger) (d : Declaration) :
    (routes.status world l d).2.references = (routes.reference l d).2.references := by
  rw [status]
  split
  · next h => rw [h]
  · next h => rw [(statusOf_snd _).1, h]

@[simp] theorem failures_status (routes : Routes σ) (world : σ) (l : Ledger)
    (d : Declaration) : (routes.status world l d).2.failures = l.failures := by
  rw [← failures_reference routes l d, status]
  split
  · next h => rw [h]
  · next h => rw [(statusOf_snd _).2, h]

theorem references_locate :
    (routes.locate world l parent d).2.references = (routes.reference l d).2.references := by
  rw [locate]
  split
  · next h => rw [h]
  · next h => rw [(locateOf_snd _).1, h]

@[simp] theorem failures_locate : (routes.locate world l parent d).2.failures = l.failures := by
  rw [← failures_reference routes l d, locate]
  split
  · next h => rw [h]
  · next h => rw [(locateOf_snd _).2, h]

/-! ## The answer to a question -/

/-- Where the module of a declaration stands, without the ledger. -/
def statusIn (routes : Routes σ) (world : σ) (l : Ledger) (d : Declaration) : Status :=
  match routes.referenceIn l d with
  | .error f => .failed f
  | .ok r => (routes.statusOf world l r).1

/-- The entry file of a declaration's module, without the ledger. -/
def locateIn (routes : Routes σ) (world : σ) (l : Ledger) (parent : Url) (d : Declaration) :
    Except Failure Url :=
  match routes.referenceIn l d with
  | .error f => .error f
  | .ok r => (routes.locateOf world l parent r).1

theorem statusOf_congr (hf : l.failures = l'.failures) (r : Reference) :
    (routes.statusOf world l r).1 = (routes.statusOf world l' r).1 := by
  simp only [statusOf, Ledger.failure?, hf]
  split <;> rfl

theorem locateOf_congr (hf : l.failures = l'.failures) (r : Reference) :
    (routes.locateOf world l parent r).1 = (routes.locateOf world l' parent r).1 := by
  simp only [locateOf, Ledger.failure?, hf]
  split <;> rfl

@[simp] theorem status_fst (routes : Routes σ) (world : σ) (l : Ledger) (d : Declaration) :
    (routes.status world l d).1 = routes.statusIn world l d := by
  have hf := failures_reference routes l d
  rw [status, statusIn, ← reference_fst]
  split
  · next h => rw [h]
  · next h => rw [h] at hf ⊢; exact statusOf_congr hf _

@[simp] theorem locate_fst :
    (routes.locate world l parent d).1 = routes.locateIn world l parent d := by
  have hf := failures_reference routes l d
  rw [locate, locateIn, ← reference_fst]
  split
  · next h => rw [h]
  · next h => rw [h] at hf ⊢; exact locateOf_congr hf _

/-- The status of a declaration depends on its reference, on what is remembered of
it, and on what its registry answers. -/
theorem statusIn_congr {world' : σ} (hr : routes.referenceIn l d = routes.referenceIn l' d)
    (hf : ∀ r, routes.referenceIn l d = .ok r → l.failure? r = l'.failure? r)
    (hw : ∀ s registry, routes.registry? s = some registry → ∀ r,
      registry.restoreRequired world r = registry.restoreRequired world' r) :
    routes.statusIn world l d = routes.statusIn world' l' d := by
  rw [statusIn, statusIn, ← hr]
  cases h : routes.referenceIn l d with
  | error f => rfl
  | ok r =>
    dsimp only
    rw [statusOf, statusOf, ← hf r h]
    cases l.failure? r with
    | some f => rfl
    | none =>
      cases hreg : routes.registry? r.scheme with
      | none => rfl
      | some registry =>
        dsimp only
        rw [hw _ registry hreg r]

theorem locateIn_congr {world' : σ} (hr : routes.referenceIn l d = routes.referenceIn l' d)
    (hf : ∀ r, routes.referenceIn l d = .ok r → l.failure? r = l'.failure? r)
    (hw : ∀ s registry, routes.registry? s = some registry → ∀ r,
      registry.entryPoint world parent r = registry.entryPoint world' parent r) :
    routes.locateIn world l parent d = routes.locateIn world' l' parent d := by
  rw [locateIn, locateIn, ← hr]
  cases h : routes.referenceIn l d with
  | error f => rfl
  | ok r =>
    dsimp only
    rw [locateOf, locateOf, ← hf r h]
    cases l.failure? r with
    | some f => rfl
    | none =>
      cases hreg : routes.registry? r.scheme with
      | none => rfl
      | some registry =>
        dsimp only
        rw [hw _ registry hreg r]

theorem failure?_of_failures_eq (hf : l.failures = l'.failures) (r : Reference) :
    l.failure? r = l'.failure? r := by
  rw [Ledger.failure?, Ledger.failure?, hf]

theorem statusIn_eq (hr : routes.referenceIn l d = routes.referenceIn l' d)
    (hf : l.failures = l'.failures) :
    routes.statusIn world l d = routes.statusIn world l' d :=
  statusIn_congr hr (fun r _ => failure?_of_failures_eq hf r) fun _ _ _ _ => rfl

theorem locateIn_eq (hr : routes.referenceIn l d = routes.referenceIn l' d)
    (hf : l.failures = l'.failures) :
    routes.locateIn world l parent d = routes.locateIn world l' parent d :=
  locateIn_congr hr (fun r _ => failure?_of_failures_eq hf r) fun _ _ _ _ => rfl

/-- A module that needs a restore is one that a registry answers for, and no failure of it is
remembered. -/
theorem of_needsRestore (h : routes.statusIn world l d = .needsRestore r) :
    routes.referenceIn l d = .ok r ∧ l.failure? r = none ∧
      ∃ registry, routes.registry? r.scheme = some registry := by
  rw [statusIn] at h
  split at h
  · cases h
  · next href =>
    rw [statusOf] at h
    split at h
    · cases h
    · cases h
    · next hf hreg =>
      dsimp only at h
      split at h
      · cases h
        exact ⟨href, hf, _, hreg⟩
      · cases h

end Routes

end ModuleGraph
