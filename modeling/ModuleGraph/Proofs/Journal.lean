import ModuleGraph.Proofs.Building
import ModuleGraph.Proofs.Restoring

/-!
# What linking asks for

Everything that is asked of a registry or of the file reader is noted in the
journal, and nothing is ever taken out of it. So what an operation asks for is
what its journal has in front of the old one: `Notes` says that all of it has
some property.

Two things are read off the journal. A registry is never asked about a module
with a remembered failure. And every failure that a restore remembers is one of
a module that it handed to a registry; it hands over whatever has no failure and
is routed. Building asks, and hands nothing over.
-/

namespace ModuleGraph

namespace Inquiry

def references : Inquiry → List Reference
  | read _ => []
  | check _ r => [r]
  | locate _ r => [r]
  | restore _ rs => rs

/-- The registry of a reference is to fetch its module. -/
def Restores (r : Reference) : Inquiry → Prop
  | restore s rs => s = r.scheme ∧ ∃ r' ∈ rs, r'.same r = true
  | _ => False

instance (r : Reference) (i : Inquiry) : Decidable (i.Restores r) :=
  match i with
  | read _ | check .. | locate .. => isFalse id
  | restore s rs => inferInstanceAs (Decidable (s = r.scheme ∧ ∃ r' ∈ rs, r'.same r = true))

def isRestore : Inquiry → Bool
  | restore .. => true
  | _ => false

end Inquiry

namespace Ledger

variable {p q : Inquiry → Prop} {l l' l'' : Ledger} {r s : Reference}

/-- The second journal is the first one with inquiries in front that have a property. -/
def Notes (p : Inquiry → Prop) (l l' : Ledger) : Prop :=
  ∃ later, l'.journal = later ++ l.journal ∧ ∀ i ∈ later, p i

/-- Nothing was to be fetched between the two ledgers. -/
abbrev Asks (l l' : Ledger) : Prop :=
  Notes (fun i => i.isRestore = false) l l'

/-- Between the two ledgers, the module was handed to its registry. -/
def Tried (l l' : Ledger) (r : Reference) : Prop :=
  ∃ later, l'.journal = later ++ l.journal ∧ ∃ i ∈ later, i.Restores r

theorem Notes.of_eq (h : l'.journal = l.journal) : Notes p l l' :=
  ⟨[], h, nofun⟩

theorem Notes.refl : Notes p l l := .of_eq rfl

theorem Notes.of_note {i : Inquiry} (h : p i) : Notes p l (l.note i) := by
  refine ⟨[i], rfl, ?_⟩
  intro j hj
  obtain rfl := List.mem_singleton.1 hj
  exact h

theorem Notes.mono (h : Notes p l l') (hpq : ∀ i, p i → q i) : Notes q l l' := by
  obtain ⟨later, heq, hall⟩ := h
  exact ⟨later, heq, fun i hi => hpq i (hall i hi)⟩

theorem Notes.trans (h : Notes p l l') (h' : Notes p l' l'') : Notes p l l'' := by
  obtain ⟨later, heq, hall⟩ := h
  obtain ⟨later', heq', hall'⟩ := h'
  refine ⟨later' ++ later, ?_, ?_⟩
  · rw [heq', heq, List.append_assoc]
  · intro i hi
    exact (List.mem_append.1 hi).elim (hall' i) (hall i)

theorem Tried.of_note {rs : List Reference} (hr : r ∈ rs) :
    Tried l (l.note (.restore r.scheme rs)) r :=
  ⟨[_], rfl, _, List.mem_singleton_self _, rfl, r, hr, Reference.same_iff.2 rfl⟩

theorem Tried.notes (h : Tried l l' r) (h' : Notes p l' l'') : Tried l l'' r := by
  obtain ⟨later, heq, i, hi, hrestores⟩ := h
  obtain ⟨later', heq', -⟩ := h'
  refine ⟨later' ++ later, ?_, i, List.mem_append_right _ hi, hrestores⟩
  rw [heq', heq, List.append_assoc]

theorem Notes.tried (h : Notes p l l') (h' : Tried l' l'' r) : Tried l l'' r := by
  obtain ⟨later, heq, -⟩ := h
  obtain ⟨later', heq', i, hi, hrestores⟩ := h'
  refine ⟨later' ++ later, ?_, i, List.mem_append_left _ hi, hrestores⟩
  rw [heq', heq, List.append_assoc]

theorem Tried.of_same (h : Tried l l' r) (hsame : r.same s = true) : Tried l l' s := by
  obtain ⟨later, heq, i, hi, hrestores⟩ := h
  refine ⟨later, heq, i, hi, ?_⟩
  cases i with
  | restore scheme rs =>
    obtain ⟨hscheme, r', hr', hr⟩ := hrestores
    exact ⟨hscheme.trans (Reference.scheme_eq_of_same hsame), r', hr',
      Reference.same_trans hr hsame⟩
  | read | check | locate => exact hrestores.elim

end Ledger

namespace Routes

variable {σ : Type} {routes : Routes σ} {world : σ} {l : Ledger} {parent : Url}
  {d : Declaration} {ds : List Declaration} {r : Reference} {s : Scheme}
  {registry : Registry σ} {errors : List (Reference × RestoreError)}
  {batch : List Reference} {site site' site'' : Site σ} {p q : Reference → Prop}

/-! ## Questions -/

@[simp] theorem journal_reference (routes : Routes σ) (l : Ledger) (d : Declaration) :
    (routes.reference l d).2.journal = l.journal := by
  rw [reference]
  split <;> rfl

@[simp] theorem journal_claims (routes : Routes σ) (l : Ledger) (ds : List Declaration) :
    (routes.claims l ds).2.journal = l.journal := by
  induction ds generalizing l with
  | nil => rfl
  | cons d ds ih =>
    have hhead := journal_reference routes l d
    rw [claims]
    generalize routes.reference l d = asked at hhead ⊢
    obtain ⟨x, l'⟩ := asked
    dsimp only at hhead ⊢
    cases x <;> exact (ih l').trans hhead

theorem statusOf_notes {i : Inquiry → Prop}
    (hr : l.failure? r = none → routes.answersFor r.scheme = true → i (.check r.scheme r)) :
    l.Notes i (routes.statusOf world l r).2 := by
  rw [statusOf]
  split
  · exact .refl
  · exact .refl
  · next registry hnone hreg =>
    rw [routes.scheme_eq hreg]
    exact .of_note (hr hnone (by rw [answersFor, hreg]; rfl))

theorem locateOf_notes {i : Inquiry → Prop}
    (hr : l.failure? r = none → routes.answersFor r.scheme = true → i (.locate r.scheme r)) :
    l.Notes i (routes.locateOf world l parent r).2 := by
  rw [locateOf]
  split
  · exact .refl
  · exact .refl
  · next registry hnone hreg =>
    rw [routes.scheme_eq hreg]
    exact .of_note (hr hnone (by rw [answersFor, hreg]; rfl))

/-- A question about a declaration is noted as one about its reference, to the registry of the
reference's scheme, or not at all. -/
theorem status_notes {i : Inquiry → Prop}
    (hr : ∀ r, l.failure? r = none → routes.answersFor r.scheme = true → i (.check r.scheme r)) :
    l.Notes i (routes.status world l d).2 := by
  have hjournal := journal_reference routes l d
  have hfailures := failures_reference routes l d
  rw [status]
  generalize routes.reference l d = asked at hjournal hfailures ⊢
  obtain ⟨x, l'⟩ := asked
  cases x with
  | error f => exact .of_eq hjournal
  | ok r =>
    refine (Ledger.Notes.of_eq hjournal).trans (statusOf_notes fun hnone => hr r ?_)
    rw [← hnone]
    exact (failure?_of_failures_eq hfailures r).symm

theorem locate_notes {i : Inquiry → Prop}
    (hr : ∀ r, l.failure? r = none → routes.answersFor r.scheme = true → i (.locate r.scheme r)) :
    l.Notes i (routes.locate world l parent d).2 := by
  have hjournal := journal_reference routes l d
  have hfailures := failures_reference routes l d
  rw [locate]
  generalize routes.reference l d = asked at hjournal hfailures ⊢
  obtain ⟨x, l'⟩ := asked
  cases x with
  | error f => exact .of_eq hjournal
  | ok r =>
    refine (Ledger.Notes.of_eq hjournal).trans (locateOf_notes fun hnone => hr r ?_)
    rw [← hnone]
    exact (failure?_of_failures_eq hfailures r).symm

/-! ## Restores -/

/-- The registry of the reference's scheme, if there is one, answers for it. -/
def Routed (routes : Routes σ) (r : Reference) : Prop :=
  ∃ registry, routes.registry? r.scheme = some registry

theorem settle_notes {i : Inquiry → Prop} (hi : i (.check registry.scheme r)) :
    l.Notes i (settle registry world errors l r).2 := by
  rw [settle]
  split
  · exact .of_eq rfl
  · dsimp only
    split
    · exact .of_note hi
    · exact (Ledger.Notes.of_note hi).trans (.of_eq rfl)

theorem settleAll_notes {i : Inquiry → Prop} (hi : ∀ r ∈ batch, i (.check registry.scheme r)) :
    l.Notes i (settleAll registry world errors l batch).2 := by
  induction batch generalizing l with
  | nil => exact .refl
  | cons r rs ih =>
    have hhead : l.Notes i (settle registry world errors l r).2 :=
      settle_notes (hi r (List.mem_cons_self ..))
    rw [settleAll]
    generalize settle registry world errors l r = settled at hhead ⊢
    obtain ⟨f, l'⟩ := settled
    exact hhead.trans (ih fun r' hr' => hi r' (List.mem_cons_of_mem r hr'))

/-- What happens when the modules of some references are to be fetched: registries are asked
about nothing else, all that are routed are handed over, and what is remembered has been. -/
structure Hands (routes : Routes σ) (p : Reference → Prop) (site site' : Site σ) : Prop where
  notes : site.ledger.Notes (fun i => ∀ r ∈ i.references, p r) site'.ledger
  tried : ∀ r, p r → routes.Routed r → site.ledger.Tried site'.ledger r
  remembered : ∀ r f, site'.ledger.failure? r = some f →
    site.ledger.failure? r = some f ∨ site.ledger.Tried site'.ledger r

theorem Hands.trans (h : routes.Hands p site site') (h' : routes.Hands q site' site'') :
    routes.Hands (fun r => p r ∨ q r) site site'' where
  notes := (h.notes.mono fun _ hi r hr => .inl (hi r hr)).trans
    (h'.notes.mono fun _ hi r hr => .inr (hi r hr))
  tried r hr hrouted := by
    rcases hr with hr | hr
    · exact (h.tried r hr hrouted).notes h'.notes
    · exact h.notes.tried (h'.tried r hr hrouted)
  remembered r f hf := by
    rcases h'.remembered r f hf with hf | htried
    · exact (h.remembered r f hf).imp_right fun htried => htried.notes h'.notes
    · exact .inr (h.notes.tried htried)

theorem Hands.congr (h : routes.Hands p site site') (hpq : ∀ r, p r ↔ q r) :
    routes.Hands q site site' where
  notes := h.notes.mono fun _ hi r hr => (hpq r).1 (hi r hr)
  tried r hr := h.tried r ((hpq r).2 hr)
  remembered := h.remembered

theorem restoreBatch_hands (hs : ∀ r ∈ batch, r.scheme = s) :
    routes.Hands (· ∈ batch) site (routes.restoreBatch s batch site).2 := by
  have hfetches := restoreBatch_fetches routes s batch site
  rw [restoreBatch] at hfetches ⊢
  split
  · next hempty =>
    rw [List.isEmpty_iff.1 hempty]
    exact ⟨.refl, fun r hr => absurd hr List.not_mem_nil, fun _ _ => .inl⟩
  · next hsome =>
    rw [if_neg hsome] at hfetches
    split
    · next hnone =>
      refine ⟨.refl, ?_, fun _ _ => .inl⟩
      rintro r hr ⟨registry, hreg⟩
      rw [hs r hr, hnone] at hreg
      cases hreg
    · next registry hreg =>
      simp only [hreg] at hfetches
      have hnote : site.ledger.Notes (fun i => ∀ r ∈ i.references, r ∈ batch)
          (site.ledger.note (.restore registry.scheme batch)) := .of_note fun _ => id
      have hsettle : (site.ledger.note (.restore registry.scheme batch)).Notes
          (fun i => ∀ r ∈ i.references, r ∈ batch)
          (settleAll registry (registry.restore site.world batch).2
            (registry.restore site.world batch).1
            (site.ledger.note (.restore registry.scheme batch)) batch).2 :=
        settleAll_notes fun r hr r' hr' => List.mem_singleton.1 hr' ▸ hr
      have htried : ∀ r ∈ batch, site.ledger.Tried (settleAll registry
          (registry.restore site.world batch).2 (registry.restore site.world batch).1
          (site.ledger.note (.restore registry.scheme batch)) batch).2 r := by
        intro r hr
        have hscheme : registry.scheme = r.scheme :=
          (routes.scheme_eq hreg).trans (hs r hr).symm
        rw [hscheme] at hsettle ⊢
        exact (Ledger.Tried.of_note hr).notes hsettle
      refine ⟨hnote.trans hsettle, fun r hr _ => htried r hr, ?_⟩
      intro r f hf
      by_cases hr : ∃ r' ∈ batch, r'.same r = true
      · obtain ⟨r', hr', hsame⟩ := hr
        exact .inr ((htried r' hr').of_same hsame)
      · refine .inl ?_
        rw [← hf]
        refine (hfetches.ledger.others r fun r' hr' => ?_).symm
        exact Bool.eq_false_iff.2 fun hsame => hr ⟨r', hr', hsame⟩

theorem restoreSchemes_hands (routes : Routes σ) (batch : List Reference) (site : Site σ)
    (schemes : List Scheme) :
    routes.Hands (fun r => r ∈ batch ∧ r.scheme ∈ schemes) site
      (routes.restoreSchemes batch site schemes).2 := by
  induction schemes generalizing site with
  | nil => exact ⟨.refl, nofun, fun _ _ => .inl⟩
  | cons s rest ih =>
    have hmem : ∀ r, r ∈ batch.filter (·.scheme == s) ↔ r ∈ batch ∧ r.scheme = s := by
      simp [List.mem_filter]
    have hhead : routes.Hands (· ∈ batch.filter (·.scheme == s)) site
        (routes.restoreBatch s (batch.filter (·.scheme == s)) site).2 :=
      restoreBatch_hands fun r hr => ((hmem r).1 hr).2
    rw [restoreSchemes]
    generalize routes.restoreBatch s (batch.filter (·.scheme == s)) site = first at hhead ⊢
    obtain ⟨failures, site₁⟩ := first
    refine (hhead.trans (ih site₁)).congr fun r => ?_
    rw [hmem, List.mem_cons, ← and_or_left]

/-- What a restore of declarations hands over. -/
theorem restore_hands (routes : Routes σ) (site : Site σ) (ds : List Declaration) :
    routes.Hands (· ∈ routes.fresh site.ledger ds) site (routes.restore site ds).2 := by
  have hasked : routes.Hands (fun _ => False) site
      ⟨site.world, (routes.claims site.ledger ds).2⟩ :=
    ⟨.of_eq (journal_claims ..), nofun, fun r f hf =>
      .inl ((failure?_of_failures_eq failures_claims r).symm.trans hf)⟩
  have hhands := restoreSchemes_hands routes (routes.fresh site.ledger ds)
    ⟨site.world, (routes.claims site.ledger ds).2⟩ Scheme.all
  rw [restore_snd]
  refine (hasked.trans hhands).congr fun r => ?_
  simp [Scheme.mem_all]

end Routes

/-! ## Builds

A build asks whether modules are there and where, and reads files. It has nothing fetched. -/

namespace Discovery

variable {σ : Type} {c : Context σ} {s s' : Discovery} {l l' : Ledger} {u parent entry : Url}
  {d : Declaration} {ds : List Declaration} {found files : List SourceFile} {n : Nat}

theorem load_notes : s.ledger.Asks (load c s u).2.ledger := by
  rw [load]
  split
  · exact .refl
  · exact .refl
  · exact .refl
  · rw [readFile]
    dsimp only
    split <;> exact .of_note rfl

theorem visit_notes : s.ledger.Asks (visit c s u).2.ledger := by
  have hload := load_notes (c := c) (s := s) (u := u)
  rw [visit]
  split
  · exact .refl
  · split
    · next hl =>
      rw [hl] at hload
      exact hload
    · next hl =>
      rw [hl] at hload
      exact hload

theorem follow_notes : s.ledger.Asks (follow c s parent d).2.ledger := by
  have hlocate : s.ledger.Asks (c.setting.routes.locate c.world s.ledger parent d).2 :=
    Routes.locate_notes fun _ _ _ => rfl
  rw [follow]
  generalize c.setting.routes.locate c.world s.ledger parent d = located at hlocate ⊢
  obtain ⟨target, l⟩ := located
  dsimp only
  cases target with
  | error f => exact hlocate
  | ok target =>
    have hvisit : l.Asks (visit c { s with ledger := l } target).2.ledger := visit_notes
    dsimp only
    split
    · next hv =>
      rw [hv] at hvisit
      exact hlocate.trans hvisit
    · next hv =>
      rw [hv] at hvisit
      exact hlocate.trans hvisit

theorem evaluate_notes : s.ledger.Asks (evaluate c s parent d).2.ledger := by
  have hstatus : s.ledger.Asks (c.setting.routes.status c.world s.ledger d).2 :=
    Routes.status_notes fun _ _ _ => rfl
  rw [evaluate]
  generalize c.setting.routes.status c.world s.ledger d = asked at hstatus ⊢
  obtain ⟨status, l⟩ := asked
  dsimp only
  cases status with
  | failed f => exact hstatus
  | needsRestore r =>
    dsimp only
    split <;> exact hstatus
  | available => exact hstatus.trans follow_notes

theorem evaluateAll_notes :
    s.ledger.Asks (evaluateAll c parent ds found s).2.ledger := by
  induction ds generalizing found s with
  | nil => exact .refl
  | cons d ds ih =>
    have hhead : s.ledger.Asks (evaluate c s parent d).2.ledger := evaluate_notes
    rw [evaluateAll]
    exact hhead.trans ih

theorem explore_notes (h : explore c n files s = some s') : s.ledger.Asks s'.ledger := by
  induction n generalizing files s with
  | zero =>
    cases files with
    | nil =>
      obtain rfl := Option.some.inj h
      exact .refl
    | cons => cases h
  | succ n ih =>
    cases files with
    | nil =>
      obtain rfl := Option.some.inj h
      exact .refl
    | cons file rest => exact evaluateAll_notes.trans (ih h)

theorem survey_notes {result : Except BuildError Discovery}
    (h : survey c n l entry = some (result, l')) : l.Asks l' := by
  have hload := load_notes (c := c) (s := .start l) (u := entry)
  rw [survey] at h
  split at h
  · next hl =>
    obtain ⟨-, rfl⟩ := Prod.mk.inj (Option.some.inj h)
    rw [hl] at hload
    exact hload
  · next hl =>
    rw [hl] at hload
    obtain ⟨s', hexplore, h⟩ := Option.bind_eq_some_iff.1 h
    obtain ⟨-, rfl⟩ := Prod.mk.inj (Option.some.inj h)
    have hnotes := explore_notes hexplore
    exact hload.trans hnotes

end Discovery

theorem Setting.buildWith_notes {σ : Type} {setting : Setting σ} {n : Nat} {site site' : Site σ}
    {ws : Workspace} {prior : Prior} {entry : Url} {result : Except BuildError Graph}
    (h : setting.buildWith n site ws prior entry = some (result, site')) :
    site.ledger.Asks site'.ledger := by
  rw [buildWith_eq] at h
  obtain ⟨⟨found, l'⟩, hsurvey, heq⟩ := Option.map_eq_some_iff.1 h
  cases heq
  exact Discovery.survey_notes hsurvey

end ModuleGraph
