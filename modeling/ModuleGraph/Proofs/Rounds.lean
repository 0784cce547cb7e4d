import ModuleGraph.Proofs.Restoring
import ModuleGraph.Proofs.Snapshot

/-!
# The rounds of linking

`link` builds a graph and then goes on in rounds, each of which restores what is
pending and rebuilds, for as long as something is pending. A round depends on
the one before and on nothing else, so that there is one sequence of rounds, and
`link` has an answer when the sequence comes to an end.

What is pending after a round is easily said. A declaration is missing when its
module needs a restore. Those pending before are what the restore was tried for.
So pending are the missing declarations that were not pending before. A module
that is never there is thus pending every other round, and whether it is so in
the odd rounds or in the even ones depends on the round it was found in.
-/

namespace ModuleGraph

namespace Discovery

variable {σ : Type} {c : Context σ} {s : Discovery} {l : Ledger} {entry : Url}
  {id : DeclarationId} {d : Declaration} {r : Reference}

/-! ## The site that a build leaves -/

theorem Surveyed.writes (h : Surveyed c l entry s) :
    l.Writes c.setting.routes (Declares s) s.ledger := by
  intro id
  by_cases hid : ∃ d, Declares s d ∧ d.id = id
  · obtain ⟨d, hd, rfl⟩ := hid
    rw [h.references d hd, Routes.referenceIn]
    cases hl : l.references[d.id]? with
    | none => exact .inr ⟨rfl, d, hd, rfl, rfl⟩
    | some x => exact .inl rfl
  · exact .inl (h.otherReferences id fun d hd he => hid ⟨d, hd, he⟩)

theorem Surveyed.referenceIn_eq (h : Surveyed c l entry s) (hd : Declares s d) :
    c.setting.routes.referenceIn s.ledger d = c.setting.routes.referenceIn l d := by
  rw [Routes.referenceIn, h.references d hd]
  rfl

/-- The status of a declaration is after the build what it was before. -/
theorem Surveyed.statusIn_eq (h : Surveyed c l entry s) (hd : Declares s d) :
    c.setting.routes.statusIn c.world s.ledger d = c.setting.routes.statusIn c.world l d :=
  Routes.statusIn_eq (h.referenceIn_eq hd) h.failures

theorem Surveyed.locateIn_eq (h : Surveyed c l entry s) (hd : Declares s d) {parent : Url} :
    c.setting.routes.locateIn c.world s.ledger parent d =
      c.setting.routes.locateIn c.world l parent d :=
  Routes.locateIn_eq (h.referenceIn_eq hd) h.failures

/-- What waits is what needs a restore that has not been tried. -/
theorem verdict_isPending_iff : (c.verdict l d).isPending = true ↔
    (∃ r, c.setting.routes.statusIn c.world l d = .needsRestore r) ∧
      c.prior.attempted d.id = false := by
  rw [Verdict.isPending_iff]
  constructor
  · rintro ⟨r, hv⟩
    exact (needsRestore_of_verdict hv).imp_left fun hs => ⟨r, hs⟩
  · rintro ⟨⟨r, hs⟩, ha⟩
    refine ⟨r, ?_⟩
    rw [Context.verdict, hs]
    dsimp only
    rw [if_neg (Bool.eq_false_iff.1 ha)]

end Discovery

namespace Setting

open Discovery

variable {σ : Type} {setting : Setting σ} {ws : Workspace} {entry : Url} {site s s' : Site σ}
  {g g' : Graph} {i j k n : Nat} {id : DeclarationId} {d : Declaration}

/-! ## Rounds -/

/-- The rounds of linking, with the graph that each gives and the site that it
leaves. The first round is a build; another one is a restore and a rebuild, and
there is one only when something is pending. -/
inductive Round (setting : Setting σ) (ws : Workspace) (entry : Url) (site : Site σ) :
    Nat → Graph → Site σ → Prop where
  | first {n : Nat} {g : Graph} {s : Site σ}
      (h : setting.build n site ws entry = some (.ok g, s)) : Round setting ws entry site 0 g s
  | next {i n : Nat} {g g' : Graph} {s s' : Site σ} (h : Round setting ws entry site i g s)
      (hp : g.pending.isEmpty = false)
      (hb : setting.rebuild n (setting.routes.restore s g.pendingDeclarations).2 ws g
        (setting.routes.restore s g.pendingDeclarations).1 = some (.ok g', s')) :
      Round setting ws entry site (i + 1) g' s'

/-- The module of a declaration of the graph is missing. -/
def Missing (setting : Setting σ) (g : Graph) (s : Site σ) (id : DeclarationId) : Prop :=
  ∃ d r, g.declaration? id = some d ∧
    (setting.routes.status s.world s.ledger d).1 = .needsRestore r

/-- A graph was found with these files taken over, and left this site. -/
def Found (setting : Setting σ) (ws : Workspace) (entry : Url) (prior : Prior) (l : Ledger)
    (g : Graph) (s : Site σ) : Prop :=
  ∃ sv, Surveyed ⟨setting, s.world, ws, prior⟩ l entry sv ∧ g = sv.graph entry ∧
    s.ledger = sv.ledger ∧ ∃ f, Context.fetch ⟨setting, s.world, ws, prior⟩ entry = .ok f

theorem found_of_buildWith {prior : Prior}
    (h : setting.buildWith n site ws prior entry = some (.ok g, s)) :
    setting.Found ws entry prior site.ledger g s ∧ s.world = site.world := by
  obtain ⟨sv, hs, rfl, rfl, -, hf⟩ := buildWith_ok h
  exact ⟨⟨sv, hs, rfl, rfl, hf⟩, rfl⟩

section Found

variable {prior : Prior} {l : Ledger}

theorem Found.entry_eq (h : setting.Found ws entry prior l g s) : g.entry = entry := by
  obtain ⟨sv, -, rfl, -⟩ := h
  rfl

theorem Found.files_iff (h : setting.Found ws entry prior l g s) {u : Url} {f : SourceFile} :
    g.files[u]? = some f ↔ Reached ⟨setting, s.world, ws, prior⟩ l entry u ∧
      Context.fetch ⟨setting, s.world, ws, prior⟩ u = .ok f := by
  obtain ⟨sv, hs, rfl, -⟩ := h
  exact hs.files u f

theorem Found.entry_file (h : setting.Found ws entry prior l g s) :
    ∃ f, g.files[entry]? = some f := by
  obtain ⟨f, hf⟩ := h.choose_spec.2.2.2
  exact ⟨f, h.files_iff.2 ⟨.entry hf, hf⟩⟩

theorem Found.writes (h : setting.Found ws entry prior l g s) :
    l.Writes setting.routes (fun d => g.declaration? d.id = some d) s.ledger := by
  obtain ⟨sv, hs, rfl, hl, -⟩ := h
  rw [hl]
  exact hs.writes.mono fun d hd => declaration?_graph.2 ⟨hd, rfl⟩

theorem Found.failure?_eq (h : setting.Found ws entry prior l g s) (r : Reference) :
    s.ledger.failure? r = l.failure? r := by
  obtain ⟨sv, hs, -, hl, -⟩ := h
  rw [hl]
  exact Routes.failure?_of_failures_eq hs.failures r

/-- What is pending is missing and has not been tried to restore. -/
theorem Found.isPending_iff (h : setting.Found ws entry prior l g s) :
    g.isPending id = true ↔ setting.Missing g s id ∧ prior.attempted id = false := by
  obtain ⟨sv, hs, rfl, hl, -⟩ := h
  rw [isPending_graph, (hs.shows_declaration? id).isPending, Missing]
  simp only [Routes.status_fst, hl]
  cases hd : (sv.graph entry).declaration? id with
  | none => simp
  | some d =>
    obtain ⟨hdecl, rfl⟩ := declaration?_graph.1 hd
    rw [Option.map_some, Option.any_some, verdict_isPending_iff, ← hs.statusIn_eq hdecl]
    simp

end Found

/-! ## The sequence of rounds -/

theorem Round.unique (h : setting.Round ws entry site i g s)
    (h' : setting.Round ws entry site i g' s') : g = g' ∧ s = s' := by
  induction h generalizing g' s' with
  | first hb =>
    cases h' with
    | first hb' =>
      cases buildWith_unique hb hb'
      exact ⟨rfl, rfl⟩
  | next _ _ hb ih =>
    cases h' with
    | next h' _ hb' =>
      obtain ⟨rfl, rfl⟩ := ih h'
      cases buildWith_unique hb hb'
      exact ⟨rfl, rfl⟩

theorem Round.found (h : setting.Round ws entry site i g s) :
    ∃ prior l, setting.Found ws entry prior l g s := by
  induction h with
  | first hb => exact ⟨_, _, (found_of_buildWith hb).1⟩
  | next _ _ hb ih =>
    obtain ⟨prior, l, hfound⟩ := ih
    rw [rebuild, hfound.entry_eq] at hb
    exact ⟨_, _, (found_of_buildWith hb).1⟩

theorem Round.consistent (h : setting.Round ws entry site i g s) : g.Consistent := by
  obtain ⟨prior, l, sv, hs, rfl, -⟩ := h.found
  exact hs.consistent

theorem Round.found_first (h : setting.Round ws entry site 0 g s) :
    setting.Found ws entry .none site.ledger g s ∧ s.world = site.world := by
  cases h with
  | first hb => exact found_of_buildWith hb

/-- The restore and the rebuild that lead from one round to the next. -/
theorem Round.restored_next (h : setting.Round ws entry site i g s)
    (h' : setting.Round ws entry site (i + 1) g' s') :
    g.pending.isEmpty = false ∧
      setting.Found ws entry (.ofGraph g (setting.routes.restore s g.pendingDeclarations).1)
        (setting.routes.restore s g.pendingDeclarations).2.ledger g' s' ∧
      s'.world = (setting.routes.restore s g.pendingDeclarations).2.world := by
  cases h' with
  | next h₀ hp hb =>
    obtain ⟨rfl, rfl⟩ := h.unique h₀
    obtain ⟨prior, l, hfound⟩ := h.found
    rw [rebuild, hfound.entry_eq] at hb
    exact ⟨hp, found_of_buildWith hb⟩

theorem Round.found_next (h : setting.Round ws entry site i g s)
    (h' : setting.Round ws entry site (i + 1) g' s') :
    g.pending.isEmpty = false ∧ ∃ reported s₁,
      setting.routes.Restores g.pendingDeclarations s reported s₁ ∧
        setting.Found ws entry (.ofGraph g reported) s₁.ledger g' s' ∧ s'.world = s₁.world := by
  obtain ⟨hp, hfound, hw⟩ := h.restored_next h'
  exact ⟨hp, _, _, Routes.restore_restores _ _ _, hfound, hw⟩

theorem Round.exists_of_le (h : setting.Round ws entry site i g s) (hk : k ≤ i) :
    ∃ g s, setting.Round ws entry site k g s := by
  induction h generalizing k with
  | first hb =>
    obtain rfl := Nat.le_zero.1 hk
    exact ⟨_, _, .first hb⟩
  | next h hp hb ih =>
    rcases Nat.le_succ_iff.1 hk with hk | rfl
    · exact ih hk
    · exact ⟨_, _, .next h hp hb⟩

/-- A remembered failure was remembered at the start, or a registry reported it. -/
theorem Round.failed {r : Reference} {f : Failure} (h : setting.Round ws entry site i g s)
    (hf : s.ledger.failure? r = some f) :
    site.ledger.failure? r = some f ∨ setting.routes.Reports f := by
  induction i generalizing g s with
  | zero =>
    rw [h.found_first.1.failure?_eq] at hf
    exact .inl hf
  | succ i ih =>
    obtain ⟨g₀, s₀, h₀⟩ := h.exists_of_le (Nat.le_succ i)
    obtain ⟨-, reported, s₁, hrestore, hfound, -⟩ := h₀.found_next h
    rw [hfound.failure?_eq] at hf
    exact (hrestore.failed r f hf).elim (ih h₀) .inr

theorem Round.pending_of_lt (h : setting.Round ws entry site i g s) (hk : k < i)
    (h' : setting.Round ws entry site k g' s') : g'.pending.isEmpty = false := by
  obtain ⟨g₁, s₁, hnext⟩ := h.exists_of_le (Nat.succ_le_of_lt hk)
  exact (h'.found_next hnext).1

theorem isPending_of_mem_pendingDeclarations (h : g.Consistent)
    (hd : d ∈ g.pendingDeclarations) : g.isPending d.id = true := by
  have hid : d.id ∈ g.pending.toList := h.handed ▸ List.mem_map_of_mem hd
  exact Std.ExtTreeSet.contains_iff_mem.2 (Std.ExtTreeSet.mem_toList.1 hid)

theorem isEmpty_pending_iff :
    g.pending.isEmpty = false ↔ ∃ id, g.isPending id = true := by
  rw [Std.ExtTreeSet.isEmpty_eq_false_iff, Std.ExtTreeSet.eq_empty_iff_forall_contains,
    Classical.not_forall]
  simp only [Bool.not_eq_false, Outcomes.isPending]

theorem Round.isPending_first_iff (h : setting.Round ws entry site 0 g s) :
    g.isPending id = true ↔ setting.Missing g s id := by
  rw [h.found_first.1.isPending_iff]
  exact and_iff_left rfl

/-- Pending are the missing declarations that were not pending before. -/
theorem Round.isPending_next_iff (h : setting.Round ws entry site i g s)
    (h' : setting.Round ws entry site (i + 1) g' s') :
    g'.isPending id = true ↔ setting.Missing g' s' id ∧ g.isPending id = false := by
  obtain ⟨-, reported, s₁, hrestore, hfound, -⟩ := h.found_next h'
  rw [hfound.isPending_iff]
  refine and_congr_right fun _ => ?_
  show (g.isPending id || reported.contains id) = false ↔ g.isPending id = false
  rw [Bool.or_eq_false_iff, and_iff_left_iff_imp]
  intro hnot
  rw [← Bool.not_eq_true]
  intro hrep
  obtain ⟨d, hd, rfl⟩ := hrestore.reported id hrep
  rw [isPending_of_mem_pendingDeclarations h.consistent hd] at hnot
  cases hnot

theorem Round.missing_of_isPending (h : setting.Round ws entry site i g s)
    (hp : g.isPending id = true) : setting.Missing g s id := by
  obtain ⟨prior, l, hfound⟩ := h.found
  exact (hfound.isPending_iff.1 hp).1

/-! ## Modules that stay missing -/

/-- A declaration is missing from this round on, and was not in the round before. -/
structure Lasting (setting : Setting σ) (ws : Workspace) (entry : Url) (site : Site σ)
    (i : Nat) (id : DeclarationId) : Prop where
  round : ∃ g s, setting.Round ws entry site i g s
  missing : ∀ j g s, i ≤ j → setting.Round ws entry site j g s → setting.Missing g s id
  new : ∀ k g s, k + 1 = i → setting.Round ws entry site k g s → ¬ setting.Missing g s id

/-- A declaration that stays missing is pending every other round. -/
theorem Lasting.isPending_iff (h : setting.Lasting ws entry site i id) (hij : i ≤ j)
    (hr : setting.Round ws entry site j g s) : g.isPending id = true ↔ j % 2 = i % 2 := by
  induction j generalizing g s with
  | zero =>
    obtain rfl := Nat.le_zero.1 hij
    rw [hr.isPending_first_iff]
    exact iff_of_true (h.missing 0 g s hij hr) rfl
  | succ j ih =>
    obtain ⟨g₀, s₀, hr₀⟩ := hr.exists_of_le (Nat.le_succ j)
    rw [hr₀.isPending_next_iff hr, and_iff_right (h.missing _ g s hij hr), ← Bool.not_eq_true]
    rcases Nat.le_succ_iff.1 hij with hij | rfl
    · rw [ih hij hr₀]
      omega
    · refine iff_of_true (fun hp => ?_) rfl
      exact h.new j g₀ s₀ rfl hr₀ (hr₀.missing_of_isPending hp)

/-- Two declarations that stay missing, found at rounds of different parity, keep
linking from coming to an end. -/
theorem Round.pending_of_lasting {id' : DeclarationId}
    (hi : setting.Lasting ws entry site i id) (hj : setting.Lasting ws entry site j id')
    (hne : i % 2 ≠ j % 2) (hr : setting.Round ws entry site k g s) :
    g.pending.isEmpty = false := by
  by_cases hik : k < i
  · obtain ⟨g₁, s₁, h₁⟩ := hi.round
    exact h₁.pending_of_lt hik hr
  · by_cases hjk : k < j
    · obtain ⟨g₁, s₁, h₁⟩ := hj.round
      exact h₁.pending_of_lt hjk hr
    · by_cases hpar : k % 2 = i % 2
      · exact isEmpty_pending_iff.2 ⟨id, (hi.isPending_iff (Nat.le_of_not_lt hik) hr).2 hpar⟩
      · exact isEmpty_pending_iff.2
          ⟨id', (hj.isPending_iff (Nat.le_of_not_lt hjk) hr).2 (by omega)⟩

/-! ## Rounds and linking -/

theorem exists_fetch_ofGraph {w : σ} {reported : FailureMap} {u : Url} {f : SourceFile}
    (h : g.files[u]? = some f) :
    ∃ f', Context.fetch ⟨setting, w, ws, .ofGraph g reported⟩ u = .ok f' := by
  rw [Context.fetch]
  dsimp only [Prior.ofGraph]
  rw [h]
  cases ws[u]? with
  | some f' => exact ⟨f', rfl⟩
  | none => exact ⟨f, rfl⟩

/-- A rebuild has the entry file of the round before it. -/
theorem Round.rebuild_ne_error {s₁ : Site σ} {reported : FailureMap} {e : BuildError}
    (h : setting.Round ws entry site i g s) :
    setting.rebuild n s₁ ws g reported ≠ some (.error e, s') := by
  intro hb
  obtain ⟨prior, l, hfound⟩ := h.found
  obtain ⟨f, hf⟩ := hfound.entry_file
  have herr := (buildWith_error hb).1
  obtain ⟨f', hf'⟩ : ∃ f, Context.fetch ⟨setting, s₁.world, ws, .ofGraph g reported⟩ entry =
    .ok f := exists_fetch_ofGraph hf
  rw [hfound.entry_eq, hf'] at herr
  cases herr

theorem size_of_buildWith {prior : Prior}
    (h : setting.buildWith n site ws prior entry = some (.ok g, s)) : g.files.size ≤ n := by
  obtain ⟨sv, -, rfl, -, hn, -⟩ := buildWith_ok h
  exact hn

/-- A round after which nothing is pending is the last one. -/
theorem Round.le_of_isEmpty (h : setting.Round ws entry site i g s)
    (hp : g.pending.isEmpty = true) (h' : setting.Round ws entry site j g' s') : j ≤ i := by
  by_contra hlt
  have hpending := h'.pending_of_lt (Nat.lt_of_not_le hlt) h
  rw [hp] at hpending
  cases hpending

/-- Settling from a round on ends at the last round. If the budget was enough for the files up
to that round, it is so for the files of all rounds. -/
theorem Round.of_settle {r : Except BuildError Graph × Site σ}
    (h : setting.Round ws entry site i g s)
    (hn : ∀ j g' s', j ≤ i → setting.Round ws entry site j g' s' → g'.files.size ≤ n)
    (hr : setting.settle n ws k g s = some r) :
    ∃ m g' s', setting.Round ws entry site m g' s' ∧ g'.pending.isEmpty = true ∧
      (∀ j g s, setting.Round ws entry site j g s → g.files.size ≤ n) ∧ r = (.ok g', s') := by
  induction k generalizing i g s with
  | zero =>
    rw [settle] at hr
    split at hr
    · next hp =>
      cases hr
      exact ⟨i, g, s, h, hp, fun j _ _ hj => hn j _ _ (h.le_of_isEmpty hp hj) hj, rfl⟩
    · cases hr
  | succ k ih =>
    rw [settle] at hr
    split at hr
    · next hp =>
      cases hr
      exact ⟨i, g, s, h, hp, fun j _ _ hj => hn j _ _ (h.le_of_isEmpty hp hj) hj, rfl⟩
    · next hp =>
      dsimp only at hr
      split at hr
      · cases hr
      · next hb => exact absurd hb h.rebuild_ne_error
      · next hb =>
        have hnext := h.next (Bool.eq_false_iff.2 hp) hb
        refine ih hnext (fun j g' s' hj h' => ?_) hr
        rcases Nat.le_succ_iff.1 hj with hj | rfl
        · exact hn j g' s' hj h'
        · obtain ⟨rfl, -⟩ := hnext.unique h'
          exact size_of_buildWith hb

/-- Linking ends because the entry file cannot be had, or at the last round, and then no round
has more files than the budget. -/
theorem link_ends {r : Except BuildError Graph × Site σ}
    (h : setting.link n site ws entry = some r) :
    (∃ e s, setting.build n site ws entry = some (.error e, s) ∧ r = (.error e, s)) ∨
      ∃ i g s, setting.Round ws entry site i g s ∧ g.pending.isEmpty = true ∧
        (∀ j g s, setting.Round ws entry site j g s → g.files.size ≤ n) ∧ r = (.ok g, s) := by
  rw [link] at h
  split at h
  · cases h
  · next e s hb =>
    cases h
    exact .inl ⟨e, s, hb, rfl⟩
  · next g s hb =>
    have hfirst : setting.Round ws entry site 0 g s := .first hb
    refine .inr (hfirst.of_settle (fun j g' s' hj h' => ?_) h)
    obtain rfl := Nat.le_zero.1 hj
    obtain ⟨rfl, -⟩ := hfirst.unique h'
    exact size_of_buildWith hb

/-- On a budget that is large enough, linking goes through a round. -/
theorem Round.settle_eq (h : setting.Round ws entry site i g s) :
    ∃ m, ∀ n, m ≤ n → ∃ g₀ s₀, setting.build n site ws entry = some (.ok g₀, s₀) ∧
      ∀ k, setting.settle n ws (i + k) g₀ s₀ = setting.settle n ws k g s := by
  induction h with
  | @first m g s hb =>
    exact ⟨m, fun n hn => ⟨g, s, buildWith_mono hb hn, fun k => by rw [Nat.zero_add]⟩⟩
  | @next i m g g' s s' h hp hb ih =>
    obtain ⟨m', hm'⟩ := ih
    refine ⟨max m m', fun n hn => ?_⟩
    obtain ⟨g₀, s₀, hb₀, hsettle⟩ := hm' n (Nat.le_trans (Nat.le_max_right m m') hn)
    refine ⟨g₀, s₀, hb₀, fun k => ?_⟩
    have hb := buildWith_mono hb (Nat.le_trans (Nat.le_max_left m m') hn)
    rw [Nat.add_assoc, Nat.add_comm 1 k, hsettle (k + 1), settle, if_neg (by rw [hp]; simp)]
    dsimp only
    rw [rebuild, hb]

/-- Linking has an answer when the entry file cannot be had, or when there is a
round after which nothing is pending. -/
theorem exists_link_iff :
    (∃ n r, setting.link n site ws entry = some r) ↔
      (∃ n e s, setting.build n site ws entry = some (.error e, s)) ∨
        ∃ i g s, setting.Round ws entry site i g s ∧ g.pending.isEmpty = true := by
  constructor
  · rintro ⟨n, r, h⟩
    rcases link_ends h with ⟨e, s, hb, -⟩ | ⟨i, g, s, hround, hp, -⟩
    · exact .inl ⟨n, e, s, hb⟩
    · exact .inr ⟨i, g, s, hround, hp⟩
  · rintro (⟨n, e, s, hb⟩ | ⟨i, g, s, hround, hp⟩)
    · exact ⟨n, (.error e, s), by rw [link, hb]⟩
    · obtain ⟨m, hm⟩ := hround.settle_eq
      obtain ⟨g₀, s₀, hb, hsettle⟩ := hm (max m i) (Nat.le_max_left m i)
      have hend : setting.settle (max m i) ws (max m i - i) g s = some (.ok g, s) := by
        cases max m i - i <;> rw [settle, if_pos hp]
      refine ⟨max m i, (.ok g, s), ?_⟩
      have := hsettle (max m i - i)
      rw [Nat.add_sub_cancel' (Nat.le_max_right m i), hend] at this
      rw [link, hb]
      exact this

theorem isEmpty_pending_of_link (h : setting.link n site ws entry = some (.ok g, s)) :
    g.pending.isEmpty = true := by
  rcases link_ends h with ⟨e, s', -, heq⟩ | ⟨i, g', s', -, hp, -, heq⟩
  · cases heq
  · cases heq
    exact hp

end Setting

end ModuleGraph
