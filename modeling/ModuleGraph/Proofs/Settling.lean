import Mathlib.Data.Fintype.Powerset
import Mathlib.Data.Set.Finite.Lemmas
import Mathlib.Order.OrderIsoNat
import ModuleGraph.Proofs.Steady

/-!
# When linking comes to an end

The rounds of linking cannot learn something new for ever, since there are
finitely many references to learn of. So from some round on all rounds are
steady, and as files are only added then, from some round on all have the same
files. From there on the same declarations are missing in every round. Those
that are pending and those that are not change places with each round, and
linking comes to an end only if one of the two is none of them.

`exists_link_iff_no_two` says so with the rounds in which missing declarations
were found: linking has an end unless two of them were found in rounds of
different parity. `Sample.not_exists_link` is a setting in which that happens,
with a single module that no restore brings.
-/

namespace ModuleGraph

/-- Properties of finitely many things that are never lost do not change any more
from some index on. -/
theorem exists_constant {α : Type} (xs : List α) (p : Nat → α → Prop)
    (hmono : ∀ i, ∀ x ∈ xs, p i x → p (i + 1) x) :
    ∃ n, ∀ i, n ≤ i → ∀ x ∈ xs, (p (i + 1) x ↔ p i x) := by
  have hfinite : Finite { x // x ∈ xs } := (List.finite_toSet xs).to_subtype
  let chain : Nat →o Set { x // x ∈ xs } :=
    ⟨fun i => { x | p i x.1 }, monotone_nat_of_le_succ fun i x hx => hmono i x.1 x.2 hx⟩
  obtain ⟨n, hn⟩ := WellFoundedGT.monotone_chain_condition chain
  refine ⟨n, fun i hi x hx => ?_⟩
  have heq : chain (i + 1) = chain i := (hn (i + 1) (by omega)).symm.trans (hn i hi)
  exact Set.ext_iff.1 heq ⟨x, hx⟩

namespace Setting

open Discovery

variable {σ : Type} {setting : Setting σ} {ws : Workspace} {entry : Url} {site s s' : Site σ}
  {g g' : Graph} {i j k n : Nat} {id : DeclarationId} {readable : List (Url × String)}
  {stock : σ → Set Reference}

/-! ## The end of linking -/

section End

variable (hst : setting.Stocked site.world stock) (hread : setting.Reads site.world readable)

include hread

theorem Round.exists_next (h : setting.Round ws entry site i g s)
    (hp : g.pending.isEmpty = false) : ∃ g' s', setting.Round ws entry site (i + 1) g' s' := by
  have hfiles := h.mem_sources hread
  have hrestore := Routes.restore_restores setting.routes s g.pendingDeclarations
  obtain ⟨batch, hgrown, -⟩ := hrestore.fetched
  have hlater' := h.later.trans ⟨batch, hgrown⟩
  obtain ⟨⟨result, s'⟩, hb⟩ : ∃ r, setting.rebuild ((sources ws readable).map (·.uri)).length
      (setting.routes.restore s g.pendingDeclarations).2 ws g
      (setting.routes.restore s g.pendingDeclarations).1 = some r := by
    refine exists_buildWith ((sources ws readable).map (·.uri)) (fun u hu => ?_) (Nat.le_refl _)
    obtain ⟨f, hf⟩ := hu.fetch
    exact List.mem_map.2 ⟨f, mem_sources_of_fetch hread hlater' hfiles hf, uri_of_fetch hf⟩
  cases result with
  | error e => exact absurd hb h.rebuild_ne_error
  | ok g' => exact ⟨g', s', h.next hp hb⟩

theorem exists_build : ∃ n r, setting.build n site ws entry = some r := by
  refine ⟨_, exists_buildWith ((sources ws readable).map (·.uri))
    (fun u hu => ?_) (Nat.le_refl _)⟩
  obtain ⟨f, hf⟩ := hu.fetch
  refine List.mem_map.2 ⟨f, mem_sources_of_fetch hread .refl (fun u f hf => ?_) hf,
    uri_of_fetch hf⟩
  rw [Prior.none, FileMap.getElem?_empty] at hf
  cases hf

/-- When linking never comes to an end, there are rounds for ever. -/
theorem exists_rounds (hnever : ¬ ∃ n r, setting.link n site ws entry = some r) :
    ∃ rounds : Nat → Graph × Site σ,
      (∀ i, setting.Round ws entry site i (rounds i).1 (rounds i).2) ∧
        ∀ i, (rounds i).1.pending.isEmpty = false := by
  rw [exists_link_iff] at hnever
  obtain ⟨hbuild, hround⟩ := not_or.1 hnever
  have hpending : ∀ i g s, setting.Round ws entry site i g s →
      g.pending.isEmpty = false := fun i g s h =>
    Bool.eq_false_iff.2 fun hempty => hround ⟨i, g, s, h, hempty⟩
  have hexists : ∀ i, ∃ gs : Graph × Site σ, setting.Round ws entry site i gs.1 gs.2 := by
    intro i
    induction i with
    | zero =>
      obtain ⟨n, ⟨result, s⟩, hb⟩ : ∃ n r, setting.build n site ws entry = some r :=
        exists_build hread
      cases result with
      | error e => exact absurd ⟨n, e, s, hb⟩ hbuild
      | ok g => exact ⟨(g, s), .first hb⟩
    | succ i ih =>
      obtain ⟨⟨g, s⟩, h⟩ := ih
      obtain ⟨g', s', h'⟩ := h.exists_next hread (hpending i g s h)
      exact ⟨(g', s'), h'⟩
  obtain ⟨rounds, hrounds⟩ := Classical.axiomOfChoice hexists
  exact ⟨rounds, hrounds, fun i => hpending i _ _ (hrounds i)⟩

include hst

variable {rounds : Nat → Graph × Site σ}
  (hrounds : ∀ i, setting.Round ws entry site i (rounds i).1 (rounds i).2)

include hrounds

/-- From some round on, all rounds are steady. -/
theorem exists_steady : ∃ n, ∀ i, n ≤ i →
    Steady stock (setting.references site.ledger ws readable) (rounds i).2 (rounds (i + 1)).2 := by
  obtain ⟨n₁, hstock⟩ := exists_constant
    (spellings (setting.references site.ledger ws readable))
    (fun i r => r ∈ stock (rounds i).2.world)
    fun i _ _ hx => ((hrounds i).stock_next hst hread (hrounds (i + 1))).1 hx
  obtain ⟨n₂, hfailure⟩ := exists_constant (setting.references site.ledger ws readable)
    (fun i r => ∃ f, (rounds i).2.ledger.failure? r = some f)
    fun i _ _ ⟨f, hf⟩ => ⟨f, (hrounds i).failure?_next (hrounds (i + 1)) hf⟩
  refine ⟨max n₁ n₂, fun i hi => ⟨?_, fun r hr => ?_⟩⟩
  · obtain ⟨hkeeps, hadds⟩ := (hrounds i).stock_next hst hread (hrounds (i + 1))
    refine Set.Subset.antisymm (fun x hx => ?_) hkeeps
    rcases hadds x hx with hx' | hknown
    · exact hx'
    · exact (hstock i (by omega) x hknown).1 hx
  · cases hf : (rounds i).2.ledger.failure? r with
    | some f => exact (hrounds i).failure?_next (hrounds (i + 1)) hf
    | none =>
      rw [Option.eq_none_iff_forall_ne_some]
      intro f hf'
      obtain ⟨f', hf''⟩ := (hfailure i (by omega) r hr).1 ⟨f, hf'⟩
      rw [hf] at hf''
      cases hf''

/-- From some round on, all rounds have the same files. -/
theorem exists_same_files : ∃ n, ∀ i, n ≤ i →
    Steady stock (setting.references site.ledger ws readable) (rounds i).2 (rounds (i + 1)).2 ∧
      (rounds (i + 1)).1.files = (rounds i).1.files := by
  obtain ⟨n, hsteady⟩ := exists_steady hst hread hrounds
  have hnext : ∀ i, n ≤ i → ∀ (u : Url) f, (rounds i).1.files[u]? = some f →
      (rounds (i + 1)).1.files[u]? = some f := fun i hi u f =>
    (hrounds i).files_next hst hread (hrounds (i + 1)) (hsteady i hi)
  obtain ⟨m, hm⟩ := exists_constant (sources ws readable)
    (fun i f => ∃ u : Url, (rounds (n + i)).1.files[u]? = some f)
    fun i f _ ⟨u, hu⟩ => ⟨u, hnext (n + i) (by omega) u f hu⟩
  refine ⟨n + m, fun i hi => ⟨hsteady i (by omega), ?_⟩⟩
  refine FileMap.ext fun u => Option.ext fun f => ⟨fun hu => ?_, hnext i (by omega) u f⟩
  have hsource := (hrounds (i + 1)).mem_sources hread u f hu
  obtain ⟨k, rfl⟩ : ∃ k, i = n + k := ⟨i - n, by omega⟩
  obtain ⟨v, hv⟩ := (hm k (by omega) f hsource).1 ⟨u, hu⟩
  rwa [← FileMap.uri_of_getElem? hu, FileMap.uri_of_getElem? hv]

/-- From some round on, the same declarations are missing. -/
theorem exists_same_missing : ∃ n, ∀ i, n ≤ i → ∀ id,
    (setting.Missing (rounds i).1 (rounds i).2 id ↔
      setting.Missing (rounds n).1 (rounds n).2 id) := by
  obtain ⟨n, hn⟩ := exists_same_files hst hread hrounds
  refine ⟨n, fun i hi id => ?_⟩
  induction i, hi using Nat.le_induction with
  | base => exact Iff.rfl
  | succ i hi ih =>
    rw [← ih]
    exact (hrounds i).missing_next_iff hst hread (hrounds (i + 1)) (hn i hi).1 (hn i hi).2

end End

/-- What is missing from a round on is missing from a first such round on. -/
theorem exists_lasting (hround : ∀ i, i ≤ n → ∃ g s, setting.Round ws entry site i g s)
    (h : ∀ j g s, n ≤ j → setting.Round ws entry site j g s → setting.Missing g s id) :
    ∃ i, i ≤ n ∧ setting.Lasting ws entry site i id := by
  induction n with
  | zero => exact ⟨0, Nat.le_refl 0, hround 0 (Nat.le_refl 0), h, by omega⟩
  | succ n ih =>
    obtain ⟨g, s, hn⟩ := hround n (Nat.le_succ n)
    by_cases hmissing : setting.Missing g s id
    · obtain ⟨i, hi, hlast⟩ := ih (fun i hi => hround i (by omega)) fun j g' s' hj hr => by
        rcases Nat.eq_or_lt_of_le hj with rfl | hj
        · obtain ⟨rfl, rfl⟩ := hn.unique hr
          exact hmissing
        · exact h j g' s' hj hr
      exact ⟨i, Nat.le_succ_of_le hi, hlast⟩
    · refine ⟨n + 1, Nat.le_refl _, hround _ (Nat.le_refl _), h, fun k g' s' hk hr => ?_⟩
      obtain rfl := Nat.succ.inj hk
      obtain ⟨rfl, rfl⟩ := hn.unique hr
      exact hmissing

/-- When there is always something pending, two declarations stay missing that were
found at rounds of different parity. -/
theorem exists_two_lasting (hst : setting.Stocked site.world stock)
    (hread : setting.Reads site.world readable) {rounds : Nat → Graph × Site σ}
    (hrounds : ∀ i, setting.Round ws entry site i (rounds i).1 (rounds i).2)
    (hp : ∀ i, (rounds i).1.pending.isEmpty = false) :
    ∃ i j id id', setting.Lasting ws entry site i id ∧ setting.Lasting ws entry site j id' ∧
      i % 2 ≠ j % 2 := by
  obtain ⟨n, hn⟩ := exists_same_missing hst hread hrounds
  have hlasting : ∀ id, setting.Missing (rounds n).1 (rounds n).2 id →
      ∃ i, i ≤ n ∧ setting.Lasting ws entry site i id := by
    intro id hmissing
    refine exists_lasting (fun i _ => ⟨_, _, hrounds i⟩) fun j g s hj hr => ?_
    obtain ⟨rfl, rfl⟩ := (hrounds j).unique hr
    exact (hn j hj id).2 hmissing
  obtain ⟨id, hid⟩ := isEmpty_pending_iff.1 (hp n)
  obtain ⟨id', hid'⟩ := isEmpty_pending_iff.1 (hp (n + 1))
  obtain ⟨hmissing', hnot⟩ := ((hrounds n).isPending_next_iff (hrounds (n + 1))).1 hid'
  obtain ⟨i, hi, hlast⟩ := hlasting id ((hrounds n).missing_of_isPending hid)
  obtain ⟨j, hj, hlast'⟩ := hlasting id' ((hn (n + 1) (Nat.le_succ n) id').1 hmissing')
  refine ⟨i, j, id, id', hlast, hlast', fun hpar => ?_⟩
  -- one of them is pending in this round and the other one is not
  have heven := (hlast.isPending_iff hi (hrounds n)).1 hid
  have hodd := (hlast'.isPending_iff hj (hrounds n)).2 (heven.trans hpar)
  rw [hodd] at hnot
  cases hnot

/-- Two such declarations keep linking from coming to an end. -/
theorem not_exists_link_of_two {id' : DeclarationId}
    (hi : setting.Lasting ws entry site i id) (hj : setting.Lasting ws entry site j id')
    (hne : i % 2 ≠ j % 2) : ¬ ∃ n r, setting.link n site ws entry = some r := by
  rw [exists_link_iff]
  rintro (⟨m, e, s, hb⟩ | ⟨k, g, s, hround, hempty⟩)
  · obtain ⟨g₁, s₁, hround⟩ := hi.round
    obtain ⟨g, s', hfirst⟩ := hround.exists_of_le (Nat.zero_le i)
    cases hfirst with
    | first hb' => cases buildWith_unique hb hb'
  · rw [hround.pending_of_lasting hi hj hne] at hempty
    cases hempty

/-- Without two such declarations, linking comes to an end. -/
theorem exists_link_of_no_two (hst : setting.Stocked site.world stock)
    (hread : setting.Reads site.world readable)
    (hno : ¬ ∃ i j id id', setting.Lasting ws entry site i id ∧
      setting.Lasting ws entry site j id' ∧ i % 2 ≠ j % 2) :
    ∃ n r, setting.link n site ws entry = some r := by
  by_contra hnever
  obtain ⟨rounds, hrounds, hpending⟩ := exists_rounds hread hnever
  exact hno (exists_two_lasting hst hread hrounds hpending)

/-- Linking comes to an end, with nothing pending, unless two declarations stay
missing that were found at rounds of different parity. -/
theorem exists_link_iff_no_two (hst : setting.Stocked site.world stock)
    (hread : setting.Reads site.world readable) :
    (∃ n r, setting.link n site ws entry = some r ∧
        ∀ g s, r = (.ok g, s) → g.pending.isEmpty = true) ↔
      ¬ ∃ i j id id', setting.Lasting ws entry site i id ∧
        setting.Lasting ws entry site j id' ∧ i % 2 ≠ j % 2 := by
  constructor
  · rintro ⟨n, r, hlink, -⟩ ⟨i, j, id, id', hi, hj, hne⟩
    exact not_exists_link_of_two hi hj hne ⟨n, r, hlink⟩
  · intro hno
    obtain ⟨n, r, hlink⟩ := exists_link_of_no_two hst hread hno
    refine ⟨n, r, hlink, fun g s hr => ?_⟩
    rw [hr] at hlink
    exact isEmpty_pending_of_link hlink

end Setting

/-! ## A module that no restore brings -/

namespace Sample

open Setting

/-- What has been made available: the second module, once it is there. -/
def stock (stocked : Bool) : Set Reference :=
  { r | stocked = true ∧ r = whole }

theorem stocked : setting.Stocked site.world stock where
  answers w w' _ _ h := by
    have hw : w = true ↔ w' = true := by
      have := Set.ext_iff.1 h whole
      simpa [stock] using this
    obtain rfl : w = w' := Bool.eq_iff_iff.2 hw
    exact ⟨fun _ => rfl, fun _ _ _ _ => rfl, fun _ _ _ _ _ => rfl⟩
  keeps w s registry rs _ h := by
    rintro r ⟨hw, hr⟩
    obtain rfl := eq_shelf h
    exact ⟨by simp [shelf, hw], hr⟩
  adds w s registry rs _ h := by
    rintro r ⟨hw, rfl⟩
    obtain rfl := eq_shelf h
    rcases Bool.or_eq_true_iff.1 hw with hw | hrs
    · exact .inl ⟨hw, rfl⟩
    · exact .inr ⟨whole, by simpa using hrs, .inl rfl⟩

/-- The texts that can be read. -/
def readable : List (Url × String) := [(main, mainText), (part, partText)]

theorem reads : setting.Reads site.world readable := by
  intro w _ u text h
  dsimp only [setting] at h
  split at h
  · next hu => cases h; simp [readable, hu]
  · split at h
    · next hu => cases h; simp [readable, hu]
    · cases h

variable {g : Graph} {s : Site Bool} {i : Nat} {d : Declaration} {f : SourceFile}

theorem eq_of_uri_eq : ∀ f ∈ sources ∅ readable, ∀ f' ∈ sources ∅ readable,
    f.uri = f'.uri → f = f' := by
  have hsources : sources ∅ readable = [.parse main mainText, .parse part partText] := rfl
  have hne : main ≠ part := by decide
  intro f hf f' hf' h
  simp only [hsources, List.mem_cons, List.not_mem_nil, or_false] at hf hf'
  rcases hf with rfl | rfl <;> rcases hf' with rfl | rfl
  · rfl
  · exact absurd h hne
  · exact absurd h.symm hne
  · rfl

theorem failure?_of_round (h : setting.Round ∅ main site i g s) (r : Reference) :
    s.ledger.failure? r = none := by
  rw [Option.eq_none_iff_forall_ne_some]
  intro f hf
  rcases h.failed hf with hf | ⟨_, registry, w, rs, hreg, p, hp, -⟩
  · cases hf
  · obtain rfl := eq_shelf hreg
    cases hp

theorem status_of_round {r : Reference} (h : setting.Round ∅ main site i g s)
    (hd : g.declaration? d.id = some d) (hr : setting.routes.read d = .ok r)
    (hscheme : r.scheme = .nuget) : setting.routes.statusIn s.world s.ledger d =
      if shelf.restoreRequired s.world r then .needsRestore r else .available := by
  have hreg : setting.routes.registry? r.scheme = some shelf := by rw [hscheme]; rfl
  rw [Routes.statusIn, h.referenceIn_eq_read reads rfl eq_of_uri_eq hd, hr]
  dsimp only
  rw [Routes.statusOf, failure?_of_round h, hreg]

theorem locate_of_round {r : Reference} (h : setting.Round ∅ main site i g s)
    (hd : g.declaration? d.id = some d) (hr : setting.routes.read d = .ok r)
    (hscheme : r.scheme = .nuget) (parent : Url) :
    setting.routes.locateIn s.world s.ledger parent d = .ok part := by
  have hreg : setting.routes.registry? r.scheme = some shelf := by rw [hscheme]; rfl
  rw [Routes.locateIn, h.referenceIn_eq_read reads rfl eq_of_uri_eq hd, hr]
  dsimp only
  rw [Routes.locateOf, failure?_of_round h, hreg]
  rfl

/-- The first module is missing wherever it is declared. -/
theorem missing_of_hollow (h : setting.Round ∅ main site i g s)
    (hd : g.declaration? d.id = some d) (hr : setting.routes.read d = .ok hollow) :
    setting.Missing g s d.id := by
  refine ⟨d, hollow, hd, ?_⟩
  have hrequired : shelf.restoreRequired s.world hollow = true := by cases s.world <;> rfl
  rw [Routes.status_fst, status_of_round h hd hr rfl, if_pos hrequired]

theorem main_of_round (h : setting.Round ∅ main site i g s) :
    g.files[main]? = some (.parse main mainText) := by
  obtain ⟨prior, l, hfound⟩ := h.found
  obtain ⟨f, hf⟩ := hfound.entry_file
  have hmem := h.mem_sources reads main f hf
  rw [hf, eq_of_uri_eq f hmem (.parse main mainText) (List.mem_cons_self ..)
    (FileMap.uri_of_getElem? hf)]

/-- After the first round the second module is there. -/
theorem world_of_round (h : setting.Round ∅ main site (i + 1) g s) : s.world = true := by
  induction i generalizing g s with
  | zero =>
    obtain ⟨g₀, s₀, hb, -, -, hworld⟩ := exists_build
    rw [(Round.restored_next (.first hb) h).2.2, hworld]
  | succ i ih =>
    obtain ⟨g₀, s₀, h₀⟩ := h.exists_of_le (Nat.le_succ (i + 1))
    have hkeeps := (h₀.stock_next stocked reads h).1
    exact (hkeeps (show whole ∈ stock s₀.world from ⟨ih h₀, rfl⟩)).1

theorem exists_declaration (u : Url) (text : String) (r : Reference)
    (h : .ok r ∈ (SourceFile.parse u text).declarations.map setting.routes.read) :
    ∃ d ∈ (SourceFile.parse u text).declarations, setting.routes.read d = .ok r := by
  obtain ⟨d, hd, hr⟩ := List.mem_map.1 h
  exact ⟨d, hd, hr⟩

/-- So its file is part of the graph. -/
theorem part_of_round (h : setting.Round ∅ main site (i + 1) g s) :
    g.files[part]? = some (.parse part partText) := by
  obtain ⟨g₀, s₀, h₀⟩ := h.exists_of_le (Nat.le_succ i)
  obtain ⟨-, reported, s₁, -, hfound, -⟩ := h₀.found_next h
  obtain ⟨d, hmem, hr⟩ := exists_declaration main mainText whole (by decide +kernel)
  have hd := Graph.declaration?_of_mem (main_of_round h) hmem
  have hunchanged := hfound.unchanged hd
  have hstatus := status_of_round h hd hr rfl
  rw [world_of_round h, if_neg (by decide), ← world_of_round h] at hstatus
  have hfetch : ∃ f, Discovery.Context.fetch ⟨setting, s.world, ∅, .ofGraph g₀ reported⟩ part =
      .ok f := by
    rw [Discovery.Context.fetch]
    dsimp only [Prior.ofGraph]
    rw [FileMap.getElem?_empty]
    cases g₀.files[part]? with
    | some f => exact ⟨f, rfl⟩
    | none => exact ⟨.parse part partText, rfl⟩
  have hreached := (hfound.files_iff.1 (main_of_round h))
  have hpart := Discovery.Reached.step hreached.1 hreached.2 hmem
    (Discovery.verdict_eq_resolved_iff.2 ⟨hunchanged.status.trans hstatus,
      (hunchanged.locate _).trans (locate_of_round h hd hr rfl _), hfetch⟩)
  obtain ⟨f, hf⟩ := hfetch
  have hfile := hfound.files_iff.2 ⟨hpart, hf⟩
  rw [hfile, eq_of_uri_eq f (h.mem_sources reads part f hfile) (.parse part partText)
    (List.mem_cons_of_mem _ (List.mem_cons_self ..)) (FileMap.uri_of_getElem? hfile)]

/-- The first module is missing in the entry file from the beginning, -/
theorem exists_lasting_main : ∃ id, setting.Lasting ∅ main site 0 id := by
  obtain ⟨g, s, hb, -⟩ := exists_build
  obtain ⟨d, hmem, hr⟩ := exists_declaration main mainText hollow (by decide +kernel)
  refine ⟨d.id, ⟨g, s, .first hb⟩, fun j g s _ h => ?_, by omega⟩
  exact missing_of_hollow h (Graph.declaration?_of_mem (main_of_round h) hmem) hr

/-- and in the file of the second module from the next round on. -/
theorem exists_lasting_part : ∃ id, setting.Lasting ∅ main site 1 id := by
  obtain ⟨g, s, hb, hsize, hkeys, -⟩ := exists_build
  have hfirst : setting.Round ∅ main site 0 g s := .first hb
  obtain ⟨d, hmem, hr⟩ := exists_declaration part partText hollow (by decide +kernel)
  refine ⟨d.id, ?_, fun j g s hj h => ?_, fun k g' s' hk h => ?_⟩
  · exact hfirst.exists_next reads (by rw [Std.ExtTreeSet.isEmpty_eq_size_beq_zero, hsize]; rfl)
  · obtain ⟨k, rfl⟩ : ∃ k, j = k + 1 := ⟨j - 1, by omega⟩
    exact missing_of_hollow h (Graph.declaration?_of_mem (part_of_round h) hmem) hr
  · obtain rfl := Nat.succ.inj hk
    obtain ⟨rfl, rfl⟩ := hfirst.unique h
    rintro ⟨d', r, hd', -⟩
    obtain ⟨f, hf, -⟩ := Option.bind_eq_some_iff.1 hd'
    rw [SourceFile.id_uri_of_mem hmem] at hf
    have hpart : part ∈ g.files.keys := FileMap.mem_keys_iff.2 ⟨f, hf⟩
    rw [hkeys] at hpart
    revert hpart
    decide

/-- In the small setting linking never comes to an end, though there are two files
to be read and one registry, which goes by what it has made available. -/
theorem not_exists_link :
    setting.Stocked site.world stock ∧ setting.Reads site.world readable ∧
      ¬ ∃ n r, setting.link n site ∅ main = some r := by
  obtain ⟨id, hmain⟩ := exists_lasting_main
  obtain ⟨id', hpart⟩ := exists_lasting_part
  exact ⟨stocked, reads, not_exists_link_of_two hmain hpart (by decide)⟩

/-- With the file of the second module as the entry file, linking comes to an end: only one
declaration stays missing. -/
theorem exists_link_iff_part : setting.Stocked site.world stock ∧
    setting.Reads site.world readable ∧
      ((∃ n r, setting.link n site ∅ part = some r ∧
          ∀ g s, r = (.ok g, s) → g.pending.isEmpty = true) ↔
        ¬ ∃ i j id id', setting.Lasting ∅ part site i id ∧
          setting.Lasting ∅ part site j id' ∧ i % 2 ≠ j % 2) ∧
      (∃ g s, setting.link 2 site ∅ part = some (.ok g, s) ∧
        g.failures.values = [.restoreOutcomeMissing "nuget:a@1"]) ∧
      ¬ ∃ i j id id', setting.Lasting ∅ part site i id ∧
        setting.Lasting ∅ part site j id' ∧ i % 2 ≠ j % 2 := by
  have hexact : (∃ n r, setting.link n site ∅ part = some r ∧
      ∀ g s, r = (.ok g, s) → g.pending.isEmpty = true) ↔ _ :=
    exists_link_iff_no_two stocked reads
  have hfailures : (graph? (setting.link 2 site ∅ part)).map (·.failures.values) =
      some [.restoreOutcomeMissing "nuget:a@1"] := by
    decide +kernel
  obtain ⟨g, hg, hfailures⟩ := Option.map_eq_some_iff.1 hfailures
  obtain ⟨s, hlink⟩ := of_graph? hg
  refine ⟨stocked, reads, hexact, ⟨g, s, hlink, hfailures⟩, hexact.1 ⟨2, _, hlink, ?_⟩⟩
  rintro g' s' ⟨⟩
  exact isEmpty_pending_of_link hlink

end Sample

end ModuleGraph
