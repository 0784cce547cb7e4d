import Mathlib.Logic.Relation
import Mathlib.Order.Bounds.Defs
import ModuleGraph.Proofs.Agreement

/-!
# What a build finds, in whatever order it looks

The files of a graph are the least set of files that has the entry file and, with
each of its files, all that the available declarations of the file lead to.
Nothing in that speaks of an order, and indeed a build could take up the
declarations as it liked. `Looks` is a look at any declaration that is still to
be looked at. Going on with such looks comes to an end, whichever are chosen, and
when nothing is left to be looked at the graph is always the same one.

The order of a build, file by file, is one of these (`looks_explore`). That all of
them agree is due to `Progress`, which does not depend on the order in which the
declarations to be looked at are listed.
-/

namespace ModuleGraph

namespace Discovery

open Relation

variable {σ : Type} {c : Context σ} {s s' : Discovery} {l : Ledger} {entry : Url}
  {f : SourceFile} {d : Declaration} {done todo : List Declaration} {u : Url} {n : Nat}

/-! ## The least set of files -/

/-- The entry file is one of the files, and so is what an available declaration of
one of them leads to, when it can be loaded. -/
structure Closed (c : Context σ) (l : Ledger) (entry : Url) (files : Set Url) : Prop where
  entry : entry ∈ files
  leads : ∀ u ∈ files, ∀ f, c.fetch u = .ok f → ∀ d ∈ f.declarations,
    (c.setting.routes.status c.world l d).1 = .available →
      ∀ t, (c.setting.routes.locate c.world l u d).1 = .ok t →
        (∃ g, c.fetch t = .ok g) → t ∈ files

theorem closed_reached (hf : c.fetch entry = .ok f) :
    Closed c l entry {u | Reached c l entry u} where
  entry := .entry hf
  leads u hu f hf d hd hstatus t ht hg := by
    have huri : d.id.uri = u := (SourceFile.id_uri_of_mem hd).trans (uri_of_fetch hf)
    rw [Routes.status_fst] at hstatus
    rw [Routes.locate_fst, ← huri] at ht
    exact Reached.step hu hf hd (verdict_eq_resolved_iff.2 ⟨hstatus, ht, hg⟩)

theorem Closed.mem_of_reached {files : Set Url} (h : Closed c l entry files) {u : Url}
    (hu : Reached c l entry u) : u ∈ files := by
  induction hu with
  | entry => exact h.entry
  | @step u t f d _ hf hd ht ih =>
    have huri : d.id.uri = u := (SourceFile.id_uri_of_mem hd).trans (uri_of_fetch hf)
    obtain ⟨hstatus, hlocate, hg⟩ := verdict_eq_resolved_iff.1 ht
    rw [huri] at hlocate
    exact h.leads u ih f hf d hd ((Routes.status_fst ..).trans hstatus) t
      (Routes.locate_fst.trans hlocate) hg

theorem isLeast_reached (hf : c.fetch entry = .ok f) :
    IsLeast {files | Closed c l entry files} {u | Reached c l entry u} :=
  ⟨closed_reached hf, fun _ hfiles _ hu => hfiles.mem_of_reached hu⟩

/-! ## Looking in any order -/

/-- A look at some declaration that is still to be looked at, whichever it is. The
declarations of a file that it finds are to be looked at, too. -/
inductive Looks (c : Context σ) :
    List Declaration × Discovery → List Declaration × Discovery → Prop where
  | look {todo rest : List Declaration} {d : Declaration} {s : Discovery}
      (h : todo.Perm (d :: rest)) : Looks c (todo, s)
        ((evaluate c s d.id.uri d).1.toList.flatMap SourceFile.declarations ++ rest,
          (evaluate c s d.id.uri d).2)

/-- The entry file is loaded, and its declarations are to be looked at. -/
def begin? (c : Context σ) (l : Ledger) (entry : Url) : Option (List Declaration × Discovery) :=
  match load c (start l) entry with
  | (.ok f, s) => some (f.declarations, { s with files := s.files.put f })
  | (.error _, _) => none

theorem Progress.look {x : List Declaration × Discovery}
    (h : Progress c l entry done todo s) (hx : Looks c (todo, s) x) :
    ∃ d, Progress c l entry (d :: done) x.1 x.2 := by
  cases hx with
  | look hperm =>
    have h := h.perm hperm
    exact ⟨_, h.move (evaluate_looked h.sound h.fetched)⟩

theorem Progress.looks {x y : List Declaration × Discovery}
    (h : Progress c l entry done x.1 x.2) (hy : ReflTransGen (Looks c) x y) :
    ∃ done', Progress c l entry done' y.1 y.2 := by
  induction hy with
  | refl => exact ⟨done, h⟩
  | tail _ hlook ih =>
    obtain ⟨done', h'⟩ := ih
    obtain ⟨d, h''⟩ := h'.look hlook
    exact ⟨d :: done', h''⟩

/-- What is done was declared by files that can be reached, each declaration once. -/
theorem Progress.length_done_le {declared : List Declaration}
    (h : Progress c l entry done todo s)
    (hall : ∀ u, Reached c l entry u → ∀ f, c.fetch u = .ok f →
      ∀ d ∈ f.declarations, d ∈ declared) :
    done.length ≤ declared.length := by
  have hnodup : done.Nodup := by
    have hids := h.nodup
    rw [List.map_append] at hids
    exact hids.of_append_left.of_map _
  refine hnodup.length_le_of_subset fun d hd => ?_
  obtain ⟨f, hf, hmem⟩ := h.sources d (.inl hd)
  obtain ⟨hreached, hfetch⟩ := h.files d.id.uri f hf
  exact hall d.id.uri hreached f hfetch d hmem

/-- With finitely many declarations to be found, looking comes to an end in any order. -/
theorem Progress.acc {declared : List Declaration}
    (hall : ∀ u, Reached c l entry u → ∀ f, c.fetch u = .ok f → ∀ d ∈ f.declarations, d ∈ declared)
    (h : Progress c l entry done todo s) : Acc (fun y x => Looks c x y) (todo, s) := by
  -- every look adds to what is done, of which there is a bound
  obtain ⟨left, hleft⟩ : ∃ left, declared.length ≤ done.length + left :=
    ⟨declared.length, Nat.le_add_left ..⟩
  induction left generalizing done todo s with
  | zero =>
    refine ⟨_, fun x hx => ?_⟩
    obtain ⟨d, h'⟩ := h.look hx
    have hbound := h'.length_done_le hall
    rw [List.length_cons] at hbound
    omega
  | succ left ih =>
    refine ⟨_, fun x hx => ?_⟩
    obtain ⟨d, h'⟩ := h.look hx
    exact ih h' (by rw [List.length_cons]; omega)

/-- A survey has found finitely many declarations. -/
theorem Surveyed.mem_declared (h : Surveyed c l entry s) (hu : Reached c l entry u)
    (hf : c.fetch u = .ok f) (hd : d ∈ f.declarations) :
    d ∈ (s.files.keys.filterMap (s.files[·]?)).flatMap SourceFile.declarations := by
  have hfile := (h.files u f).2 ⟨hu, hf⟩
  exact List.mem_flatMap.2 ⟨f, List.mem_filterMap.2
    ⟨u, FileMap.mem_keys_iff.2 ⟨f, hfile⟩, hfile⟩, hd⟩

/-! ## The order of a build -/

/-- Looking at the declarations of a file one after the other is looking at declarations. -/
theorem looks_evaluateAll (parent : Url) (ds : List Declaration) (found rest : List SourceFile)
    (hparent : ∀ d ∈ ds, d.id.uri = parent)
    (hperm : todo.Perm (ds ++ (found ++ rest).flatMap SourceFile.declarations)) :
    ∃ todo', todo'.Perm
        (((evaluateAll c parent ds found s).1 ++ rest).flatMap SourceFile.declarations) ∧
      ReflTransGen (Looks c) (todo, s) (todo', (evaluateAll c parent ds found s).2) := by
  induction ds generalizing found s todo with
  | nil => exact ⟨todo, hperm, .refl⟩
  | cons d ds ih =>
    have hd : d.id.uri = parent := hparent d (List.mem_cons_self ..)
    have hlook : Looks c (todo, s) _ := .look hperm
    rw [hd] at hlook
    rw [evaluateAll]
    generalize evaluate c s parent d = step at hlook ⊢
    obtain ⟨new, s₁⟩ := step
    dsimp only at hlook ⊢
    have hnext : (new.toList.flatMap SourceFile.declarations ++
        (ds ++ (found ++ rest).flatMap SourceFile.declarations)).Perm
          (ds ++ ((new.toList ++ found) ++ rest).flatMap SourceFile.declarations) := by
      simp only [List.append_assoc, List.flatMap_append]
      exact List.perm_append_comm_assoc _ ds _
    obtain ⟨todo', htodo', hlooks⟩ := ih (new.toList ++ found)
      (fun e he => hparent e (List.mem_cons_of_mem d he)) hnext (s := s₁)
    exact ⟨todo', htodo', .head hlook hlooks⟩

theorem looks_explore {files : List SourceFile}
    (hperm : todo.Perm (files.flatMap SourceFile.declarations))
    (h : explore c n files s = some s') : ReflTransGen (Looks c) (todo, s) ([], s') := by
  induction n generalizing files s todo with
  | zero =>
    cases files with
    | nil =>
      obtain rfl := Option.some.inj h
      rw [hperm.eq_nil]
    | cons => cases h
  | succ n ih =>
    cases files with
    | nil =>
      obtain rfl := Option.some.inj h
      rw [hperm.eq_nil]
    | cons file rest =>
      obtain ⟨todo', htodo', hlooks⟩ := looks_evaluateAll file.uri file.declarations [] rest
        (fun d hd => SourceFile.id_uri_of_mem hd) hperm (c := c) (s := s)
      exact hlooks.trans (ih htodo' h)

theorem begin?_progress {x : List Declaration × Discovery} (h : begin? c l entry = some x) :
    Progress c l entry [] x.1 x.2 := by
  have hfst := load_fst (start_sound (c := c) (l := l)) (u := entry)
  have hk := load_keeps (c := c) (s := start l) (u := entry)
  have hfiles := files_load (c := c) (s := start l) (u := entry)
  rw [begin?] at h
  split at h
  · next f s hload =>
    cases h
    rw [hload] at hfst hk hfiles
    have hbegin := begin_progress hfst.symm hk hfiles
    rwa [List.flatMap_singleton] at hbegin
  · cases h

theorem looks_survey {r : Except BuildError Discovery × Ledger}
    (h : survey c n l entry = some r) (hr : r.1 = .ok s) :
    ∃ x, begin? c l entry = some x ∧ ReflTransGen (Looks c) x ([], s) ∧ r.2 = s.ledger := by
  rw [survey] at h
  split at h
  · cases h
    cases hr
  · next f s₀ hload =>
    obtain ⟨s₁, hs₁, hsome⟩ := Option.bind_eq_some_iff.1 h
    cases hsome
    cases hr
    refine ⟨_, by rw [begin?, hload], looks_explore ?_ hs₁, rfl⟩
    rw [List.flatMap_singleton]

/-- What has been looked at in some order is a survey, as that of a build is. -/
theorem Progress.graph_eq {x : List Declaration × Discovery} (h : Progress c l entry done x.1 x.2)
    (hs : ReflTransGen (Looks c) x ([], s)) (hs' : Surveyed c l entry s') :
    s.graph entry = s'.graph entry := by
  obtain ⟨done', hdone⟩ := h.looks hs
  have hentry := hs'.contains_iff.2 (hdone.surveyed.contains_iff.1 hdone.entry)
  exact Surveyed.Carries.graph_eq ⟨fun u f hf => ((hs'.files u f).1 hf).2, fun _ _ => rfl⟩ hs'
    hentry hdone.surveyed

end Discovery

namespace Setting

open Discovery Relation

variable {σ : Type} {setting : Setting σ} {n : Nat} {site site' : Site σ} {ws : Workspace}
  {prior : Prior} {entry : Url} {g : Graph}

/-- The files of a graph are the least set that has the entry file and what the available
declarations of its files lead to, each as it is open, as it was taken over, or as it is read. The
declarations may be looked at in any order. Looking comes to an end, and to this graph. -/
theorem isLeast_files (h : setting.buildWith n site ws prior entry = some (.ok g, site')) :
    IsLeast {files | Closed ⟨setting, site.world, ws, prior⟩ site.ledger entry files}
        {u | g.files.contains u = true} ∧
      (∀ (u : Url) f, g.files[u]? = some f →
        Context.fetch ⟨setting, site.world, ws, prior⟩ u = .ok f) ∧
      ∃ x, begin? ⟨setting, site.world, ws, prior⟩ site.ledger entry = some x ∧
        (∃ s, ReflTransGen (Looks ⟨setting, site.world, ws, prior⟩) x ([], s) ∧
          site'.ledger = s.ledger) ∧
        Acc (fun y x => Looks ⟨setting, site.world, ws, prior⟩ x y) x ∧
        (∀ y, ReflTransGen (Looks ⟨setting, site.world, ws, prior⟩) x y →
          y.1 = [] ∨ ∃ z, Looks ⟨setting, site.world, ws, prior⟩ y z) ∧
        ∀ s, ReflTransGen (Looks ⟨setting, site.world, ws, prior⟩) x ([], s) →
          s.graph entry = g := by
  rw [buildWith_eq] at h
  obtain ⟨⟨result, l⟩, hsurvey, heq⟩ := Option.map_eq_some_iff.1 h
  cases result with
  | error e => cases heq
  | ok s =>
    cases heq
    obtain ⟨x, hx, hlooks, hl⟩ := looks_survey hsurvey rfl
    have hbegin := begin?_progress hx
    cases survey_ends hsurvey with
    | surveyed hf hs =>
      have hfiles : {u | (s.graph entry).files.contains u = true} =
          {u | Reached ⟨setting, site.world, ws, prior⟩ site.ledger entry u} := by
        ext u
        exact hs.contains_iff
      refine ⟨hfiles ▸ isLeast_reached hf, fun u f hu => ((hs.files u f).1 hu).2, x, hx,
        ⟨s, hlooks, hl⟩, hbegin.acc (fun u hu f hf d => hs.mem_declared hu hf), ?_, fun s' hs' =>
          hbegin.graph_eq hs' hs⟩
      rintro ⟨todo, s'⟩ -
      cases todo with
      | nil => exact .inl rfl
      | cons d rest => exact .inr ⟨_, .look (.refl _)⟩

end Setting

namespace Sample

open Discovery

/-- The entry file without its declarations. -/
def bare : Workspace := FileMap.put ∅ (.parse main "")

/-- The part is a file of the graph until a rebuild finds that nothing leads to it. -/
theorem isLeast_files_bare : ∃ g site₁ g' site₂,
    setting.build 2 ⟨true, .empty⟩ ∅ main = some (.ok g, site₁) ∧
      g.files.keys = [main, part] ∧
      setting.rebuild 2 site₁ bare g ∅ = some (.ok g', site₂) ∧ g'.files.keys = [main] ∧
      IsLeast {files | Closed ⟨setting, site₁.world, bare, .ofGraph g ∅⟩ site₁.ledger g.entry
        files} {u | g'.files.contains u = true} := by
  have hcheck : ((setting.build 2 ⟨true, .empty⟩ ∅ main).any fun r =>
      r.1.toOption.any fun g => g.files.keys == [main, part] &&
        (setting.rebuild 2 r.2 bare g ∅).any fun r' =>
          r'.1.toOption.any (·.files.keys == [main])) = true := by decide +kernel
  obtain ⟨⟨_ | g, site₁⟩, hbuild, hcheck⟩ := (Option.any_eq_true _ _).1 hcheck
  · cases hcheck
  obtain ⟨hkeys, hcheck⟩ := (Bool.and_eq_true _ _).mp hcheck
  obtain ⟨⟨_ | g', site₂⟩, hrebuild, hkeys'⟩ := (Option.any_eq_true _ _).1 hcheck
  · cases hkeys'
  exact ⟨g, site₁, g', site₂, hbuild, beq_iff_eq.1 hkeys, hrebuild, beq_iff_eq.1 hkeys',
    (Setting.isLeast_files hrebuild).1⟩

end Sample

end ModuleGraph
