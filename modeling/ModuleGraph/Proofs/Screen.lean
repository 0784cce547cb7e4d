import ModuleGraph.Proofs.ServerRuns

/-!
# What the editor shows

An editor shows for a file whatever list was published for it last. A file is
often part of several graphs, and each of them publishes it when it is stored:
its diagnostics when the graph has the file, and an empty list when the graph
had the file before and has it no longer.

The second kind is what goes wrong. `store` looks at the previous graph of its
own document only, so that one document that stops reaching a file wipes what
the others have to say of it (`wiped_part`). Closing a document does ask the
other graphs, but leaves them unheard when the closed document spoke last.

Nothing else goes wrong, in any run: what is shown for a file that some graph
has is what such a graph says of it, unless a document stopped reaching the file
in a step after which nothing was published for it (`told_or_dropped`). One step
is taken apart by what it publishes for the file. An invariant over the documents
still to do carries this through a handler, and one over runs does the rest.
-/

namespace ModuleGraph

/-- The last list for a file. -/
def Publication.shown (p : Publication) (file : Url) : Option (List EditorDiagnostic) :=
  p.reverse.lookup file

/-- The diagnostics of a file of the graph as an editor shows them. -/
def Graph.inEditor (g : Graph) (file : Url) : List EditorDiagnostic :=
  (g.diagnosticsFor file).map (·.inEditor ((g.files[file]?.map SourceFile.text).getD ""))

namespace Publication

variable {p q : Publication} {file : Url} {files : List Url}
  {lists : Url → List EditorDiagnostic}

theorem shown_append : shown (p ++ q) file = (shown q file).or (shown p file) := by
  rw [shown, List.reverse_append, List.lookup_append]
  rfl

theorem shown_append_of_none (h : shown q file = none) : shown (p ++ q) file = shown p file := by
  rw [shown_append, h, Option.none_or]

theorem shown_append_of_some {list : List EditorDiagnostic} (h : shown q file = some list) :
    shown (p ++ q) file = some list := by
  rw [shown_append, h, Option.some_or]

/-- A list for each of some files is shown for just these. -/
theorem shown_map : shown (files.map fun u => (u, lists u)) file =
    if file ∈ files then some (lists file) else none := by
  induction files with
  | nil => rfl
  | cons u files ih =>
    have hcons : (u :: files).map (fun u => (u, lists u)) =
        [(u, lists u)] ++ files.map fun u => (u, lists u) := rfl
    rw [hcons, shown_append, ih]
    by_cases hmem : file ∈ files
    · simp [hmem]
    · by_cases hu : file = u
      · subst hu
        simp [hmem, shown]
      · have hb : (file == u) = false := by simpa using hu
        simp [hmem, hu, shown, List.lookup_cons, hb]

end Publication

namespace Server

open Publication

variable {σ : Type} {c : Config σ} {site : Site σ} {s s' x y : Server σ} {e uri file : Url}
  {text : String} {g previous : Graph} {prior : Prior} {published before : Publication}
  {todo : List Url} {graphs old new : Std.ExtTreeMap Url Graph} {list : List EditorDiagnostic}

/-! ## Storing one graph -/

theorem shown_publicationOf : shown (publicationOf g) file =
    if g.files.contains file = true then some (g.inEditor file) else none := by
  have hlists : publicationOf g = g.files.keys.map fun u => (u, g.inEditor u) := by
    rw [publicationOf, Graph.diagnostics, List.map_map]
    rfl
  rw [hlists, shown_map]
  exact if_congr (FileMap.mem_keys_iff.trans FileMap.contains_iff.symm) rfl rfl

theorem shown_cleared {isReached : Url → Bool} : shown (cleared previous isReached) file =
    if previous.files.contains file = true ∧ isReached file = false then some [] else none := by
  rw [cleared, shown_map]
  refine if_congr (List.mem_filter.trans (and_congr ?_ (by simp))) rfl rfl
  exact FileMap.mem_keys_iff.trans FileMap.contains_iff.symm

/-- The document's graph has the file. -/
def Reaches (graphs : Std.ExtTreeMap Url Graph) (e file : Url) : Prop :=
  ∃ g, graphs[e]? = some g ∧ g.files.contains file = true

theorem not_reaches_of_none (h : graphs[e]? = none) : ¬ Reaches graphs e file := by
  rintro ⟨g, hg, -⟩
  rw [h] at hg
  cases hg

theorem reaches_iff (h : graphs[e]? = some g) :
    Reaches graphs e file ↔ g.files.contains file = true := by
  refine ⟨?_, fun hfile => ⟨g, h, hfile⟩⟩
  rintro ⟨g', hg', hfile⟩
  rw [h] at hg'
  obtain rfl := Option.some.inj hg'
  exact hfile

theorem shown_getD_cleared {isReached : Url → Bool} (hold : Reaches graphs e file)
    (hnew : isReached file = false) :
    shown ((graphs[e]?.map (cleared · isReached)).getD []) file = some [] := by
  obtain ⟨previous, hprevious, hfile⟩ := hold
  rw [hprevious, Option.map_some, Option.getD_some, shown_cleared, if_pos ⟨hfile, hnew⟩]

theorem shown_getD_cleared_none {isReached : Url → Bool}
    (h : Reaches graphs e file → isReached file = true) :
    shown ((graphs[e]?.map (cleared · isReached)).getD []) file = none := by
  cases hprevious : graphs[e]? with
  | none => rfl
  | some previous =>
    rw [Option.map_some, Option.getD_some, shown_cleared, if_neg]
    rintro ⟨hfile, hnew⟩
    rw [h ⟨previous, hprevious, hfile⟩] at hnew
    cases hnew

/-- What storing a graph publishes for a file: what the graph says, or an empty list when only
the document's previous graph had it, or nothing when neither has. -/
theorem shown_store (s : Server σ) (e : Url) (g : Graph) (file : Url) :
    (g.files.contains file = true ∧
      shown (s.store e (.ok g)).1 file = some (g.inEditor file)) ∨
    (g.files.contains file = false ∧ Reaches s.graphs e file ∧
      shown (s.store e (.ok g)).1 file = some []) ∨
    (g.files.contains file = false ∧ ¬ Reaches s.graphs e file ∧
      shown (s.store e (.ok g)).1 file = none) := by
  have hstore : (s.store e (.ok g)).1 = publicationOf g ++
      ((s.graphs[e]?).map (cleared · g.files.contains)).getD [] := rfl
  have hown : shown (publicationOf g) file =
      if g.files.contains file = true then some (g.inEditor file) else none := shown_publicationOf
  rw [hstore]
  by_cases hg : g.files.contains file = true
  · rw [if_pos hg] at hown
    exact .inl ⟨hg, (shown_append_of_none (shown_getD_cleared_none fun _ => hg)).trans hown⟩
  · have hg := Bool.eq_false_iff.2 hg
    by_cases hprevious : Reaches s.graphs e file
    · exact .inr (.inl ⟨hg, hprevious, shown_append_of_some (shown_getD_cleared hprevious hg)⟩)
    · rw [hg, if_neg Bool.false_ne_true] at hown
      refine .inr (.inr ⟨hg, hprevious, ?_⟩)
      exact (shown_append_of_none (shown_getD_cleared_none (absurd · hprevious))).trans hown

/-! ## Compiling several documents -/

/-- What was made of a file so far, while some documents have still to be compiled. -/
inductive Treats (todo : List Url) (old new : Std.ExtTreeMap Url Graph) (published : Publication)
    (file : Url) : Prop where
  /-- A graph with the file was stored, and spoke last. -/
  | told {e : Url} {g : Graph} (hdone : e ∉ todo) (hg : new[e]? = some g)
      (hfile : g.files.contains file = true) (h : shown published file = some (g.inEditor file))
  /-- A document that stopped reaching the file spoke last. -/
  | wiped {e : Url} (hdone : e ∉ todo) (hold : Reaches old e file)
      (hnew : ¬ Reaches new e file) (h : shown published file = some [])
  /-- The graphs with the file are those that there were. -/
  | quiet (hsame : ∀ (e : Url) g, g.files.contains file = true →
      (new[e]? = some g ↔ old[e]? = some g)) (h : shown published file = none)

theorem Treats.refl : Treats todo old old [] file :=
  .quiet (fun _ _ _ => Iff.rfl) rfl

theorem Treats.compile (h : Treats (e :: todo) old s.graphs before file)
    (hbuilt : Built c s e prior g s') (hfresh : e ∉ todo) (hold : s.graphs[e]? = old[e]?) :
    Treats todo old s'.graphs (before ++ (s.store e (.ok g)).1) file := by
  have hself : s'.graphs[e]? = some g := by rw [hbuilt.graphs, if_pos rfl]
  have hother {u : Url} (hu : u ∉ e :: todo) : s'.graphs[u]? = s.graphs[u]? := by
    rw [hbuilt.graphs, if_neg]
    rintro rfl
    exact hu (List.mem_cons_self ..)
  have hlater {u : Url} (hu : u ∉ e :: todo) : u ∉ todo := fun hmem =>
    hu (List.mem_cons_of_mem e hmem)
  rcases shown_store s e g file with ⟨hg, hshown⟩ | ⟨hg, hprevious, hshown⟩ |
    ⟨hg, hprevious, hshown⟩
  · exact .told hfresh hself hg (shown_append_of_some hshown)
  · refine .wiped hfresh ?_ ?_ (shown_append_of_some hshown)
    · rw [Reaches, ← hold]
      exact hprevious
    · rw [reaches_iff hself, hg]
      exact Bool.false_ne_true
  · -- nothing is said of the file, so that what was made of it before stands
    have hbefore : shown (before ++ (s.store e (.ok g)).1) file = shown before file :=
      shown_append_of_none hshown
    cases h with
    | @told u g' hdone hg' hfile h =>
      exact .told (hlater hdone) ((hother hdone).trans hg') hfile (hbefore.trans h)
    | @wiped u hdone hreached hnew h =>
      refine .wiped (hlater hdone) hreached ?_ (hbefore.trans h)
      rw [Reaches, hother hdone]
      exact hnew
    | quiet hsame h =>
      refine .quiet (fun u g' hfile => ?_) (hbefore.trans h)
      by_cases hu : e = u
      · subst hu
        refine iff_of_false (fun hg' => ?_) fun hg' => ?_
        · rw [hself] at hg'
          rw [← Option.some.inj hg', hg] at hfile
          cases hfile
        · rw [← hold] at hg'
          exact hprevious ⟨g', hg', hfile⟩
      · rw [hbuilt.graphs, if_neg hu]
        exact hsame u g' hfile

theorem treats_compileAll (hnodup : todo.Nodup)
    (hopen : ∀ e ∈ todo, s.workspace.contains e = true)
    (h : compileAll c todo s = some (published, s')) (file : Url) :
    Treats [] s.graphs s'.graphs published file := by
  have hrun := compileAll_run
    (P := fun todo before s' => todo.Nodup ∧ (∀ e ∈ todo, s'.graphs[e]? = s.graphs[e]?) ∧
      Treats todo s.graphs s'.graphs before file) [] ?_ hopen h
      ⟨hnodup, fun _ _ => rfl, .refl⟩
  · exact hrun.2.2
  · rintro todo e x g y before - hbuilt ⟨hnodup, huntouched, htreats⟩
    obtain ⟨hfresh, hnodup⟩ := List.nodup_cons.1 hnodup
    refine ⟨hnodup, fun u hu => ?_,
      htreats.compile hbuilt hfresh (huntouched e (List.mem_cons_self ..))⟩
    rw [hbuilt.graphs, if_neg]
    · exact huntouched u (List.mem_cons_of_mem e hu)
    · rintro rfl
      exact hfresh hu

/-! ## Steps -/

/-- What a step makes of a file. -/
inductive Treated (old new : Std.ExtTreeMap Url Graph) (published : Publication) (file : Url) :
    Prop where
  | told {e : Url} {g : Graph} (hg : new[e]? = some g) (hfile : g.files.contains file = true)
      (h : shown published file = some (g.inEditor file))
  /-- A document stopped reaching the file, and all that was published is that, or nothing when
  the document was closed. -/
  | dropped {e : Url} (hold : Reaches old e file) (hnew : ¬ Reaches new e file)
      (h : shown published file = some [] ∨ shown published file = none ∧ new[e]? = none)
  | quiet (hsame : ∀ (e : Url) g, g.files.contains file = true →
      (new[e]? = some g ↔ old[e]? = some g)) (h : shown published file = none)

theorem Treats.treated (h : Treats [] old new published file) :
    Treated old new published file := by
  cases h with
  | told _ hg hfile h => exact .told hg hfile h
  | wiped _ hold hnew h => exact .dropped hold hnew (.inl h)
  | quiet hsame h => exact .quiet hsame h

theorem workspace_compileAll (hopen : ∀ e ∈ todo, s.workspace.contains e = true)
    (h : compileAll c todo s = some (published, s')) : s'.workspace = s.workspace :=
  compileAll_run (P := fun _ _ s' => s'.workspace = s.workspace) []
    (fun _ hbuilt hs => hbuilt.workspace.trans hs) hopen h rfl

/-- Closing a document clears the files that no graph has any more. A file that others have is
left to what they have published. -/
theorem treated_closeDocument (ho : Orderly c [] x)
    (h : closeDocument c x uri = some (published, y)) (file : Url) :
    Treated x.graphs y.graphs published file := by
  obtain ⟨first, hcompile, rfl⟩ := closeDocument_published h
  have hopen := contains_of_affected_closed uri ho.opened
  have htreats := treats_compileAll nodup_affected hopen hcompile file
  have hold {e : Url} {g : Graph} (hg : (x.noteClosed uri).graphs[e]? = some g) :
      x.graphs[e]? = some g := (of_getElem?_noteClosed hg).2
  have hgone : y.graphs[uri]? = none := by
    have horderly := ho.noteClosed.more.compileAll hopen hcompile
    rw [Option.eq_none_iff_forall_ne_some]
    intro g hg
    have hclosed := horderly.opened uri g hg
    rw [workspace_compileAll hopen hcompile] at hclosed
    exact (contains_noteClosed.1 hclosed).1 rfl
  generalize (fun file => y.graphs.values.any (·.files.contains file)) = isReached
  by_cases hcleared : Reaches x.graphs uri file ∧ isReached file = false
  · exact .dropped hcleared.1 (not_reaches_of_none hgone)
      (.inl (shown_append_of_some (shown_getD_cleared hcleared.1 hcleared.2)))
  · have hothers (hreached : Reaches x.graphs uri file) : isReached file = true :=
      Bool.of_not_eq_false fun hnone => hcleared ⟨hreached, hnone⟩
    have hkept := shown_append_of_none (p := first) (shown_getD_cleared_none hothers)
    cases htreats with
    | told _ hg hfile h => exact .told hg hfile (hkept.trans h)
    | wiped _ hreached hnew h =>
      obtain ⟨g, hg, hfile⟩ := hreached
      exact .dropped ⟨g, hold hg, hfile⟩ hnew (.inl (hkept.trans h))
    | quiet hsame h =>
      by_cases hreached : Reaches x.graphs uri file
      · exact .dropped hreached (not_reaches_of_none hgone) (.inr ⟨hkept.trans h, hgone⟩)
      · refine .quiet (fun e g hfile => (hsame e g hfile).trans ?_) (hkept.trans h)
        rw [getElem?_noteClosed]
        split
        · next he =>
          subst he
          exact iff_of_false nofun fun hg => hreached ⟨g, hg, hfile⟩
        · exact Iff.rfl

theorem Emits.treated (h : Emits c x published y) (ho : Orderly c [] x) (file : Url) :
    Treated x.graphs y.graphs published file := by
  cases h with
  | @opens _ uri text _ h =>
    rw [openDocument_eq] at h
    have htreats := treats_compileAll nodup_affected
      (contains_of_affected_opened uri text ho.opened) h file
    exact htreats.treated
  | closes h => exact treated_closeDocument ho h file
  | works =>
    rw [(untouched_work c x).2]
    exact Treats.refl.treated
  | @refreshes _ document notices _ h =>
    rcases ho.refresh_built h with ⟨-, rfl, rfl⟩ | ⟨current, g, -, hbuilt, rfl⟩
    · exact Treats.refl.treated
    · have htreats : Treats [] x.graphs y.graphs ([] ++ (x.store document (.ok g)).1) file :=
        Treats.compile (s := { x with notices }) .refl hbuilt List.not_mem_nil rfl
      exact htreats.treated
  | turns world => exact Treats.refl.treated

/-! ## Runs -/

/-- In some step a document stopped reaching the file while another one still does. The file was
then published with an empty list, or not at all when the document was closed, and nothing was
published for it since. -/
def Dropped (c : Config σ) (site : Site σ) (s : Server σ) (all : Publication) (file : Url) :
    Prop :=
  ∃ before published after x y e u, Runs c (start site) before x ∧ Emits c x published y ∧
    Runs c y after s ∧ all = before ++ published ++ after ∧
    Reaches x.graphs e file ∧ ¬ Reaches y.graphs e file ∧ Reaches y.graphs u file ∧
    (shown published file = some [] ∨ shown published file = none ∧ y.graphs[e]? = none) ∧
    shown after file = none

/-- Whatever is shown for a file that some graph has is what such a graph says of it, unless a
document has dropped the file and it was not published again. -/
theorem told_or_dropped (h : Runs c (start site) published s) (hfile : Reaches s.graphs e file) :
    (∃ (e : Url) (g : Graph), s.graphs[e]? = some g ∧ g.files.contains file = true ∧
      shown published file = some (g.inEditor file)) ∨
    Dropped c site s published file := by
  induction h generalizing e with
  | refl =>
    obtain ⟨g, hg, -⟩ := hfile
    simp [start] at hg
  | @step x y before published hrun hemits ih =>
    cases hemits.treated (hrun.orderly (orderly_start site)) file with
    | told hg hcontains h => exact .inl ⟨_, _, hg, hcontains, shown_append_of_some h⟩
    | @dropped u hold hnew h =>
      refine .inr ⟨before, published, [], x, y, u, e, hrun, hemits, .refl, ?_, hold, hnew, hfile,
        h, rfl⟩
      rw [List.append_nil]
    | quiet hsame h =>
      have hbefore : shown (before ++ published) file = shown before file :=
        shown_append_of_none h
      obtain ⟨g, hg, hcontains⟩ := hfile
      rcases ih ⟨g, (hsame e g hcontains).1 hg, hcontains⟩ with
        ⟨u, g', hg', hcontains', htold⟩ | hdropped
      · exact .inl ⟨u, g', (hsame u g' hcontains').2 hg', hcontains', hbefore.trans htold⟩
      · obtain ⟨first, wiping, after, v, w, u, u', hv, hw, hafter, rfl, hold, hnew, hother,
          hwiped, hquiet⟩ := hdropped
        refine .inr ⟨first, wiping, after ++ published, v, w, u, u', hv, hw, hafter.step hemits,
          ?_, hold, hnew, hother, hwiped, (shown_append_of_none h).trans hquiet⟩
        rw [List.append_assoc _ after]

end Server

/-! ## A file that is wiped -/

namespace Sample

open Server

def other : Url := ⟨"file:///other.cfg"⟩

/-- Two documents are opened that both declare the module with an error in its file. -/
def shared : List (Url × String) :=
  [(main, "module b 'nuget:b@1'"), (other, "module b 'nuget:b@1'")]

/-- Then the first of them is edited and declares nothing any more. -/
def emptied : List (Url × String) :=
  shared ++ [(main, "")]

/-- With both documents open, the error is shown. -/
theorem told_or_dropped_part : ∃ published s, Runs config (start ⟨true, .empty⟩) published s ∧
    Reaches s.graphs main part ∧
    ((∃ (e : Url) (g : Graph), s.graphs[e]? = some g ∧ g.files.contains part = true ∧
      published.shown part = some (g.inEditor part)) ∨
    Dropped config ⟨true, .empty⟩ s published part) ∧
    ∃ g, s.graphs[main]? = some g ∧ published.shown part = some (g.inEditor part) ∧
      (g.inEditor part).map (·.code) = ["module-restore-required"] := by
  have hcheck : ((openAll config [] (start ⟨true, .empty⟩) shared).any fun r =>
      r.2.graphs[main]?.any fun g => g.files.contains part &&
        (r.1.shown part == some (g.inEditor part) &&
          (g.inEditor part).map (·.code) == ["module-restore-required"])) = true := by
    decide +kernel
  obtain ⟨⟨published, s⟩, hshared, hcheck⟩ := (Option.any_eq_true _ _).1 hcheck
  obtain ⟨g, hg, hcheck⟩ := (Option.any_eq_true _ _).1 hcheck
  simp only [Bool.and_eq_true, beq_iff_eq] at hcheck
  obtain ⟨hcontains, hshown, hcode⟩ := hcheck
  have hreaches : Reaches s.graphs main part := ⟨g, hg, hcontains⟩
  have hrun := Runs.refl.openAll hshared
  exact ⟨published, s, hrun, hreaches, told_or_dropped hrun hreaches, g, hg, hshown, hcode⟩

/-- After the edit it is shown no more, though the other document still has it. -/
theorem wiped_part : ∃ published s, Runs config (start ⟨true, .empty⟩) published s ∧
    Reaches s.graphs other part ∧ published.shown part = some [] ∧
    ∀ (e : Url) (g : Graph), s.graphs[e]? = some g → g.files.contains part = true →
      g.inEditor part ≠ [] := by
  have hcheck : ((openAll config [] (start ⟨true, .empty⟩) emptied).any fun r =>
      r.2.graphs[other]?.any fun g => g.files.contains part &&
        (r.1.shown part == some []) && r.2.graphs.toList.all fun p =>
          !p.2.files.contains part || !(p.2.inEditor part).isEmpty) = true := by decide +kernel
  obtain ⟨⟨published, s⟩, hemptied, hcheck⟩ := (Option.any_eq_true _ _).1 hcheck
  obtain ⟨g, hg, hcheck⟩ := (Option.any_eq_true _ _).1 hcheck
  simp only [Bool.and_eq_true, beq_iff_eq, List.all_eq_true] at hcheck
  obtain ⟨⟨hcontains, hshown⟩, hall⟩ := hcheck
  refine ⟨published, s, Runs.refl.openAll hemptied, ⟨g, hg, hcontains⟩, hshown, ?_⟩
  intro e g' hg' hpart hnil
  have hsome := hall (e, g') (Std.ExtTreeMap.mem_toList_iff_getElem?_eq_some.2 hg')
  simp [hpart, hnil] at hsome

end Sample

end ModuleGraph
