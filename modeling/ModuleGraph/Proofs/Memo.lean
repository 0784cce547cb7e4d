import ModuleGraph.Proofs.Operations
import ModuleGraph.Proofs.StatementLines

/-!
# The memo is never seen

References are written down by declaration ids, and an id says nothing of the path
that the reference was read from: it has the URL of a file, the digest of its text,
and a place among the declarations. So a memo can only be right if an id stands
for one path, over all the texts that a file ever has. It does as long as
digests tell these texts apart (`DigestsApart`), for a text has its
declarations in one order.

Then what is written down is what would be read anyway (`Ledger.Faithful`). Every
operation keeps it so, in whatever order they come, and no operation can tell a
site from the same site with an empty memo (`Site.bare`).
-/

namespace ModuleGraph

variable {σ : Type} {routes : Routes σ} {files : SourceFile → Prop} {f : SourceFile}
  {d e : Declaration} {ds : List Declaration} {l l' : Ledger} {site site' : Site σ} {parent : Url}
  {op : Operation σ} {ops : List (Operation σ)} {r : Reference} {p : Declaration → Prop}

/-! ## Ids -/

/-- The declaration is one of some file among these. -/
def DeclaredIn (files : SourceFile → Prop) (d : Declaration) : Prop :=
  ∃ f, files f ∧ d ∈ f.declarations

/-- Different texts of one URL have different digests. -/
def DigestsApart (files : SourceFile → Prop) : Prop :=
  ∀ f g, files f → files g → f.uri = g.uri → f.digest = g.digest → f.text = g.text

/-- An id stands for one declaration. -/
def Distinguished (p : Declaration → Prop) : Prop :=
  ∀ d e, p d → p e → d.id = e.id → d = e

theorem distinguished_of_digestsApart (h : DigestsApart files) :
    Distinguished (DeclaredIn files) := by
  rintro d e ⟨f, hf, hd⟩ ⟨g, hg, he⟩ hid
  have huri : f.uri = g.uri := by
    rw [← SourceFile.id_uri_of_mem hd, ← SourceFile.id_uri_of_mem he, hid]
  have hdigest : f.digest = g.digest := by
    rw [← SourceFile.id_digest_of_mem hd, ← SourceFile.id_digest_of_mem he, hid]
  -- one URL and one text make one file, and a file gives no id twice
  have hsame : f = g := by
    rw [f.eq_parse, g.eq_parse, huri, h f g hf hg huri hdigest]
  subst hsame
  exact SourceFile.eq_of_id_eq hd he hid

/-! ## What is written down -/

/-- Whatever is written down of such declarations is what their paths say. -/
def Ledger.Faithful (routes : Routes σ) (p : Declaration → Prop) (l : Ledger) : Prop :=
  ∀ d, p d → routes.referenceIn l d = routes.read d

theorem Ledger.faithful_empty : Ledger.empty.Faithful routes p :=
  fun _ _ => Routes.referenceIn_empty

theorem Ledger.Faithful.of_eq (h : l.Faithful routes p) (heq : l'.references = l.references) :
    l'.Faithful routes p := by
  intro d hd
  rw [← h d hd, Routes.referenceIn, Routes.referenceIn, heq]

theorem Ledger.Faithful.of_writes (h : l.Faithful routes p) (hp : Distinguished p)
    (hwrites : l.Writes routes p l') : l'.Faithful routes p := by
  intro d hd
  rcases hwrites d.id with heq | ⟨-, e, he, hid, hnew⟩
  · rw [← h d hd, Routes.referenceIn, Routes.referenceIn, heq]
  · rw [Routes.referenceIn, hnew, hp e d he hd hid]
    rfl

theorem Ledger.Faithful.forget (h : l.Faithful routes p) (uri : Url) :
    (l.forget uri).Faithful routes p := by
  intro d hd
  rw [Routes.referenceIn, Ledger.getElem?_forget]
  split
  · rfl
  · exact h d hd

namespace Operation

/-- All the declarations that the operation is about are such ones. -/
def About (p : Declaration → Prop) : Operation σ → Prop
  | reference d | status d | locate _ d => p d
  | restore ds => ∀ d ∈ ds, p d
  | forget _ | clearFailures | turn _ => True

theorem faithful_run (hp : Distinguished p) (hop : op.About p)
    (h : site.ledger.Faithful routes p) : (op.run routes site).ledger.Faithful routes p := by
  cases op with
  | reference d => exact h.of_writes hp (Routes.writes_reference hop)
  | status d =>
    exact (h.of_writes hp (Routes.writes_reference hop)).of_eq (Routes.references_status ..)
  | locate parent d =>
    exact (h.of_writes hp (Routes.writes_reference hop)).of_eq Routes.references_locate
  | restore ds =>
    exact h.of_writes hp ((Routes.restore_restores routes site ds).writes.mono hop)
  | forget uri => exact h.forget uri
  | clearFailures | turn => exact h

theorem faithful_runAll (hp : Distinguished p) (hops : ∀ op ∈ ops, op.About p)
    (h : site.ledger.Faithful routes p) : (runAll routes site ops).ledger.Faithful routes p := by
  induction ops generalizing site with
  | nil => exact h
  | cons op ops ih =>
    exact ih (fun op' hop' => hops op' (List.mem_cons_of_mem op hop'))
      (faithful_run hp (hops op (List.mem_cons_self ..)) h)

end Operation

/-! ## Without a memo -/

/-- The ledger with no reference written down. -/
def Ledger.bare (l : Ledger) : Ledger :=
  { l with references := ∅ }

/-- The site with no reference written down. -/
def Site.bare (site : Site σ) : Site σ :=
  { site with ledger := site.ledger.bare }

theorem Site.bare_eq_iff :
    site.bare = site'.bare ↔ site.world = site'.world ∧ site.ledger.bare = site'.ledger.bare := by
  rw [bare, bare, Site.mk.injEq]

theorem Ledger.faithful_bare (l : Ledger) : l.bare.Faithful routes p := by
  intro d _
  rw [Routes.referenceIn, Ledger.bare, Std.ExtTreeMap.getElem?_empty]
  rfl

/-- The function neither looks at what a memo holds nor changes it. -/
def Blind {τ α : Type} (bare : τ → τ) (F : τ → α × τ) : Prop :=
  ∀ t, F (bare t) = ((F t).1, bare (F t).2)

theorem Blind.congr {τ α : Type} {bare : τ → τ} {F : τ → α × τ} (h : Blind bare F) {t t' : τ}
    (ht : bare t = bare t') : (F t).1 = (F t').1 ∧ bare (F t).2 = bare (F t').2 := by
  have hboth := h t
  rw [ht, h t'] at hboth
  exact ⟨(Prod.mk.inj hboth).1.symm, (Prod.mk.inj hboth).2.symm⟩

namespace Routes

theorem statusOf_blind (routes : Routes σ) (w : σ) (r : Reference) :
    Blind Ledger.bare (routes.statusOf w · r) := by
  intro l
  have hfailure : l.bare.failure? r = l.failure? r := rfl
  dsimp only
  rw [statusOf, statusOf, hfailure]
  cases l.failure? r <;> cases routes.registry? r.scheme <;> rfl

theorem locateOf_blind (routes : Routes σ) (w : σ) (parent : Url) (r : Reference) :
    Blind Ledger.bare (routes.locateOf w · parent r) := by
  intro l
  have hfailure : l.bare.failure? r = l.failure? r := rfl
  dsimp only
  rw [locateOf, locateOf, hfailure]
  cases l.failure? r <;> cases routes.registry? r.scheme <;> rfl

theorem settle_blind (registry : Registry σ) (w : σ) (errors : List (Reference × RestoreError))
    (r : Reference) : Blind Ledger.bare (settle registry w errors · r) := by
  intro l
  dsimp only
  rw [settle, settle]
  split
  · rfl
  · dsimp only
    split <;> rfl

theorem settleAll_blind (registry : Registry σ) (w : σ) (errors : List (Reference × RestoreError))
    (batch : List Reference) : Blind Ledger.bare (settleAll registry w errors · batch) := by
  intro l
  induction batch generalizing l with
  | nil => rfl
  | cons r rs ih =>
    have hhead := settle_blind registry w errors r l
    have hrest := ih (settle registry w errors l r).2
    dsimp only at hhead hrest ⊢
    rw [settleAll, settleAll, hhead]
    dsimp only
    rw [hrest]

theorem restoreBatch_blind (routes : Routes σ) (s : Scheme) (batch : List Reference) :
    Blind Site.bare (routes.restoreBatch s batch) := by
  intro site
  rw [restoreBatch, restoreBatch]
  split
  · rfl
  · cases routes.registry? s with
    | none => rfl
    | some registry =>
      have hsettled := settleAll_blind registry (registry.restore site.world batch).2
        (registry.restore site.world batch).1 batch
        (site.ledger.note (.restore registry.scheme batch))
      exact congrArg (fun settled : List (Reference × Failure) × Ledger =>
        (settled.1, Site.mk (registry.restore site.world batch).2 settled.2)) hsettled

theorem restoreSchemes_blind (routes : Routes σ) (batch : List Reference) (schemes : List Scheme) :
    Blind Site.bare (routes.restoreSchemes batch · schemes) := by
  intro site
  induction schemes generalizing site with
  | nil => rfl
  | cons s rest ih =>
    have hhead := restoreBatch_blind routes s (batch.filter (·.scheme == s)) site
    have hrest := ih (routes.restoreBatch s (batch.filter (·.scheme == s)) site).2
    dsimp only at hhead hrest ⊢
    rw [restoreSchemes, restoreSchemes, hhead]
    dsimp only
    rw [hrest]

/-! ## Answers -/

theorem bare_reference (routes : Routes σ) (l : Ledger) (d : Declaration) :
    (routes.reference l d).2.bare = l.bare := by
  rw [reference]
  split <;> rfl

theorem bare_claims (routes : Routes σ) (l : Ledger) (ds : List Declaration) :
    (routes.claims l ds).2.bare = l.bare := by
  induction ds generalizing l with
  | nil => rfl
  | cons d ds ih =>
    have hhead := bare_reference routes l d
    rw [claims]
    generalize routes.reference l d = asked at hhead ⊢
    obtain ⟨x, l'⟩ := asked
    cases x <;> exact (ih l').trans hhead

/-- The claims of declarations are what their paths say, whatever has been written down on the
way. -/
theorem claims_of_faithful (hp : Distinguished p) (h : l.Faithful routes p) (hds : ∀ d ∈ ds, p d) :
    (routes.claims l ds).1 = ds.filterMap fun d => (routes.read d).toOption.map (·, d.id) := by
  induction ds generalizing l with
  | nil => rfl
  | cons d ds ih =>
    have hd := hds d (List.mem_cons_self ..)
    have hread : (routes.reference l d).1 = routes.read d := by rw [reference_fst, h d hd]
    have hrest := ih (h.of_writes hp (writes_reference hd)) fun e he =>
      hds e (List.mem_cons_of_mem d he)
    rw [claims, List.filterMap_cons]
    generalize routes.reference l d = asked at hread hrest ⊢
    obtain ⟨x, l'⟩ := asked
    obtain rfl : x = routes.read d := hread
    cases hx : routes.read d with
    | error f => exact hrest
    | ok r => exact congrArg _ hrest

variable {x : Except Failure Reference}

theorem exists_reference_eq (href : (routes.reference l d).1 = x) :
    ∃ m, routes.reference l d = (x, m) ∧ m.bare = l.bare :=
  ⟨_, Prod.ext href rfl, bare_reference routes l d⟩

theorem status_congr (href : (routes.reference l d).1 = x) (href' : (routes.reference l' d).1 = x)
    (h : l.bare = l'.bare) (w : σ) : (routes.status w l d).1 = (routes.status w l' d).1 ∧
      (routes.status w l d).2.bare = (routes.status w l' d).2.bare := by
  obtain ⟨m, hasked, hm⟩ := exists_reference_eq href
  obtain ⟨m', hasked', hm'⟩ := exists_reference_eq href'
  have hbare : m.bare = m'.bare := hm.trans (h.trans hm'.symm)
  rw [status, status, hasked, hasked']
  cases x with
  | error f => exact ⟨rfl, hbare⟩
  | ok r => exact (statusOf_blind routes w r).congr hbare

theorem locate_congr (href : (routes.reference l d).1 = x) (href' : (routes.reference l' d).1 = x)
    (h : l.bare = l'.bare) (w : σ) (parent : Url) :
    (routes.locate w l parent d).1 = (routes.locate w l' parent d).1 ∧
      (routes.locate w l parent d).2.bare = (routes.locate w l' parent d).2.bare := by
  obtain ⟨m, hasked, hm⟩ := exists_reference_eq href
  obtain ⟨m', hasked', hm'⟩ := exists_reference_eq href'
  have hbare : m.bare = m'.bare := hm.trans (h.trans hm'.symm)
  rw [locate, locate, hasked, hasked']
  cases x with
  | error f => exact ⟨rfl, hbare⟩
  | ok r => exact (locateOf_blind routes w parent r).congr hbare

theorem restore_congr
    (hclaims : (routes.claims site.ledger ds).1 = (routes.claims site'.ledger ds).1)
    (h : site.bare = site'.bare) : (routes.restore site ds).1 = (routes.restore site' ds).1 ∧
      (routes.restore site ds).2.bare = (routes.restore site' ds).2.bare := by
  obtain ⟨hworld, hledger⟩ := Site.bare_eq_iff.1 h
  have hfailure (r : Reference) : site.ledger.failure? r = site'.ledger.failure? r := by
    change site.ledger.bare.failure? r = site'.ledger.bare.failure? r
    rw [hledger]
  have hfresh : routes.fresh site.ledger ds = routes.fresh site'.ledger ds := by
    simp only [fresh, hclaims, hfailure]
  have hclaimed : Site.bare ⟨site.world, (routes.claims site.ledger ds).2⟩ =
      Site.bare ⟨site'.world, (routes.claims site'.ledger ds).2⟩ := by
    rw [Site.bare, Site.bare, bare_claims, bare_claims, hworld, hledger]
  obtain ⟨hreport, hsite⟩ :=
    (restoreSchemes_blind routes (routes.fresh site'.ledger ds) Scheme.all).congr hclaimed
  refine ⟨?_, ?_⟩
  · rw [restore_fst, restore_fst, hfresh, hreport, hclaims]
    simp only [hfailure]
  · rw [restore_snd, restore_snd, hfresh, hsite]

end Routes

namespace Operation

/-- The operations one after the other, each on a site with nothing written down. -/
def runAllBare (routes : Routes σ) (site : Site σ) (ops : List (Operation σ)) : Site σ :=
  ops.foldl (fun site op => op.run routes site.bare) site

/-- An operation does the same on two sites that differ in what is written down. -/
theorem run_congr (hp : Distinguished p) (hop : op.About p) (h : site.ledger.Faithful routes p)
    (h' : site'.ledger.Faithful routes p) (hbare : site.bare = site'.bare) :
    op.answer routes site = op.answer routes site' ∧
      (op.run routes site).bare = (op.run routes site').bare := by
  obtain ⟨hworld, hledger⟩ := Site.bare_eq_iff.1 hbare
  have hread {site : Site σ} {d : Declaration} (hf : site.ledger.Faithful routes p) (hd : p d) :
      (routes.reference site.ledger d).1 = routes.read d := by
    rw [Routes.reference_fst, hf d hd]
  cases op with
  | reference d =>
    refine ⟨congrArg Answer.reference ((hread h hop).trans (hread h' hop).symm), ?_⟩
    refine Site.bare_eq_iff.2 ⟨hworld, ?_⟩
    rw [run, run, Routes.bare_reference, Routes.bare_reference, hledger]
  | status d =>
    obtain ⟨hanswer, hafter⟩ :=
      Routes.status_congr (hread h hop) (hread h' hop) hledger site'.world
    rw [answer, answer, run, run, hworld, hanswer]
    exact ⟨rfl, Site.bare_eq_iff.2 ⟨rfl, hafter⟩⟩
  | locate parent d =>
    obtain ⟨hanswer, hafter⟩ :=
      Routes.locate_congr (hread h hop) (hread h' hop) hledger site'.world parent
    rw [answer, answer, run, run, hworld, hanswer]
    exact ⟨rfl, Site.bare_eq_iff.2 ⟨rfl, hafter⟩⟩
  | restore ds =>
    have hclaims : (routes.claims site.ledger ds).1 = (routes.claims site'.ledger ds).1 :=
      (Routes.claims_of_faithful hp h hop).trans (Routes.claims_of_faithful hp h' hop).symm
    obtain ⟨hanswer, hafter⟩ := Routes.restore_congr hclaims hbare
    exact ⟨congrArg Answer.restored hanswer, hafter⟩
  | forget uri => exact ⟨rfl, hbare⟩
  | clearFailures =>
    have hcleared : site.ledger.clearFailures.bare = site'.ledger.clearFailures.bare :=
      congrArg Ledger.clearFailures hledger
    exact ⟨rfl, Site.bare_eq_iff.2 ⟨hworld, hcleared⟩⟩
  | turn world => exact ⟨rfl, Site.bare_eq_iff.2 ⟨rfl, hledger⟩⟩

theorem runAll_bare (hp : Distinguished p) (hops : ∀ op ∈ ops, op.About p)
    (h : site.ledger.Faithful routes p) (hbare : site.bare = site'.bare) :
    (runAll routes site ops).bare = (runAllBare routes site' ops).bare := by
  induction ops generalizing site site' with
  | nil => exact hbare
  | cons op ops ih =>
    have hop := hops op (List.mem_cons_self ..)
    -- the other site is emptied once more before the operation, which nobody notices
    have hemptied : site.bare = site'.bare.bare := hbare
    have hstep := run_congr hp hop h (Ledger.faithful_bare site'.ledger) hemptied
    exact ih (fun op' hop' => hops op' (List.mem_cons_of_mem op hop')) (faithful_run hp hop h)
      hstep.2

end Operation

/-! ## Whole runs -/

/-- A text has no more declarations than bytes. -/
theorem SourceFile.index_lt (h : d ∈ f.declarations) : d.id.index < Utf8.size f.text.toList := by
  obtain ⟨i, hi⟩ := List.mem_iff_getElem?.1 h
  have hlength : f.declarations.length = (scan f.text).length := by
    rw [f.declarations_eq, declarationsOf, List.length_map, List.length_zipIdx]
  have hplace : i < (scan f.text).length := hlength ▸ (List.getElem?_eq_some_iff.1 hi).1
  rw [id_of_getElem? hi]
  exact Nat.lt_of_lt_of_le hplace (length_scan_le f.text)

namespace Routes

/-- Whatever is done at a site with the declarations of some files, in whatever order, and however
often the texts of a URL change: the reference of a declaration is what its path says, and
nothing that is done or answered depends on what has been written down or forgotten. -/
theorem memo_unseen (hapart : DigestsApart files)
    (hsize : ∀ f, files f → Utf8.size f.text.toList < UInt32.size)
    (hops : ∀ op ∈ ops, op.About (DeclaredIn files)) (world : σ) :
    (∀ d, DeclaredIn files d → d.id.index < UInt32.size ∧
      (routes.reference (Operation.runAll routes ⟨world, .empty⟩ ops).ledger d).1 =
        d.path.bind routes.parse) ∧
    (Operation.runAll routes ⟨world, .empty⟩ ops).bare =
      (Operation.runAllBare routes ⟨world, .empty⟩ ops).bare ∧
    ∀ op : Operation σ, op.About (DeclaredIn files) →
      op.answer routes (Operation.runAll routes ⟨world, .empty⟩ ops) =
        op.answer routes (Operation.runAllBare routes ⟨world, .empty⟩ ops).bare := by
  have hp := distinguished_of_digestsApart hapart
  have hfaithful : (Operation.runAll routes ⟨world, .empty⟩ ops).ledger.Faithful routes
      (DeclaredIn files) :=
    Operation.faithful_runAll hp hops Ledger.faithful_empty
  have hbare : (Operation.runAll routes ⟨world, .empty⟩ ops).bare =
      (Operation.runAllBare routes ⟨world, .empty⟩ ops).bare :=
    Operation.runAll_bare hp hops Ledger.faithful_empty rfl
  generalize Operation.runAll routes ⟨world, .empty⟩ ops = s at hfaithful hbare ⊢
  generalize Operation.runAllBare routes ⟨world, .empty⟩ ops = t at hbare ⊢
  refine ⟨fun d hd => ⟨?_, ?_⟩, hbare, fun op hop => ?_⟩
  · obtain ⟨f, hf, hmem⟩ := hd
    exact Nat.lt_trans (SourceFile.index_lt hmem) (hsize f hf)
  · rw [reference_fst]
    exact hfaithful d hd
  · have hemptied : s.bare = t.bare.bare := hbare
    exact (Operation.run_congr hp hop hfaithful (Ledger.faithful_bare t.ledger) hemptied).1

end Routes

namespace Sample

/-- Two texts of one file, the second one with another reference at the same place. -/
def editedText : String := "module a 'nuget:b@1'"

def versions (f : SourceFile) : Prop :=
  f = SourceFile.parse part partText ∨ f = SourceFile.parse part editedText

/-- The file is edited, its references are forgotten, and the first text comes back. -/
def reverting : List (Operation Bool) :=
  [.restore (SourceFile.parse part partText).declarations,
    .restore (SourceFile.parse part editedText).declarations, .forget part,
    .restore (SourceFile.parse part partText).declarations]

theorem memo_unseen_reverting : DigestsApart versions ∧
    (∀ f, versions f → Utf8.size f.text.toList < UInt32.size) ∧
    (∀ op ∈ reverting, op.About (DeclaredIn versions)) ∧
    ∀ d ∈ (SourceFile.parse part editedText).declarations,
      ((Routes.ofList [closedShelf]).reference
        (Operation.runAll (Routes.ofList [closedShelf]) ⟨false, .empty⟩ reverting).ledger d).1 =
          d.path.bind (Routes.ofList [closedShelf]).parse := by
  have hdigest :
      (SourceFile.parse part partText).digest ≠ (SourceFile.parse part editedText).digest := by
    decide +kernel
  have hapart : DigestsApart versions := by
    rintro f g (rfl | rfl) (rfl | rfl) - h
    · rfl
    · exact absurd h hdigest
    · exact absurd h.symm hdigest
    · rfl
  have hsize : ∀ f, versions f → Utf8.size f.text.toList < UInt32.size := by
    rintro f (rfl | rfl) <;> decide +kernel
  have hops : ∀ op ∈ reverting, op.About (DeclaredIn versions) := by
    simp only [reverting, List.forall_mem_cons]
    exact ⟨fun d hd => ⟨_, .inl rfl, hd⟩, fun d hd => ⟨_, .inr rfl, hd⟩, trivial,
      fun d hd => ⟨_, .inl rfl, hd⟩, nofun⟩
  exact ⟨hapart, hsize, hops, fun d hd =>
    ((Routes.memo_unseen hapart hsize hops false).1 d ⟨_, .inr rfl, hd⟩).2⟩

end Sample

end ModuleGraph
