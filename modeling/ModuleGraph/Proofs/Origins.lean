import ModuleGraph.Config.Routes
import ModuleGraph.Proofs.Verdict

/-!
# Where failures come from

Whatever a declaration fails with, some step of looking at it has said so. There
are not many that can: the text may have no address, or one that is routed
nowhere; a failure may be remembered of the module; its registry may give no
entry point; the file may be unreadable; and a module may need a restore, tried
or not. `Origin` lists them, and `origin_of_verdict` says that there are no
others. Texts and addresses fail in ways of their own, which nothing else does.
-/

namespace ModuleGraph

variable {α β : Type} {p q : Failure → Prop} {x : Except Failure α} {f : Failure}

/-- When the answer is a failure, it is one with the property. -/
def FailsWith (p : Failure → Prop) (x : Except Failure α) : Prop :=
  ∀ f, x = .error f → p f

theorem failsWith_ok {a : α} : FailsWith p (.ok a : Except Failure α) := nofun

theorem failsWith_error (h : p f) : FailsWith p (.error f : Except Failure α) := by
  rintro _ ⟨⟩
  exact h

theorem FailsWith.mono (h : FailsWith p x) (hpq : ∀ f, p f → q f) : FailsWith q x :=
  fun f hf => hpq f (h f hf)

theorem FailsWith.map (h : FailsWith p x) (g : α → β) : FailsWith p (x.map g) := by
  cases x with
  | error f => exact failsWith_error (h f rfl)
  | ok a => exact failsWith_ok

theorem FailsWith.bind {g : α → Except Failure β} (h : FailsWith p x)
    (hg : ∀ a, FailsWith p (g a)) : FailsWith p (x.bind g) := by
  cases x with
  | error f => exact failsWith_error (h f rfl)
  | ok a => exact hg a

/-! ## Texts and addresses -/

/-- There is no address, or it cannot be read, or it is routed nowhere. -/
def Failure.OfAddress : Failure → Prop
  | pathNotString | pathInterpolated | pathNotSpecified => True
  | unknownScheme .. | invalidOciReference _ | invalidNugetReference _ => True
  | _ => False

theorem Statement.ofAddress_readPath (text : List Char) :
    FailsWith Failure.OfAddress (readPath text).1 := by
  unfold readPath
  split
  · exact failsWith_error trivial
  · split
    · split
      · dsimp only
        split
        · exact failsWith_error trivial
        · exact failsWith_ok
      · exact failsWith_error trivial
    · exact failsWith_error trivial

theorem Statement.ofAddress_ofLine? {line : List Char} {s : Statement}
    (h : ofLine? line = some s) : FailsWith Failure.OfAddress s.path := by
  rw [ofLine?] at h
  dsimp only at h
  split at h
  · split at h
    · split at h
      · cases h
        exact ofAddress_readPath _
      · cases h
        exact ofAddress_readPath _
    · cases h
  · cases h

theorem ofAddress_scanLines {lines : List (List Char)} {offset : Nat} {s : Statement}
    (h : s ∈ scanLines offset lines) : FailsWith Failure.OfAddress s.path := by
  induction lines generalizing offset with
  | nil => cases h
  | cons line lines ih =>
    rw [scanLines, List.mem_append] at h
    rcases h with h | h
    · obtain ⟨s', hs, rfl⟩ := Option.map_eq_some_iff.1 (Option.mem_toList.1 h)
      have hpath := Statement.ofAddress_ofLine? hs
      exact hpath
    · exact ih h

theorem SourceFile.ofAddress_path {file : SourceFile} {d : Declaration}
    (h : d ∈ file.declarations) : FailsWith Failure.OfAddress d.path := by
  rw [file.declarations_eq, declarationsOf] at h
  obtain ⟨⟨s, i⟩, hs, rfl⟩ := List.mem_map.1 h
  exact ofAddress_scanLines (List.fst_mem_of_mem_zipIdx hs)

theorem OciReference.ofAddress_parse (raw : String) :
    FailsWith Failure.OfAddress (parse raw) := by
  rw [parse]
  split
  · exact failsWith_ok
  · exact failsWith_error trivial

theorem NugetReference.ofAddress_parse (raw : String) :
    FailsWith Failure.OfAddress (parse raw) := by
  rw [parse]
  split
  · split
    · exact failsWith_error trivial
    · exact failsWith_ok
  · exact failsWith_error trivial

theorem Scheme.ofAddress_parse (s : Scheme) (raw : String) :
    FailsWith Failure.OfAddress (s.parse raw) := by
  cases s with
  | relative =>
    rw [parse]
    split
    · exact failsWith_error trivial
    · exact failsWith_ok
  | oci => exact (OciReference.ofAddress_parse raw).map Reference.oci
  | nuget => exact (NugetReference.ofAddress_parse raw).map Reference.nuget

variable {σ : Type}

theorem Routes.ofAddress_parse (routes : Routes σ) (raw : String) :
    FailsWith Failure.OfAddress (routes.parse raw) := by
  rw [parse]
  split
  · exact failsWith_error trivial
  · dsimp only
    split
    · split
      · exact Scheme.ofAddress_parse _ _
      · exact failsWith_error trivial
    · exact failsWith_error trivial

/-- A declaration of a file is read to a reference, or something is wrong with its address. -/
theorem Routes.ofAddress_read (routes : Routes σ) {file : SourceFile} {d : Declaration}
    (h : d ∈ file.declarations) : FailsWith Failure.OfAddress (routes.read d) :=
  (SourceFile.ofAddress_path h).bind routes.ofAddress_parse

/-! ## Entry points -/

/-- The entry point of a module cannot be told, or is not there. -/
def Failure.OfEntryPoint : Failure → Prop
  | entryPointMissing .. | entryPointUnresolvable .. => True
  | _ => False

theorem Registry.ofEntryPoint_besideParent (parent : Url) (r : Reference) :
    FailsWith Failure.OfEntryPoint (besideParent parent r) := by
  unfold besideParent
  split
  · split
    · exact failsWith_ok
    · exact failsWith_error trivial
  · exact failsWith_error trivial

theorem Cache.ofEntryPoint_entryPoint {τ : Type} (cache : DiskPath) (host : Host τ)
    (r : Reference) : FailsWith Failure.OfEntryPoint (entryPoint cache host r) := by
  unfold entryPoint
  split
  · dsimp only
    split
    · exact failsWith_error trivial
    · split
      · exact failsWith_ok
      · exact failsWith_error trivial
  · exact failsWith_error trivial

section Configured

variable {τ : Type} {c : Config} {e : Environment} {t : Http.Transport τ}
  {routes : Routes (Host τ)} {s : Scheme} {registry : Registry (Host τ)}

/-- A configured registry is the one for paths, or the one for artifacts over a cache. -/
theorem Config.registry_cases (h : c.routes e t = .ok routes)
    (hreg : routes.registry? s = some registry) : registry = .relative ∨
      ∃ dir, c.cache? e = some dir ∧
        registry = .cache dir (Http.Client.artifacts ⟨t, c.plainHttp⟩) := by
  rw [Config.routes] at h
  split at h
  · cases h
  · next dir hdir =>
    cases h
    rcases List.mem_cons.1 (Routes.mem_of_registry?_ofList hreg) with hmem | hmem
    · exact .inl hmem
    · exact .inr ⟨dir, hdir, List.mem_singleton.1 hmem⟩

/-- The registries that a configuration gives fail in no other way when they are asked for an
entry point. -/
theorem Config.ofEntryPoint_routes (h : c.routes e t = .ok routes)
    (hreg : routes.registry? s = some registry) (host : Host τ) (parent : Url) (r : Reference) :
    FailsWith Failure.OfEntryPoint (registry.entryPoint host parent r) := by
  obtain rfl | ⟨dir, -, rfl⟩ := registry_cases h hreg
  · exact Registry.ofEntryPoint_besideParent parent r
  · exact Cache.ofEntryPoint_entryPoint dir host r

end Configured

/-! ## Verdicts -/

namespace Discovery

/-- The steps that a declaration's failure can come from. -/
inductive Origin (c : Context σ) (l : Ledger) (d : Declaration) : Failure → Prop where
  | reference {f : Failure} (h : c.setting.routes.referenceIn l d = .error f) : Origin c l d f
  | remembered {r : Reference} {f : Failure} (h : l.failure? r = some f) : Origin c l d f
  | unrouted (scheme : String) : Origin c l d (c.setting.routes.unknown scheme)
  | waits {r : Reference} (h : c.setting.routes.statusIn c.world l d = .needsRestore r) :
      Origin c l d (.restoreRequired r.qualified)
  | restored {r : Reference} (h : c.setting.routes.statusIn c.world l d = .needsRestore r)
      (ha : c.prior.attempted d.id = true) : Origin c l d (restoreOutcome c l d.id r)
  | entryPoint {s : Scheme} {registry : Registry σ} {parent : Url} {r : Reference} {f : Failure}
      (hreg : c.setting.routes.registry? s = some registry)
      (h : registry.entryPoint c.world parent r = .error f) : Origin c l d f
  | unread (path message : String) : Origin c l d (.fileRead path message)

variable {c : Context σ} {l : Ledger} {d : Declaration}

theorem origin_of_statusIn (h : c.setting.routes.statusIn c.world l d = .failed f) :
    Origin c l d f := by
  rw [Routes.statusIn] at h
  split at h
  · next href =>
    cases h
    exact .reference href
  · rw [Routes.statusOf] at h
    split at h
    · next hf =>
      cases h
      exact .remembered hf
    · cases h
      exact .unrouted _
    · dsimp only at h
      split at h <;> cases h

theorem origin_of_locateIn {parent : Url}
    (h : c.setting.routes.locateIn c.world l parent d = .error f) : Origin c l d f := by
  rw [Routes.locateIn] at h
  split at h
  · next href =>
    cases h
    exact .reference href
  · rw [Routes.locateOf] at h
    split at h
    · next hf =>
      cases h
      exact .remembered hf
    · cases h
      exact .unrouted _
    · next hreg => exact .entryPoint hreg h

theorem origin_of_fetch {u : Url} (h : c.fetch u = .error f) : Origin c l d f := by
  rw [Context.fetch] at h
  split at h
  · cases h
  · cases h
  · split at h
    · cases h
    · cases h
      exact .unread _ _

/-- A declaration that a verdict fails has its failure from one of these steps. -/
theorem origin_of_verdict (h : (c.verdict l d).failure? = some f) : Origin c l d f := by
  rw [Context.verdict] at h
  split at h
  · next hs =>
    cases h
    exact origin_of_statusIn hs
  · next hs =>
    split at h
    · next ha =>
      cases h
      exact .restored hs ha
    · cases h
      exact .waits hs
  · split at h
    · next hl =>
      cases h
      exact origin_of_locateIn hl
    · split at h
      · cases h
      · next hf =>
        cases h
        exact origin_of_fetch hf

end Discovery

end ModuleGraph
