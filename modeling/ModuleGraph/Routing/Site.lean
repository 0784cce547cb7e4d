import ModuleGraph.Routing.Ledger

/-!
# Linking at a site

A site is a world with a ledger. Three things are asked here about a declaration: its reference
(`Routes.reference`), where its module stands (`Routes.status`), and where the module's entry file
is (`Routes.locate`). Asking changes the ledger only.

`Routes.restore` fetches the modules of some declarations and changes the world. References that
mean the same module are fetched once, under the spelling that occurs first; those with a
remembered failure are not fetched at all. Every registry is called at most once. A module that
its registry neither fetched nor reported has the failure `restoreOutcomeMissing`, which is not
remembered.
-/

namespace ModuleGraph

/-- Where a declared module stands before its entry file is looked for. -/
inductive Status where
  /-- There is a local copy. -/
  | available
  /-- There is no local copy yet. -/
  | needsRestore (reference : Reference)
  /-- The reference cannot be read or routed, or the module could not be restored before. -/
  | failed (failure : Failure)
  deriving DecidableEq, Repr

/-- A world and what is remembered in it. -/
structure Site (σ : Type) where
  world : σ
  ledger : Ledger

/-- Failures by declaration. -/
abbrev FailureMap := Std.ExtTreeMap DeclarationId Failure

namespace Routes

variable {σ : Type}

/-- The reference that a declaration's path writes. -/
def read (routes : Routes σ) (d : Declaration) : Except Failure Reference :=
  d.path.bind routes.parse

/-- The reference of a declaration, as the ledger remembers it. -/
def reference (routes : Routes σ) (l : Ledger) (d : Declaration) :
    Except Failure Reference × Ledger :=
  match l.references[d.id]? with
  | some r => (r, l)
  | none =>
    let r := routes.read d
    (r, { l with references := l.references.insert d.id r })

/-- Where the module of a reference stands. -/
def statusOf (routes : Routes σ) (world : σ) (l : Ledger) (r : Reference) : Status × Ledger :=
  match l.failure? r, routes.registry? r.scheme with
  | some f, _ => (.failed f, l)
  | none, none => (.failed (routes.unknown r.scheme.name), l)
  | none, some registry =>
    (if registry.restoreRequired world r then .needsRestore r else .available,
      l.note (.check registry.scheme r))

/-- Where the module of a declaration stands. -/
def status (routes : Routes σ) (world : σ) (l : Ledger) (d : Declaration) : Status × Ledger :=
  match routes.reference l d with
  | (.error f, l) => (.failed f, l)
  | (.ok r, l) => routes.statusOf world l r

/-- The entry file of a reference that the file `parent` makes. -/
def locateOf (routes : Routes σ) (world : σ) (l : Ledger) (parent : Url) (r : Reference) :
    Except Failure Url × Ledger :=
  match l.failure? r, routes.registry? r.scheme with
  | some f, _ => (.error f, l)
  | none, none => (.error (routes.unknown r.scheme.name), l)
  | none, some registry =>
    (registry.entryPoint world parent r, l.note (.locate registry.scheme r))

/-- The entry file of the module that a declaration in the file `parent` refers to. -/
def locate (routes : Routes σ) (world : σ) (l : Ledger) (parent : Url) (d : Declaration) :
    Except Failure Url × Ledger :=
  match routes.reference l d with
  | (.error f, l) => (.error f, l)
  | (.ok r, l) => routes.locateOf world l parent r

/-! ## Restoring -/

/-- The declarations whose references can be read, with their references. -/
def claims (routes : Routes σ) (l : Ledger) :
    List Declaration → List (Reference × DeclarationId) × Ledger
  | [] => ([], l)
  | d :: ds =>
    let (r, l) := routes.reference l d
    let (rest, l) := claims routes l ds
    match r with
    | .ok r => ((r, d.id) :: rest, l)
    | .error _ => (rest, l)

/-- One reference for each module, the first of its spellings. -/
def distinct : List Reference → List Reference
  | [] => []
  | r :: rs => r :: (distinct rs).filter (!r.same ·)

/-- The failure that a list has for a module. -/
def failureIn? (failures : List (Reference × Failure)) (r : Reference) : Option Failure :=
  (failures.find? (·.1.same r)).map (·.2)

/-- What became of a module that its registry was to fetch: its failure, if it has one, and the
ledger that remembers it. -/
def settle (registry : Registry σ) (world : σ) (errors : List (Reference × RestoreError))
    (l : Ledger) (r : Reference) : Option Failure × Ledger :=
  match errors.find? (·.1.same r) with
  | some (_, e) => (some (e.failureOf r), l.remember r (e.failureOf r))
  | none =>
    let l := l.note (.check registry.scheme r)
    if registry.restoreRequired world r then (some (.restoreOutcomeMissing r.qualified), l)
    else (none, l.forgive r)

/-- The failures of the modules that a registry was to fetch. -/
def settleAll (registry : Registry σ) (world : σ) (errors : List (Reference × RestoreError))
    (l : Ledger) : List Reference → List (Reference × Failure) × Ledger
  | [] => ([], l)
  | r :: rs =>
    let (f, l) := settle registry world errors l r
    let (rest, l) := settleAll registry world errors l rs
    (f.toList.map (r, ·) ++ rest, l)

/-- Fetches modules of one scheme. Gives their failures. -/
def restoreBatch (routes : Routes σ) (s : Scheme) (batch : List Reference) (site : Site σ) :
    List (Reference × Failure) × Site σ :=
  if batch.isEmpty then ([], site)
  else
    match routes.registry? s with
    | none => (batch.map (·, routes.unknown s.name), site)
    | some registry =>
      let (errors, world) := registry.restore site.world batch
      let l := site.ledger.note (.restore registry.scheme batch)
      let (failures, l) := settleAll registry world errors l batch
      (failures, ⟨world, l⟩)

/-- Fetches modules scheme by scheme. -/
def restoreSchemes (routes : Routes σ) (batch : List Reference) (site : Site σ) :
    List Scheme → List (Reference × Failure) × Site σ
  | [] => ([], site)
  | s :: rest =>
    let (failures, site) := routes.restoreBatch s (batch.filter (·.scheme == s)) site
    let (more, site) := restoreSchemes routes batch site rest
    (failures ++ more, site)

/-- The failures of declarations whose modules have a failure. -/
def blame (claims : List (Reference × DeclarationId)) (failures : List (Reference × Failure)) :
    FailureMap :=
  claims.foldl (fun m (r, id) =>
    match failureIn? failures r with
    | some f => m.insert id f
    | none => m) ∅

/-- Fetches the modules of declarations. Gives a failure for every declaration whose module still
has no local copy. Declarations whose references cannot be read are passed over. -/
def restore (routes : Routes σ) (site : Site σ) (ds : List Declaration) : FailureMap × Site σ :=
  let (claims, l) := routes.claims site.ledger ds
  let modules := distinct (claims.map (·.1))
  let known := modules.filterMap fun r => (l.failure? r).map (r, ·)
  let fresh := modules.filter fun r => (l.failure? r).isNone
  let (failures, site) := routes.restoreSchemes fresh ⟨site.world, l⟩ Scheme.all
  (blame claims (known ++ failures), site)

end Routes

end ModuleGraph
