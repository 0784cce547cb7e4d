import ModuleGraph.Registry.Basic

/-!
# Routes

An address is routed by what stands before its first colon: that names the scheme, and the
scheme's registry answers for it. An address without a colon is a path. `Routes` says which
registry answers for which scheme, and `Routes.parse` reads an address.
-/

namespace ModuleGraph

/-- Which registry answers for which scheme. -/
structure Routes (σ : Type) where
  registry? : Scheme → Option (Registry σ)
  scheme_eq : ∀ {s : Scheme} {r : Registry σ}, registry? s = some r → r.scheme = s

namespace Routes

variable {σ : Type}

/-- Routes to the registries of a list, the last one of each scheme. -/
def ofList (registries : List (Registry σ)) : Routes σ where
  registry? s := registries.reverse.find? (·.scheme == s)
  scheme_eq h := by simpa using List.find?_some h

theorem mem_of_registry?_ofList {registries : List (Registry σ)} {s : Scheme} {r : Registry σ}
    (h : Routes.registry? (ofList registries) s = some r) : r ∈ registries := by
  have hfound : registries.reverse.find? (·.scheme == s) = some r := h
  exact List.mem_reverse.1 (List.mem_of_find?_eq_some hfound)

/-- The scheme has a registry. -/
def answersFor (routes : Routes σ) (s : Scheme) : Bool :=
  (routes.registry? s).isSome

/-- The names of the schemes that have a registry, in alphabetical order. Paths have no name. -/
def available (routes : Routes σ) : List String :=
  ([Scheme.nuget, Scheme.oci].filter routes.answersFor).map Scheme.name

/-- The failure of an address that no registry answers for. -/
def unknown (routes : Routes σ) (scheme : String) : Failure :=
  .unknownScheme scheme routes.available

/-- What stands before the first colon, if there is one, and the rest. -/
def split (raw : String) : Option String × String :=
  match cutAround? ':' raw.toList with
  | some (name, rest) => (some (String.ofList name), String.ofList rest)
  | none => (none, raw)

/-- The reference of an address. -/
def parse (routes : Routes σ) (raw : String) : Except Failure Reference :=
  if raw.isEmpty then .error .pathNotSpecified
  else
    let (name, rest) := split raw
    match name.elim (some .relative) Scheme.ofName? with
    | some s => if routes.answersFor s then s.parse rest else .error (routes.unknown (name.getD ""))
    | none => .error (routes.unknown (name.getD ""))

/-- A reference that is read has a registry. -/
theorem answersFor_of_parse {routes : Routes σ} {raw : String} {r : Reference}
    (h : routes.parse raw = .ok r) : routes.answersFor r.scheme = true := by
  simp only [parse] at h
  split at h
  · simp at h
  · split at h
    · rename_i s _
      split at h
      · rename_i hs
        rw [Scheme.scheme_of_parse h]
        exact hs
      · simp at h
    · simp at h

end Routes

end ModuleGraph
