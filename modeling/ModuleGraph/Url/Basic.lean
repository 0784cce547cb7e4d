import ModuleGraph.Url.Parse

/-!
# URLs

A file is named by a URL, and a URL is known by its text: two URLs are the same when their texts
are, and they are ordered as their texts are. `Url.parse` and `Url.join` bring a text into its
one form.
-/

namespace ModuleGraph

/-- A URL in its one form. -/
structure Url where
  text : String
  deriving DecidableEq, Repr, Hashable

namespace Url

instance : ToString Url := ⟨Url.text⟩

instance : Ord Url := ⟨fun u v => compare u.text v.text⟩

theorem compare_eq (u v : Url) : compare u v = compare u.text v.text := rfl

instance : Std.TransOrd Url where
  eq_swap {u v} := by
    rw [compare_eq, compare_eq]
    exact Std.OrientedOrd.eq_swap
  isLE_trans {u v w} h₁ h₂ := by
    rw [compare_eq] at h₁ h₂ ⊢
    exact Std.TransOrd.isLE_trans h₁ h₂

instance : Std.LawfulEqOrd Url where
  compare_self {u} := by
    rw [compare_eq]
    exact Std.ReflOrd.compare_self
  eq_of_compare {u v} h := by
    rw [compare_eq] at h
    have := Std.LawfulEqOrd.eq_of_compare h
    cases u
    cases v
    simp_all

/-- The parts of the URL. -/
def parts (u : Url) : UrlParts :=
  UrlParts.ofText u.text

/-- The URL of parts. -/
def ofParts (p : UrlParts) : Url :=
  ⟨p.render⟩

/-- The URL that a text means by itself. -/
def parse (text : String) : Except UrlError Url :=
  (UrlParts.parse text none).map ofParts

/-- The URL that a text means beside this one. -/
def join (u : Url) (text : String) : Except UrlError Url :=
  (UrlParts.parse text (some u.parts)).map ofParts

/-- The scheme of the URL. -/
def scheme (u : Url) : String :=
  u.parts.scheme

end Url

end ModuleGraph
