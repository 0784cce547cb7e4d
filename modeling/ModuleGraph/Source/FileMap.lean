import ModuleGraph.Source.File
import Std.Data.ExtTreeMap

/-!
# Files by URL

A `FileMap` holds source files, each under its own URL: that the keys are the URLs is part of the
type, so that whoever looks a file up knows what the file is called.
-/

namespace ModuleGraph

/-- Source files, each under its own URL. -/
structure FileMap where
  entries : Std.ExtTreeMap Url SourceFile
  uri_eq : ∀ {u : Url} {f : SourceFile}, entries[u]? = some f → f.uri = u

theorem values_eq_map_toList {β : Type} (m : Std.ExtTreeMap Url β) :
    m.values = m.toList.map Prod.snd := by
  have hfold : m.values = m.foldr (fun _ x xs => x :: xs) [] := by
    obtain ⟨⟨m⟩⟩ := m
    induction m using Quotient.ind
    rfl
  rw [hfold, Std.ExtTreeMap.foldr_eq_foldr_toList]
  induction m.toList with
  | nil => rfl
  | cons p ps ih => rw [List.foldr_cons, ih, List.map_cons]

namespace FileMap

/-- No files. -/
def empty : FileMap := ⟨∅, by simp⟩

instance : EmptyCollection FileMap := ⟨empty⟩

/-- There is a file of this URL. -/
def contains (m : FileMap) (u : Url) : Bool :=
  m.entries.contains u

instance : GetElem? FileMap Url SourceFile fun m u => m.contains u where
  getElem m u h := m.entries.get u h
  getElem? m u := m.entries[u]?

/-- The files with this one in place of any other of its URL. -/
def put (m : FileMap) (f : SourceFile) : FileMap where
  entries := m.entries.insert f.uri f
  uri_eq {u g} h := by
    rw [Std.ExtTreeMap.getElem?_insert] at h
    split at h
    · next hu =>
      cases h
      exact Std.LawfulEqCmp.eq_of_compare hu
    · exact m.uri_eq h

/-- The files without the one of a URL. -/
def erase (m : FileMap) (u : Url) : FileMap where
  entries := m.entries.erase u
  uri_eq {v g} h := by
    rw [Std.ExtTreeMap.getElem?_erase] at h
    split at h
    · cases h
    · exact m.uri_eq h

/-- The URLs of the files, in order. -/
def keys (m : FileMap) : List Url := m.entries.keys

/-- The files, in order of their URLs. -/
def values (m : FileMap) : List SourceFile := m.entries.values

/-- The number of files. -/
def size (m : FileMap) : Nat := m.entries.size

/-- There are no files. -/
def isEmpty (m : FileMap) : Bool := m.entries.isEmpty

/-! ## Looking files up -/

variable {m : FileMap} {u v : Url} {f : SourceFile}

theorem getElem?_eq : m[u]? = m.entries[u]? := rfl

theorem uri_of_getElem? (h : m[u]? = some f) : f.uri = u := m.uri_eq h

theorem ext {m n : FileMap} (h : ∀ u : Url, m[u]? = n[u]?) : m = n := by
  cases m
  cases n
  congr
  exact Std.ExtTreeMap.ext_getElem? fun u => h u

@[simp] theorem getElem?_empty : (∅ : FileMap)[u]? = none :=
  Std.ExtTreeMap.getElem?_empty

theorem getElem?_put : (m.put f)[u]? = if f.uri = u then some f else m[u]? := by
  simp only [getElem?_eq, put, Std.ExtTreeMap.getElem?_insert, Std.LawfulEqCmp.compare_eq_iff_eq]

theorem getElem?_erase : (m.erase v)[u]? = if v = u then none else m[u]? := by
  simp only [getElem?_eq, erase, Std.ExtTreeMap.getElem?_erase, Std.LawfulEqCmp.compare_eq_iff_eq]

theorem contains_eq_isSome : m.contains u = m[u]?.isSome :=
  Std.ExtTreeMap.contains_eq_isSome_getElem?

theorem contains_iff : m.contains u = true ↔ ∃ f, m[u]? = some f := by
  rw [contains_eq_isSome, Option.isSome_iff_exists]

theorem mem_keys_iff : u ∈ m.keys ↔ ∃ f, m[u]? = some f := by
  rw [← contains_iff, contains, keys, Std.ExtTreeMap.mem_keys, Std.ExtTreeMap.mem_iff_contains]

theorem mem_values_iff : f ∈ m.values ↔ m[f.uri]? = some f := by
  rw [values, values_eq_map_toList, List.mem_map]
  constructor
  · rintro ⟨⟨u, f⟩, hmem, rfl⟩
    have hf := Std.ExtTreeMap.mem_toList_iff_getElem?_eq_some.1 hmem
    rwa [← m.uri_eq hf] at hf
  · intro hf
    exact ⟨(f.uri, f), Std.ExtTreeMap.mem_toList_iff_getElem?_eq_some.2 hf, rfl⟩

theorem nodup_keys (m : FileMap) : m.keys.Nodup := Std.ExtTreeMap.nodup_keys

theorem length_keys (m : FileMap) : m.keys.length = m.size := Std.ExtTreeMap.length_keys

@[simp] theorem size_empty : (∅ : FileMap).size = 0 := Std.ExtTreeMap.size_empty

theorem size_put (h : m[f.uri]? = none) : (m.put f).size = m.size + 1 := by
  have hmem : m.contains f.uri = false := by rw [contains_eq_isSome, h]; rfl
  rw [contains] at hmem
  simp only [size, put, Std.ExtTreeMap.size_insert, hmem, Bool.false_eq_true, if_false]

end FileMap

end ModuleGraph
