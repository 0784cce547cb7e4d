import ModuleGraph.Digest.Blake3
import ModuleGraph.Source.Scan
import ModuleGraph.Url.Basic

/-!
# Source files

A source file is a text under a URL, with the digest of the text and the modules it declares. All
of it follows from URL and text: the fields that say so are part of the type, and `SourceFile.parse`
is the only way to make one. An edit makes another file with another digest, and with it other
declarations.

A declaration is known by its `DeclarationId`: the file's URL, the digest of the text it was found
in, and its place among the declarations of the text. Ids are ordered in this order of fields.
-/

namespace ModuleGraph

/-! ## Digests of contents -/

/-- The BLAKE3 digest of some bytes, as 64 hexadecimal digits. -/
structure ContentHash where
  hex : String
  deriving DecidableEq, Repr, Hashable

namespace ContentHash

instance : Ord ContentHash := ⟨fun a b => compare a.hex b.hex⟩

theorem compare_eq (a b : ContentHash) : compare a b = compare a.hex b.hex := rfl

instance : Std.TransOrd ContentHash where
  eq_swap {a b} := by
    rw [compare_eq, compare_eq]
    exact Std.OrientedOrd.eq_swap
  isLE_trans {a b c} h₁ h₂ := by
    rw [compare_eq] at h₁ h₂ ⊢
    exact Std.TransOrd.isLE_trans h₁ h₂

instance : Std.LawfulEqOrd ContentHash where
  compare_self {a} := by
    rw [compare_eq]
    exact Std.ReflOrd.compare_self
  eq_of_compare {a b} h := by
    rw [compare_eq] at h
    have := Std.LawfulEqOrd.eq_of_compare h
    cases a
    cases b
    simp_all

/-- The digest of bytes. -/
def ofBytes (bytes : List UInt8) : ContentHash :=
  ⟨Hex.ofBytes (Digest.Blake3.hash bytes)⟩

/-- The digest of a text's bytes. -/
def ofText (text : String) : ContentHash :=
  ofBytes (Utf8.bytesOf text)

/-- The first eight digits, which tell digests apart in messages. -/
def short (h : ContentHash) : String :=
  String.ofList (h.hex.toList.take 8)

end ContentHash

/-! ## Declarations -/

/-- What a declaration is known by. -/
structure DeclarationId where
  uri : Url
  digest : ContentHash
  index : Nat
  deriving DecidableEq, Repr, Hashable

namespace DeclarationId

instance : Ord DeclarationId where
  compare :=
    compareLex (compareOn (·.uri)) (compareLex (compareOn (·.digest)) (compareOn (·.index)))

instance : Std.TransOrd DeclarationId :=
  inferInstanceAs (Std.TransCmp (compareLex (compareOn DeclarationId.uri)
    (compareLex (compareOn DeclarationId.digest) (compareOn DeclarationId.index))))

instance : Std.LawfulEqOrd DeclarationId where
  eq_of_compare {a b} h := by
    have h : compareLex (compareOn DeclarationId.uri) (compareLex (compareOn DeclarationId.digest)
      (compareOn DeclarationId.index)) a b = .eq := h
    simp only [compareLex_eq_eq, compareOn] at h
    cases a
    cases b
    simp_all

/-- The id as messages show it. -/
def render (id : DeclarationId) : String :=
  id.uri.text ++ "#" ++ toString id.index ++ "@" ++ id.digest.short

end DeclarationId

/-- A module that a file declares. -/
structure Declaration where
  id : DeclarationId
  symbol : String
  path : Except Failure String
  span : Span
  deriving Repr

/-! ## Files -/

/-- The declarations that statements make in the file of a URL and a digest. -/
def declarationsOf (uri : Url) (digest : ContentHash) (statements : List Statement) :
    List Declaration :=
  statements.zipIdx.map fun (s, i) => ⟨⟨uri, digest, i⟩, s.symbol, s.path, s.span⟩

/-- A source file. -/
structure SourceFile where
  uri : Url
  text : String
  digest : ContentHash
  declarations : List Declaration
  digest_eq : digest = ContentHash.ofText text
  declarations_eq : declarations = declarationsOf uri digest (scan text)

namespace SourceFile

/-- The file of a URL and a text. -/
def parse (uri : Url) (text : String) : SourceFile :=
  let digest := ContentHash.ofText text
  ⟨uri, text, digest, declarationsOf uri digest (scan text), rfl, rfl⟩

/-- A file is what its URL and its text make of it. -/
theorem eq_parse (f : SourceFile) : f = parse f.uri f.text := by
  obtain ⟨uri, text, digest, declarations, hd, hs⟩ := f
  subst hd
  subst hs
  rfl

/-- The declaration of this very text with the given id. -/
def declaration? (f : SourceFile) (id : DeclarationId) : Option Declaration :=
  if id.uri = f.uri ∧ id.digest = f.digest then f.declarations[id.index]? else none

/-! ## Declarations by their ids -/

variable {f : SourceFile} {d : Declaration} {id : DeclarationId} {i : Nat}

/-- The id of a declaration is its place in the file. -/
theorem id_of_getElem? (h : f.declarations[i]? = some d) : d.id = ⟨f.uri, f.digest, i⟩ := by
  rw [f.declarations_eq, declarationsOf, List.getElem?_map, List.getElem?_zipIdx] at h
  simp only [Option.map_map, Option.map_eq_some_iff, Function.comp_apply, Nat.zero_add] at h
  obtain ⟨s, -, rfl⟩ := h
  rfl

theorem id_uri_of_mem (h : d ∈ f.declarations) : d.id.uri = f.uri := by
  obtain ⟨i, hi⟩ := List.mem_iff_getElem?.1 h
  rw [id_of_getElem? hi]

theorem id_digest_of_mem (h : d ∈ f.declarations) : d.id.digest = f.digest := by
  obtain ⟨i, hi⟩ := List.mem_iff_getElem?.1 h
  rw [id_of_getElem? hi]

theorem declaration?_of_mem (h : d ∈ f.declarations) : f.declaration? d.id = some d := by
  obtain ⟨i, hi⟩ := List.mem_iff_getElem?.1 h
  rw [declaration?, id_of_getElem? hi]
  simpa using hi

theorem id_of_declaration? (h : f.declaration? id = some d) : d.id = id := by
  rw [declaration?] at h
  split at h
  · next hid =>
    rw [id_of_getElem? h, ← hid.1, ← hid.2]
  · cases h

theorem mem_of_declaration? (h : f.declaration? id = some d) : d ∈ f.declarations := by
  rw [declaration?] at h
  split at h
  · exact List.mem_of_getElem? h
  · cases h

/-- The ids of a file's declarations differ in their places. -/
theorem nodup_ids (f : SourceFile) : (f.declarations.map (·.id)).Nodup := by
  have hids : f.declarations.map (·.id) =
      (List.range' 0 (scan f.text).length).map (⟨f.uri, f.digest, ·⟩) := by
    rw [f.declarations_eq, declarationsOf, List.map_map, ← List.zipIdx_map_snd, List.map_map]
    rfl
  rw [hids, List.Nodup, List.pairwise_map]
  exact List.Pairwise.imp (fun hne h => hne (congrArg DeclarationId.index h))
    (List.nodup_range' _)

/-- No two declarations of a file have the same id. -/
theorem eq_of_id_eq {e : Declaration} (hd : d ∈ f.declarations) (he : e ∈ f.declarations)
    (h : d.id = e.id) : d = e := by
  have := declaration?_of_mem hd
  rw [h, declaration?_of_mem he] at this
  exact (Option.some.inj this).symm

end SourceFile

end ModuleGraph
