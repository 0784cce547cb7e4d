import ModuleGraph.Proofs.Addresses
import ModuleGraph.Proofs.Gains
import ModuleGraph.Registry.Cache

/-!
# What storing an artifact adds to a disk

The names that the cache chooses itself are ordinary, so every file of an
artifact stands right below the artifact's directory, wherever that is. Storing
adds the manifest, the record and the temporary file with whatever bytes, and
the entry file with the layer: when the temporary file is moved it still holds
what was written to it.
-/

namespace ModuleGraph.Cache

open DiskPath (IsName IsOrdinary ofString)
open Disk (Gains place)

variable {τ : Type} {cache : DiskPath} {cwd dir q : Place} {r : OciReference} {a : Artifact}
  {client : ArtifactClient τ} {host : Host τ} {processId time : Nat} {d : Disk}
  {name registry dots : String} {bytes : List UInt8} {c e : Char}

/-! ## Names -/

theorem isOrdinary_of_mem (hslash : '/' ∉ name.toList) (hc : c ∈ name.toList) (hdot : c ≠ '.') :
    IsOrdinary name where
  ne_empty h := by simp [h] at hc
  no_slash := hslash
  ne_dot h := by simp_all
  ne_dots h := by simp_all

theorem isOrdinary_entryName : IsOrdinary entryName :=
  isOrdinary_of_mem (c := 'm') (by decide) (by decide) (by decide)

theorem isOrdinary_manifestName : IsOrdinary manifestName :=
  isOrdinary_of_mem (c := 'm') (by decide) (by decide) (by decide)

theorem isOrdinary_metadataName : IsOrdinary metadataName :=
  isOrdinary_of_mem (c := 'm') (by decide) (by decide) (by decide)

theorem toList_temporaryName :
    (temporaryName processId).toList =
      entryName.toList ++ ['.'] ++ (toString processId).toList ++ ['.', 't', 'm', 'p'] := by
  simp only [temporaryName, String.toList_append]
  rfl

theorem isOrdinary_temporaryName : IsOrdinary (temporaryName processId) := by
  refine isOrdinary_of_mem (c := 'm') ?_ ?_ (by decide)
  · rw [toList_temporaryName]
    have hentry : '/' ∉ entryName.toList := by decide
    simp only [List.mem_append, not_or]
    exact ⟨⟨⟨hentry, by decide⟩, slash_not_mem_toString _⟩, by decide⟩
  · rw [toList_temporaryName]
    simp

theorem temporaryName_ne_entryName : temporaryName processId ≠ entryName := fun h => by
  have hlength := congrArg List.length (String.toList_inj.2 h)
  rw [toList_temporaryName] at hlength
  simp only [List.length_append, List.length_cons] at hlength
  omega

theorem toLower_cases (c : Char) :
    c.toLower = c ∧ ¬ (0x41 ≤ c.toNat ∧ c.toNat ≤ 0x5A) ∨
      c.toLower.toNat = c.toNat + 0x20 ∧ 0x41 ≤ c.toNat ∧ c.toNat ≤ 0x5A := by
  have hA : 'A'.val.toNat = 0x41 := rfl
  have hZ : 'Z'.val.toNat = 0x5A := rfl
  have hgap : ('a'.val - 'A'.val).toNat = 0x20 := rfl
  by_cases hupper : c.val ≥ 'A'.val ∧ c.val ≤ 'Z'.val
  · have hlower : c.toLower.val = c.val + ('a'.val - 'A'.val) := congrArg Char.val (dif_pos hupper)
    have hlow : 0x41 ≤ c.val.toNat := hA ▸ hupper.1
    have hhigh : c.val.toNat ≤ 0x5A := hZ ▸ hupper.2
    have hsum : c.toLower.val.toNat = c.val.toNat + 0x20 := by
      rw [hlower, UInt32.toNat_add, hgap]
      omega
    exact .inr ⟨hsum, hlow, hhigh⟩
  · exact .inl ⟨dif_neg hupper, hupper⟩

/-- Only a letter becomes another character in lower case. -/
theorem eq_of_toLower_eq (h : c.toLower = e) (he : e.toNat < 0x61) : c = e := by
  subst h
  rcases toLower_cases c with ⟨hsame, -⟩ | hup
  · exact hsame.symm
  · omega

theorem toLower_toLower (c : Char) : c.toLower.toLower = c.toLower := by
  rcases toLower_cases c with ⟨hsame, -⟩ | hup
  · rw [hsame, hsame]
  · rcases toLower_cases c.toLower with ⟨hsame, -⟩ | hagain
    · exact hsame
    · omega

theorem toList_registryName :
    (registryName registry).toList =
      registry.toList.map fun c => if c == ':' then '$' else c.toLower :=
  String.toList_map

/-- No other registry than dots has the name of dots. -/
theorem registryName_eq_iff (hdots : ∀ c ∈ dots.toList, c = '.') :
    registryName registry = dots ↔ registry = dots := by
  have hchar (c : Char) : (if c == ':' then '$' else c.toLower) = '.' ↔ c = '.' := by
    constructor
    · intro h
      split at h
      · cases h
      · exact eq_of_toLower_eq h (by decide)
    · rintro rfl
      decide
  rw [← String.toList_inj, ← String.toList_inj, toList_registryName,
    List.eq_replicate_of_mem hdots, List.eq_replicate_iff, List.eq_replicate_iff,
    List.length_map, List.forall_mem_map]
  simp only [hchar]

theorem isName_registryName (h : IsName registry) : IsName (registryName registry) where
  ne_empty hnil := h.ne_empty ((registryName_eq_iff (by simp)).1 hnil)
  no_slash hslash := by
    rw [toList_registryName] at hslash
    obtain ⟨c, hc, heq⟩ := List.mem_map.1 hslash
    split at heq
    · cases heq
    · exact h.no_slash (eq_of_toLower_eq heq (by decide) ▸ hc)

theorem isOrdinary_registryName_iff (h : IsName registry) :
    IsOrdinary (registryName registry) ↔ registry ≠ "." ∧ registry ≠ ".." := by
  have hdot : registryName registry = "." ↔ registry = "." := registryName_eq_iff (by simp)
  have hdots : registryName registry = ".." ↔ registry = ".." := registryName_eq_iff (by simp)
  constructor
  · intro hname
    exact ⟨fun hr => hname.ne_dot (hdot.2 hr), fun hr => hname.ne_dots (hdots.2 hr)⟩
  · intro hr
    exact ⟨isName_registryName h, fun hname => hr.1 (hdot.1 hname),
      fun hname => hr.2 (hdots.1 hname)⟩

theorem isOrdinary_tag (h : r.WellFormed) : IsOrdinary (r.tag ++ "$") :=
  isOrdinary_of_mem (c := '$') (by simpa using h.tag_slash) (by simp) (by decide)

/-- The names of a directory are names, and all but the registry's are ordinary. -/
theorem isName_directoryNames (h : r.WellFormed) : ∀ name ∈ directoryNames r, IsName name := by
  intro name hname
  rw [directoryNames, List.cons_append, List.mem_cons, List.mem_append, List.mem_singleton] at hname
  rcases hname with rfl | hsegment | rfl
  · exact isName_registryName h.registry
  · exact (h.segments name hsegment).toIsName
  · exact (isOrdinary_tag h).toIsName

theorem isOrdinary_directoryNames_iff (h : r.WellFormed) :
    (∀ name ∈ directoryNames r, IsOrdinary name) ↔ r.registry ≠ "." ∧ r.registry ≠ ".." := by
  rw [← isOrdinary_registryName_iff h.registry]
  constructor
  · exact fun hall => hall _ (List.mem_cons_self ..)
  · intro hregistry name hname
    rw [directoryNames, List.cons_append, List.mem_cons, List.mem_append,
      List.mem_singleton] at hname
    rcases hname with rfl | hsegment | rfl
    · exact hregistry
    · exact h.segments name hsegment
    · exact isOrdinary_tag h

/-! ## Files of an artifact -/

theorem directory_eq : directory cache r =
    (cache.join (ofString "oci")).joinAll (directoryNames r) := rfl

/-- The place of a directory of the cache. -/
def home (cache : DiskPath) (cwd : Place) (r : OciReference) : Place :=
  place cwd (directory cache r)

theorem place_file (h : IsOrdinary name) :
    place cwd ((directory cache r).join (ofString name)) = home cache cwd r ++ [ofString name] :=
  h.toIsName.place_join.trans (h.go _)

/-- The names of the files beside the entry file. -/
def sideNames (processId : Nat) : List String :=
  [manifestName, metadataName, temporaryName processId]

theorem ne_entryName_of_mem_sideNames (h : name ∈ sideNames processId) : name ≠ entryName := by
  simp only [sideNames, List.mem_cons, List.not_mem_nil, or_false] at h
  rcases h with rfl | rfl | rfl
  · decide
  · decide
  · exact temporaryName_ne_entryName

/-- The files that storing a layer may add to a directory. -/
def Stores (dir : Place) (processId : Nat) (layer : List UInt8) (q : Place)
    (bytes : List UInt8) : Prop :=
  (∃ name ∈ sideNames processId, q = dir ++ [ofString name]) ∨
    q = dir ++ [ofString entryName] ∧ bytes = layer

theorem gains_changes :
    Gains (Stores (home cache cwd r) processId a.layer) d
      (d.performAll cwd (changes cache processId time r a)).1 := by
  have hside {name : String} {written : List UInt8} (hname : IsOrdinary name)
      (hmem : name ∈ sideNames processId) (q : Place) (b : List UInt8)
      (h : q = place cwd ((directory cache r).join (ofString name)) ∧ b = written) :
      Stores (home cache cwd r) processId a.layer q b :=
    .inl ⟨name, hmem, h.1.trans (place_file hname)⟩
  refine Disk.gains_performAll_cons Disk.gains_perform_makeDirectories fun d₁ _ => ?_
  refine Disk.gains_performAll_cons
    (Disk.gains_perform_write.mono (hside isOrdinary_manifestName (by simp [sideNames])))
    fun d₂ _ => ?_
  refine Disk.gains_performAll_cons
    (Disk.gains_perform_write.mono (hside isOrdinary_metadataName (by simp [sideNames])))
    fun d₃ _ => ?_
  refine Disk.gains_performAll_cons
    (Disk.gains_perform_write.mono (hside isOrdinary_temporaryName (by simp [sideNames])))
    fun d₄ hd₄ => ?_
  refine Disk.gains_performAll_cons (Disk.gains_perform_rename.mono fun q b h => .inr ?_)
    fun d₅ _ => Gains.refl
  -- the file that is moved was written just before
  exact ⟨h.1.trans (place_file isOrdinary_entryName), Disk.eq_of_perform_write hd₄ h.2⟩

/-- A restore leaves the disk as it is, or stores what the client gave. -/
theorem disk_restoreOne :
    (restoreOne cache client host r).2.disk = host.disk ∨
      ∃ a remote, isStored cache host r = false ∧ client.pull host.remote r = (.ok a, remote) ∧
        (restoreOne cache client host r).2.disk =
          (host.disk.performAll host.cwd (changes cache host.processId host.time r a)).1 := by
  rw [restoreOne]
  split
  · exact .inl rfl
  · next hstored =>
    split
    · exact .inl rfl
    · next a remote hpull =>
      refine .inr ⟨a, remote, by simpa using hstored, hpull, ?_⟩
      dsimp only
      split <;> rfl

end ModuleGraph.Cache
