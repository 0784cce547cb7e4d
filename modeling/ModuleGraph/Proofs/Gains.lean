import ModuleGraph.Proofs.Places

/-!
# Files that come to a disk

What a step adds to the files of a disk is said as a frame: a file that is there
after the step was there before it with the same bytes, or is one of those that
the step may add. Making directories adds none. Writing adds the file it writes,
and moving adds the file it moves under its new name, both at the places that
their paths lead to.
-/

namespace ModuleGraph.Disk

/-- The bytes of the file at a place. -/
def file? (d : Disk) (q : Place) : Option (List UInt8) :=
  match d.node? q with
  | some (.file bytes) => some bytes
  | _ => none

/-- Files that are on the second disk and not on the first one may be added. -/
def Gains (may : Place → List UInt8 → Prop) (d d' : Disk) : Prop :=
  ∀ q bytes, d'.file? q = some bytes → d.file? q = some bytes ∨ may q bytes

variable {d d' d'' : Disk} {cwd q place : Place} {n : DiskNode} {p source target : DiskPath}
  {bytes : List UInt8} {may may' : Place → List UInt8 → Prop} {c : DiskChange}
  {rest : List DiskChange}

namespace Gains

theorem refl : Gains may d d := fun _ _ h => .inl h

theorem mono (h : Gains may d d') (hmay : ∀ q bytes, may q bytes → may' q bytes) :
    Gains may' d d' := fun q bytes hfile => (h q bytes hfile).imp_right (hmay q bytes)

theorem trans (h : Gains may d d') (h' : Gains may d' d'') : Gains may d d'' :=
  fun q bytes hfile => (h' q bytes hfile).elim (h q bytes) .inr

end Gains

/-! ## Single nodes -/

theorem node?_set :
    (d.set place n).node? q = if place = q ∧ q ≠ [] then some n else d.node? q := by
  rw [node?, node?, set]
  cases q with
  | nil => simp
  | cons name rest =>
    simp only [List.isEmpty_cons, Bool.false_eq_true, if_false, Std.ExtTreeMap.getElem?_insert,
      Std.LawfulEqCmp.compare_eq_iff_eq, ne_eq, reduceCtorEq, not_false_eq_true, and_true]

theorem node?_erase :
    (d.erase place).node? q = if place = q ∧ q ≠ [] then none else d.node? q := by
  rw [node?, node?, erase]
  cases q with
  | nil => simp
  | cons name rest =>
    simp only [List.isEmpty_cons, Bool.false_eq_true, if_false, Std.ExtTreeMap.getElem?_erase,
      Std.LawfulEqCmp.compare_eq_iff_eq, ne_eq, reduceCtorEq, not_false_eq_true, and_true]

theorem file?_eq_some_iff : d.file? q = some bytes ↔ d.node? q = some (.file bytes) := by
  rw [file?]
  split
  · next h => simp [h]
  · next h => simpa using fun hnode => h bytes hnode

theorem gains_set : Gains (fun q bytes => q = place ∧ n = .file bytes) d (d.set place n) := by
  intro q bytes hfile
  rw [file?_eq_some_iff, node?_set] at hfile
  split at hfile
  · next hq => exact .inr ⟨hq.1.symm, Option.some.inj hfile⟩
  · exact .inl (file?_eq_some_iff.2 hfile)

theorem gains_erase : Gains may d (d.erase place) := by
  intro q bytes hfile
  rw [file?_eq_some_iff, node?_erase] at hfile
  split at hfile
  · cases hfile
  · exact .inl (file?_eq_some_iff.2 hfile)

/-! ## Directories -/

theorem gains_makeDirectory (h : d.makeDirectory cwd p = .ok d') : Gains may d d' := by
  rw [makeDirectory] at h
  cases hplace : d.placeFor cwd p with
  | error e => rw [hplace] at h; cases h
  | ok place =>
    rw [hplace] at h
    simp only [bind, Except.bind, pure, Except.pure] at h
    split at h
    · cases h
    · cases h
      exact gains_set.mono fun _ _ h => nomatch h.2

theorem gains_ensureDirectory : Gains may d (d.ensureDirectory cwd p).1 := by
  rw [ensureDirectory]
  split
  · next h => exact gains_makeDirectory h
  · exact .refl

theorem gains_makeDirectories (ps : List DiskPath) :
    Gains may d (d.makeDirectories cwd ps).1 := by
  induction ps generalizing d with
  | nil => exact .refl
  | cons p above ih =>
    rw [makeDirectories]
    split
    · exact .refl
    · have hensured : Gains may d (d.ensureDirectory cwd p).1 := gains_ensureDirectory
      split
      · next d₁ hd₁ =>
        rw [hd₁] at hensured
        have habove := ih (d := d₁)
        split
        · next d₂ hd₂ =>
          rw [hd₂] at habove
          exact (hensured.trans habove).trans gains_ensureDirectory
        · next d₂ e hd₂ =>
          rw [hd₂] at habove
          exact hensured.trans habove
      · exact hensured

/-! ## Files -/

theorem write_eq (h : d.write cwd p bytes = .ok d') :
    d' = d.set (Disk.place cwd p) (.file bytes) := by
  rw [write] at h
  cases hplace : d.placeFor cwd p with
  | error e => rw [hplace] at h; cases h
  | ok place =>
    rw [hplace] at h
    simp only [bind, Except.bind, pure, Except.pure] at h
    split at h
    · cases h
    · cases h
      rw [placeFor_eq hplace]

theorem readBytes_eq (h : d.readBytes cwd p = .ok bytes) :
    d.file? (Disk.place cwd p) = some bytes := by
  rw [readBytes] at h
  cases hfind : d.find cwd p with
  | error e => rw [hfind] at h; cases h
  | ok place =>
    rw [hfind] at h
    simp only [bind, Except.bind] at h
    split at h
    · next hnode =>
      cases h
      rw [← find_eq hfind, file?_eq_some_iff, hnode]
    · cases h

theorem rename_eq (h : d.rename cwd source target = .ok d') :
    ∃ bytes, d.file? (Disk.place cwd source) = some bytes ∧
      d' = (d.erase (Disk.place cwd source)).set (Disk.place cwd target) (.file bytes) := by
  rw [rename] at h
  cases hread : d.readBytes cwd source with
  | error e => rw [hread] at h; cases h
  | ok bytes =>
    cases hplace : d.placeFor cwd target with
    | error e => rw [hread, hplace] at h; cases h
    | ok place =>
      cases hfind : d.find cwd source with
      | error e =>
        rw [hread, hplace, hfind] at h
        simp only [bind, Except.bind] at h
        split at h <;> cases h
      | ok found =>
        rw [hread, hplace, hfind] at h
        simp only [bind, Except.bind, pure, Except.pure] at h
        split at h
        · cases h
        · cases h
          exact ⟨bytes, readBytes_eq hread, by rw [placeFor_eq hplace, find_eq hfind]⟩

theorem gains_write (h : d.write cwd p bytes = .ok d') :
    Gains (fun q b => q = Disk.place cwd p ∧ b = bytes) d d' := by
  rw [write_eq h]
  exact gains_set.mono fun q b h => ⟨h.1, (DiskNode.file.inj h.2).symm⟩

theorem gains_rename (h : d.rename cwd source target = .ok d') :
    Gains (fun q b => q = Disk.place cwd target ∧ d.file? (Disk.place cwd source) = some b)
      d d' := by
  obtain ⟨bytes, hbytes, rfl⟩ := rename_eq h
  refine gains_erase.trans (gains_set.mono fun q b h => ⟨h.1, ?_⟩)
  rw [hbytes, DiskNode.file.inj h.2]

/-- A file that was just written holds what was written. -/
theorem eq_of_perform_write {written : List UInt8}
    (h : d.perform cwd (.write p written) = (d', .ok ()))
    (hfile : d'.file? (Disk.place cwd p) = some bytes) : bytes = written := by
  rw [perform] at h
  split at h
  · next d₁ hwrite =>
    obtain rfl := (Prod.mk.inj h).1
    rw [write_eq hwrite, file?_eq_some_iff, node?_set] at hfile
    split at hfile
    · exact (DiskNode.file.inj (Option.some.inj hfile)).symm
    · next hnot =>
      have hroot : Disk.place cwd p = [] := Decidable.not_not.1 fun hne => hnot ⟨rfl, hne⟩
      rw [hroot] at hfile
      cases hfile
  · cases (Prod.mk.inj h).2

/-! ## Steps in a row -/

theorem gains_perform_makeDirectories :
    Gains may d (d.perform cwd (.makeDirectories p)).1 :=
  gains_makeDirectories p.ancestors

theorem gains_perform_write :
    Gains (fun q b => q = Disk.place cwd p ∧ b = bytes) d (d.perform cwd (.write p bytes)).1 := by
  rw [perform]
  split
  · next h => exact gains_write h
  · exact .refl

theorem gains_perform_rename :
    Gains (fun q b => q = Disk.place cwd target ∧ d.file? (Disk.place cwd source) = some b)
      d (d.perform cwd (.rename source target)).1 := by
  rw [perform]
  split
  · next h => exact gains_rename h
  · exact .refl

/-- What a list of steps may add, its first step or, when that one is done, the others may. -/
theorem gains_performAll_cons (hc : Gains may d (d.perform cwd c).1)
    (hrest : ∀ d', d.perform cwd c = (d', .ok ()) → Gains may d' (d'.performAll cwd rest).1) :
    Gains may d (d.performAll cwd (c :: rest)).1 := by
  rw [performAll]
  split
  · next d' hd' =>
    rw [hd'] at hc
    exact hc.trans (hrest d' hd')
  · next d' e hd' =>
    rw [hd'] at hc
    exact hc

end ModuleGraph.Disk
