import ModuleGraph.Proofs.Gains

/-!
# Steps that are broken off

A program that changes a disk can end at any moment. `Leaves` says what a list of
steps can then leave: some of them are done, and the next one has failed, has not
begun, or is broken off. Directories are made from the outermost one on, so that
some of them are there; a file is written from its start on, so that it holds a
part of its bytes; a file is moved at once or not at all.

Whatever is left differs from what was there only at the places that the steps
write to, and no directory goes away (`Within`). A path that leads to a directory
then keeps leading there (`walk_within`).
-/

namespace ModuleGraph.Disk

variable {d d' d'' : Disk} {cwd here q D : Place} {p source target : DiskPath}
  {bytes : List UInt8} {touched touched' : Place → Prop} {c : DiskChange}
  {cs pre post : List DiskChange} {names more : List (List UInt8)} {n : DiskNode}

/-- What a step leaves that is broken off. -/
inductive Cut (cwd : Place) (d : Disk) : DiskChange → Disk → Prop where
  | directories {p : DiskPath} {above : List DiskPath} (h : above <:+ p.ancestors) :
      Cut cwd d (.makeDirectories p) (d.makeDirectories cwd above).1
  | bytes {p : DiskPath} {bytes part : List UInt8} {d' : Disk} (h : part <+: bytes)
      (hwrite : d.write cwd p part = .ok d') : Cut cwd d (.write p bytes) d'

/-- What steps leave, wherever they stop. -/
inductive Leaves (cwd : Place) : List DiskChange → Disk → Disk → Prop where
  | stops {cs : List DiskChange} {d : Disk} : Leaves cwd cs d d
  | fails {c : DiskChange} {cs : List DiskChange} {d d' : Disk} {e : OsError}
      (h : d.perform cwd c = (d', .error e)) : Leaves cwd (c :: cs) d d'
  | cut {c : DiskChange} {cs : List DiskChange} {d d' : Disk} (h : Cut cwd d c d') :
      Leaves cwd (c :: cs) d d'
  | goes {c : DiskChange} {cs : List DiskChange} {d d' d'' : Disk}
      (h : d.perform cwd c = (d', .ok ())) (hrest : Leaves cwd cs d' d'') :
      Leaves cwd (c :: cs) d d''

/-- Steps that are not broken off leave what they come to. -/
theorem leaves_performAll : Leaves cwd cs d (d.performAll cwd cs).1 := by
  induction cs generalizing d with
  | nil => exact .stops
  | cons c cs ih =>
    rw [performAll]
    split
    · next h => exact .goes h ih
    · next h => exact .fails h

/-- Steps stop in the first of two lists, or that one is done. -/
theorem leaves_append (h : Leaves cwd (pre ++ post) d d') :
    Leaves cwd pre d d' ∨ ∃ d₁, d.performAll cwd pre = (d₁, .ok ()) ∧ Leaves cwd post d₁ d' := by
  induction pre generalizing d with
  | nil => exact .inr ⟨d, rfl, h⟩
  | cons c pre ih =>
    cases h with
    | stops => exact .inl .stops
    | fails h => exact .inl (.fails h)
    | cut h => exact .inl (.cut h)
    | goes h hrest =>
      refine (ih hrest).imp (.goes h) ?_
      rintro ⟨d₁, hdone, hpost⟩
      exact ⟨d₁, by rw [performAll, h]; exact hdone, hpost⟩

/-- Steps that stop in the first of two lists stop before the second one. -/
theorem leaves_append_left (h : Leaves cwd pre d d') : Leaves cwd (pre ++ post) d d' := by
  induction h with
  | stops => exact .stops
  | fails h => exact .fails h
  | cut h => exact .cut h
  | goes h _ ih => exact .goes h ih

theorem performAll_cons_ok (h : d.performAll cwd (c :: cs) = (d', .ok ())) :
    ∃ d₁, d.perform cwd c = (d₁, .ok ()) ∧ d₁.performAll cwd cs = (d', .ok ()) := by
  rw [performAll] at h
  split at h
  · next d₁ hc => exact ⟨d₁, hc, h⟩
  · cases (Prod.mk.inj h).2

theorem write_of_perform (h : d.perform cwd (.write p bytes) = (d', .ok ())) :
    d.write cwd p bytes = .ok d' := by
  rw [perform] at h
  split at h
  · next hwrite => rw [hwrite, (Prod.mk.inj h).1]
  · cases (Prod.mk.inj h).2

theorem rename_of_perform (h : d.perform cwd (.rename source target) = (d', .ok ())) :
    d.rename cwd source target = .ok d' := by
  rw [perform] at h
  split at h
  · next hrename => rw [hrename, (Prod.mk.inj h).1]
  · cases (Prod.mk.inj h).2

/-- A step that fails changes nothing, unless it makes directories. -/
theorem eq_of_perform_error {e : OsError} (hc : ∀ p, c ≠ .makeDirectories p)
    (h : d.perform cwd c = (d', .error e)) : d' = d := by
  cases c with
  | makeDirectories p => exact absurd rfl (hc p)
  | write p bytes =>
    rw [perform] at h
    split at h
    · cases (Prod.mk.inj h).2
    · exact (Prod.mk.inj h).1.symm
  | rename source target =>
    rw [perform] at h
    split at h
    · cases (Prod.mk.inj h).2
    · exact (Prod.mk.inj h).1.symm

/-! ## What changes -/

/-- Files are as they were except at some places, and directories stay. -/
structure Within (touched : Place → Prop) (d d' : Disk) : Prop where
  files : ∀ q, ¬ touched q → d'.file? q = d.file? q
  directories : ∀ q, d.isDirectory q = true → d'.isDirectory q = true

namespace Within

theorem refl : Within touched d d := ⟨fun _ _ => rfl, fun _ => id⟩

theorem mono (h : Within touched d d') (hmore : ∀ q, touched q → touched' q) :
    Within touched' d d' :=
  ⟨fun q hq => h.files q fun hq' => hq (hmore q hq'), h.directories⟩

theorem trans (h : Within touched d d') (h' : Within touched d' d'') : Within touched d d'' :=
  ⟨fun q hq => (h'.files q hq).trans (h.files q hq),
    fun q hq => h'.directories q (h.directories q hq)⟩

end Within

/-- The places of the files that a step writes or moves. -/
def touches (cwd : Place) : DiskChange → Place → Prop
  | .makeDirectories _, _ => False
  | .write p _, q => q = place cwd p
  | .rename source target, q => q = place cwd source ∨ q = place cwd target

theorem isDirectory_iff : d.isDirectory q = true ↔ d.node? q = some .directory := by
  rw [isDirectory, beq_iff_eq]

theorem file?_congr (h : d'.node? q = d.node? q) : d'.file? q = d.file? q := by
  rw [file?, file?, h]

theorem ne_of_isDirectory {q' : Place} (h : d.isDirectory q = false)
    (h' : d.isDirectory q' = true) : q ≠ q' := by
  rintro rfl
  rw [h] at h'
  cases h'

theorem within_set (hold : d.isDirectory q = false) :
    Within (· = q) d (d.set q (.file bytes)) where
  files q' hq := file?_congr (by rw [node?_set, if_neg fun h => hq h.1.symm])
  directories q' hq := by
    have hne : q ≠ q' := ne_of_isDirectory hold hq
    rw [isDirectory_iff] at hq ⊢
    rw [node?_set, if_neg fun h => hne h.1, hq]

theorem within_erase (hold : d.isDirectory q = false) : Within (· = q) d (d.erase q) where
  files q' hq := file?_congr (by rw [node?_erase, if_neg fun h => hq h.1.symm])
  directories q' hq := by
    have hne : q ≠ q' := ne_of_isDirectory hold hq
    rw [isDirectory_iff] at hq ⊢
    rw [node?_erase, if_neg fun h => hne h.1, hq]

theorem within_makeDirectory (h : d.makeDirectory cwd p = .ok d') : Within touched d d' := by
  rw [makeDirectory] at h
  cases hplace : d.placeFor cwd p with
  | error e => rw [hplace] at h; cases h
  | ok place =>
    rw [hplace] at h
    simp only [bind, Except.bind, pure, Except.pure] at h
    split at h
    · cases h
    · next hnone =>
      cases h
      rw [Bool.not_eq_true, Option.isSome_eq_false_iff, Option.isNone_iff_eq_none] at hnone
      constructor
      · intro q _
        by_cases hq : place = q ∧ q ≠ []
        · rw [file?, file?, node?_set, if_pos hq, ← hq.1, hnone]
        · exact file?_congr (by rw [node?_set, if_neg hq])
      · intro q hq
        rw [isDirectory_iff] at hq ⊢
        rw [node?_set]
        split
        · rfl
        · exact hq

theorem within_ensureDirectory : Within touched d (d.ensureDirectory cwd p).1 := by
  rw [ensureDirectory]
  split
  · next h => exact within_makeDirectory h
  · exact .refl

theorem within_makeDirectories (ps : List DiskPath) :
    Within touched d (d.makeDirectories cwd ps).1 := by
  induction ps generalizing d with
  | nil => exact .refl
  | cons p above ih =>
    rw [makeDirectories]
    split
    · exact .refl
    · have hensured : Within touched d (d.ensureDirectory cwd p).1 := within_ensureDirectory
      split
      · next d₁ hd₁ =>
        rw [hd₁] at hensured
        have habove := ih (d := d₁)
        split
        · next d₂ hd₂ =>
          rw [hd₂] at habove
          exact (hensured.trans habove).trans within_ensureDirectory
        · next d₂ e hd₂ =>
          rw [hd₂] at habove
          exact hensured.trans habove
      · exact hensured

/-- A file is not written in place of a directory. -/
theorem isDirectory_of_write (h : d.write cwd p bytes = .ok d') :
    d.isDirectory (place cwd p) = false := by
  rw [write] at h
  cases hplace : d.placeFor cwd p with
  | error e => rw [hplace] at h; cases h
  | ok place =>
    rw [hplace] at h
    simp only [bind, Except.bind, pure, Except.pure] at h
    split at h
    · cases h
    · next hnot =>
      rw [Bool.or_eq_true, not_or, Bool.not_eq_true, Bool.not_eq_true] at hnot
      rw [← placeFor_eq hplace]
      exact hnot.2

theorem isDirectory_of_file? (h : d.file? q = some bytes) : d.isDirectory q = false := by
  rw [file?_eq_some_iff] at h
  rw [isDirectory, h]
  rfl

/-- A file is moved to a directory that is there, and not in place of one. -/
theorem target_of_rename (h : d.rename cwd source target = .ok d') :
    d.isDirectory (place cwd target) = false ∧ ∃ place, d.placeFor cwd target = .ok place := by
  rw [rename] at h
  cases hread : d.readBytes cwd source with
  | error e => rw [hread] at h; cases h
  | ok bytes =>
    cases hplace : d.placeFor cwd target with
    | error e => rw [hread, hplace] at h; cases h
    | ok place =>
      rw [hread, hplace] at h
      simp only [bind, Except.bind] at h
      split at h
      · cases h
      · next hnot =>
        rw [← placeFor_eq hplace]
        exact ⟨Bool.not_eq_true _ ▸ hnot, place, rfl⟩

theorem within_write (h : d.write cwd p bytes = .ok d') : Within (· = place cwd p) d d' := by
  rw [write_eq h]
  exact within_set (isDirectory_of_write h)

theorem within_rename (h : d.rename cwd source target = .ok d') :
    Within (fun q => q = place cwd source ∨ q = place cwd target) d d' := by
  obtain ⟨bytes, hbytes, hd'⟩ := rename_eq h
  have herase := within_erase (isDirectory_of_file? hbytes)
  have htarget : (d.erase (place cwd source)).isDirectory (place cwd target) = false := by
    rw [isDirectory, node?_erase]
    split
    · rfl
    · exact (target_of_rename h).1
  rw [hd']
  exact (herase.mono fun q hq => .inl hq).trans ((within_set htarget).mono fun q hq => .inr hq)

theorem within_perform : Within (touches cwd c) d (d.perform cwd c).1 := by
  cases c with
  | makeDirectories p => exact within_makeDirectories p.ancestors
  | write p bytes =>
    rw [perform]
    split
    · next h => exact within_write h
    · exact .refl
  | rename source target =>
    rw [perform]
    split
    · next h => exact within_rename h
    · exact .refl

theorem within_cut (h : Cut cwd d c d') : Within (touches cwd c) d d' := by
  cases h with
  | directories => exact within_makeDirectories _
  | bytes _ hwrite => exact within_write hwrite

/-- What steps leave is within the places that they write to. -/
theorem within_leaves (h : Leaves cwd cs d d') :
    Within (fun q => ∃ c ∈ cs, touches cwd c q) d d' := by
  induction h with
  | stops => exact .refl
  | @fails c cs d d' e h =>
    have hperform : Within (touches cwd c) d (d.perform cwd c).1 := within_perform
    rw [h] at hperform
    exact hperform.mono fun q hq => ⟨c, List.mem_cons_self .., hq⟩
  | cut h => exact (within_cut h).mono fun q hq => ⟨_, List.mem_cons_self .., hq⟩
  | @goes c cs d d' d'' h hrest ih =>
    have hperform : Within (touches cwd c) d (d.perform cwd c).1 := within_perform
    rw [h] at hperform
    refine (hperform.mono fun q hq => ⟨c, List.mem_cons_self .., hq⟩).trans (ih.mono ?_)
    rintro q ⟨c', hc', hq⟩
    exact ⟨c', List.mem_cons_of_mem _ hc', hq⟩

/-! ## Paths that keep leading to a directory -/

theorem walk_append :
    d.walk here (names ++ more) = (d.walk here names).bind fun middle => d.walk middle more := by
  induction names generalizing here with
  | nil => rfl
  | cons name names ih =>
    rw [List.cons_append, walk, walk]
    split
    · rfl
    · split
      · exact ih
      · split
        · exact ih
        · split
          · rfl
          · split
            · exact ih
            · rfl

theorem walk_append_eq_ok : d.walk here (names ++ more) = .ok q ↔
    ∃ middle, d.walk here names = .ok middle ∧ d.walk middle more = .ok q := by
  rw [walk_append]
  cases d.walk here names with
  | error e => simp [Except.bind]
  | ok middle => simp [Except.bind]

/-- A name that is not dots leads one directory down. -/
theorem walk_cons_eq_ok {name : List UInt8} (hdot : name ≠ [DiskPath.dotByte])
    (hdots : name ≠ [DiskPath.dotByte, DiskPath.dotByte]) :
    d.walk here (name :: names) = .ok q ↔ d.isDirectory here = true ∧ name.length ≤ maxName ∧
      (d.node? (here ++ [name])).isSome = true ∧ d.walk (here ++ [name]) names = .ok q := by
  rw [walk, if_neg hdot, if_neg hdots]
  constructor
  · intro h
    split at h
    · cases h
    · next hhere =>
      split at h
      · cases h
      · next hshort =>
        split at h
        · next hthere => exact ⟨by simpa using hhere, by omega, hthere, h⟩
        · cases h
  · rintro ⟨hhere, hshort, hthere, h⟩
    rw [hhere, hthere, if_neg (by omega : ¬ maxName < name.length)]
    exact h

theorem isDirectory_of_walk (h : d.walk here names = .ok q) (hq : d.isDirectory q = true) :
    d.isDirectory here = true := by
  cases names with
  | nil =>
    obtain rfl := Except.ok.inj h
    exact hq
  | cons name names =>
    rw [walk] at h
    split at h
    · cases h
    · next hhere => simpa using hhere

/-- A way that ends at something that is there stays open as long as no directory goes away. -/
theorem walk_of_directories (h : d.walk here names = .ok q)
    (hdirs : ∀ q, d.isDirectory q = true → d'.isDirectory q = true)
    (hq : (d'.node? q).isSome = true) : d'.walk here names = .ok q := by
  induction names generalizing here with
  | nil => exact h
  | cons name names ih =>
    rw [walk] at h ⊢
    split at h
    · cases h
    · next hhere =>
      rw [hdirs here (by simpa using hhere)]
      split at h
      · next hdot => simpa [hdot] using ih h
      · next hdot =>
        split at h
        · next hdots => simpa [hdots] using ih h
        · next hdots =>
          split at h
          · cases h
          · next hshort =>
            split at h
            · have hthere : (d'.node? (here ++ [name])).isSome = true := by
                cases names with
                | nil =>
                  obtain rfl := Except.ok.inj h
                  exact hq
                | cons other more =>
                  -- what the way goes on from is a directory
                  have hmiddle : d.isDirectory (here ++ [name]) = true := by
                    rw [walk] at h
                    split at h
                    · cases h
                    · next hmiddle => simpa using hmiddle
                  rw [isDirectory_iff.1 (hdirs _ hmiddle)]
                  rfl
              simpa [hdot, hdots, hshort, hthere] using ih h
            · cases h

theorem walk_within (h : d.walk here names = .ok q) (hq : d.isDirectory q = true)
    (hwithin : Within touched d d') : d'.walk here names = .ok q := by
  refine walk_of_directories h hwithin.directories ?_
  rw [isDirectory_iff.1 (hwithin.directories q hq)]
  rfl

end ModuleGraph.Disk
