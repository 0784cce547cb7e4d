import ModuleGraph.Linking.RestoreQueue

/-!
# First occurrences

What is restored is put together so that nothing is in it twice: one reference
for each module, one declaration for each id, one of each document. Each of the
three keeps what occurs first and leaves the order as it is, so that they are
`List.eraseDupsBy` for a key: the canonical form, the id, the document itself.

The definitions drop the repetitions of an element from what the rest has become,
and the library drops them from the rest first. The two agree because dropping
all elements of one key does not change which of the others occur first.
-/

namespace ModuleGraph

/-! ## Of a key -/

section

variable {α κ : Type} [BEq κ] [LawfulBEq κ] {key : α → κ} {kept : α → Bool}

/-- A test that only looks at the key does not change which elements occur first. -/
theorem filter_eraseDupsBy (hkept : ∀ a b, key a = key b → kept a = kept b) (l : List α) :
    (l.eraseDupsBy fun a b => key a == key b).filter kept =
      (l.filter kept).eraseDupsBy fun a b => key a == key b := by
  match l with
  | [] => rfl
  | a :: l =>
    rw [List.eraseDupsBy_cons, List.filter_cons, List.filter_cons,
      filter_eraseDupsBy hkept (l.filter _), List.filter_filter]
    split
    · rw [List.eraseDupsBy_cons, List.filter_filter]
      simp only [Bool.and_comm]
    · next hdropped =>
      -- nothing that passes the test has the key of `a`
      congr 1
      refine List.filter_congr fun b _ => ?_
      by_cases hb : key b = key a
      · simp [hkept b a hb, hdropped]
      · simp [hb]
termination_by l.length
decreasing_by exact Nat.lt_succ_of_le (List.length_filter_le ..)

theorem cons_eraseDupsBy (a : α) (l : List α) :
    ((a :: l).eraseDupsBy fun a b => key a == key b) =
      a :: (l.eraseDupsBy fun a b => key a == key b).filter fun b => !(key b == key a) := by
  rw [filter_eraseDupsBy fun b c hbc => by rw [hbc], List.eraseDupsBy_cons]
  simp only [Bool.decide_eq_false]

/-- Whatever keeps the head, and drops its key from what it makes of the tail, keeps first
occurrences. -/
theorem eq_eraseDupsBy (key : α → κ) {firsts : List α → List α} (hnil : firsts [] = [])
    (hcons : ∀ a l, firsts (a :: l) = a :: (firsts l).filter fun b => !(key b == key a))
    (l : List α) : firsts l = l.eraseDupsBy fun a b => key a == key b := by
  induction l with
  | nil => exact hnil
  | cons a l ih => rw [hcons, ih, cons_eraseDupsBy]

/-- First occurrences have different keys. -/
theorem pairwise_eraseDupsBy (key : α → κ) (l : List α) :
    (l.eraseDupsBy fun a b => key a == key b).Pairwise fun a b => key a ≠ key b := by
  induction l with
  | nil => exact .nil
  | cons a l ih =>
    rw [cons_eraseDupsBy]
    refine .cons (fun b hb heq => ?_) (ih.filter _)
    have hne := (List.mem_filter.1 hb).2
    simp [heq] at hne

theorem mem_of_mem_eraseDupsBy (key : α → κ) {a : α} {l : List α}
    (h : a ∈ l.eraseDupsBy fun a b => key a == key b) : a ∈ l := by
  induction l with
  | nil => exact h
  | cons b l ih =>
    rw [cons_eraseDupsBy] at h
    rcases List.mem_cons.1 h with rfl | h
    · exact List.mem_cons_self ..
    · exact List.mem_cons_of_mem b (ih (List.mem_filter.1 h).1)

/-- Every key that occurs has a first occurrence. -/
theorem exists_mem_eraseDupsBy (key : α → κ) {a : α} {l : List α} (h : a ∈ l) :
    ∃ b ∈ l.eraseDupsBy (fun a b => key a == key b), key b = key a := by
  induction l with
  | nil => cases h
  | cons b l ih =>
    rw [cons_eraseDupsBy]
    by_cases hb : key b = key a
    · exact ⟨b, List.mem_cons_self .., hb⟩
    · obtain ⟨c, hc, hca⟩ := ih ((List.mem_cons.1 h).resolve_left fun h => hb (h ▸ rfl))
      refine ⟨c, List.mem_cons_of_mem b (List.mem_filter.2 ⟨hc, ?_⟩), hca⟩
      simpa [hca] using Ne.symm hb

end

/-! ## Of references -/

namespace Routes

variable {r : Reference} {rs : List Reference}

theorem distinct_eq_eraseDupsBy (rs : List Reference) :
    distinct rs = rs.eraseDupsBy Reference.same :=
  eq_eraseDupsBy Reference.canonical rfl
    (fun r rs => by rw [distinct]; simp only [Reference.same, Bool.beq_comm]) rs

theorem mem_of_mem_distinct (h : r ∈ distinct rs) : r ∈ rs := by
  rw [distinct_eq_eraseDupsBy] at h
  exact mem_of_mem_eraseDupsBy Reference.canonical h

theorem exists_mem_distinct (h : r ∈ rs) : ∃ r' ∈ distinct rs, r'.same r = true := by
  rw [distinct_eq_eraseDupsBy]
  obtain ⟨r', hr', hsame⟩ := exists_mem_eraseDupsBy Reference.canonical h
  exact ⟨r', hr', Reference.same_iff.2 hsame⟩

end Routes

/-! ## Of declarations -/

section

variable {d : Declaration} {ds : List Declaration}

theorem distinctDeclarations_eq_eraseDupsBy (ds : List Declaration) :
    distinctDeclarations ds = ds.eraseDupsBy fun d e => d.id == e.id :=
  eq_eraseDupsBy Declaration.id rfl (fun _ _ => rfl) ds

theorem mem_of_mem_distinctDeclarations (h : d ∈ distinctDeclarations ds) : d ∈ ds := by
  rw [distinctDeclarations_eq_eraseDupsBy] at h
  exact mem_of_mem_eraseDupsBy Declaration.id h

theorem exists_mem_distinctDeclarations (h : d ∈ ds) :
    ∃ d' ∈ distinctDeclarations ds, d'.id = d.id := by
  rw [distinctDeclarations_eq_eraseDupsBy]
  exact exists_mem_eraseDupsBy Declaration.id h

end

/-! ## Of documents -/

theorem distinctDocuments_eq_eraseDups (us : List Url) : distinctDocuments us = us.eraseDups :=
  eq_eraseDupsBy id rfl (fun _ _ => rfl) us

theorem mem_distinctDocuments {u : Url} {us : List Url} :
    u ∈ distinctDocuments us ↔ u ∈ us := by
  rw [distinctDocuments_eq_eraseDups, List.mem_eraseDups]

end ModuleGraph
