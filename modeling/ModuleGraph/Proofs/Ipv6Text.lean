import Mathlib.Data.List.Basic
import Mathlib.Data.Nat.Digits.Lemmas
import ModuleGraph.Url.Ipv6

/-!
# Addresses are read back from their text

An IPv6 address is eight pieces below 65536 (`isAddress_of_parse`), and its text
between the brackets reads as these pieces again (`parse_body`).

The digits of a piece are read one by one, so that a piece reads back whatever
follows it, as long as that is no digit. For the `::` it does not matter which
run of zeros it stands for: the pieces before it are read, the gap is noted, the
pieces after it are read, and the gap is filled up to eight.
-/

namespace ModuleGraph.Ipv6

variable {ps qs : List Nat} {p q : Progress} {cs rest more : List Char} {n k value : Nat}

/-! ## Pieces -/

/-- What an address is made of. -/
structure IsAddress (ps : List Nat) : Prop where
  length : ps.length = 8
  lt : ∀ n ∈ ps, n < 0x10000

theorem digitValue?_digitChar : ∀ d < 16, Hex.digitValue? (Nat.digitChar d) = some d := by
  decide

theorem digitChar_ne_colon : ∀ d < 16, Nat.digitChar d ≠ ':' := by
  decide

theorem takeHex_cons_digitChar {d : Nat} (hd : d < 16) :
    takeHex (k + 1) value (Nat.digitChar d :: rest) = takeHex k (value * 16 + d) rest := by
  rw [takeHex, digitValue?_digitChar d hd]

/-- The digits of a number are read and nothing more. -/
theorem takeHex_toDigits (n k value : Nat) (rest : List Char) :
    takeHex (k + (Nat.toDigits 16 n).length) value (Nat.toDigits 16 n ++ rest) =
      takeHex k (value * 16 ^ (Nat.toDigits 16 n).length + n) rest := by
  induction n using Nat.strongRecOn generalizing k rest with
  | ind n ih =>
    by_cases hn : n < 16
    · rw [Nat.toDigits_of_lt_base hn]
      simpa using takeHex_cons_digitChar hn
    · have hlt : n / 16 < n := Nat.div_lt_self (by omega) (by decide)
      have hmod : n % 16 < 16 := Nat.mod_lt _ (by decide)
      rw [Nat.toDigits_of_base_le (by decide) (Nat.not_lt.1 hn), List.append_assoc,
        List.length_append, List.length_singleton, Nat.add_comm _ 1, ← Nat.add_assoc,
        ih _ hlt (k + 1), List.singleton_append, takeHex_cons_digitChar hmod,
        Nat.pow_add, pow_one]
      congr 1
      have := Nat.div_add_mod n 16
      ring_nf
      omega

theorem takeHex_of_head? (h : ∀ c, rest.head? = some c → Hex.digitValue? c = none) :
    takeHex k value rest = (value, rest) := by
  cases k with
  | zero => rfl
  | succ k =>
    cases rest with
    | nil => rfl
    | cons c rest => rw [takeHex, h c rfl]

theorem takeHex_renderPiece (hn : n < 0x10000) (rest : List Char)
    (h : ∀ c, rest.head? = some c → Hex.digitValue? c = none) :
    takeHex 4 0 (renderPiece n ++ rest) = (n, rest) := by
  have hlength : (Nat.toDigits 16 n).length ≤ 4 :=
    (Nat.length_toDigits_le_iff (by decide) (by decide)).2 hn
  obtain ⟨k, hk⟩ := Nat.exists_eq_add_of_le' hlength
  rw [renderPiece, hk, takeHex_toDigits, takeHex_of_head? h, Nat.zero_mul, Nat.zero_add]

theorem exists_renderPiece_eq_cons (n : Nat) :
    ∃ c cs, renderPiece n = c :: cs ∧ c ≠ ':' := by
  induction n using Nat.strongRecOn with
  | ind n ih =>
    rw [renderPiece]
    by_cases hn : n < 16
    · rw [Nat.toDigits_of_lt_base hn]
      exact ⟨_, _, rfl, digitChar_ne_colon n hn⟩
    · obtain ⟨c, cs, hcs, hc⟩ := ih _ (Nat.div_lt_self (by omega) (by decide : 1 < 16))
      rw [renderPiece] at hcs
      rw [Nat.toDigits_of_base_le (by decide) (Nat.not_lt.1 hn), hcs]
      exact ⟨c, _, rfl, hc⟩

/-! ## Reading pieces -/

theorem pieces?_nil : pieces? p [] = some p := by
  rw [pieces?]

/-- The last piece of a text. -/
theorem pieces?_renderPiece (hn : n < 0x10000) (hp : p.pieces.length < 8) :
    pieces? p (renderPiece n) = some ⟨n :: p.pieces, p.gap⟩ := by
  obtain ⟨c, cs, hcs, hc⟩ := exists_renderPiece_eq_cons n
  have htake := takeHex_renderPiece hn [] (by simp)
  rw [List.append_nil] at htake
  rw [hcs] at htake ⊢
  rw [pieces?, if_neg (by omega), if_neg hc]
  split
  · next heq =>
    rw [htake] at heq
    cases heq
    rfl
  · next heq =>
    rw [htake] at heq
    cases heq

/-- A piece and the colon after it. -/
theorem pieces?_renderPiece_append (hn : n < 0x10000) (hp : p.pieces.length < 8)
    (hmore : more ≠ []) :
    pieces? p (renderPiece n ++ ':' :: more) = pieces? ⟨n :: p.pieces, p.gap⟩ more := by
  obtain ⟨c, cs, hcs, hc⟩ := exists_renderPiece_eq_cons n
  have htake := takeHex_renderPiece hn (':' :: more) (by simp; decide)
  rw [hcs] at htake ⊢
  rw [List.cons_append] at htake ⊢
  rw [pieces?, if_neg (by omega), if_neg hc]
  split
  · next heq =>
    rw [htake] at heq
    cases heq
  · next heq =>
    rw [htake] at heq
    cases heq
    rw [if_neg (by decide), if_pos (by simpa using hmore)]

/-- The second colon of `::`. -/
theorem pieces?_gap (hp : p.pieces.length < 8) (hgap : p.gap = none) :
    pieces? p (':' :: more) = pieces? ⟨0 :: p.pieces, some (p.pieces.length + 1)⟩ more := by
  rw [pieces?, if_neg (by omega), if_pos rfl, hgap]
  rfl

theorem joinPieces_cons_cons {n m : Nat} :
    joinPieces (n :: m :: ps) = renderPiece n ++ ':' :: joinPieces (m :: ps) := by
  simp [joinPieces, List.intercalate_cons_cons]

/-- What stands between pieces also starts with the first of them. -/
theorem exists_joinPieces_append (n : Nat) (ns : List Nat) (more : List Char) :
    ∃ rest, joinPieces (n :: ns) ++ ':' :: more = renderPiece n ++ ':' :: rest := by
  cases ns with
  | nil => exact ⟨more, by simp [joinPieces, List.intercalate]⟩
  | cons m ms => exact ⟨_, by rw [joinPieces_cons_cons, List.append_assoc, List.cons_append]⟩

theorem joinPieces_ne_nil : joinPieces (n :: ps) ≠ [] := by
  obtain ⟨c, cs, hcs, -⟩ := exists_renderPiece_eq_cons n
  cases ps with
  | nil => simp [joinPieces, List.intercalate, hcs]
  | cons m ps => simp [joinPieces_cons_cons, hcs]

theorem pieces?_joinPieces (hlt : ∀ n ∈ ps, n < 0x10000) (hp : p.pieces.length + ps.length ≤ 8) :
    pieces? p (joinPieces ps) = some ⟨ps.reverse ++ p.pieces, p.gap⟩ := by
  induction ps generalizing p with
  | nil => exact pieces?_nil
  | cons n ps ih =>
    rw [List.length_cons] at hp
    have hn := hlt n (List.mem_cons_self ..)
    cases ps with
    | nil => simpa [joinPieces, List.intercalate] using pieces?_renderPiece hn (by omega)
    | cons m ps =>
      rw [joinPieces_cons_cons, pieces?_renderPiece_append hn (by omega) joinPieces_ne_nil,
        ih (fun x hx => hlt x (List.mem_cons_of_mem _ hx))
          (by simp only [List.length_cons] at hp ⊢; omega)]
      simp

/-- The pieces before `::`, and the gap. -/
theorem pieces?_joinPieces_append (hlt : ∀ n ∈ ps, n < 0x10000) (hne : ps ≠ [])
    (hp : p.pieces.length + ps.length < 8) (hgap : p.gap = none) (more : List Char) :
    pieces? p (joinPieces ps ++ ':' :: ':' :: more) =
      pieces? ⟨0 :: (ps.reverse ++ p.pieces), some (ps.length + p.pieces.length + 1)⟩ more := by
  induction ps generalizing p with
  | nil => exact absurd rfl hne
  | cons n ps ih =>
    rw [List.length_cons] at hp
    have hn := hlt n (List.mem_cons_self ..)
    cases ps with
    | nil =>
      rw [show joinPieces [n] = renderPiece n by simp [joinPieces, List.intercalate],
        pieces?_renderPiece_append hn (by omega) (by simp),
        pieces?_gap (p := ⟨n :: p.pieces, p.gap⟩) (by simpa using hp) hgap]
      simp [Nat.add_comm]
    | cons m ps =>
      rw [joinPieces_cons_cons, List.append_assoc, List.cons_append,
        pieces?_renderPiece_append hn (by omega) (by simp [joinPieces_ne_nil]),
        ih (p := ⟨n :: p.pieces, p.gap⟩) (fun x hx => hlt x (List.mem_cons_of_mem _ hx)) (by simp)
          (by simp only [List.length_cons] at hp ⊢; omega) hgap]
      congr 2
      · simp
      · simp only [List.length_cons, Option.some.injEq]
        omega

/-! ## What is read -/

theorem lt_succ_mul_pow (k value : Nat) : value < (value + 1) * 16 ^ k :=
  Nat.lt_of_lt_of_le (Nat.lt_succ_self _) (Nat.le_mul_of_pos_right _ (by positivity))

theorem takeHex_lt (k value : Nat) (cs : List Char) :
    (takeHex k value cs).1 < (value + 1) * 16 ^ k := by
  fun_induction takeHex k value cs with
  | case1 => simp
  | case2 k value => exact lt_succ_mul_pow _ value
  | case3 k value c cs d hd ih =>
    have hlt : d < 16 := by
      simp only [Hex.digitValue?] at hd
      split at hd
      · cases hd; omega
      · split at hd
        · cases hd; omega
        · split at hd
          · cases hd; omega
          · cases hd
    calc (takeHex k (value * 16 + d) cs).1
      _ < (value * 16 + d + 1) * 16 ^ k := ih
      _ ≤ ((value + 1) * 16) * 16 ^ k := Nat.mul_le_mul_right _ (by omega)
      _ = (value + 1) * 16 ^ (k + 1) := by rw [Nat.mul_assoc, Nat.pow_succ']
  | case4 k value => exact lt_succ_mul_pow _ value

theorem lt_of_takeHex (h : takeHex 4 0 cs = (n, rest)) : n < 0x10000 := by
  have hlt := takeHex_lt 4 0 cs
  rwa [h] at hlt

theorem byte?_le (h : byte? cs = some n) : n ≤ 255 := by
  simp only [byte?] at h
  split at h
  · cases h
  · next hnot =>
    cases h
    simp only [Bool.or_eq_true, decide_eq_true_eq, not_or, Nat.not_lt] at hnot
    exact hnot.2

theorem le_of_mapM_byte? {texts : List (List Char)} (h : texts.mapM byte? = some ps) :
    ∀ n ∈ ps, n ≤ 255 := by
  induction texts generalizing ps with
  | nil =>
    cases h
    simp
  | cons text texts ih =>
    rw [List.mapM_cons] at h
    obtain ⟨n, hn, h⟩ := Option.bind_eq_some_iff.1 h
    obtain ⟨ns, hns, h⟩ := Option.bind_eq_some_iff.1 h
    cases h
    exact List.forall_mem_cons.2 ⟨byte?_le hn, ih hns⟩

theorem embedded?_lt {high low : Nat} (h : embedded? cs = some (high, low)) :
    high < 0x10000 ∧ low < 0x10000 := by
  rw [embedded?] at h
  split at h
  · next a b c d hbytes =>
    have hle := le_of_mapM_byte? hbytes
    simp only [List.mem_cons, List.not_mem_nil, or_false, forall_eq_or_imp, forall_eq] at hle
    cases h
    omega
  · cases h

/-- At most eight pieces are read, none too large, and the gap lies among them. -/
structure Progress.Bounded (p : Progress) : Prop where
  length : p.pieces.length ≤ 8
  lt : ∀ n ∈ p.pieces, n < 0x10000
  gap : ∀ k, p.gap = some k → k ≤ p.pieces.length

theorem Progress.Bounded.push (h : p.Bounded) (hp : p.pieces.length < 8) (hn : n < 0x10000) :
    Progress.Bounded ⟨n :: p.pieces, p.gap⟩ where
  length := by simpa using hp
  lt m hm := (List.mem_cons.1 hm).elim (fun he => he ▸ hn) (h.lt m)
  gap k hk := Nat.le_succ_of_le (h.gap k hk)

theorem Progress.Bounded.gapped (h : p.Bounded) (hp : p.pieces.length < 8) :
    Progress.Bounded ⟨0 :: p.pieces, some (p.pieces.length + 1)⟩ where
  length := by simpa using hp
  lt m hm := (List.mem_cons.1 hm).elim (fun he => he ▸ by decide) (h.lt m)
  gap k hk := by
    cases hk
    simp

theorem Progress.Bounded.isAddress_of_expand (h : p.Bounded) (hexpand : expand p = some ps) :
    IsAddress ps := by
  obtain ⟨hlength, hlt, hgap⟩ := h
  simp only [expand] at hexpand
  split at hexpand
  · split at hexpand
    · next height =>
      cases hexpand
      exact ⟨height, fun n hn => hlt n (List.mem_reverse.1 hn)⟩
    · cases hexpand
  · next k hk =>
    cases hexpand
    have hle := hgap k hk
    refine ⟨by simp; omega, fun n hn => ?_⟩
    rw [List.mem_append, List.mem_append] at hn
    rcases hn with (hn | hn) | hn
    · exact hlt n (List.mem_reverse.1 (List.mem_of_mem_take hn))
    · exact (List.eq_of_mem_replicate hn) ▸ by decide
    · exact hlt n (List.mem_reverse.1 (List.mem_of_mem_drop hn))

theorem Progress.Bounded.of_pieces? (h : p.Bounded) (hread : pieces? p cs = some q) :
    q.Bounded := by
  induction hlength : cs.length using Nat.strongRecOn generalizing p cs with
  | ind m ih =>
    subst hlength
    cases cs with
    | nil =>
      rw [pieces?_nil] at hread
      cases hread
      exact h
    | cons c rest =>
      rw [pieces?] at hread
      split at hread
      · cases hread
      · next hp =>
        rw [Nat.not_le] at hp
        split at hread
        · split at hread
          · cases hread
          · exact ih _ (by simp) (h.gapped hp) hread rfl
        · split at hread
          · next value heq =>
            cases hread
            exact h.push hp (lt_of_takeHex heq)
          · next value d more heq =>
            have hmore := length_takeHex 4 0 (c :: rest)
            rw [heq] at hmore
            split at hread
            · split at hread
              · next hroom =>
                rw [Bool.and_eq_true, decide_eq_true_eq, decide_eq_true_eq] at hroom
                obtain ⟨⟨high, low⟩, hembedded, hq⟩ := Option.map_eq_some_iff.1 hread
                obtain ⟨hhigh, hlow⟩ := embedded?_lt hembedded
                cases hq
                have hfits := Nat.add_lt_add_right (Nat.lt_succ_of_le hroom.1) 1
                exact (h.push hp hhigh).push hfits hlow
              · cases hread
            · split at hread
              · exact ih _ hmore (h.push hp (lt_of_takeHex heq)) hread rfl
              · cases hread

/-- An address that was read is one. -/
theorem isAddress_of_parse (h : parse cs = .ok ps) : IsAddress ps := by
  simp only [parse] at h
  split at h
  · next hread =>
    cases h
    obtain ⟨p, hp, hexpand⟩ := Option.bind_eq_some_iff.1 hread
    have hbounded : p.Bounded := by
      have hnothing : Progress.Bounded ⟨[], none⟩ := ⟨by simp, by simp, by simp⟩
      split at hp
      · exact (hnothing.gapped (by simp)).of_pieces? hp
      · cases hp
      · cases hp
      · cases hp
      · exact hnothing.of_pieces? hp
    exact hbounded.isAddress_of_expand hexpand
  · cases h

/-! ## Addresses as texts -/

theorem eq_zeros_append_drop (ps : List Nat) :
    ps = List.replicate (zeroRun ps) 0 ++ ps.drop (zeroRun ps) := by
  have hzeros : ps.takeWhile (· == 0) = List.replicate (zeroRun ps) 0 :=
    List.eq_replicate_iff.2
      ⟨rfl, fun m hm => by simpa using List.all_eq_true.1 List.all_takeWhile m hm⟩
  have htake := List.prefix_iff_eq_take.1 (List.takeWhile_prefix (l := ps) (· == 0))
  rw [← hzeros, htake, zeroRun, List.take_append_drop]

/-- Where `longestZeroRun` says there are zeros, there are. -/
theorem eq_of_longestZeroRun {i start run : Nat} (h : longestZeroRun i ps = (start, run))
    (hrun : run ≠ 0) : i ≤ start ∧
      ps = ps.take (start - i) ++ List.replicate run 0 ++ ps.drop (start - i + run) := by
  induction ps generalizing i with
  | nil =>
    rw [longestZeroRun, Prod.mk.injEq] at h
    exact absurd h.2.symm hrun
  | cons n ps ih =>
    rw [longestZeroRun] at h
    split at h
    · obtain ⟨hle, hps⟩ := ih h
      obtain ⟨k, rfl⟩ := Nat.exists_eq_add_of_le hle
      rw [Nat.add_sub_cancel_left] at hps
      refine ⟨by omega, ?_⟩
      rw [show i + 1 + k - i = k + 1 by omega, List.take_succ_cons,
        show k + 1 + run = k + run + 1 by omega, List.drop_succ_cons, List.cons_append,
        List.cons_append, ← hps]
    · cases h
      refine ⟨Nat.le_refl _, ?_⟩
      rw [Nat.sub_self, List.take_zero, List.nil_append, Nat.zero_add]
      exact eq_zeros_append_drop _

/-- The text of an address without its brackets. -/
def body (ps : List Nat) : List Char :=
  let (start, run) := longestZeroRun 0 ps
  if run < 2 then joinPieces ps
  else joinPieces (ps.take start) ++ [':', ':'] ++ joinPieces (ps.drop (start + run))

theorem render_eq (ps : List Nat) : render ps = String.ofList ('[' :: body ps ++ [']']) := rfl

/-- What addresses are written with. -/
def IsWritten (c : Char) : Prop :=
  c = ':' ∨ ∃ d < 16, c = Nat.digitChar d

theorem isWritten_of_mem_renderPiece {c : Char} (h : c ∈ renderPiece n) : IsWritten c := by
  induction n using Nat.strongRecOn with
  | ind n ih =>
    rw [renderPiece] at h
    by_cases hn : n < 16
    · rw [Nat.toDigits_of_lt_base hn, List.mem_singleton] at h
      exact .inr ⟨n, hn, h⟩
    · rw [Nat.toDigits_of_base_le (by decide) (Nat.not_lt.1 hn), List.mem_append,
        List.mem_singleton] at h
      rcases h with h | h
      · exact ih _ (Nat.div_lt_self (by omega) (by decide)) h
      · exact .inr ⟨_, Nat.mod_lt _ (by decide), h⟩

theorem isWritten_of_mem_joinPieces {c : Char} (h : c ∈ joinPieces ps) : IsWritten c := by
  induction ps with
  | nil => cases h
  | cons n ps ih =>
    cases ps with
    | nil =>
      rw [joinPieces, List.map_singleton, List.intercalate_singleton] at h
      exact isWritten_of_mem_renderPiece h
    | cons m ps =>
      rw [joinPieces_cons_cons, List.mem_append, List.mem_cons] at h
      rcases h with h | h | h
      · exact isWritten_of_mem_renderPiece h
      · exact .inl h
      · exact ih h

theorem isWritten_of_mem_body {c : Char} (h : c ∈ body ps) : IsWritten c := by
  rw [body] at h
  split at h
  split at h
  · exact isWritten_of_mem_joinPieces h
  · rw [List.mem_append, List.mem_append] at h
    rcases h with (h | h) | h
    · exact isWritten_of_mem_joinPieces h
    · exact .inl (by simpa using h)
    · exact isWritten_of_mem_joinPieces h

/-- A text that starts with a piece is read from its first piece on. -/
theorem parse_of_pieces? {c : Char}
    (hread : pieces? ⟨[], none⟩ (renderPiece n ++ c :: rest) = some p)
    (hexpand : expand p = some ps) : parse (renderPiece n ++ c :: rest) = .ok ps := by
  obtain ⟨d, ds, hds, hd⟩ := exists_renderPiece_eq_cons n
  rw [hds, List.cons_append] at hread ⊢
  rw [parse]
  · rw [hread, Option.bind_some, hexpand]
  · exact fun more he => hd (List.cons.inj he).1
  · exact fun more he => hd (List.cons.inj he).1
  · exact fun he => List.cons_ne_nil _ _ he
  · exact fun e he => by simpa using (List.cons.inj he).2

theorem parse_joinPieces (h : IsAddress ps) : parse (joinPieces ps) = .ok ps := by
  obtain ⟨n, m, qs, rfl⟩ : ∃ n m qs, ps = n :: m :: qs := by
    match ps, h.length with
    | n :: m :: qs, _ => exact ⟨n, m, qs, rfl⟩
  have hread := pieces?_joinPieces (p := ⟨[], none⟩) h.lt (by simp [h.length])
  rw [joinPieces_cons_cons] at hread ⊢
  refine parse_of_pieces? hread ?_
  simpa [expand] using h.length

/-- The zeros of `::` are those that are missing to eight pieces. -/
theorem parse_gap (before after : List Nat) (hbefore : ∀ n ∈ before, n < 0x10000)
    (hafter : ∀ n ∈ after, n < 0x10000) (hlength : before.length + after.length < 8) :
    parse (joinPieces before ++ [':', ':'] ++ joinPieces after) =
      .ok (before ++ List.replicate (8 - (before.length + after.length)) 0 ++ after) := by
  have hexpand : expand ⟨after.reverse ++ (0 :: before.reverse), some (before.length + 1)⟩ =
      some (before ++ List.replicate (8 - (before.length + after.length)) 0 ++ after) := by
    obtain ⟨k, hk⟩ := Nat.exists_eq_add_of_lt hlength
    have htake : (before ++ [0] ++ after).take (before.length + 1) = before ++ [0] :=
      List.take_left' (by simp)
    have hdrop : (before ++ [0] ++ after).drop (before.length + 1) = after :=
      List.drop_left' (by simp)
    simp only [expand, List.reverse_append, List.reverse_cons, List.reverse_reverse]
    rw [htake, hdrop, hk, List.length_append, List.length_append, List.length_singleton,
      show before.length + after.length + k + 1 - (before.length + 1 + after.length) = k by omega,
      show before.length + after.length + k + 1 - (before.length + after.length) = k + 1 by omega,
      List.replicate_succ]
    simp
  cases before with
  | nil =>
    have hread : pieces? ⟨[0], some 1⟩ (joinPieces after) = some ⟨after.reverse ++ [0], some 1⟩ :=
      pieces?_joinPieces hafter (by simpa [Nat.add_comm] using hlength)
    have hexpand : expand ⟨after.reverse ++ [0], some 1⟩ = _ := hexpand
    show parse (':' :: ':' :: joinPieces after) = _
    rw [parse, hread, Option.bind_some, hexpand]
  | cons n ns =>
    have hread := pieces?_joinPieces_append (p := ⟨[], none⟩) hbefore
      (by simp) (by simp only [List.length_nil]; omega) rfl (joinPieces after)
    rw [pieces?_joinPieces hafter (by simp only [List.length_cons, List.length_append,
      List.length_reverse, List.length_nil] at hlength ⊢; omega), List.append_nil] at hread
    obtain ⟨rest, hrest⟩ := exists_joinPieces_append n ns (':' :: joinPieces after)
    rw [List.append_assoc, List.cons_append, List.singleton_append, hrest]
    rw [hrest] at hread
    exact parse_of_pieces? hread hexpand

/-- An address is read back from its text. -/
theorem parse_body (h : IsAddress ps) : parse (body ps) = .ok ps := by
  rw [body]
  split
  next start run hzeros =>
  split
  · exact parse_joinPieces h
  · next hrun =>
    obtain ⟨-, hps⟩ := eq_of_longestZeroRun hzeros (by omega)
    have hlength := congrArg List.length hps
    simp only [Nat.sub_zero, List.length_append, List.length_replicate, h.length] at hps hlength
    have hgap := parse_gap (ps.take start) (ps.drop (start + run))
      (fun n hn => h.lt n (List.mem_of_mem_take hn))
      (fun n hn => h.lt n (List.mem_of_mem_drop hn)) (by omega)
    rw [hgap, show 8 - _ = run by omega, ← hps]

end ModuleGraph.Ipv6
