import ModuleGraph.Artifact.Http
import ModuleGraph.Proofs.WrittenSegments

/-!
# Which manifest is asked for

The URL of a manifest is put together from the parts of a reference as they are,
and then it is read as a URL. The repository comes out of an address that was
read as a URL itself, so its segments are encoded and none of them is dots. The
tag comes out of the address as it is written there, and has only been checked
for slashes. What is asked for is the manifest of the reference exactly when the
tag brings in no other separator, nothing that is left out when a URL is read,
and no dots, and when no segment has a backslash, which separates segments here
and did not in the address (`keepsShape_iff_and_path_eq_iff`). Even then two tags
are the same where one has encoded what the other has not.

Both ways are proved for any pieces between slashes (`UrlParts.StaySegments`).
There is no backslash in a path below a special scheme, and once there is none
such a path is read as it is below any other (`Segments.walkFrom_special`), so
that what is known of addresses is known of it.
-/

namespace ModuleGraph

theorem intercalate_append {α : Type} {sep : List α} {ls ms : List (List α)} (hls : ls ≠ [])
    (hms : ms ≠ []) :
    sep.intercalate (ls ++ ms) = sep.intercalate ls ++ sep ++ sep.intercalate ms := by
  induction ls with
  | nil => exact absurd rfl hls
  | cons l ls ih =>
    rw [List.cons_append, List.intercalate_cons_of_ne_nil (by simp [hms])]
    by_cases hnil : ls = []
    · rw [hnil, List.nil_append, List.intercalate_singleton]
    · rw [ih hnil, List.intercalate_cons_of_ne_nil hnil]
      simp only [List.append_assoc]

/-! ## Paths without a backslash -/

namespace Segments

variable {kind : SchemeKind} {path seg cs rest : List Char} {c : Char} {isClosed : Bool}

theorem mem_of_mem_next (h : c ∈ (next kind cs).2.2) : c ∈ cs := by
  induction cs with
  | nil => cases h
  | cons d cs ih =>
    rw [next] at h
    split at h
    · exact List.mem_cons_of_mem d h
    · split at h
      · exact h
      · exact List.mem_cons_of_mem d (ih h)

theorem next_special (h : '\x5c' ∉ cs) : next .special cs = next .other cs := by
  induction cs with
  | nil => rfl
  | cons c cs ih =>
    rw [List.mem_cons, not_or] at h
    have hsep : SchemeKind.isSeparator .special c = SchemeKind.isSeparator .other c := by
      simp [SchemeKind.isSeparator, Ne.symm h.1]
    rw [next, next, hsep, ih h.2]

theorem add_special : add .special path seg isClosed = add .other path seg isClosed := by
  have hspecial : (SchemeKind.special == .file) = false := by decide
  have hother : (SchemeKind.other == .file) = false := by decide
  simp only [add, up, dropLast, hspecial, hother]

theorem walkFrom_of_next (h : next kind cs = (seg, isClosed, rest)) : walkFrom kind path cs =
    if isClosed then
      let (after, dropsLater, tail) := walkFrom kind (add kind path seg isClosed).1 rest
      (after, (add kind path seg isClosed).2 || dropsLater, tail)
    else ((add kind path seg isClosed).1, (add kind path seg isClosed).2, rest) := by
  rw [walkFrom]
  split
  next hnext =>
  rw [h] at hnext
  cases hnext
  cases isClosed <;> rfl

/-- Without a backslash, a path below a special scheme is read like any other. -/
theorem walkFrom_special (h : '\x5c' ∉ cs) :
    walkFrom .special path cs = walkFrom .other path cs := by
  induction hn : cs.length using Nat.strongRecOn generalizing path cs with
  | ind n ih =>
    have hspecial := next_special h
    rcases hnext : next .other cs with ⟨seg, isClosed, rest⟩
    rw [hnext] at hspecial
    rw [walkFrom_of_next hspecial, walkFrom_of_next hnext, add_special]
    split
    · next hclosed =>
      have hlt := @length_next_of_closed .other cs (by rw [hnext]; exact hclosed)
      rw [hnext, hn] at hlt
      rw [ih _ hlt (fun hmem => h (mem_of_mem_next (by rw [hnext]; exact hmem))) rfl]
    · rfl

end Segments

/-! ## URLs of the web -/

namespace UrlParts

variable {cs rest text front back : List Char} {c : Char} {scheme username : String}
  {password : Option String} {a : Authority} {kind : SchemeKind} {p : UrlParts}

/-- A text of visible characters up to a slash is read from its start. -/
theorem significant_of_visible (h : ∀ c ∈ front, 0x20 < c.toNat) (text : List Char) :
    significant (String.ofList (front ++ '/' :: text)) = front ++ readable ('/' :: text) := by
  have hstart : ∀ isOuter : Char → Bool, (∀ c, 0x20 < c.toNat → isOuter c = false) →
      (front ++ '/' :: text).dropWhile isOuter = front ++ '/' :: text := by
    intro isOuter houter
    cases front with
    | nil => exact List.dropWhile_cons_of_neg (by simp [houter '/' (by decide)])
    | cons c front =>
      exact List.dropWhile_cons_of_neg (by simp [houter c (h c (List.mem_cons_self ..))])
  have hvisible : front.filter (!isStripped ·) = front :=
    List.filter_eq_self.2 fun c hc => by simp [isStripped_of_visible (h c hc)]
  have hread := readable_append (c := '/') (by decide) front text
  have hslash := readable_append (c := '/') (by decide) [] text
  rw [significant, String.toList_ofList, hstart _ fun c hc => by simpa using hc]
  rw [hvisible] at hread
  rw [List.nil_append, List.filter_nil, List.nil_append] at hslash
  rw [hslash]
  exact hread

theorem readable_cons (hc : 0x20 < c.toNat) (text : List Char) :
    readable (c :: text) = c :: readable text := by
  have hread := readable_append hc [] text
  rwa [List.nil_append, List.filter_nil, List.nil_append] at hread

theorem dropWhile_slashes (isSlash : Char → Bool)
    (hhead : ∀ c, cs.head? = some c → isSlash c = false) (hslash : isSlash '/' = true) :
    ('/' :: '/' :: cs).dropWhile isSlash = cs := by
  rw [List.dropWhile_cons_of_pos hslash, List.dropWhile_cons_of_pos hslash]
  cases cs with
  | nil => rfl
  | cons c cs => exact List.dropWhile_cons_of_neg (by simp [hhead c rfl])

theorem parse_web (hscheme : scheme = "http" ∨ scheme = "https")
    (hhead : ∀ c, (readable text).head? = some c → c ≠ '/' ∧ c ≠ '\x5c') :
    parse (scheme ++ "://" ++ String.ofList text) none =
      afterSlashes scheme .special (readable text) := by
  have htext : scheme ++ "://" ++ String.ofList text =
      String.ofList ((scheme.toList ++ [':']) ++ '/' :: '/' :: text) := by
    rw [← String.toList_inj]
    simp
  have hall : (scheme.toList ++ [':']).all (0x20 < ·.toNat) = true := by
    rcases hscheme with rfl | rfl <;> decide
  have hvisible : ∀ c ∈ scheme.toList ++ [':'], 0x20 < c.toNat := fun c hc => by
    simpa using List.all_eq_true.1 hall c hc
  have hbody : scheme? (scheme.toList ++ [':'] ++ '/' :: '/' :: readable text) =
      some (scheme, '/' :: '/' :: readable text) := by
    rcases hscheme with rfl | rfl <;> rfl
  have hkind : SchemeKind.ofScheme scheme = .special := by
    rcases hscheme with rfl | rfl <;> decide
  rw [parse, htext, significant_of_visible hvisible, readable_cons (by decide),
    readable_cons (by decide), hbody]
  dsimp only
  rw [hkind]
  dsimp only [specialScheme]
  rw [dropWhile_slashes _ (fun c hc => by simpa using hhead c hc) (by decide)]

theorem port_of_server (h : server scheme .special username password cs = .ok (a, rest)) :
    port scheme (cutHost .special false cs).2 = .ok (a.port, rest) := by
  have hspecial : (SchemeKind.special == .special) = true := by decide
  have hother : (SchemeKind.special == .other) = false := by decide
  rw [server] at h
  simp only [hspecial, hother, Bool.true_and, Bool.false_eq_true, if_false, bind, Except.bind,
    throw, throwThe, MonadExceptOf.throw, pure, Except.pure] at h
  split at h
  · cases h
  · cases hhost : Host.special (cutHost .special false cs).1 with
    | error e => rw [hhost] at h; cases h
    | ok host =>
      rw [hhost] at h
      dsimp only at h
      split at h
      · cases h
      · cases hport : port scheme (cutHost .special false cs).2 with
        | error e => rw [hport] at h; cases h
        | ok read =>
          rw [hport] at h
          dsimp only at h
          split at h
          · cases h
          · cases h
            rfl

theorem endsServer_of_mem_portText {port : Option Nat} (h : c ∈ portText port) :
    endsServer c = false := by
  cases port with
  | none => cases h
  | some n =>
    rw [portText_some, List.mem_cons] at h
    rcases h with rfl | h
    · decide
    · exact endsServer_of_isDigit (Nat.isDigit_of_mem_toDigits (by decide) (by decide) h)

theorem endsAuthority_special : endsAuthority .special = endsServer := by
  funext c
  rw [Bool.eq_iff_iff, endsServer_iff]
  simp only [endsAuthority, SchemeKind.isSeparator, Bool.or_eq_true, Bool.and_eq_true, beq_iff_eq,
    bne_iff_ne]
  simp [or_assoc]

/-- A server without credentials is read up to the first character that ends one. -/
theorem rest_of_web (hfront : ∀ c ∈ front, c ≠ '@' ∧ endsServer c = false)
    (hback : ∀ c, back.head? = some c → endsServer c = true)
    (h : readAuthority scheme .special (front ++ back) = .ok (a, rest)) : rest = back := by
  have hcut : cutAt endsServer (front ++ back) = (front, back) :=
    cutAt_append (fun c hc => (hfront c hc).2) hback
  rw [readAuthority, endsAuthority_special, hcut] at h
  dsimp only at h
  rw [cutAroundLast?_eq_none fun hat => (hfront _ hat).1 rfl] at h
  have hport := port_of_server h
  rcases hhost : cutHost .special false (front ++ back) with ⟨host, more⟩
  rw [hhost] at hport
  obtain ⟨hparts, hends, hmore⟩ := of_cutHost hhost
  obtain ⟨digits, rfl, hdigits, hrest⟩ := of_port hport hmore
  rw [endsAuthority_special] at hends
  have hcut' : cutAt endsServer (front ++ back) = (host ++ digits, rest) := by
    rw [hparts, ← List.append_assoc]
    exact cutAt_append (List.forall_mem_append.2 ⟨hends, hdigits⟩) hrest
  exact (Prod.mk.inj (hcut'.symm.trans hcut)).2

theorem pathAfterAuthority_special (cs : List Char) : pathAfterAuthority .special ('/' :: cs) =
    ((Segments.walkFrom .special ['/'] cs).1, (Segments.walkFrom .special ['/'] cs).2.2) := by
  have hother : (SchemeKind.special != .other) = true := by decide
  have hfile : (SchemeKind.special == .file) = false := by decide
  have hslash : SchemeKind.isSeparator .special '/' = true := by decide
  simp [pathAfterAuthority, Segments.walk, hother, hfile, hslash]

/-- The path, the query and the fragment of a URL of the web are read from what follows the first
slash after the server. -/
theorem of_parse_web (hscheme : scheme = "http" ∨ scheme = "https") (hne : front ≠ [])
    (hfront : ∀ c ∈ front, 0x20 < c.toNat ∧ c ≠ '@' ∧ endsServer c = false)
    (h : parse (scheme ++ "://" ++ String.ofList (front ++ '/' :: cs)) none = .ok p) :
    p.path.toList = (Segments.walkFrom .special ['/'] (readable cs)).1 ∧
      (p.query, p.fragment) =
        queryAndFragment .special (Segments.walkFrom .special ['/'] (readable cs)).2.2 := by
  have hread : readable (front ++ '/' :: cs) = front ++ '/' :: readable cs := by
    rw [readable_append (by decide), List.filter_eq_self.2 fun c hc => by
      simp [isStripped_of_visible (hfront c hc).1]]
  have hhead : ∀ c, (readable (front ++ '/' :: cs)).head? = some c → c ≠ '/' ∧ c ≠ '\x5c' := by
    obtain ⟨d, more, rfl⟩ := List.exists_cons_of_ne_nil hne
    intro c hc
    rw [hread] at hc
    obtain rfl : d = c := by simpa using hc
    have hend := (hfront d (List.mem_cons_self ..)).2.2
    rw [Bool.eq_false_iff, ne_eq, endsServer_iff] at hend
    tauto
  rw [parse_web hscheme hhead, hread, afterSlashes] at h
  cases hauthority : readAuthority scheme .special (front ++ '/' :: readable cs) with
  | error e => rw [hauthority] at h; cases h
  | ok read =>
    obtain ⟨a, rest⟩ := read
    have hslash : ∀ c, ('/' :: readable cs).head? = some c → endsServer c = true := by
      rintro c ⟨⟩
      decide
    obtain rfl := rest_of_web (fun c hc => (hfront c hc).2) hslash hauthority
    rw [hauthority] at h
    simp only [bind, Except.bind, pure, Except.pure, pathAfterAuthority_special, finish] at h
    cases h
    exact ⟨String.toList_ofList, rfl⟩

end UrlParts

/-! ## Pieces of a path -/

theorem Percent.mem_encode_of_isPlain {reserved : Char → Bool} {c : Char} {cs : List Char}
    (hplain : IsPlain reserved c) (h : c ∈ cs) : c ∈ encode reserved cs := by
  refine List.mem_flatMap.2 ⟨c, h, ?_⟩
  have hascii := hplain.ascii
  rw [hplain.kept, Bool.false_or, if_neg (by simpa using hascii)]
  exact List.mem_singleton_self c

namespace Segments

variable {seg : List Char}

theorem settled_walkFrom_slash (cs : List Char) : Settled (walkFrom .other ['/'] cs).1 :=
  settled_walkFrom (settled_slash.2 settled_nil) (.inr ⟨[], rfl⟩)

theorem encode_of_dots (hdots : isSingleDot seg = true ∨ isDoubleDot seg = true) :
    Percent.encode Percent.path seg = seg :=
  of_dots (P := fun seg => Percent.encode Percent.path seg = seg) (by decide +kernel) hdots

/-- Dots stay dots when they are encoded. -/
theorem not_dots_of_isStable_encode (h : IsStable (Percent.encode Percent.path seg)) :
    isSingleDot seg = false ∧ isDoubleDot seg = false := by
  by_contra hnot
  have hdots : isSingleDot seg = true ∨ isDoubleDot seg = true := by
    rwa [not_and_or, Bool.not_eq_false, Bool.not_eq_false] at hnot
  rw [encode_of_dots hdots] at h
  exact hnot ⟨h.single, h.double⟩

end Segments

namespace UrlParts

open Segments (IsPiece AfterPath Settled)

variable {cs path : List Char} {pieces : List (List Char)} {kind : SchemeKind}
  {walked : List Char × Bool × List Char}

theorem eq_nil_of_queryAndFragment (hstart : AfterPath cs)
    (h : queryAndFragment kind cs = (none, none)) : cs = [] := by
  cases cs with
  | nil => rfl
  | cons c cs =>
    have hend := hstart c rfl
    rw [endsPath, Bool.or_eq_true, beq_iff_eq, beq_iff_eq] at hend
    rcases hend with rfl | rfl <;> simp [queryAndFragment, cutAt] at h

/-- Pieces that stay the segments they are when they are put between slashes and read. -/
structure StaySegments (pieces : List (List Char)) : Prop where
  piece : ∀ piece ∈ pieces, IsPiece piece
  backslash : ∀ piece ∈ pieces, '\x5c' ∉ piece
  readable_eq : readable (['/'].intercalate pieces) = ['/'].intercalate pieces

/-- What a path is read as that has the given segments and nothing behind it. -/
structure IsRead (pieces : List (List Char)) (path : List Char)
    (tail : Option String × Option String) : Prop where
  segments : path.splitOn '/' = [] :: pieces.map (Percent.encode Percent.path)
  tail_eq : tail = (none, none)

theorem StaySegments.isRead (h : StaySegments pieces) (hne : pieces ≠ [])
    (hslash : ∀ piece ∈ pieces, '/' ∉ piece)
    (hwalked : Segments.walkFrom .special ['/'] (readable (['/'].intercalate pieces)) = walked) :
    IsRead pieces walked.1 (queryAndFragment .special walked.2.2) := by
  have hend : AfterPath [] := nofun
  have hwalk := Segments.walkFrom_intercalate hne h.piece hend ['/']
  rw [List.append_nil] at hwalk
  rw [h.readable_eq, Segments.walkFrom_special (not_mem_intercalate (by decide) h.backslash),
    hwalk] at hwalked
  subst hwalked
  refine ⟨?_, rfl⟩
  have hnames : ∀ name ∈ pieces.map (Percent.encode Percent.path), '/' ∉ name := by
    rintro _ hname hmem
    obtain ⟨piece, hpiece, rfl⟩ := List.mem_map.1 hname
    exact hslash piece hpiece (Percent.mem_of_mem_encode (by decide) (by decide) hmem).1
  have hsplit := List.splitOn_intercalate '/' hnames (by simpa using hne)
  exact (List.splitOn_append_cons_self [] _).trans (congrArg _ hsplit)

theorem IsRead.path_eq {tail : Option String × Option String} (h : IsRead pieces path tail)
    (hne : pieces ≠ []) :
    path = '/' :: ['/'].intercalate (pieces.map (Percent.encode Percent.path)) := by
  have hwhole : ['/'].intercalate (path.splitOn '/') = path := List.intercalate_splitOn '/'
  obtain ⟨piece, more, rfl⟩ := List.exists_cons_of_ne_nil hne
  rw [← hwhole, h.segments, List.map_cons, List.intercalate_cons_cons]
  rfl

/-- A backslash separates segments of a special path, so none comes from its pieces. -/
theorem IsRead.backslash_not_mem {tail : Option String × Option String}
    (h : IsRead pieces (Segments.walkFrom .special ['/'] cs).1 tail) (hne : pieces ≠ []) :
    ∀ piece ∈ pieces, '\x5c' ∉ piece := by
  intro piece hpiece hmem
  have hplain : Percent.IsPlain Percent.path '\x5c' := ⟨by decide, by decide⟩
  have hread : '\x5c' ∈ (Segments.walkFrom .special ['/'] cs).1 := by
    rw [h.path_eq hne]
    exact List.mem_cons_of_mem _ <|
      mem_intercalate (List.mem_map_of_mem hpiece) (Percent.mem_encode_of_isPlain hplain hmem)
  have hstart := Segments.mem_of_mem_walkFrom (by decide) (by decide) (by decide) (by decide)
    (.inl (by decide)) hread
  exact absurd hstart (by decide)

theorem StaySegments.of_isRead (hne : pieces ≠ []) (hslash : ∀ piece ∈ pieces, '/' ∉ piece)
    (hwalked : Segments.walkFrom .special ['/'] (readable (['/'].intercalate pieces)) = walked)
    (h : IsRead pieces walked.1 (queryAndFragment .special walked.2.2)) : StaySegments pieces := by
  have hbackslash : ∀ piece ∈ pieces, '\x5c' ∉ piece := by
    subst hwalked
    exact h.backslash_not_mem hne
  rw [Segments.walkFrom_special fun hmem =>
    not_mem_intercalate (by decide) hbackslash (mem_of_mem_readable hmem)] at hwalked
  have hsettled : Settled walked.1 := hwalked ▸ Segments.settled_walkFrom_slash _
  obtain ⟨hrest, hcount⟩ := Segments.of_walkFrom ['/'] (readable (['/'].intercalate pieces))
  rw [hwalked] at hrest hcount
  obtain ⟨hcs, hwithin, hstop⟩ := cutAt_eq_iff.1
    (Prod.mk.eta (p := cutAt endsPath (readable (['/'].intercalate pieces)))).symm
  have hnil : walked.2.2 = [] :=
    eq_nil_of_queryAndFragment (fun c hc => hstop c (hrest ▸ hc)) h.tail_eq
  rw [← hrest, hnil, List.append_nil] at hcs
  -- All that was read is in the path, which is as long as the pieces are.
  have hreadable : readable (['/'].intercalate pieces) = ['/'].intercalate pieces := by
    refine readable_eq_of_nameLength_le ?_
    rw [← hcs, h.path_eq hne, ← OciReference.encode_intercalate,
      List.countP_cons_of_neg (by decide)] at hcount
    simpa [Percent.nameLength] using hcount
  rw [← hcs, hreadable] at hwithin
  refine ⟨fun piece hpiece => ?_, hbackslash, hreadable⟩
  have hstable : Segments.IsStable (Percent.encode Percent.path piece) := by
    refine hsettled _ ?_
    rw [h.segments]
    exact List.mem_cons_of_mem _ (List.mem_map_of_mem hpiece)
  obtain ⟨hsingle, hdouble⟩ := Segments.not_dots_of_isStable_encode hstable
  refine ⟨hsingle, hdouble, fun c hc => ⟨?_, hwithin c (mem_intercalate hpiece hc)⟩⟩
  have hne : c ≠ '/' := fun he => hslash piece hpiece (he ▸ hc)
  simp [SchemeKind.isSeparator, hne]

end UrlParts

/-! ## References -/

namespace OciReference

open Segments (IsStable Settled)
open UrlParts (endsServer isStripped)

variable {r : OciReference} {raw : String}

/-- The registry of a reference is written with no character that ends a server. -/
theorem registry_of_parse (h : parse raw = .ok r) : r.registry.toList ≠ [] ∧
    ∀ c ∈ r.registry.toList, 0x20 < c.toNat ∧ c ≠ '@' ∧ endsServer c = false := by
  have hlocation := untagged_eq h
  rw [location?] at hlocation
  split at hlocation
  · cases hlocation
  · split at hlocation
    · next a path query hparse =>
      obtain ⟨registry, hregistry, hlocation⟩ := Option.bind_eq_some_iff.1 hlocation
      obtain ⟨repository, -, hlocation⟩ := Option.bind_eq_some_iff.1 hlocation
      obtain ⟨rfl, -⟩ := Prod.mk.inj (Option.some.inj hlocation)
      obtain ⟨-, -, hhost, htext⟩ := of_registryOf? hregistry
      have haddress := UrlParts.isAddress_of_parse hparse
      have hbackslash := Host.backslash_not_mem_of_opaqueHost haddress.host.opaqueHost
      rw [htext]
      refine ⟨by simp [hhost], fun c hc => ?_⟩
      rcases List.mem_append.1 hc with hc | hc
      · have hne : c ≠ '\x5c' := fun he => hbackslash (he ▸ hc)
        refine ⟨haddress.host.visible c hc, fun he => haddress.host.no_at (he ▸ hc), ?_⟩
        rw [endsServer, haddress.host.no_end c hc, Bool.or_false]
        simpa using hne
      · obtain ⟨hvisible, hat, -⟩ := UrlParts.of_mem_portText hc
        exact ⟨hvisible, hat, UrlParts.endsServer_of_mem_portText hc⟩
    · cases hlocation

theorem settled_dropWhile {path : List Char} (h : Settled path) :
    Settled (path.dropWhile (· == '/')) := by
  induction path with
  | nil => exact h
  | cons c path ih =>
    by_cases hc : c = '/'
    · rw [List.dropWhile_cons_of_pos (by simpa using hc)]
      subst hc
      exact ih ((@Segments.settled_append [] path).1 h).2
    · rwa [List.dropWhile_cons_of_neg (by simpa using hc)]

/-- The segments of a reference have been read as segments of a path. -/
theorem segments_of_parse (h : parse raw = .ok r) :
    r.segments ≠ [] ∧ ∀ s ∈ r.segments, IsStable s.toList ∧ '/' ∉ s.toList := by
  obtain ⟨path, hpath, hsegments⟩ := exists_path h
  have hsettled : Settled path := hpath.path_eq ▸ Segments.settled_walkFrom_slash _
  rw [hsegments]
  refine ⟨by simp [segmentsOf, List.splitOn_ne_nil], fun s hs => ?_⟩
  obtain ⟨seg, hseg, rfl⟩ := List.mem_map.1 hs
  rw [String.toList_ofList]
  exact ⟨settled_dropWhile hsettled seg hseg, not_mem_of_mem_splitOn hseg⟩

theorem slash_not_mem_tag (h : parse raw = .ok r) : '/' ∉ r.tag.toList := by
  obtain ⟨htag, -, -⟩ := parse?_eq_some_iff.1 (parse_eq_ok_iff.1 h)
  exact htag.no_slash

/-! ## Manifests -/

variable {plain plain' : List String} {raw' : String} {r' : OciReference} {p p' : UrlParts}

/-- What stands between the slashes behind the registry, with a tag in the form it has there. -/
def manifestPieces (r : OciReference) (tag : List Char) : List (List Char) :=
  "v2".toList :: (r.segments.map String.toList ++ ["manifests".toList, tag])

/-- The URL of a manifest has the segments of its reference and ends with its tag. -/
structure KeepsShape (r : OciReference) (p : UrlParts) : Prop where
  path : p.path.toList.splitOn '/' =
    [] :: manifestPieces r (Percent.encode Percent.path r.tag.toList)
  query : p.query = none
  fragment : p.fragment = none

/-- A reference that can be put into a URL as it is. The tag is one piece of a path and no dots,
nothing of it is left out when a URL is read, and no backslash separates segments. -/
structure FitsPath (r : OciReference) : Prop where
  piece : Segments.IsPiece r.tag.toList
  stripped : ∀ c ∈ r.tag.toList, isStripped c = false
  blank : ∀ c, r.tag.toList.getLast? = some c → 0x20 < c.toNat
  backslash : '\x5c' ∉ r.tag.toList ∧ ∀ s ∈ r.segments, '\x5c' ∉ s.toList

theorem intercalate_manifestPieces (hne : r.segments ≠ []) (tag : List Char) :
    ['/'].intercalate (manifestPieces r tag) =
      "v2/".toList ++ ['/'].intercalate (r.segments.map String.toList) ++
        "/manifests/".toList ++ tag := by
  rw [manifestPieces, List.intercalate_cons_of_ne_nil (by simp),
    intercalate_append (by simpa using hne) (by simp)]
  simp [List.intercalate_cons_cons]

theorem manifestUrl_eq (h : parse raw = .ok r) : ∃ scheme, (scheme = "http" ∨ scheme = "https") ∧
    Http.manifestUrl plain r = scheme ++ "://" ++ String.ofList (r.registry.toList ++
      '/' :: ['/'].intercalate (manifestPieces r r.tag.toList)) := by
  obtain ⟨scheme, hscheme, hurl⟩ : ∃ scheme, (scheme = "http" ∨ scheme = "https") ∧
      Http.repositoryUrl plain r =
        scheme ++ "://" ++ r.registry ++ "/v2/" ++ "/".intercalate r.segments :=
    ⟨_, ite_eq_or_eq _ _ _, rfl⟩
  refine ⟨scheme, hscheme, ?_⟩
  rw [Http.manifestUrl, hurl, intercalate_manifestPieces (segments_of_parse h).1,
    ← String.toList_inj]
  simp [String.toList_intercalate]

theorem mem_manifestPieces_iff {tag piece : List Char} : piece ∈ manifestPieces r tag ↔
    piece = "v2".toList ∨ (∃ s ∈ r.segments, s.toList = piece) ∨ piece = "manifests".toList ∨
      piece = tag := by
  simp [manifestPieces]

theorem manifestPieces_ne_nil (r : OciReference) (tag : List Char) : manifestPieces r tag ≠ [] :=
  List.cons_ne_nil _ _

theorem isStable_of_encode_eq {seg : List Char} (h : Percent.encode Percent.path seg = seg)
    (hsingle : Segments.isSingleDot seg = false) (hdouble : Segments.isDoubleDot seg = false) :
    IsStable seg :=
  h ▸ Segments.isStable_encode hsingle hdouble

/-- All that stands before the tag stays as it is. -/
theorem stable_or_eq_tag (h : parse raw = .ok r) {tag piece : List Char}
    (hpiece : piece ∈ manifestPieces r tag) : IsStable piece ∧ '/' ∉ piece ∨ piece = tag := by
  rcases mem_manifestPieces_iff.1 hpiece with rfl | ⟨s, hs, rfl⟩ | rfl | rfl
  · exact .inl ⟨isStable_of_encode_eq (by decide) (by decide) (by decide), by decide⟩
  · exact .inl ((segments_of_parse h).2 s hs)
  · exact .inl ⟨isStable_of_encode_eq (by decide) (by decide) (by decide), by decide⟩
  · exact .inr rfl

theorem slash_not_mem_manifestPieces (h : parse raw = .ok r) :
    ∀ piece ∈ manifestPieces r r.tag.toList, '/' ∉ piece := by
  intro piece hpiece
  rcases stable_or_eq_tag h hpiece with ⟨-, hslash⟩ | rfl
  · exact hslash
  · exact slash_not_mem_tag h

theorem map_encode_manifestPieces (h : parse raw = .ok r) (tag : List Char) :
    (manifestPieces r tag).map (Percent.encode Percent.path) =
      manifestPieces r (Percent.encode Percent.path tag) := by
  have hsegments : (r.segments.map String.toList).map (Percent.encode Percent.path) =
      r.segments.map String.toList := by
    rw [List.map_map]
    exact List.map_congr_left fun s hs =>
      Percent.encode_of_plain ((segments_of_parse h).2 s hs).1.plain
  have hversion : Percent.encode Percent.path "v2".toList = "v2".toList := by decide
  have hmanifests : Percent.encode Percent.path "manifests".toList = "manifests".toList := by decide
  rw [manifestPieces, List.map_cons, List.map_append, hsegments, List.map_cons, List.map_singleton,
    hversion, hmanifests, manifestPieces]

theorem visible_of_mem_segments (h : parse raw = .ok r) {c : Char}
    (hc : c ∈ ['/'].intercalate (r.segments.map String.toList)) : 0x20 < c.toNat := by
  by_contra hblank
  have hslash : c ≠ '/' := by
    rintro rfl
    exact hblank (by decide)
  refine not_mem_intercalate hslash (fun name hname hmem => ?_) hc
  obtain ⟨s, hs, rfl⟩ := List.mem_map.1 hname
  have hplain := ((segments_of_parse h).2 s hs).1.plain c hmem
  refine hblank (hplain.visible (fun d hd => ?_) (by decide))
  simp [Percent.path, Percent.fragment, hd]

/-- What is left out when the pieces are read is left out of the tag. -/
theorem readable_manifestPieces_iff (h : parse raw = .ok r) (tag : List Char) :
    UrlParts.readable (['/'].intercalate (manifestPieces r tag)) =
      ['/'].intercalate (manifestPieces r tag) ↔ UrlParts.readable tag = tag := by
  have hversion : "v2/".toList.filter (!isStripped ·) = "v2/".toList := by decide
  have hmanifests : "/manifests".toList.filter (!isStripped ·) = "/manifests".toList := by decide
  have hsegments : (['/'].intercalate (r.segments.map String.toList)).filter (!isStripped ·) =
      ['/'].intercalate (r.segments.map String.toList) :=
    List.filter_eq_self.2 fun c hc => by
      simp [UrlParts.isStripped_of_visible (visible_of_mem_segments h hc)]
  have hparts : ['/'].intercalate (manifestPieces r tag) =
      ("v2/".toList ++ ['/'].intercalate (r.segments.map String.toList) ++
        "/manifests".toList) ++ '/' :: tag := by
    rw [intercalate_manifestPieces (segments_of_parse h).1,
      show "/manifests/".toList = "/manifests".toList ++ ['/'] from rfl]
    simp only [List.append_assoc, List.singleton_append]
  rw [hparts, UrlParts.readable_append (by decide), List.filter_append, List.filter_append,
    hversion, hsegments, hmanifests, List.append_cancel_left_eq, List.cons_inj_right]

theorem staySegments_iff (h : parse raw = .ok r) :
    UrlParts.StaySegments (manifestPieces r r.tag.toList) ↔ FitsPath r := by
  have htag : r.tag.toList ∈ manifestPieces r r.tag.toList :=
    mem_manifestPieces_iff.2 (.inr (.inr (.inr rfl)))
  have hreadable :=
    (readable_manifestPieces_iff h r.tag.toList).trans UrlParts.readable_eq_self_iff
  constructor
  · intro hstay
    obtain ⟨hstripped, hblank⟩ := hreadable.1 hstay.readable_eq
    exact ⟨hstay.piece _ htag, hstripped, hblank, hstay.backslash _ htag, fun s hs =>
      hstay.backslash _ (mem_manifestPieces_iff.2 (.inr (.inl ⟨s, hs, rfl⟩)))⟩
  · intro hfits
    refine ⟨fun piece hpiece => ?_, fun piece hpiece => ?_,
      hreadable.2 ⟨hfits.stripped, hfits.blank⟩⟩
    · rcases stable_or_eq_tag h hpiece with ⟨hstable, hslash⟩ | rfl
      · exact hstable.isPiece hslash
      · exact hfits.piece
    · rcases mem_manifestPieces_iff.1 hpiece with rfl | ⟨s, hs, rfl⟩ | rfl | rfl
      · decide
      · exact hfits.backslash.2 s hs
      · decide
      · exact hfits.backslash.1

theorem keepsShape_iff (h : parse raw = .ok r)
    (hp : UrlParts.parse (Http.manifestUrl plain r) none = .ok p) :
    KeepsShape r p ↔ FitsPath r := by
  obtain ⟨scheme, hscheme, hurl⟩ := @manifestUrl_eq r raw plain h
  obtain ⟨hne, hregistry⟩ := registry_of_parse h
  rw [hurl] at hp
  obtain ⟨hpath, htail⟩ := UrlParts.of_parse_web hscheme hne hregistry hp
  have hread : KeepsShape r p ↔
      UrlParts.IsRead (manifestPieces r r.tag.toList) p.path.toList (p.query, p.fragment) := by
    constructor
    · intro hkeeps
      exact ⟨hkeeps.path.trans (by rw [map_encode_manifestPieces h]),
        by rw [hkeeps.query, hkeeps.fragment]⟩
    · intro hread
      obtain ⟨hquery, hfragment⟩ := Prod.mk.inj hread.tail_eq
      exact ⟨hread.segments.trans (by rw [map_encode_manifestPieces h]), hquery, hfragment⟩
  have hne := manifestPieces_ne_nil r r.tag.toList
  have hslash := slash_not_mem_manifestPieces h
  rw [hread, ← staySegments_iff h, hpath, htail]
  exact ⟨.of_isRead hne hslash rfl, fun hstay => hstay.isRead hne hslash rfl⟩

theorem KeepsShape.path_eq_iff (h : KeepsShape r p) (h' : KeepsShape r' p') :
    p.path = p'.path ↔ r.segments = r'.segments ∧
      Percent.encode Percent.path r.tag.toList = Percent.encode Percent.path r'.tag.toList := by
  have hpieces : p.path = p'.path ↔ manifestPieces r (Percent.encode Percent.path r.tag.toList) =
      manifestPieces r' (Percent.encode Percent.path r'.tag.toList) := by
    constructor
    · intro heq
      have hsplit := h.path.symm.trans ((congrArg _ (congrArg _ heq)).trans h'.path)
      exact (List.cons.inj hsplit).2
    · intro heq
      have hsplit := h.path.trans ((congrArg _ heq).trans h'.path.symm)
      have hwhole : ∀ path : List Char, ['/'].intercalate (path.splitOn '/') = path :=
        fun path => List.intercalate_splitOn '/'
      rw [← String.toList_inj, ← hwhole p.path.toList, hsplit, hwhole]
  have hinjective : r.segments.map String.toList = r'.segments.map String.toList ↔
      r.segments = r'.segments :=
    (List.map_injective_iff.2 fun _ _ => String.toList_inj.1).eq_iff
  rw [hpieces, ← hinjective, manifestPieces, manifestPieces, List.cons_inj_right]
  constructor
  · intro heq
    obtain ⟨hsegments, hlast⟩ := List.append_inj' heq rfl
    exact ⟨hsegments, by simpa using hlast⟩
  · rintro ⟨hsegments, htag⟩
    rw [hsegments, htag]

/-- The URL of a manifest keeps the shape of its reference exactly when the reference fits into it.
Two references that fit ask for one path exactly when they have the same segments and their tags
are encoded alike. -/
theorem keepsShape_iff_and_path_eq_iff (h : parse raw = .ok r)
    (hp : UrlParts.parse (Http.manifestUrl plain r) none = .ok p) :
    (KeepsShape r p ↔ FitsPath r) ∧
    ∀ {raw' plain' r' p'}, parse raw' = .ok r' →
      UrlParts.parse (Http.manifestUrl plain' r') none = .ok p' → FitsPath r → FitsPath r' →
      (p.path = p'.path ↔ r.segments = r'.segments ∧
        Percent.encode Percent.path r.tag.toList = Percent.encode Percent.path r'.tag.toList) :=
  ⟨keepsShape_iff h hp, fun h' hp' hfits hfits' =>
    ((keepsShape_iff h hp).2 hfits).path_eq_iff ((keepsShape_iff h' hp').2 hfits')⟩

end OciReference

namespace Sample

open OciReference

theorem parse_blankTag : parse "r.io/a:v 1" = .ok ⟨"r.io", "/a", "v 1"⟩ :=
  parse_eq_ok_iff.2 (by decide +kernel)

/-- What the URL of the manifest is read as. -/
def blankTagUrl : UrlParts :=
  ⟨"https", some ⟨"", none, "r.io", none⟩, "/v2/a/manifests/v%201", none, none⟩

theorem fitsPath_blankTag : FitsPath ⟨"r.io", "/a", "v 1"⟩ := by
  have hpiece : "v 1".toList.all (fun c => !SchemeKind.isSeparator .other c && !endsPath c) =
      true := by decide
  have hstripped : "v 1".toList.all (!UrlParts.isStripped ·) = true := by decide
  refine ⟨⟨by decide, by decide, fun c hc => ?_⟩, fun c hc => ?_, fun c hc => ?_, by decide,
    by decide⟩
  · simpa using List.all_eq_true.1 hpiece c hc
  · simpa using List.all_eq_true.1 hstripped c hc
  · cases hc
    decide

/-- A blank in a tag is encoded. -/
theorem keepsShape_blankTag :
    parse "r.io/a:v 1" = .ok ⟨"r.io", "/a", "v 1"⟩ ∧
      UrlParts.parse (Http.manifestUrl [] ⟨"r.io", "/a", "v 1"⟩) none = .ok blankTagUrl ∧
      FitsPath ⟨"r.io", "/a", "v 1"⟩ ∧ KeepsShape ⟨"r.io", "/a", "v 1"⟩ blankTagUrl := by
  have hp : UrlParts.parse (Http.manifestUrl [] ⟨"r.io", "/a", "v 1"⟩) none = .ok blankTagUrl := by
    decide +kernel
  exact ⟨parse_blankTag, hp, fitsPath_blankTag,
    (keepsShape_iff_and_path_eq_iff parse_blankTag hp).1.2 fitsPath_blankTag⟩

example : Percent.encode Percent.path "v 1".toList =
    Percent.encode Percent.path "v%201".toList := by
  decide

/-- A tag with a question mark is asked for as another tag. -/
theorem not_keepsShape : ¬ ∀ (raw : String) (r : OciReference) (plain : List String)
    (p : UrlParts), parse raw = .ok r →
      UrlParts.parse (Http.manifestUrl plain r) none = .ok p → KeepsShape r p := by
  intro h
  have hparse : parse "r.io/a:v1?x" = .ok ⟨"r.io", "/a", "v1?x"⟩ :=
    parse_eq_ok_iff.2 (by decide +kernel)
  have hp : UrlParts.parse (Http.manifestUrl ["r.io"] ⟨"r.io", "/a", "v1?x"⟩) none =
      .ok ⟨"http", some ⟨"", none, "r.io", none⟩, "/v2/a/manifests/v1", some "x", none⟩ := by
    decide +kernel
  cases (h _ _ _ _ hparse hp).query

end Sample

end ModuleGraph
