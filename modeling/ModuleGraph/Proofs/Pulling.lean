import Mathlib.Data.List.Chain
import ModuleGraph.Artifact.Http

/-!
# Only verified bytes are pulled

A registry may answer what it likes: any status, any lengths, any bytes, and
redirects to anywhere. This file says for which answers `pull` gives an artifact,
and that nothing else is in it than what was served and checked
(`pull_eq_ok_iff_and_exchanges_eq`).

The two halves of a pull are told apart by their worlds. What was sent up to a
point is not part of the world of a transport, so a transport is made one that
keeps a log of its exchanges (`Transport.recording`); it answers as before
(`follow_recording`). Over it, a pull without a good manifest has the log of the
one request for the manifest, with the redirects that the registry gave, and a
request for the blob comes after a good manifest only.
-/

namespace ModuleGraph

namespace Hex

theorem toLower_digit : ∀ n < 16, (digit n).toLower = digit n := by
  decide

/-- The digits of bytes are in lower case. -/
theorem map_toLower_ofBytes (bs : List UInt8) : (ofBytes bs).map Char.toLower = ofBytes bs := by
  rw [← String.toList_inj, String.toList_map, ofBytes, String.toList_ofList, List.map_flatMap]
  congr 1
  funext b
  have hb := b.toNat_lt
  simp only [ofByte, List.map_cons, List.map_nil, toLower_digit (b.toNat / 16) (by omega),
    toLower_digit (b.toNat % 16) (by omega)]

end Hex

/-! ## Manifests and digests -/

namespace Manifest

variable {bytes : List UInt8} {layer : Layer} {digest url : String}

/-- The bytes are a manifest of version 2 whose one layer is this one, and it is declared to be no
larger than allowed. -/
def Describes (bytes : List UInt8) (layer : Layer) : Prop :=
  ∃ m, (JsonValue.parse? bytes).bind ofJson? = some m ∧ m.schemaVersion = 2 ∧
    m.layers = [layer] ∧ layer.size ≤ Http.maxSize

/-- The digest is the SHA-256 digest of the bytes, its letters in either case. -/
def Names (digest : String) (bytes : List UInt8) : Prop :=
  ∃ hex, digest = "sha256:" ++ hex ∧ hex.map Char.toLower = (sha256 bytes).map Char.toLower

theorem parse_eq_ok_iff : parse bytes = .ok layer ↔
    ∃ m, (JsonValue.parse? bytes).bind ofJson? = some m ∧ m.schemaVersion = 2 ∧
      m.layers = [layer] := by
  rw [parse]
  cases (JsonValue.parse? bytes).bind ofJson? with
  | none => simp
  | some m =>
    by_cases hversion : m.schemaVersion = 2
    · simp only [hversion, ne_eq, not_true_eq_false, if_false, Option.some.injEq,
        exists_eq_left', true_and]
      split
      · next l hlayers => simp [hlayers]
      · next hnot => exact iff_of_false nofun (hnot layer)
    · simp [hversion]

theorem layerOf_eq_ok_iff : Http.layerOf url bytes = .ok layer ↔ Describes bytes layer := by
  have hparse := @parse_eq_ok_iff bytes layer
  rw [Http.layerOf, Describes]
  cases hread : parse bytes with
  | error fault =>
    rw [hread] at hparse
    refine iff_of_false nofun ?_
    rintro ⟨m, hm, hversion, hlayers, -⟩
    cases hparse.2 ⟨m, hm, hversion, hlayers⟩
  | ok found =>
    rw [hread] at hparse
    dsimp only
    split
    · next hlarge =>
      refine iff_of_false nofun ?_
      rintro ⟨m, hm, hversion, hlayers, hsize⟩
      cases hparse.2 ⟨m, hm, hversion, hlayers⟩
      exact absurd hsize (Nat.not_le.2 hlarge)
    · next hsmall =>
      constructor
      · intro hsame
        cases hsame
        obtain ⟨m, hm, hversion, hlayers⟩ := hparse.1 rfl
        exact ⟨m, hm, hversion, hlayers, Nat.not_lt.1 hsmall⟩
      · rintro ⟨m, hm, hversion, hlayers, -⟩
        cases hparse.2 ⟨m, hm, hversion, hlayers⟩
        rfl

theorem digestAlgorithm_eq : digestAlgorithm = "sha256:".toList := by
  delta digestAlgorithm
  rfl

theorem verify_eq_ok_iff : verify digest bytes = .ok () ↔ Names digest bytes := by
  have hlower : (sha256 bytes).map Char.toLower = sha256 bytes := Hex.map_toLower_ofBytes _
  rw [verify, Names]
  by_cases hstarts : digestAlgorithm.isPrefixOf digest.toList = true
  · obtain ⟨hex, hdigest⟩ := List.isPrefixOf_iff_prefix.1 hstarts
    have hrest : String.ofList (digest.toList.drop digestAlgorithm.length) = String.ofList hex := by
      rw [← hdigest, List.drop_left]
    have hwritten : ∀ text, digest = "sha256:" ++ text ↔ text = String.ofList hex := by
      intro text
      rw [← String.toList_inj, ← String.toList_inj, ← hdigest, String.toList_append,
        ← digestAlgorithm_eq, List.append_cancel_left_eq, eq_comm, String.toList_ofList]
    simp only [if_pos hstarts, hrest, hlower, hwritten, exists_eq_left]
    split <;> simp_all
  · rw [if_neg hstarts]
    refine iff_of_false nofun ?_
    rintro ⟨hex, rfl, -⟩
    exact hstarts (List.isPrefixOf_iff_prefix.2 ⟨hex.toList, by
      rw [digestAlgorithm_eq, String.toList_append]⟩)

end Manifest

/-! ## What is served for a URL -/

namespace Http

variable {τ : Type} {t : Transport τ} {accept : Option String} {url artifact : String}
  {world : τ} {bytes : List UInt8} {answer : Response} {n : Nat} {target : UrlParts}

/-- The answer delivers these bytes: it is no error, and neither the length that it gives before
the body nor the body is larger than allowed. -/
structure Response.Delivers (answer : Response) (bytes : List UInt8) : Prop where
  status : answer.status < 400
  length : ∀ n, answer.length = some n → n ≤ maxSize
  body : answer.body = some bytes
  size : bytes.length ≤ maxSize

theorem accepted_eq_ok_iff : accepted url artifact answer = .ok bytes ↔ answer.Delivers bytes := by
  have hlength : ¬ maxSize < answer.length.getD 0 ↔ ∀ n, answer.length = some n → n ≤ maxSize := by
    cases answer.length <;> simp
  rw [accepted]
  constructor
  · intro h
    split at h
    · cases h
    · split at h
      · cases h
      · split at h
        · cases h
        · next hstatus =>
          split at h
          · cases h
          · next hsmall =>
            split at h
            · cases h
            · next body hbody =>
              split at h
              · cases h
              · next hsize =>
                cases h
                exact ⟨Nat.not_le.1 hstatus, hlength.1 hsmall, hbody, Nat.not_lt.1 hsize⟩
  · intro h
    have hstatus := h.status
    rw [if_neg (by omega), if_neg (by omega), if_neg (by omega), if_neg (hlength.2 h.length),
      h.body]
    exact if_neg (Nat.not_lt.2 h.size)

/-- The answer that a request for a URL comes to when redirects have been followed, if there is
one. -/
def answerTo (t : Transport τ) (url : String) (accept : Option String) (world : τ) :
    Option Response × τ :=
  match UrlParts.parse url none with
  | .error _ => (none, world)
  | .ok target => follow t accept maxRedirects target.withoutFragment world

/-- These bytes are served for a URL. -/
def Serves (t : Transport τ) (url : String) (accept : Option String) (world : τ)
    (bytes : List UInt8) : Prop :=
  ∃ answer, (answerTo t url accept world).1 = some answer ∧ answer.Delivers bytes

theorem get_spec (t : Transport τ) (url : String) (accept : Option String) (artifact : String)
    (world : τ) : (∀ bytes, (get t url accept artifact world).1 = .ok bytes ↔
      Serves t url accept world bytes) ∧
    (get t url accept artifact world).2 = (answerTo t url accept world).2 := by
  simp only [get, Serves, answerTo]
  cases UrlParts.parse url none with
  | error cause => simp
  | ok target =>
    dsimp only
    generalize follow t accept maxRedirects target.withoutFragment world = followed
    obtain ⟨_ | answer, after⟩ := followed
    · simp
    · simp [accepted_eq_ok_iff]

/-! ## Transports that keep a log -/

/-- A request and the answer to it, if one came. -/
abbrev Exchange := Request × Option Response

/-- The transport with a log of what it carries. -/
def Transport.recording (t : Transport τ) : Transport (τ × List Exchange) where
  send := fun (world, log) request =>
    let (answer, world) := t.send world request
    (answer, world, log ++ [(request, answer)])

theorem recording_send (t : Transport τ) (world : τ) (log : List Exchange) (request : Request) :
    t.recording.send (world, log) request = ((t.send world request).1, (t.send world request).2,
      log ++ [(request, (t.send world request).1)]) := rfl

/-- What is sent for a URL, in order, with the answers. -/
def exchangesFor (t : Transport τ) (url : String) (accept : Option String) (world : τ) :
    List Exchange :=
  (answerTo t.recording url accept (world, [])).2.2

/-- The exchanges begin with a request for the URL, and every later request is for where the
answer before it redirects to. -/
structure AsksFor (url : String) (log : List Exchange) : Prop where
  first : ∀ x, log.head? = some x →
    ∃ target, UrlParts.parse url none = .ok target ∧ x.1.url = target.withoutFragment
  later : log.IsChain fun x y =>
    ∃ answer, x.2 = some answer ∧ redirectTarget? x.1.url answer = some y.1.url

/-- The log changes nothing, and what is sent is put behind what was sent before. -/
theorem follow_recording (t : Transport τ) (accept : Option String) (n : Nat) (target : UrlParts)
    (world : τ) (log : List Exchange) :
    follow t.recording accept n target (world, log) =
      ((follow t accept n target world).1, (follow t accept n target world).2,
        log ++ (follow t.recording accept n target (world, [])).2.2) := by
  induction n generalizing target world log with
  | zero =>
    unfold follow
    simp only [recording_send]
    generalize t.send world ⟨target, accept⟩ = sent
    obtain ⟨_ | answer, after⟩ := sent
    · rfl
    · dsimp only
      cases redirectTarget? target answer <;> rfl
  | succ n ih =>
    unfold follow
    simp only [recording_send]
    generalize t.send world ⟨target, accept⟩ = sent
    obtain ⟨_ | answer, after⟩ := sent
    · rfl
    · dsimp only
      cases redirectTarget? target answer with
      | none => rfl
      | some next =>
        dsimp only
        split
        · rw [ih next after (log ++ _), ih next after ([] ++ _)]
          simp
        · rfl

/-- What is sent when redirects are followed: a request for the URL, and when its answer redirects,
perhaps what is sent for there. -/
theorem log_follow (t : Transport τ) (accept : Option String) (n : Nat) (target : UrlParts)
    (world : τ) : ∃ rest, (follow t.recording accept n target (world, [])).2.2 =
      (⟨target, accept⟩, (t.send world ⟨target, accept⟩).1) :: rest ∧
      (rest = [] ∨ ∃ m answer next after, m < n ∧
        (t.send world ⟨target, accept⟩).1 = some answer ∧
        redirectTarget? target answer = some next ∧
        rest = (follow t.recording accept m next (after, [])).2.2) := by
  rw [follow, recording_send]
  generalize t.send world ⟨target, accept⟩ = sent
  obtain ⟨_ | answer, after⟩ := sent
  · exact ⟨[], rfl, .inl rfl⟩
  · dsimp only
    split
    · exact ⟨[], rfl, .inl rfl⟩
    · exact ⟨[], rfl, .inl rfl⟩
    · next next m hnext =>
      split
      · rw [follow_recording]
        exact ⟨_, rfl, .inr ⟨m, answer, next, after, Nat.lt_succ_self m, rfl, hnext, rfl⟩⟩
      · exact ⟨[], rfl, .inl rfl⟩

theorem isChain_follow (t : Transport τ) (accept : Option String) (n : Nat) (target : UrlParts)
    (world : τ) : (follow t.recording accept n target (world, [])).2.2.IsChain fun x y =>
      ∃ answer, x.2 = some answer ∧ redirectTarget? x.1.url answer = some y.1.url := by
  induction n using Nat.strongRecOn generalizing target world with
  | ind n ih =>
    obtain ⟨rest, hlog, rfl | ⟨m, answer, next, after, hm, hanswer, hnext, rfl⟩⟩ :=
      log_follow t accept n target world
    · rw [hlog]
      exact .singleton _
    · obtain ⟨more, hmore, -⟩ := log_follow t accept m next after
      have hchain := ih m hm next after
      rw [hlog, hmore]
      rw [hmore] at hchain
      exact .cons_cons ⟨answer, hanswer, hnext⟩ hchain

theorem answerTo_recording (t : Transport τ) (url : String) (accept : Option String) (world : τ)
    (log : List Exchange) : answerTo t.recording url accept (world, log) =
      ((answerTo t url accept world).1, (answerTo t url accept world).2,
        log ++ exchangesFor t url accept world) := by
  simp only [exchangesFor, answerTo]
  cases UrlParts.parse url none with
  | error cause => simp
  | ok target => exact follow_recording ..

theorem asksFor_exchangesFor (t : Transport τ) (url : String) (accept : Option String)
    (world : τ) : AsksFor url (exchangesFor t url accept world) := by
  simp only [exchangesFor, answerTo]
  cases hparse : UrlParts.parse url none with
  | error cause =>
    refine ⟨fun x hx => ?_, .nil⟩
    cases hx
  | ok target =>
    refine ⟨fun x hx => ⟨target, hparse, ?_⟩, isChain_follow ..⟩
    obtain ⟨rest, hlog, -⟩ := log_follow t accept maxRedirects target.withoutFragment world
    dsimp only at hx
    rw [hlog, List.head?_cons] at hx
    cases hx
    rfl

theorem get_recording (t : Transport τ) (url : String) (accept : Option String)
    (artifact : String) (world : τ) (log : List Exchange) :
    get t.recording url accept artifact (world, log) =
      ((get t url accept artifact world).1, (get t url accept artifact world).2,
        log ++ exchangesFor t url accept world) := by
  have hanswer := answerTo_recording t url accept world log
  simp only [answerTo] at hanswer
  simp only [get]
  cases hparse : UrlParts.parse url none with
  | error cause => simp [exchangesFor, answerTo, hparse]
  | ok target =>
    rw [hparse] at hanswer
    dsimp only at hanswer ⊢
    rw [hanswer]
    generalize follow t accept maxRedirects target.withoutFragment world = followed
    obtain ⟨_ | answer, after⟩ := followed <;> rfl

/-! ## Whole pulls -/

variable {c : Client τ} {r : OciReference} {manifest blob : List UInt8} {layer : Layer}

/-- The client with a log of what it sends. -/
def Client.recording (c : Client τ) : Client (τ × List Exchange) :=
  ⟨c.transport.recording, c.plainHttp⟩

/-- What is sent for an artifact, in order, with the answers. -/
def exchanges (c : Client τ) (world : τ) (r : OciReference) : List Exchange :=
  (pull c.recording (world, []) r).2.2

/-- What is sent for the manifest of an artifact. -/
def manifestExchanges (c : Client τ) (world : τ) (r : OciReference) : List Exchange :=
  exchangesFor c.transport (manifestUrl c.plainHttp r) (some manifestTypes) world

/-- The world after the manifest of an artifact was asked for. -/
def afterManifest (c : Client τ) (world : τ) (r : OciReference) : τ :=
  (answerTo c.transport (manifestUrl c.plainHttp r) (some manifestTypes) world).2

/-- What is sent for the blob of a digest after the manifest was asked for. -/
def blobExchanges (c : Client τ) (world : τ) (r : OciReference) (digest : String) :
    List Exchange :=
  exchangesFor c.transport (blobUrl c.plainHttp r digest) none (afterManifest c world r)

/-- A manifest is served that describes a layer. -/
structure ManifestServed (c : Client τ) (world : τ) (r : OciReference) (manifest : List UInt8)
    (layer : Layer) : Prop where
  served : Serves c.transport (manifestUrl c.plainHttp r) (some manifestTypes) world manifest
  describes : Manifest.Describes manifest layer

/-- After the manifest, a blob is served that has the digest of the layer. -/
structure BlobServed (c : Client τ) (world : τ) (r : OciReference) (layer : Layer)
    (blob : List UInt8) : Prop where
  served : Serves c.transport (blobUrl c.plainHttp r layer.digest) none (afterManifest c world r)
    blob
  names : Manifest.Names layer.digest blob

/-- The manifest of an artifact and the layer that it describes, or why there is none. -/
def layerAt (c : Client τ) (world : τ) (r : OciReference) :
    Except RestoreError (List UInt8 × Layer) :=
  (get c.transport (manifestUrl c.plainHttp r) (some manifestTypes) r.artifact world).1.bind
    fun manifest => (layerOf (manifestUrl c.plainHttp r) manifest).map (manifest, ·)

theorem layerAt_eq_ok_iff :
    layerAt c world r = .ok (manifest, layer) ↔ ManifestServed c world r manifest layer := by
  have hserved := (get_spec c.transport (manifestUrl c.plainHttp r) (some manifestTypes)
    r.artifact world).1 manifest
  rw [layerAt]
  generalize get c.transport (manifestUrl c.plainHttp r) (some manifestTypes) r.artifact world =
    fetched at hserved ⊢
  obtain ⟨_ | bytes, after⟩ := fetched
  · exact iff_of_false nofun fun h => by cases hserved.2 h.served
  · have hdescribes := @Manifest.layerOf_eq_ok_iff bytes layer (manifestUrl c.plainHttp r)
    dsimp only [Except.bind]
    cases hlayer : layerOf (manifestUrl c.plainHttp r) bytes with
    | error e =>
      rw [hlayer] at hdescribes
      refine iff_of_false nofun fun h => ?_
      cases hserved.2 h.served
      cases hdescribes.2 h.describes
    | ok found =>
      rw [hlayer] at hdescribes
      constructor
      · intro h
        cases h
        exact ⟨hserved.1 rfl, hdescribes.1 rfl⟩
      · intro h
        cases hserved.2 h.served
        cases hdescribes.2 h.describes
        rfl

/-- A pull as what comes of its two requests. -/
theorem pull_eq (c : Client τ) (world : τ) (r : OciReference) : pull c world r =
    match layerAt c world r with
    | .error e => (.error e, afterManifest c world r)
    | .ok (manifest, layer) =>
      ((get c.transport (blobUrl c.plainHttp r layer.digest) none r.artifact
          (afterManifest c world r)).1.bind fun blob =>
        (Manifest.verify layer.digest blob).map fun _ => ⟨manifest, layer.digest, blob⟩,
        (answerTo c.transport (blobUrl c.plainHttp r layer.digest) none
          (afterManifest c world r)).2) := by
  have hafter := (get_spec c.transport (manifestUrl c.plainHttp r) (some manifestTypes)
    r.artifact world).2
  rw [pull, layerAt, afterManifest]
  generalize get c.transport (manifestUrl c.plainHttp r) (some manifestTypes) r.artifact world =
    fetched at hafter ⊢
  obtain ⟨_ | manifest, after⟩ := fetched
  · rw [← hafter]
    rfl
  · rw [← hafter]
    dsimp only [Except.bind]
    cases layerOf (manifestUrl c.plainHttp r) manifest with
    | error e => rfl
    | ok layer =>
      have hlast := (get_spec c.transport (blobUrl c.plainHttp r layer.digest) none
        r.artifact after).2
      dsimp only [Except.map]
      rw [← hlast]
      generalize get c.transport (blobUrl c.plainHttp r layer.digest) none r.artifact after =
        fetched
      obtain ⟨_ | blob, last⟩ := fetched
      · rfl
      · dsimp only
        cases Manifest.verify layer.digest blob <;> rfl

theorem layerAt_recording (c : Client τ) (world : τ) (r : OciReference) :
    layerAt c.recording (world, []) r = layerAt c world r := by
  simp only [layerAt, Client.recording, get_recording]

theorem afterManifest_recording (c : Client τ) (world : τ) (r : OciReference) :
    afterManifest c.recording (world, []) r =
      (afterManifest c world r, manifestExchanges c world r) := by
  simp only [afterManifest, Client.recording, answerTo_recording, manifestExchanges,
    List.nil_append]

/-- A blob is asked for when a manifest describes a layer, and then it is the blob of that layer. -/
theorem exchanges_eq (c : Client τ) (world : τ) (r : OciReference) : exchanges c world r =
    manifestExchanges c world r ++
      match layerAt c world r with
      | .error _ => []
      | .ok (_, layer) => blobExchanges c world r layer.digest := by
  rw [exchanges, pull_eq, layerAt_recording, afterManifest_recording]
  cases layerAt c world r with
  | error e => simp only [List.append_nil]
  | ok found => simp only [Client.recording, answerTo_recording, blobExchanges]

theorem pull_eq_ok_iff (c : Client τ) (world : τ) (r : OciReference) (a : Artifact) :
    (pull c world r).1 = .ok a ↔ ∃ layer, ManifestServed c world r a.manifest layer ∧
      BlobServed c world r layer a.layer ∧ a.layerDigest = layer.digest := by
  have hlayer := fun manifest layer => @layerAt_eq_ok_iff τ world c r manifest layer
  rw [pull_eq]
  generalize layerAt c world r = found at hlayer ⊢
  obtain e | ⟨manifest, layer⟩ := found
  · refine iff_of_false nofun ?_
    rintro ⟨layer, hmanifest, -⟩
    cases (hlayer _ _).2 hmanifest
  · have hserved := (get_spec c.transport (blobUrl c.plainHttp r layer.digest) none r.artifact
      (afterManifest c world r)).1
    dsimp only
    generalize (get c.transport (blobUrl c.plainHttp r layer.digest) none r.artifact
      (afterManifest c world r)).1 = fetched at hserved ⊢
    constructor
    · intro h
      obtain _ | blob := fetched
      · cases h
      · cases hverify : Manifest.verify layer.digest blob with
        | error e =>
          rw [Except.bind, hverify] at h
          cases h
        | ok =>
          rw [Except.bind, hverify] at h
          cases h
          exact ⟨layer, (hlayer _ _).1 rfl,
            ⟨(hserved blob).1 rfl, Manifest.verify_eq_ok_iff.1 hverify⟩, rfl⟩
    · rintro ⟨same, hmanifest, hblob, hdigest⟩
      cases (hlayer _ _).2 hmanifest
      rw [(hserved _).2 hblob.served, Except.bind, Manifest.verify_eq_ok_iff.2 hblob.names,
        ← hdigest]
      rfl

/-- A pull gives an artifact exactly when a manifest is served that describes one layer and a blob
that has its digest, none of them larger than allowed, and then the artifact is these; it fails
otherwise. What it sends is for the manifest, and then for the blob of the digest that a served
manifest describes, if there is one. -/
theorem pull_eq_ok_iff_and_exchanges_eq (c : Client τ) (world : τ) (r : OciReference) :
    (∀ a, (pull c world r).1 = .ok a ↔ ∃ layer, ManifestServed c world r a.manifest layer ∧
      BlobServed c world r layer a.layer ∧ a.layerDigest = layer.digest) ∧
    ((¬ ∃ manifest layer blob, ManifestServed c world r manifest layer ∧
      BlobServed c world r layer blob) → ∃ e, (pull c world r).1 = .error e) ∧
    AsksFor (manifestUrl c.plainHttp r) (manifestExchanges c world r) ∧
    (∀ manifest layer, ManifestServed c world r manifest layer →
      exchanges c world r = manifestExchanges c world r ++ blobExchanges c world r layer.digest ∧
      AsksFor (blobUrl c.plainHttp r layer.digest) (blobExchanges c world r layer.digest)) ∧
    ((¬ ∃ manifest layer, ManifestServed c world r manifest layer) →
      exchanges c world r = manifestExchanges c world r) := by
  refine ⟨pull_eq_ok_iff c world r, fun hnone => ?_, asksFor_exchangesFor .., ?_, fun hnone => ?_⟩
  · cases hpull : (pull c world r).1 with
    | error e => exact ⟨e, rfl⟩
    | ok a =>
      obtain ⟨layer, hmanifest, hblob, -⟩ := (pull_eq_ok_iff c world r a).1 hpull
      exact absurd ⟨_, layer, _, hmanifest, hblob⟩ hnone
  · intro manifest layer hmanifest
    rw [exchanges_eq, layerAt_eq_ok_iff.2 hmanifest]
    exact ⟨rfl, asksFor_exchangesFor ..⟩
  · rw [exchanges_eq]
    cases hlayer : layerAt c world r with
    | error e => exact List.append_nil _
    | ok found => exact absurd ⟨_, _, layerAt_eq_ok_iff.1 hlayer⟩ hnone

namespace Sample

/-- The digest of no bytes, in capitals. -/
def emptyDigest : String :=
  "sha256:E3B0C44298FC1C149AFBF4C8996FB92427AE41E4649B934CA495991B7852B855"

/-- A manifest whose layer has no bytes. -/
def emptyLayerManifest : List UInt8 :=
  ("\x7b\"schemaVersion\":2,\"layers\":[\x7b\"mediaType\":\"text/json\",\"digest\":\"" ++
    emptyDigest ++ "\",\"size\":0\x7d]\x7d").toUTF8.toList

/-- A registry that serves the manifest and the layer. -/
def registry : Transport Unit where
  send := fun _ request =>
    (some ⟨200, none, none, some (if request.accept.isSome then emptyLayerManifest else [])⟩, ())

example : (pull ⟨registry, []⟩ () ⟨"r.io", "/a", "v1"⟩).1.toOption =
    some ⟨emptyLayerManifest, emptyDigest, []⟩ := by
  decide +kernel

end Sample

end Http

end ModuleGraph
