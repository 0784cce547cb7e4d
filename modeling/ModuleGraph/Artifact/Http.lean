import ModuleGraph.Artifact.Manifest

/-!
# Fetching artifacts over HTTP

An artifact is fetched with two requests below `/v2/` of its registry: one for the manifest of the
tag, and one for the blob of the layer that the manifest describes. Registries that are listed are
asked over plain HTTP, all others over HTTPS.

What carries the requests is a parameter: a transport answers a request or does not. Redirects are
followed here, up to a number of them. No more is taken than `maxSize` bytes, whether the length
was given before or not, and a blob is taken only when its digest is right.
-/

namespace ModuleGraph

namespace Http

/-- The most bytes that a manifest or a layer may have. -/
def maxSize : Nat := 32 * 1024 * 1024

/-- How often one request may be redirected. -/
def maxRedirects : Nat := 10

/-- The kinds of manifest that are asked for. -/
def manifestTypes : String :=
  "application/vnd.oci.image.manifest.v1+json, " ++
    "application/vnd.docker.distribution.manifest.v2+json"

/-- A request for what is at a URL. -/
structure Request where
  url : UrlParts
  accept : Option String
  deriving DecidableEq, Repr

/-- The answer to a request. -/
structure Response where
  status : Nat
  location : Option String
  /-- The length given before the body. -/
  length : Option Nat
  /-- The body, unless it broke off. -/
  body : Option (List UInt8)
  deriving DecidableEq, Repr

/-- What carries requests, and may fail to. -/
structure Transport (τ : Type) where
  send : τ → Request → Option Response × τ

/-- A transport that reaches nothing. -/
def Transport.unreachable {τ : Type} : Transport τ :=
  ⟨fun world _ => (none, world)⟩

/-- The client of a registry: what carries its requests, and which registries are asked over plain
HTTP. -/
structure Client (τ : Type) where
  transport : Transport τ
  plainHttp : List String

variable {τ : Type}

/-- The statuses of answers that redirect. -/
def isRedirect (status : Nat) : Bool :=
  [301, 302, 303, 307, 308].contains status

/-- Where an answer redirects to, if it names a URL. -/
def redirectTarget? (url : UrlParts) (r : Response) : Option UrlParts :=
  if isRedirect r.status then
    r.location.bind fun text => (UrlParts.parse text (some url)).toOption.map (·.withoutFragment)
  else none

/-- Sends a request and follows redirects. Nothing but HTTP is followed. -/
def follow (t : Transport τ) (accept : Option String) :
    (redirects : Nat) → UrlParts → τ → Option Response × τ
  | redirects, url, world =>
    match t.send world ⟨url, accept⟩ with
    | (none, world) => (none, world)
    | (some r, world) =>
      match redirectTarget? url r, redirects with
      | none, _ => (some r, world)
      | some _, 0 => (none, world)
      | some target, redirects + 1 =>
        if target.scheme = "http" ∨ target.scheme = "https" then
          follow t accept redirects target world
        else (none, world)

/-- The bytes of an answer to the request for the URL `url`, or why they are not taken. -/
def accepted (url artifact : String) (r : Response) : Except RestoreError (List UInt8) :=
  if r.status = 404 then .error (.notFound artifact)
  else if r.status = 401 ∨ r.status = 403 then .error (.unauthorized artifact r.status)
  else if 400 ≤ r.status then .error (.status url r.status)
  else if maxSize < r.length.getD 0 then .error (.tooLarge url maxSize)
  else
    match r.body with
    | none => .error (.http url "the body broke off")
    | some bytes => if maxSize < bytes.length then .error (.tooLarge url maxSize) else .ok bytes

/-- Fetches what is at a URL. -/
def get (t : Transport τ) (url : String) (accept : Option String) (artifact : String) (world : τ) :
    Except RestoreError (List UInt8) × τ :=
  match UrlParts.parse url none with
  | .error cause => (.error (.http url cause.message), world)
  | .ok target =>
    match follow t accept maxRedirects target.withoutFragment world with
    | (none, world) => (.error (.http url "the registry could not be reached"), world)
    | (some r, world) => (accepted url artifact r, world)

/-- The URL of an artifact's repository. -/
def repositoryUrl (plainHttp : List String) (r : OciReference) : String :=
  let isPlain := plainHttp.any fun s => s.map Char.toLower == r.registry.map Char.toLower
  (if isPlain then "http" else "https") ++ "://" ++ r.registry ++ "/v2/" ++
    "/".intercalate r.segments

/-- The URL of an artifact's manifest. -/
def manifestUrl (plainHttp : List String) (r : OciReference) : String :=
  repositoryUrl plainHttp r ++ "/manifests/" ++ r.tag

/-- The URL of a blob in an artifact's repository. -/
def blobUrl (plainHttp : List String) (r : OciReference) (digest : String) : String :=
  repositoryUrl plainHttp r ++ "/blobs/" ++ digest

/-- The one layer of a manifest that was served from `url`, unless it is too large. -/
def layerOf (url : String) (manifest : List UInt8) : Except RestoreError Layer :=
  match Manifest.parse manifest with
  | .error fault => .error (.manifest fault)
  | .ok layer => if maxSize < layer.size then .error (.tooLarge url maxSize) else .ok layer

/-- Fetches the artifact of a reference. -/
def pull (c : Client τ) (world : τ) (r : OciReference) : Except RestoreError Artifact × τ :=
  let url := manifestUrl c.plainHttp r
  match get c.transport url (some manifestTypes) r.artifact world with
  | (.error e, world) => (.error e, world)
  | (.ok manifest, world) =>
    match layerOf url manifest with
    | .error e => (.error e, world)
    | .ok layer =>
      match get c.transport (blobUrl c.plainHttp r layer.digest) none r.artifact world with
      | (.error e, world) => (.error e, world)
      | (.ok blob, world) =>
        match Manifest.verify layer.digest blob with
        | .error e => (.error e, world)
        | .ok () => (.ok ⟨manifest, layer.digest, blob⟩, world)

/-- The client as one that fetches artifacts. -/
def Client.artifacts (c : Client τ) : ArtifactClient τ := ⟨pull c⟩

end Http

end ModuleGraph
