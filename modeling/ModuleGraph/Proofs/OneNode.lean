import ModuleGraph.Command.Run
import ModuleGraph.Proofs.CycleReport
import ModuleGraph.Proofs.FileWalks

/-!
# One node for one file

A graph knows files by their URLs, and a disk knows them by their places. Beside a
file one other file can be written in many ways: with an empty piece, with a query or
a fragment, with triples for characters that do not need them. Each gives it another
URL. Then it is several files of the graph, and a chain of imports that comes back to
it need not come back in the graph (`Sample.not_one_node`).

Tidy paths give a file one URL, that of its place (`Disk.FileAt.join`). The URL of a
canonical path is of this kind, too, so that a build that starts from one and follows
tidy paths finds every file under the URL of its place
(`Discovery.eq_ofPlace_of_reached`). What is said of files is then said of nodes
(`Machine.one_node`).
-/

namespace ModuleGraph

open Relation
open Disk (Ordinary)

/-! ## The file that a URL names -/

/-- The URL names the file at a place. -/
structure Disk.FileAt (d : Disk) (cwd : Place) (u : Url) (place : Place) : Prop where
  scheme : u.scheme = "file"
  path : ∃ p, u.toFilePath? = some p ∧ d.find cwd p = .ok place
  file : ∃ bytes, d.node? place = some (.file bytes)

namespace Disk

variable {d : Disk} {cwd here place q : Place} {u t : Url} {p : DiskPath}
  {names : List (List UInt8)}

theorem fileAt_of_readUrl {text : String} (h : d.readUrl cwd u = .ok text) :
    ∃ place, d.FileAt cwd u place := by
  rw [readUrl] at h
  split at h
  · next hscheme =>
    split at h
    · cases h
    · next p hpath =>
      cases hread : d.readBytes cwd p with
      | error e =>
        rw [readText, hread] at h
        simp only [bind, Except.bind] at h
        split at h
        · next heq => cases heq
        · cases h
        · cases h
      | ok bytes =>
        obtain ⟨place, hfind, hnode⟩ := find_of_readBytes hread
        exact ⟨place, beq_iff_eq.1 hscheme, ⟨p, hpath, hfind⟩, bytes, hnode⟩
  · cases h

namespace FileAt

theorem isDirectory (h : d.FileAt cwd u place) : d.isDirectory place = false := by
  obtain ⟨bytes, hnode⟩ := h.file
  rw [Disk.isDirectory, hnode]
  rfl

/-- A path that means a directory names no file. -/
theorem meansDirectory (h : d.FileAt cwd u place) (hpath : u.toFilePath? = some p) :
    meansDirectory p = false := by
  obtain ⟨p', hpath', hfind⟩ := h.path
  rw [hpath, Option.some_inj] at hpath'
  subst hpath'
  rw [← Bool.not_eq_true]
  intro hmeans
  have hdirectory := (find_eq_ok_iff.1 hfind).2.2 hmeans
  rw [h.isDirectory] at hdirectory
  cases hdirectory

theorem ne_nil (h : d.FileAt cwd u place) : place ≠ [] := by
  rintro rfl
  cases h.isDirectory

end FileAt

theorem foldl_go_of_ordinary (h : Ordinary names) (here : Place) :
    names.foldl go here = here ++ names := by
  induction names generalizing here with
  | nil => exact (List.append_nil here).symm
  | cons name names ih =>
    obtain ⟨hname, hnames⟩ := List.forall_mem_cons.1 h
    rw [List.foldl_cons, go, if_neg hname.2.2.1, if_neg hname.2.2.2, ih hnames,
      List.append_assoc, List.singleton_append]

/-- The URL of a place names no other place. -/
theorem FileAt.eq_of_ofPlace (h : d.FileAt cwd (.ofPlace place) q) (hplace : Ordinary place) :
    q = place ∧ Url.endsWithDrive (pathOf place) = false := by
  have hpath := Url.toFilePath?_ofPlace place
  have hmeans := h.meansDirectory hpath
  have hdrive : Url.endsWithDrive (pathOf place) = false := by
    rw [← Bool.not_eq_true]
    intro hdrive
    rw [Url.closeDrive, if_pos hdrive, Disk.meansDirectory, List.getLast?_concat] at hmeans
    simp at hmeans
  rw [Url.closeDrive, hdrive] at hpath
  obtain ⟨p, hpath', hfind⟩ := h.path
  rw [hpath] at hpath'
  obtain rfl := Option.some.inj hpath'
  have hfound := find_eq hfind
  simp only [Bool.false_eq_true, if_false] at hfound
  rw [Disk.place, names_pathOf hplace.spoken, origin, if_pos (isAbsolute_pathOf place),
    foldl_go_of_ordinary hplace] at hfound
  exact ⟨hfound, hdrive⟩

/-- The URL of a directory names no file. -/
theorem not_fileAt_directory :
    ¬ d.FileAt cwd (.ofParts (.ofPath (directoryText place))) q := by
  intro h
  have hmeans := h.meansDirectory <| Url.toFilePath?_ofPath (head?_directoryText place)
    fun c hc => endsPath_of_mem_directoryText hc
  obtain ⟨front, hbytes⟩ : ∃ front, ((directoryText place).drop 1 |>.splitOn '/').flatMap
      (slashByte :: Percent.decode ·) = front ++ [slashByte] := by
    cases place with
    | nil => exact ⟨[], rfl⟩
    | cons name more =>
      have hdrop : (directoryText (name :: more)).drop 1 =
          (nameText name ++ more.flatMap ('/' :: nameText ·)) ++ '/' :: [] := by
        simp [directoryText]
      rw [hdrop, List.splitOn_append_cons_self, List.flatMap_append]
      exact ⟨_, rfl⟩
  rw [hbytes, Url.closeDrive] at hmeans
  split at hmeans <;>
  · rw [Disk.meansDirectory, List.getLast?_concat] at hmeans
    simp at hmeans

/-- A path that is no more than names is the path of the file that its URL names. -/
theorem FileAt.of_isPlain {path : List Char} (hplain : Segments.IsPlain path)
    (h : d.FileAt cwd (.ofParts (.ofPath path)) q) :
    Ordinary q ∧ Url.ofParts (.ofPath path) = .ofPlace q := by
  obtain ⟨place, hplace, rfl | ⟨-, rfl⟩⟩ := hplain
  · exact absurd h not_fileAt_directory
  · obtain rfl := (FileAt.eq_of_ofPlace h hplace).1
    exact ⟨hplace, rfl⟩

/-- A name that is taken for a drive names no file at the end of a URL. -/
theorem not_drive {front : Place} {name : List UInt8}
    (h : Url.endsWithDrive (pathOf (front ++ [name])) = false) :
    Segments.isNormalDriveLetter (nameText name) = false := by
  rw [← Bool.not_eq_true]
  intro hdrive
  rw [Segments.isNormalDriveLetter, Bool.and_eq_true, beq_iff_eq] at hdrive
  obtain ⟨hdrive, hlast⟩ := hdrive
  have hdecode := decode_nameText name
  generalize nameText name = seg at hdrive hlast hdecode
  obtain ⟨c, sign, rfl, halpha⟩ := Segments.exists_of_isDriveLetter hdrive
  obtain rfl : sign = ':' := by simpa using hlast
  obtain ⟨hascii, -, htext⟩ := Segments.nameText_drive halpha
  have hname := decode_nameText [UInt8.ofNat c.toNat, 0x3A]
  rw [htext, hdecode] at hname
  have hletter : (UInt8.ofNat c.toNat).toNat = c.toNat :=
    UInt8.toNat_ofNat_of_lt (hascii.trans (by decide))
  rw [hname, pathOf, if_neg (by simp), List.flatMap_append] at h
  simp [Url.endsWithDrive, hletter, halpha] at h

/-- What tidy text means beside a file is under the URL of its place. -/
theorem FileAt.join {text : String} (h : d.FileAt cwd (.ofPlace place) place)
    (hplace : Ordinary place) (htidy : UrlParts.Tidy text)
    (hjoin : (Url.ofPlace place).join text = .ok t) (ht : d.FileAt cwd t q) :
    Ordinary q ∧ t = .ofPlace q := by
  obtain rfl | ⟨front, name, hconcat⟩ := List.eq_nil_or_concat place
  · exact absurd rfl h.ne_nil
  · rw [List.concat_eq_append] at hconcat
    subst hconcat
    obtain ⟨path, hplain, hpath⟩ :=
      Url.join_tidy hplace (not_drive (h.eq_of_ofPlace hplace).2) htidy
    rw [hpath] at hjoin
    obtain rfl := Except.ok.inj hjoin
    exact ht.of_isPlain hplain

/-! ## Canonical paths -/

theorem ordinary_of_walk (h : d.walk here names = .ok place) (hhere : Ordinary here)
    (hnames : Spoken names) : Ordinary place := by
  rw [walk_eq h]
  clear h
  induction names generalizing here with
  | nil => exact hhere
  | cons name names ih =>
    obtain ⟨hname, hnames⟩ := List.forall_mem_cons.1 hnames
    refine ih ?_ hnames
    rw [go]
    split
    · exact hhere
    · next hdot =>
      split
      · exact fun other hother => hhere other (List.mem_of_mem_dropLast hother)
      · next hdots => exact hhere.concat ⟨hname.1, hname.2, hdot, hdots⟩

theorem spoken_names (p : DiskPath) : Spoken p.names := by
  intro name hname
  rw [DiskPath.names, List.mem_filter] at hname
  exact ⟨by simpa using hname.2, not_mem_of_mem_splitOn hname.1⟩

theorem ofFilePath?_pathOf (h : Ordinary place) :
    Url.ofFilePath? (pathOf place) = some (.ofPlace place) := by
  rw [Url.ofFilePath?_eq (isAbsolute_pathOf place), DiskPath.pathComponents_eq,
    names_pathOf h.spoken,
    List.filter_eq_self.2 fun name hname => by simpa using (h name hname).2.2.1]

/-- The URL of a canonical path is that of the place where the path leads. -/
theorem ofFilePath?_canonical (hp : d.canonicalize cwd p = .ok p)
    (hu : Url.ofFilePath? p = some u) : ∃ place, Ordinary place ∧ u = .ofPlace place := by
  have habsolute : p.isAbsolute = true := by
    rw [Url.ofFilePath?] at hu
    split at hu
    · next h => exact h
    · cases hu
  rw [canonicalize] at hp
  cases hfind : d.find cwd p with
  | error e => rw [hfind] at hp; cases hp
  | ok place =>
    rw [hfind] at hp
    obtain rfl : pathOf place = p := Except.ok.inj hp
    have hwalk := (find_eq_ok_iff.1 hfind).2.1
    rw [origin, if_pos habsolute] at hwalk
    have hplace := ordinary_of_walk hwalk (by simp [Ordinary]) (spoken_names _)
    exact ⟨place, hplace, Option.some.inj (hu.symm.trans (ofFilePath?_pathOf hplace))⟩

end Disk

/-! ## Paths that are declared -/

section Declared

variable {σ : Type} {routes : Routes σ} {world : σ} {l : Ledger} {d : Declaration}
  {parent t : Url} {path : String}

theorem Registry.besideParent_eq_ok_iff :
    besideParent parent (.relative path) = .ok t ↔ parent.join path = .ok t := by
  rw [besideParent]
  cases parent.join path <;> simp

theorem Routes.exists_reference_of_locateIn (h : routes.locateIn world l parent d = .ok t) :
    ∃ r, routes.referenceIn l d = .ok r := by
  rw [locateIn] at h
  cases hreference : routes.referenceIn l d with
  | error e => rw [hreference] at h; cases h
  | ok r => exact ⟨r, rfl⟩

/-- A declared path leads to the URL that it means beside the declaring file. -/
theorem Routes.join_of_locateIn (hlocal : routes.registry? .relative = some .relative)
    (hreference : routes.referenceIn l d = .ok (.relative path))
    (h : routes.locateIn world l parent d = .ok t) : parent.join path = .ok t := by
  rw [locateIn, hreference] at h
  simp only [locateOf, Reference.scheme, hlocal] at h
  split at h
  · cases h
  · next heq => cases heq
  · next heq =>
    cases heq
    exact Registry.besideParent_eq_ok_iff.1 h

/-- It does so whenever nothing else is remembered of it. -/
theorem Routes.locateIn_of_join (world : σ)
    (hlocal : routes.registry? .relative = some .relative)
    (hfree : l.failure? (.relative path) = none)
    (hreference : routes.referenceIn l d = .ok (.relative path))
    (h : parent.join path = .ok t) : routes.statusIn world l d = .available ∧
      routes.locateIn world l parent d = .ok t := by
  rw [statusIn, locateIn, hreference]
  simp only [statusOf, locateOf, Reference.scheme, hlocal, hfree]
  exact ⟨rfl, Registry.besideParent_eq_ok_iff.2 h⟩

end Declared

/-! ## Files of a graph -/

/-- The reference is a path, and a tidy one. -/
def Reference.IsTidyPath : Reference → Prop
  | relative path => UrlParts.Tidy path
  | oci _ | nuget _ => False

instance : DecidablePred Reference.IsTidyPath
  | .relative path => inferInstanceAs (Decidable (UrlParts.Tidy path))
  | .oci _ | .nuget _ => isFalse id

namespace Graph

variable {σ : Type}

/-- A declaration of one file of a graph imports another one by a path. -/
structure Imports (g : Graph) (routes : Routes σ) (l : Ledger) (d : Declaration) (u t : Url) :
    Prop where
  declared : ∃ f, g.files[u]? = some f ∧ d ∈ f.declarations
  written : ∃ path, routes.referenceIn l d = .ok (.relative path) ∧ u.join path = .ok t
  found : g.files.contains t = true

/-- The file at one place imports the file at another. -/
def ImportsFile {τ : Type} (g : Graph) (routes : Routes (Host τ)) (l : Ledger) (host : Host τ)
    (p q : Place) : Prop :=
  ∃ d u t, g.Imports routes l d u t ∧ host.disk.FileAt host.cwd u p ∧
    host.disk.FileAt host.cwd t q

/-- All that the files of a graph import are paths, and these are tidy. -/
def ImportsTidily (g : Graph) (routes : Routes σ) (l : Ledger) : Prop :=
  ∀ (u : Url) f, g.files[u]? = some f → ∀ d ∈ f.declarations, ∀ r,
    routes.referenceIn l d = .ok r → r.IsTidyPath

theorem importsTidily_iff {g : Graph} {routes : Routes σ} {l : Ledger} :
    g.ImportsTidily routes l ↔ ∀ u ∈ g.files.keys, ∀ f ∈ g.files[u]?, ∀ d ∈ f.declarations,
      ∀ r ∈ (routes.referenceIn l d).toOption, r.IsTidyPath := by
  constructor
  · intro h u _ f hf d hd r hr
    refine h u f hf d hd r ?_
    cases hreference : routes.referenceIn l d with
    | error e => rw [hreference] at hr; cases hr
    | ok r' => rw [hreference] at hr; cases hr; rfl
  · intro h u f hf d hd r hr
    exact h u (FileMap.mem_keys_iff.2 ⟨f, hf⟩) f hf d hd r (by rw [hr]; rfl)

instance {g : Graph} {routes : Routes σ} {l : Ledger} : Decidable (g.ImportsTidily routes l) :=
  decidable_of_iff _ importsTidily_iff.symm

end Graph

namespace Discovery

variable {τ : Type} {routes : Routes (Host τ)} {host : Host τ} {ws : Workspace} {l : Ledger}
  {entry u t : Url} {f : SourceFile} {s : Discovery} {d : Declaration} {place : Place}

theorem fileAt_of_fetch
    (hopen : ∀ u, ws.contains u = true → ∃ place, host.disk.FileAt host.cwd u place)
    (h : Context.fetch ⟨Machine.setting routes, host, ws, .none⟩ u = .ok f) :
    ∃ place, host.disk.FileAt host.cwd u place := by
  rw [Context.fetch] at h
  split at h
  · next hws => exact hopen u (FileMap.contains_iff.2 ⟨_, hws⟩)
  · next hprior => cases hprior
  · split at h
    · next text hread => exact Disk.fileAt_of_readUrl hread
    · cases h

/-- Where paths are tidy, a build reaches every file under the URL of its place. -/
theorem eq_ofPlace_of_reached (hlocal : routes.registry? .relative = some .relative)
    (hopen : ∀ u, ws.contains u = true → ∃ place, host.disk.FileAt host.cwd u place)
    (hentry : ∃ place, Ordinary place ∧ entry = .ofPlace place)
    (hsurveyed : Surveyed ⟨Machine.setting routes, host, ws, .none⟩ l entry s)
    (htidy : (s.graph entry).ImportsTidily routes l)
    (h : Reached ⟨Machine.setting routes, host, ws, .none⟩ l entry u) :
    ∃ place, Ordinary place ∧ u = .ofPlace place ∧ host.disk.FileAt host.cwd u place := by
  induction h with
  | entry hfetch =>
    obtain ⟨place, hplace, rfl⟩ := hentry
    obtain ⟨found, hfound⟩ := fileAt_of_fetch hopen hfetch
    obtain rfl := (hfound.eq_of_ofPlace hplace).1
    exact ⟨_, hplace, rfl, hfound⟩
  | @step u t f d hreached hfetch hd hverdict ih =>
    obtain ⟨place, hplace, rfl, hat⟩ := ih
    obtain ⟨-, hlocate, f', hfetch'⟩ := verdict_eq_resolved_iff.1 hverdict
    obtain ⟨found, hfound⟩ := fileAt_of_fetch hopen hfetch'
    rw [SourceFile.id_uri_of_mem hd, uri_of_fetch hfetch] at hlocate
    obtain ⟨r, hreference⟩ := Routes.exists_reference_of_locateIn hlocate
    have hpath := htidy _ f ((hsurveyed.files _ f).2 ⟨hreached, hfetch⟩) d hd r hreference
    cases r with
    | relative path =>
      obtain ⟨hordinary, rfl⟩ := hat.join hplace hpath
        (Routes.join_of_locateIn hlocal hreference hlocate) hfound
      exact ⟨found, hordinary, rfl, hfound⟩
    | oci | nuget => cases hpath

theorem Surveyed.resolution?_of_imports (hlocal : routes.registry? .relative = some .relative)
    (hledger : ∀ path, l.failure? (.relative path) = none)
    (h : Surveyed ⟨Machine.setting routes, host, ws, .none⟩ l entry s)
    (himports : (s.graph entry).Imports routes l d u t) :
    s.outcomes.resolution? d.id = some t ∧ d.id.uri = u := by
  obtain ⟨⟨f, hf, hd⟩, ⟨path, hreference, hjoin⟩, hfound⟩ := himports
  have huri : d.id.uri = u := by
    rw [SourceFile.id_uri_of_mem hd, FileMap.uri_of_getElem? hf]
  obtain ⟨hstatus, hlocate⟩ :=
    Routes.locateIn_of_join host hlocal (hledger path) hreference hjoin
  have hverdict : Context.verdict ⟨Machine.setting routes, host, ws, .none⟩ l d = .resolved t :=
    verdict_eq_resolved_iff.2 ⟨hstatus, huri ▸ hlocate, (h.contains_iff.1 hfound).fetch⟩
  have hshows := h.shows d ⟨f, huri ▸ hf, hd⟩
  exact ⟨by rw [hshows.resolution?, hverdict]; rfl, huri⟩

end Discovery

namespace Machine

open Discovery

variable {τ : Type} {routes : Routes (Host τ)} {host : Host τ} {ws : Workspace} {l : Ledger}
  {p : DiskPath} {entry : Url} {budget : Nat} {g : Graph} {site : Site (Host τ)}

/-- Where files import each other by tidy paths, no file of the disk is two files of a graph, and
every declaration that leads back into a chain of imports fails because of a cycle. -/
theorem one_node (hlocal : routes.registry? .relative = some .relative)
    (hledger : ∀ path, l.failure? (.relative path) = none)
    (hopen : ∀ u, ws.contains u = true → ∃ place, host.disk.FileAt host.cwd u place)
    (hcanonical : host.disk.canonicalize host.cwd p = .ok p)
    (hentry : Url.ofFilePath? p = some entry)
    (hbuild : (setting routes).build budget ⟨host, l⟩ ws entry = some (.ok g, site))
    (htidy : g.ImportsTidily routes l) :
    (∀ u v place, g.files.contains u = true → g.files.contains v = true →
      host.disk.FileAt host.cwd u place → host.disk.FileAt host.cwd v place → u = v) ∧
    ∀ d u t place, g.Imports routes l d u t → host.disk.FileAt host.cwd t place →
      TransGen (g.ImportsFile routes l host) place place → g.FailsByCycle d.id := by
  obtain ⟨s, hsurveyed, rfl, -⟩ := Setting.buildWith_ok hbuild
  have hcanonicalEntry := Disk.ofFilePath?_canonical hcanonical hentry
  have hplace {u : Url} {place : Place} (hu : s.files.contains u = true)
      (hat : host.disk.FileAt host.cwd u place) : u = .ofPlace place := by
    obtain ⟨found, hfound, rfl, -⟩ := eq_ofPlace_of_reached hlocal hopen hcanonicalEntry hsurveyed
      htidy (hsurveyed.contains_iff.1 hu)
    rw [(hat.eq_of_ofPlace hfound).1]
  refine ⟨fun u v place hu hv hatU hatV => (hplace hu hatU).trans (hplace hv hatV).symm, ?_⟩
  intro d u t place himports hat hchain
  -- a chain of files is a chain of their URLs
  have hcycle : TransGen s.outcomes.Leads t t := by
    rw [hplace himports.found hat]
    refine hchain.lift Url.ofPlace ?_
    rintro q q' ⟨d, u, t, himports, hatU, hatT⟩
    obtain ⟨hresolved, huri⟩ := hsurveyed.resolution?_of_imports hlocal hledger himports
    obtain ⟨f, hf, -⟩ := himports.declared
    rw [Function.onFun, ← hplace (FileMap.contains_iff.2 ⟨f, hf⟩) hatU,
      ← hplace himports.found hatT]
    exact ⟨d.id, hresolved, huri⟩
  have hresolved := (hsurveyed.resolution?_of_imports hlocal hledger himports).1
  exact Outcomes.failsByCycle_breakCycles_iff.2 (.inl ⟨t, hresolved, hcycle⟩)

end Machine

/-! ## Two files that import each other -/

namespace Sample

open DiskPath (ofString)

/-- A host with a file `/a/main.cfg` and another one, which have the given texts. -/
def pair (other text otherText : String) : Host Unit :=
  ⟨(Disk.empty.performAll [] [.makeDirectories (ofString "/a"), .makeDirectories (ofString "/b"),
    .write (ofString "/a/main.cfg") (Utf8.bytesOf text),
    .write (ofString other) (Utf8.bytesOf otherText)]).1, [], 1, 0, ()⟩

/-- Paths are all that can be imported. -/
def pathRoutes : Routes (Host Unit) :=
  .ofList [.relative]

/-- The first file. -/
def first : Url := ⟨"file:///a/main.cfg"⟩

/-- The graph of the first file. -/
def pairGraph? (host : Host Unit) : Option (Except BuildError Graph × Site (Host Unit)) :=
  (Machine.setting pathRoutes).build 4 ⟨host, .empty⟩ ∅ first

/-- The build ends with a graph that passes a test. -/
def builds (host : Host Unit) (test : Graph → Bool) : Bool :=
  match pairGraph? host with
  | some (.ok g, _) => test g
  | _ => false

theorem exists_of_builds {host : Host Unit} {test : Graph → Bool} (h : builds host test = true) :
    ∃ g site, pairGraph? host = some (.ok g, site) ∧ test g = true := by
  rw [builds] at h
  split at h
  · next g site hbuild => exact ⟨g, site, hbuild, h⟩
  · cases h

/-- The files import each other, across directories. -/
theorem one_node_across : ∃ (host : Host Unit) (g : Graph) (site : Site (Host Unit)),
    pairGraph? host = some (.ok g, site) ∧ g.ImportsTidily pathRoutes .empty ∧
    (∀ u v place, g.files.contains u = true → g.files.contains v = true →
      host.disk.FileAt host.cwd u place → host.disk.FileAt host.cwd v place → u = v) ∧
    ∀ d u t place, g.Imports pathRoutes .empty d u t → host.disk.FileAt host.cwd t place →
      TransGen (g.ImportsFile pathRoutes .empty host) place place → g.FailsByCycle d.id := by
  have hcheck : builds
      (pair "/b/main.cfg" "module b '../b/main.cfg'" "module a '../a/main.cfg'")
      (fun g => g.ImportsTidily pathRoutes .empty) = true := by
    decide +kernel
  obtain ⟨g, site, hbuild, htidy⟩ := exists_of_builds hcheck
  replace htidy := of_decide_eq_true htidy
  exact ⟨_, g, site, hbuild, htidy, Machine.one_node rfl (fun path => rfl)
    (fun u hu => by cases hu) (p := ofString "/a/main.cfg") (by decide +kernel)
    (by decide +kernel) hbuild htidy⟩

/-- A file beside the first one. -/
def second : Url := ⟨"file:///a/b.cfg"⟩

/-- The first file with one slash more. -/
def again : Url := ⟨"file:///a//main.cfg"⟩

/-- Two files, the second of which imports the first one under another URL. -/
def twisted : Host Unit :=
  pair "/a/b.cfg" "module b './b.cfg'" "module a '../a//main.cfg'"

/-- A declaration of a file of the graph has this path, and fails or does not. -/
def declares (g : Graph) (u : Url) (path : String) (fails : Bool) : Bool :=
  g.files[u]?.any fun f => f.declarations.any fun d =>
    (pathRoutes.referenceIn .empty d).toOption == some (.relative path) &&
      (g.failure? d.id).isSome == fails

theorem exists_imports {g : Graph} {u t : Url} {path : String} {fails : Bool}
    (h : declares g u path fails = true) (hjoin : u.join path = .ok t)
    (hfound : g.files.contains t = true) :
    ∃ d, g.Imports pathRoutes .empty d u t ∧ (fails = false → ¬ g.FailsByCycle d.id) := by
  obtain ⟨f, hf, hd⟩ := (Option.any_eq_true ..).1 h
  obtain ⟨d, hd, hpath⟩ := List.any_eq_true.1 hd
  rw [Bool.and_eq_true, beq_iff_eq, beq_iff_eq] at hpath
  refine ⟨d, ⟨⟨f, hf, hd⟩, ⟨path, ?_, hjoin⟩, hfound⟩, ?_⟩
  · cases hreference : pathRoutes.referenceIn .empty d with
    | error e => rw [hreference] at hpath; cases hpath.1
    | ok r => rw [hreference] at hpath; exact congrArg _ (Option.some.inj hpath.1)
  · rintro rfl ⟨failure, hfailure, -⟩
    rw [hfailure] at hpath
    cases hpath.2

theorem fileAt_twisted {u : Url} {p : String} {place : Place} (hscheme : u.scheme = "file")
    (hpath : u.toFilePath? = some (ofString p))
    (hfind : twisted.disk.find [] (ofString p) = .ok place)
    (hfile : (twisted.disk.file? place).isSome = true) :
    twisted.disk.FileAt twisted.cwd u place := by
  obtain ⟨bytes, hbytes⟩ := Option.isSome_iff_exists.1 hfile
  exact ⟨hscheme, ⟨_, hpath, hfind⟩, bytes, Disk.file?_eq_some_iff.1 hbytes⟩

/-- The first file is two files of the graph. Its import and the one that leads back to it are both
resolved, so that the cycle is not reported. -/
theorem not_one_node : ∃ (host : Host Unit) (p : DiskPath) (entry : Url) (g : Graph)
    (site : Site (Host Unit)), host.disk.canonicalize host.cwd p = .ok p ∧
    Url.ofFilePath? p = some entry ∧
    (Machine.setting pathRoutes).build 4 ⟨host, .empty⟩ ∅ entry = some (.ok g, site) ∧
    (∃ u v place, g.files.contains u = true ∧ g.files.contains v = true ∧
      host.disk.FileAt host.cwd u place ∧ host.disk.FileAt host.cwd v place ∧ u ≠ v) ∧
    ∃ d u t place, g.Imports pathRoutes .empty d u t ∧ host.disk.FileAt host.cwd t place ∧
      TransGen (g.ImportsFile pathRoutes .empty host) place place ∧ ¬ g.FailsByCycle d.id := by
  have hcheck : builds twisted (fun g => g.files.contains first && (g.files.contains second &&
      (g.files.contains again && (declares g first "./b.cfg" false &&
        declares g second "../a//main.cfg" false)))) = true := by
    decide +kernel
  obtain ⟨g, site, hbuild, htest⟩ := exists_of_builds hcheck
  simp only [Bool.and_eq_true] at htest
  obtain ⟨hfirst, hsecond, hagain, hout, hback⟩ := htest
  have hatFirst : twisted.disk.FileAt twisted.cwd first [ofString "a", ofString "main.cfg"] :=
    fileAt_twisted (p := "/a/main.cfg") (by decide +kernel) (by decide +kernel)
      (by decide +kernel) (by decide +kernel)
  have hatAgain : twisted.disk.FileAt twisted.cwd again [ofString "a", ofString "main.cfg"] :=
    fileAt_twisted (p := "/a//main.cfg") (by decide +kernel) (by decide +kernel)
      (by decide +kernel) (by decide +kernel)
  have hatSecond : twisted.disk.FileAt twisted.cwd second [ofString "a", ofString "b.cfg"] :=
    fileAt_twisted (p := "/a/b.cfg") (by decide +kernel) (by decide +kernel)
      (by decide +kernel) (by decide +kernel)
  obtain ⟨d, himports, hwell⟩ := exists_imports hout (by decide +kernel) hsecond
  obtain ⟨e, himportsBack, -⟩ := exists_imports hback (by decide +kernel) hagain
  refine ⟨twisted, ofString "/a/main.cfg", first, g, site, by decide +kernel,
    by decide +kernel, hbuild, ⟨first, again, _, hfirst, hagain, hatFirst, hatAgain, by decide⟩,
    d, first, second, _, himports, hatSecond, ?_, hwell rfl⟩
  exact .head ⟨e, second, again, himportsBack, hatSecond, hatAgain⟩
    (.single ⟨d, first, second, himports, hatFirst, hatSecond⟩)

end Sample

end ModuleGraph
