import Orkano.Operator.ImageReference
import Orkano.RepoAllowlist.Normalize

/-!
The Job of a Build: `buildjob.Render` turns what `Compose` made of a Build into the containers of
a pod. What the schema admits, both accept.
-/
namespace Orkano.Operator.BuildJob

open Text ImageReference List

def hasDotDot : List Char → Bool
  | '.' :: '.' :: _ => true
  | _ :: cs => hasDotDot cs
  | [] => false

def isPathChar (c : Char) : Bool := c.isAlphanum || c = '_' || c = '.' || c = '/' || c = '-'

/-- A path within the sources: a bounded length, plain characters and no `..`. -/
def isPath (maxLength : ℕ) (s : String) : Bool :=
  s ≠ "" && s.length ≤ maxLength && s.toList.all isPathChar && !hasDotDot s.toList

def isOptionalPath (maxLength : ℕ) (s : String) : Bool := s = "" || isPath maxLength s

def isHostChar (c : Char) : Bool := c.isAlphanum || c = '.' || c = '-'

def isGitPathChar (c : Char) : Bool := c.isAlphanum || c ∈ "._~!$&'()*+,;=:%/-".toList

/-- An `https` URL with a host, at most the port 443, and a path. -/
def isGitURL (url : String) : Bool :=
  let rest := url.toList.drop 8
  let behindHost := rest.dropWhile isHostChar
  let path := if ":443".toList.isPrefixOf behindHost then behindHost.drop 4 else behindHost
  9 ≤ url.length && url.length ≤ 2048 && "https://".toList.isPrefixOf url.toList &&
    rest.takeWhile isHostChar ≠ [] && path.head? = some '/' && path.tail ≠ [] &&
    path.tail.all isGitPathChar

def isZipName (name : String) : Bool :=
  let middle := name.toList.tail.take (name.toList.tail.length - 4)
  name.length ≤ 255 && name.toList.head?.any Char.isAlphanum &&
    ".zip".toList.isSuffixOf name.toList.tail && middle.length ≤ 250 &&
    middle.all fun c => c.isAlphanum || c = '.' || c = '_' || c = '-'

def admitsSource (src : Source) : Bool :=
  (if src.github.isSome then !src.git.isSome && !src.upload.isSome
    else src.git.isSome != src.upload.isSome) &&
    src.github.all (fun g => RepoAllowlist.isRepository g.repo && g.repo.length ≤ 140 &&
      g.ref.length ≤ 250) &&
    src.git.all (fun g => isGitURL g.url && isOptionalPath 250 g.ref) &&
    src.upload.all (fun u => digestPattern u.digest && (u.fileName = "" || isZipName u.fileName)) &&
    isOptionalPath 512 src.subPath

def admitsStrategy (s : BuildStrategy) : Bool :=
  (match s.strategy with
    | .dockerfile => !s.static.isSome && !s.nixpacks.isSome
    | .static => s.static.isSome && !s.dockerfile.isSome && !s.nixpacks.isSome
    | .nixpacks => s.nixpacks.isSome && !s.dockerfile.isSome && !s.static.isSome) &&
    s.dockerfile.all (isOptionalPath 512) && s.static.all (isPath 512) &&
    s.nixpacks.all (isOptionalPath 512)

/-- A Build that the API server has admitted, its name and namespace included. -/
def admits (ns name : String) (spec : BuildSpec) : Bool :=
  isLabel ns.toList && ns.length ≤ 63 && isSubdomain name && name.length ≤ 253 &&
    isSubdomain spec.appName && spec.appName.length ≤ 253 && isCommit spec.commit &&
    admitsSource spec.source && admitsStrategy spec.strategy

structure Admitted (ns name : String) (spec : BuildSpec) : Prop where
  ns : isLabel ns.toList = true
  name : isSubdomain name = true
  admissible : Admissible spec
  source : admitsSource spec.source = true
  strategy : admitsStrategy spec.strategy = true

theorem admitted_of_admits {ns name : String} {spec : BuildSpec} (h : admits ns name spec = true) :
    Admitted ns name spec := by
  simp only [admits, Bool.and_eq_true, decide_eq_true_eq] at h
  obtain ⟨⟨⟨⟨⟨⟨⟨⟨hns, -⟩, hn⟩, -⟩, ha⟩, hl⟩, hc⟩, hsr⟩, hs⟩ := h
  exact ⟨hns, hn, ⟨hc, ha, hl⟩, hsr, hs⟩

def defaultImage : String :=
  "moby/buildkit:v0.30.0-rootless" ++
    "@sha256:d76eb1caecac5733ef7553c1e90a1b21f1bb218cd1142d3553de0747b4a14ba9"

def defaultGitImage : String :=
  "alpine/git:2.49.1@sha256:c0280cf9572316299b08544065d3bf35db65043d5e3963982ec50647d2746e26"

def defaultNixpacksImage : String :=
  "ghcr.io/railwayapp/nixpacks:latest" ++
    "@sha256:fafdd33327c3c824402c7ac5dc93110da2613ef2a6ba9c5390a8c34c241e548f"

def caMountPath : String := "/orkano-registry-ca"
def configMountPath : String := "/orkano-buildkit-config"
def dockerfileLocalName : String := "dockerfile"
def dockerfileMountPath : String := "/orkano-dockerfile"
def sourceMountPath : String := "/workspace/source"

structure Images where
  image : String
  sourceFetcherImage : String
  gitImage : String
  nixpacksImage : String
deriving DecidableEq, Repr

/-- What `Render` is given: the invocation and the images. -/
structure Options extends Invocation, Images
deriving DecidableEq, Repr

structure VolumeMount where
  name : String
  mountPath : String
  readOnly : Bool
deriving DecidableEq, Repr

inductive VolumeSource where
  | emptyDir (sizeLimit : Option ℕ)
  | configMap (name : String)
deriving DecidableEq, Repr

structure Volume where
  name : String
  source : VolumeSource
deriving DecidableEq, Repr

structure Container where
  name : String
  image : String
  command : List String
  args : List String
  env : List (String × String)
  volumeMounts : List VolumeMount
deriving DecidableEq, Repr

structure Job where
  name : String
  ns : String
  annotations : List (String × String)
  activeDeadlineSeconds : ℤ
  initContainers : List Container
  container : Container
  volumes : List Volume
deriving DecidableEq, Repr

def orDefault (image fallback : String) : String := if image = "" then fallback else image

/-- The directory of a materialized checkout that is built. -/
def contextPath (subPath : String) : String :=
  let sub := trimSlashes subPath
  if sub = "" then sourceMountPath else sourceMountPath ++ "/" ++ sub

def dockerfileInitContainer (image dockerfile : String) : Container where
  name := "render-dockerfile"
  image := image
  command := ["sh", "-c", "printf '%s' \"$ORKANO_DOCKERFILE\" > " ++ dockerfileMountPath ++ "/" ++
    defaultDockerfile]
  args := []
  env := [("ORKANO_DOCKERFILE", dockerfile)]
  volumeMounts := [⟨dockerfileLocalName, dockerfileMountPath, false⟩]

def archiveInitContainer (image : String) (source : LocalSource) : Container where
  name := "fetch-source-archive"
  image := image
  command := []
  args := ["source-fetch", "--app=" ++ source.appName, "--digest=" ++ source.archiveDigest,
    "--destination=" ++ sourceMountPath, "--registry-url=https://" ++ registryHost,
    "--ca-file=" ++ caMountPath ++ "/ca.crt"]
  env := []
  volumeMounts := [⟨"source", sourceMountPath, false⟩, ⟨"tmp", "/tmp", false⟩,
    ⟨"registry-ca", caMountPath, true⟩]

/-- Fetches the one commit and leaves no repository behind. -/
def checkoutScript : String :=
  "\n".intercalate [
    "umask 022",
    "git init \"$ORKANO_SOURCE_DIR\"",
    "git -C \"$ORKANO_SOURCE_DIR\" remote add origin \"$ORKANO_GIT_URL\"",
    "git -C \"$ORKANO_SOURCE_DIR\" -c protocol.file.allow=never fetch --depth=1 origin " ++
      "\"$ORKANO_COMMIT\"",
    "test \"$(git -C \"$ORKANO_SOURCE_DIR\" rev-parse FETCH_HEAD)\" = \"$ORKANO_COMMIT\"",
    "git -C \"$ORKANO_SOURCE_DIR\" checkout --detach FETCH_HEAD",
    "test \"$(git -C \"$ORKANO_SOURCE_DIR\" rev-parse HEAD)\" = \"$ORKANO_COMMIT\"",
    "rm -rf \"$ORKANO_SOURCE_DIR/.git\""]

/-- Downloads the generator, checks its sum and runs it. -/
def nixpacksScript : String :=
  "\n".intercalate [
    "set -euo pipefail",
    "case \"$(uname -m)\" in",
    "  x86_64) asset=x86_64-unknown-linux-musl; " ++
      "expected=0f55de7874507b9cf7502113120bd96f2ab6979f78d10eaf2eb2ade9207b3af6 ;;",
    "  aarch64|arm64) asset=aarch64-unknown-linux-musl; " ++
      "expected=912bd02dd2bb6f9c3a9ed965fe8a68b4aa318dc7a2546e2eca6f2806a894ba39 ;;",
    "  *) echo \"unsupported Nixpacks architecture: $(uname -m)\" >&2; exit 1 ;;",
    "esac",
    "archive=/tmp/nixpacks.tar.gz",
    "curl --proto '=https' --tlsv1.2 -fsSL " ++
      "\"https://github.com/railwayapp/nixpacks/releases/download/v1.41.0/" ++
      "nixpacks-v1.41.0-$\x7basset\x7d.tar.gz\" -o \"$archive\"",
    "printf '%s  %s\\n' \"$expected\" \"$archive\" | sha256sum -c -",
    "tar -xzf \"$archive\" -C /tmp",
    "set -- /tmp/nixpacks build \"$ORKANO_SOURCE_DIR\" --out \"$ORKANO_SOURCE_DIR\"",
    "if [ -n \"$ORKANO_NIXPACKS_CONFIG\" ]; then set -- \"$@\" --config " ++
      "\"$ORKANO_NIXPACKS_CONFIG\"; fi",
    "\"$@\"",
    "test -s \"$ORKANO_SOURCE_DIR/.nixpacks/Dockerfile\""]

def gitInitContainer (image : String) (source : LocalSource) : Container where
  name := "checkout-source"
  image := image
  command := ["/bin/sh", "-ec"]
  args := [checkoutScript]
  env := [("ORKANO_SOURCE_DIR", sourceMountPath), ("ORKANO_GIT_URL", source.gitURL),
    ("ORKANO_COMMIT", source.commit)]
  volumeMounts := [⟨"source", sourceMountPath, false⟩]

def nixpacksInitContainer (image sourceDir configPath : String) : Container where
  name := "generate-nixpacks"
  image := image
  command := ["/bin/bash", "-ec"]
  args := [nixpacksScript]
  env := [("HOME", "/tmp"), ("ORKANO_SOURCE_DIR", sourceDir),
    ("ORKANO_NIXPACKS_CONFIG", configPath)]
  volumeMounts := [⟨"source", sourceMountPath, false⟩, ⟨"tmp", "/tmp", false⟩]

structure Parts where
  args : List String
  volumes : List Volume
  volumeMounts : List VolumeMount
  initContainers : List Container

def baseParts : Parts where
  args := ["build", "--frontend=dockerfile.v0"]
  volumes := [⟨"buildkitd", .emptyDir none⟩, ⟨"tmp", .emptyDir none⟩,
    ⟨"registry-ca", .configMap "orkano-registry-ca"⟩,
    ⟨"buildkit-config", .configMap "orkano-buildkit-config"⟩]
  volumeMounts := [⟨"buildkitd", "/home/user/.local/share/buildkit", false⟩, ⟨"tmp", "/tmp", false⟩,
    ⟨"registry-ca", caMountPath, true⟩, ⟨"buildkit-config", configMountPath, true⟩]
  initContainers := []

/-- The build context: a URL, or a directory that is filled before. -/
def addContext (opts : Options) (p : Parts) : Parts :=
  match opts.localSource with
  | none => { p with args := p.args ++ ["--opt=context=" ++ opts.contextURL] }
  | some source =>
    let path := contextPath source.subPath
    let fetch :=
      if source.archiveDigest ≠ "" then archiveInitContainer opts.sourceFetcherImage source
      else gitInitContainer (orDefault opts.gitImage defaultGitImage) source
    let generate :=
      if opts.nixpacks then
        [nixpacksInitContainer (orDefault opts.nixpacksImage defaultNixpacksImage) path
          opts.nixpacksConfigPath]
      else []
    { args := p.args ++ ["--local=context=" ++ path]
      volumes := p.volumes ++ [⟨"source", .emptyDir (some (300 * 2 ^ 20))⟩]
      volumeMounts := p.volumeMounts ++ [⟨"source", sourceMountPath, true⟩]
      initContainers := p.initContainers ++ fetch :: generate }

/-- Where the Dockerfile is read from: one that was generated, or one of the context. -/
def addDockerfile (image : String) (opts : Options) (p : Parts) : Parts :=
  if opts.generatedDockerfile ≠ "" then
    { args := p.args ++ ["--local=dockerfile=" ++ dockerfileMountPath,
        "--opt=dockerfilekey=" ++ dockerfileLocalName, "--opt=filename=" ++ defaultDockerfile]
      volumes := p.volumes ++ [⟨dockerfileLocalName, .emptyDir none⟩]
      volumeMounts := p.volumeMounts ++ [⟨dockerfileLocalName, dockerfileMountPath, true⟩]
      initContainers := p.initContainers ++
        [dockerfileInitContainer image opts.generatedDockerfile] }
  else if opts.dockerfilePath ≠ "" then
    let directory := match opts.localSource with
      | none => []
      | some source => ["--local=dockerfile=" ++ contextPath source.subPath]
    { p with args := p.args ++ directory ++ ["--opt=filename=" ++ opts.dockerfilePath] }
  else p

/-- What `buildctl` is told to do with the image: a list of fields with commas between. -/
def outputFields (imageRef : String) : String := "type=image,name=" ++ imageRef ++ ",push=true"

/-- `Render` for a Build, with the 8 hex digits that go into a long Job's name. -/
def render (hash : String → String) (ns name : String) (timeoutSeconds : ℤ) (opts : Options) :
    Except String Job :=
  if name = "" ∨ ns = "" then .error "rendering build Job: Build has no name or namespace"
  else if (opts.contextURL = "" ↔ opts.localSource = none) ∨ opts.imageRef = "" then
    .error ("rendering build Job for " ++ quoted name ++
      ": exactly one source context and ImageRef are required")
  else if opts.nixpacks = true ∧ opts.localSource = none then
    .error ("rendering build Job for " ++ quoted name ++ ": Nixpacks requires a local source")
  else if (opts.localSource.any fun source => source.archiveDigest ≠ "") ∧
      opts.sourceFetcherImage = "" then
    .error ("rendering build Job for " ++ quoted name ++
      ": SourceFetcherImage is required for ZIP sources")
  else
    let image := orDefault opts.image defaultImage
    let parts := addDockerfile image opts (addContext opts baseParts)
    .ok {
      name := BuildController.jobName hash name
      ns := BuildController.jobsNamespace
      annotations := [("orkano.io/build-name", name), ("orkano.io/build-namespace", ns)]
      activeDeadlineSeconds :=
        if timeoutSeconds = 0 then BuildController.defaultTimeoutSeconds else timeoutSeconds
      initContainers := parts.initContainers
      container := {
        name := "buildkit"
        image := image
        command := ["buildctl-daemonless.sh"]
        args := parts.args ++ ["--output=" ++ outputFields opts.imageRef]
        env := [("BUILDKITD_FLAGS", "--oci-worker-no-process-sandbox --config=" ++
          configMountPath ++ "/buildkitd.toml")]
        volumeMounts := parts.volumeMounts }
      volumes := parts.volumes }

section Agreement

variable {sha256 : String → List UInt8} {gitBaseURL ns name : String} {spec : BuildSpec}

theorem hash_notMem_of_isRepository {repo : String} (h : RepoAllowlist.isRepository repo = true) :
    '#' ∉ repo.toList := by
  intro hm
  have hc := RepoAllowlist.mem_repository h hm
  revert hc
  decide

theorem isGitPathChar_of_isHostChar {c : Char} (h : isHostChar c = true) :
    isGitPathChar c = true := by
  simp only [isHostChar, Bool.or_eq_true, decide_eq_true_eq] at h
  rcases h with (h | rfl) | rfl
  · simp [isGitPathChar, h]
  · decide
  · decide

variable {url : String}

/-- A URL that the schema admits is made of the characters of its path. -/
theorem isGitPathChar_of_isGitURL (h : isGitURL url = true) :
    ∀ c ∈ url.toList, isGitPathChar c = true := by
  simp only [isGitURL, Bool.and_eq_true, decide_eq_true_eq, all_eq_true] at h
  obtain ⟨⟨⟨⟨⟨-, hsc⟩, -⟩, hs⟩, -⟩, hp⟩ := h
  obtain ⟨rest, hr⟩ := isPrefixOf_iff_prefix.mp hsc
  have hdr : url.toList.drop 8 = rest := by
    rw [← hr]
    rfl
  have hb : ∀ path : List Char, path.head? = some '/' →
      (∀ c ∈ path.tail, isGitPathChar c = true) → ∀ c ∈ path, isGitPathChar c = true := by
    intro path hh ht c hc
    rw [← cons_head?_tail hh, mem_cons] at hc
    rcases hc with rfl | hc
    · decide
    · exact ht c hc
  have hhs : ∀ c ∈ rest.takeWhile isHostChar, isGitPathChar c = true := fun c hc =>
    isGitPathChar_of_isHostChar (all_eq_true.mp (all_takeWhile ..) c hc)
  have hrc : ∀ c ∈ rest.dropWhile isHostChar, isGitPathChar c = true := by
    rw [hdr] at hs hp
    split at hs
    · rename_i hpr
      obtain ⟨path, hbh⟩ := isPrefixOf_iff_prefix.mp hpr
      rw [if_pos hpr] at hp
      rw [← hbh] at hs hp ⊢
      have hd : ∀ c ∈ ":443".toList, isGitPathChar c = true :=
        all_eq_true.mp (by decide)
      intro c hc
      rcases mem_append.mp hc with hc | hc
      · exact hd c hc
      · exact hb path hs hp c hc
    · rename_i hpr
      rw [if_neg hpr] at hp
      exact hb _ hs hp
  have hf : ∀ c ∈ "https://".toList, isGitPathChar c = true :=
    all_eq_true.mp (by decide)
  intro c hc
  rw [← hr, ← @takeWhile_append_dropWhile _ isHostChar rest] at hc
  rcases mem_append.mp hc with hc | hc
  · exact hf c hc
  rcases mem_append.mp hc with hc | hc
  · exact hhs c hc
  · exact hrc c hc

theorem hash_notMem_of_isGitURL (h : isGitURL url = true) : '#' ∉ url.toList := by
  intro hm
  have hc := isGitPathChar_of_isGitURL h '#' hm
  revert hc
  decide

/-- The repository of an admitted source that is no upload: some text without a `#`. -/
theorem gitURL_of_admitsSource {src : Source} (h : admitsSource src = true)
    (hs : gitBaseURL.toList.getLast? = some '/') (hhs : '#' ∉ gitBaseURL.toList)
    (hup : src.upload = none) :
    gitURL gitBaseURL src ≠ "" ∧ '#' ∉ (gitURL gitBaseURL src).toList := by
  have hb : gitBaseURL ≠ "" := by
    rintro rfl
    simp at hs
  simp only [admitsSource, Bool.and_eq_true] at h
  obtain ⟨⟨⟨⟨ho, hgt⟩, hgi⟩, -⟩, -⟩ := h
  cases hg : src.git with
  | some git =>
    rw [hg, Option.all_some, Bool.and_eq_true] at hgi
    have hu : gitURL gitBaseURL src = git.url := by simp [gitURL, hg]
    rw [hu]
    refine ⟨?_, hash_notMem_of_isGitURL hgi.1⟩
    intro he
    rw [he] at hgi
    exact absurd hgi.1 (by decide)
  | none =>
    cases hh : src.github with
    | none => simp [hg, hh, hup] at ho
    | some github =>
      rw [hh, Option.all_some, Bool.and_eq_true, Bool.and_eq_true] at hgt
      have hu : gitURL gitBaseURL src = gitBaseURL ++ github.repo ++ ".git" := by
        simp [gitURL, hg, hh, hb]
      have hr := hash_notMem_of_isRepository hgt.1.1
      rw [hu]
      simp [hhs, hr]

theorem composeStrategy_keeps {s : BuildStrategy} {inv out : Invocation}
    (h : composeStrategy s inv = .ok out) :
    out.contextURL = inv.contextURL ∧ out.localSource = inv.localSource ∧
      (out.nixpacks = inv.nixpacks ∨ s.strategy = .nixpacks) := by
  unfold composeStrategy at h
  repeat' split at h
  all_goals cases h
  all_goals simp_all

theorem composeStrategy_ok_of_admits {s : BuildStrategy} (h : admitsStrategy s = true)
    (inv : Invocation) : ∃ out, composeStrategy s inv = .ok out := by
  simp only [admitsStrategy, Bool.and_eq_true] at h
  obtain ⟨⟨⟨h, -⟩, -⟩, -⟩ := h
  obtain ⟨strategy, dockerfile, static, nixpacks⟩ := s
  cases strategy <;> cases dockerfile <;> cases static <;> cases nixpacks <;>
    simp_all [composeStrategy]

variable {commit : String}

theorem trimPrefix_eq_iff {digest : String} (h : digestPattern digest = true) :
    trimPrefix digest "sha256:" = commit ↔ digest = "sha256:" ++ commit := by
  obtain ⟨hex, -, -, rfl⟩ := hex_of_digestPattern h
  have ht : trimPrefix ("sha256:" ++ hex) "sha256:" = hex := by
    have hl : "sha256:".length = 7 := by decide
    rw [trimPrefix, if_pos (by simp), String.toList_append, hl]
    simp
  rw [ht, String.append_right_inj]

/-- Of an admitted Build, only an upload that is not the commit is refused. -/
theorem compose_ok_iff (hs : admitsSource spec.source = true)
    (hst : admitsStrategy spec.strategy = true) :
    (∃ inv, compose sha256 gitBaseURL ns name spec = .ok inv) ↔
      ∀ upload ∈ spec.source.upload, upload.digest = "sha256:" ++ spec.commit := by
  obtain ⟨out, ho⟩ := composeStrategy_ok_of_admits hst
    (composeSource sha256 gitBaseURL ns name spec)
  simp only [admitsSource, Bool.and_eq_true] at hs
  obtain ⟨⟨⟨⟨hon, -⟩, -⟩, hup⟩, -⟩ := hs
  have hc : spec.source.github.isSome.toNat + spec.source.git.isSome.toNat +
      spec.source.upload.isSome.toNat = 1 := by
    revert hon
    cases spec.source.github.isSome <;> cases spec.source.git.isSome <;>
      cases spec.source.upload.isSome <;> decide
  unfold compose
  dsimp only
  rw [hc, ho]
  cases hu : spec.source.upload with
  | none => simp
  | some upload =>
    rw [hu, Option.all_some, Bool.and_eq_true] at hup
    have hi : trimPrefix upload.digest "sha256:" = spec.commit ↔
        upload.digest = "sha256:" ++ spec.commit := trimPrefix_eq_iff hup.1
    by_cases hm : trimPrefix upload.digest "sha256:" = spec.commit
    · simp [← hi, hm]
    · simp [← hi, hm]

/-- Composing leaves the source as it was worked out. -/
theorem compose_keeps {inv : Invocation} (h : compose sha256 gitBaseURL ns name spec = .ok inv) :
    inv.contextURL = (composeSource sha256 gitBaseURL ns name spec).contextURL ∧
      inv.localSource = (composeSource sha256 gitBaseURL ns name spec).localSource ∧
      (inv.nixpacks = true → spec.strategy.strategy = .nixpacks) := by
  unfold compose at h
  dsimp only at h
  split at h
  · cases h
  split at h
  · cases h
  obtain ⟨hu, hl, hn⟩ := composeStrategy_keeps h
  refine ⟨hu, hl, fun ht => hn.resolve_left fun hs => ?_⟩
  rw [ht, composeSource] at hs
  dsimp only at hs
  split at hs <;> cases hs

/-- A Build has a context URL or a local source, never both. -/
theorem composeSource_cases (sha256 : String → List UInt8) (ns name : String)
    (hs : admitsSource spec.source = true)
    (hsl : gitBaseURL.toList.getLast? = some '/') (hh : '#' ∉ gitBaseURL.toList) :
    let inv := composeSource sha256 gitBaseURL ns name spec
    (inv.localSource = none ∧ spec.strategy.strategy ≠ .nixpacks ∧
        gitURL gitBaseURL spec.source ≠ "" ∧ '#' ∉ (gitURL gitBaseURL spec.source).toList ∧
        inv.contextURL = gitURL gitBaseURL spec.source ++ "#" ++ spec.commit ++
          if trimSlashes spec.source.subPath = "" then ""
          else ":" ++ trimSlashes spec.source.subPath) ∨
      (inv.contextURL = "" ∧ ∃ source, inv.localSource = some source ∧
        source.subPath = spec.source.subPath) := by
  dsimp only
  unfold composeSource
  dsimp only
  split
  · exact .inr ⟨rfl, _, rfl, rfl⟩
  rename_i hr
  rw [not_or, Option.not_isSome_iff_eq_none] at hr
  obtain ⟨hne, hn⟩ := gitURL_of_admitsSource hs hsl hh hr.1
  refine .inl ⟨rfl, hr.2, hne, hn, ?_⟩
  rw [if_neg hne]

/-- `strings.Cut`, with nothing behind a separator that is not there. -/
def cut (sep : Char) (s : String) : String × String :=
  (String.ofList (s.toList.takeWhile (· ≠ sep)), String.ofList (s.toList.dropWhile (· ≠ sep)).tail)

theorem cut_append {sep : Char} {front : String} (back : String) (h : sep ∉ front.toList) :
    cut sep (front ++ String.singleton sep ++ back) = (front, back) := by
  have ha : ∀ c ∈ front.toList, decide (c ≠ sep) = true :=
    fun c hc => decide_eq_true fun heq => h (heq ▸ hc)
  have hl : (front ++ String.singleton sep ++ back).toList =
      front.toList ++ sep :: back.toList := by
    simp
  simp only [cut, hl, takeWhile_append_of_pos ha, dropWhile_append_of_pos ha]
  simp

theorem cut_of_notMem {sep : Char} {s : String} (h : sep ∉ s.toList) : cut sep s = (s, "") := by
  have ha : ∀ c ∈ s.toList, decide (c ≠ sep) = true :=
    fun c hc => decide_eq_true fun heq => h (heq ▸ hc)
  rw [cut, takeWhile_eq_self_iff.mpr ha, dropWhile_eq_nil_iff.mpr ha]
  simp

theorem notMem_of_isCommit (h : isCommit commit = true) {c : Char} (hc : isLowerHex c = false) :
    c ∉ commit.toList := by
  simp only [isCommit, Bool.and_eq_true, all_eq_true] at h
  intro hm
  rw [h.2 c hm] at hc
  cases hc

/-- A context URL is taken apart into the repository, the commit and the directory. -/
theorem cut_contextURL {sub : String} (hu : '#' ∉ url.toList)
    (hcm : isCommit commit = true) :
    ∃ rest, cut '#' (url ++ "#" ++ commit ++ if sub = "" then "" else ":" ++ sub) = (url, rest) ∧
      cut ':' rest = (commit, sub) := by
  have hc : ':' ∉ commit.toList := notMem_of_isCommit hcm (by decide)
  refine ⟨commit ++ if sub = "" then "" else ":" ++ sub, ?_, ?_⟩
  · rw [String.append_assoc]
    exact cut_append _ hu
  split
  · rename_i hs
    rw [hs, String.append_empty]
    exact cut_of_notMem hc
  · rw [← String.append_assoc]
    exact cut_append _ hc

/-- From complete options a Job is rendered, with these arguments. -/
theorem render_ok (hash : String → String) (timeoutSeconds : ℤ) (opts : Options)
    (hnm : name ≠ "") (hns : ns ≠ "")
    (hc : opts.contextURL ≠ "" ↔ opts.localSource = none) (hi : opts.imageRef ≠ "")
    (hn : opts.nixpacks = true → opts.localSource ≠ none)
    (hf : opts.sourceFetcherImage ≠ "") :
    ∃ job, render hash ns name timeoutSeconds opts = .ok job ∧
      job.container.args =
        (addDockerfile (orDefault opts.image defaultImage) opts (addContext opts baseParts)).args ++
          ["--output=" ++ outputFields opts.imageRef] := by
  have ho : ¬((opts.contextURL = "" ↔ opts.localSource = none) ∨ opts.imageRef = "") := by
    rw [← hc]
    tauto
  have hch : ¬(opts.nixpacks = true ∧ opts.localSource = none) :=
    fun h => hn h.1 h.2
  unfold render
  rw [if_neg (by simp [hnm, hns]), if_neg ho, if_neg hch, if_neg (fun h => hf h.2)]
  exact ⟨_, rfl, rfl⟩

theorem args_addDockerfile (image : String) (opts : Options) (p : Parts) {arg : String}
    (h : arg ∈ p.args) : arg ∈ (addDockerfile image opts p).args := by
  unfold addDockerfile
  split
  · simp [h]
  split
  · simp [h]
  · exact h

theorem context_mem_args (image : String) (opts : Options) {source : LocalSource}
    (h : opts.localSource = some source) :
    "--local=context=" ++ contextPath source.subPath ∈
      (addDockerfile image opts (addContext opts baseParts)).args := by
  apply args_addDockerfile
  rw [addContext, h]
  simp

theorem ne_empty_of_isSubdomain {s : String} (h : isSubdomain s = true) : s ≠ "" := by
  rintro rfl
  exact absurd h (by decide)

/-- `Compose` and `Render` accept what the schema admits, apart from an upload that is not
the commit, and the context they arrive at is that of the Build. -/
theorem compose_render_agree (sha256 : String → List UInt8) (hbuild : admits ns name spec = true)
    (images : Images)
    (hfetch : images.sourceFetcherImage ≠ "") (hslash : gitBaseURL.toList.getLast? = some '/')
    (hhash : '#' ∉ gitBaseURL.toList) (hash : String → String) (timeoutSeconds : ℤ) :
    ((∃ inv, compose sha256 gitBaseURL ns name spec = .ok inv) ↔
        ∀ upload ∈ spec.source.upload, upload.digest = "sha256:" ++ spec.commit) ∧
      ∀ inv, compose sha256 gitBaseURL ns name spec = .ok inv →
        ∃ job, render hash ns name timeoutSeconds ⟨inv, images⟩ = .ok job ∧
          (inv.contextURL ≠ "" ↔ inv.localSource = none) ∧
          (inv.contextURL ≠ "" → ∃ rest,
            cut '#' inv.contextURL = (gitURL gitBaseURL spec.source, rest) ∧
            cut ':' rest = (spec.commit, trimSlashes spec.source.subPath)) ∧
          ∀ source ∈ inv.localSource,
            "--local=context=" ++ (if trimSlashes spec.source.subPath = "" then sourceMountPath
              else sourceMountPath ++ "/" ++ trimSlashes spec.source.subPath) ∈
              job.container.args := by
  obtain ⟨hns, hname, ⟨hcommit, -, -⟩, hsource, hstrategy⟩ := admitted_of_admits hbuild
  have hnsne : ns ≠ "" := by
    rintro rfl
    exact absurd hns (by decide)
  refine ⟨compose_ok_iff hsource hstrategy, fun inv hinv => ?_⟩
  obtain ⟨hurl, hlocal, hnixpacks⟩ := compose_keeps hinv
  have himage : inv.imageRef ≠ "" := by
    intro hempty
    have hchars := congrArg String.toList ((compose_imageRef hinv).symm.trans hempty)
    rw [String.toList_append] at hchars
    exact buildImageTag_ne_nil (append_eq_nil_iff.mp hchars).2
  rcases composeSource_cases sha256 ns name hsource hslash hhash with
    ⟨hnone, hstrat, hne, hnohash, hcontext⟩ | ⟨hempty, source, hsome, hsub⟩
  · -- a URL that BuildKit fetches itself
    have hset : inv.contextURL ≠ "" := by
      rw [hurl, hcontext]
      simp
    have hlocal : inv.localSource = none := hlocal.trans hnone
    obtain ⟨job, hjob, -⟩ := render_ok hash timeoutSeconds ⟨inv, images⟩
      (ne_empty_of_isSubdomain hname) hnsne
      (iff_of_true hset hlocal) himage (fun h => absurd (hnixpacks h) hstrat) hfetch
    refine ⟨job, hjob, iff_of_true hset hlocal, fun _ => ?_, ?_⟩
    · rw [hurl, hcontext]
      exact cut_contextURL hnohash hcommit
    · simp [hlocal]
  · -- a checkout or an archive that an init container puts there
    have hunset : ¬ inv.contextURL ≠ "" := by
      rw [hurl, hempty]
      simp
    have hlocal : inv.localSource = some source := hlocal.trans hsome
    have hne : ¬ inv.localSource = none := by simp [hlocal]
    obtain ⟨job, hjob, hargs⟩ := render_ok hash timeoutSeconds ⟨inv, images⟩
      (ne_empty_of_isSubdomain hname) hnsne
      (iff_of_false hunset hne) himage (fun _ => hne) hfetch
    refine ⟨job, hjob, iff_of_false hunset hne, fun h => absurd h hunset, ?_⟩
    intro source' hsource'
    have hpath := context_mem_args (orDefault images.image defaultImage) ⟨inv, images⟩ hlocal
    rw [contextPath, hsub] at hpath
    rw [hargs]
    exact mem_append_left _ hpath

def sampleSpec : BuildSpec where
  appName := "web"
  commit := "0123456789abcdef0123456789abcdef01234567"
  source := ⟨some ⟨"acme/web", "main"⟩, none, none, "/apps/web/"⟩
  strategy := ⟨.dockerfile, none, none, none⟩

theorem sampleSpec_admitted : admits "orkano-apps" "web-1" sampleSpec = true := by
  decide +kernel

def sampleImages : Images := ⟨"", "registry.example/orkano-dashboard", "", ""⟩

/-- The context names the repository, the commit and the sub-path of a Build. -/
theorem sampleSpec_context :
    admits "orkano-apps" "web-1" sampleSpec = true ∧
      ∃ inv, compose bytes defaultGitBaseURL "orkano-apps" "web-1" sampleSpec = .ok inv ∧
        (inv.contextURL ≠ "" → ∃ rest,
          cut '#' inv.contextURL = ("https://github.com/acme/web.git", rest) ∧
          cut ':' rest = (sampleSpec.commit, "apps/web")) := by
  have hurl : gitURL defaultGitBaseURL sampleSpec.source = "https://github.com/acme/web.git" := by
    decide +kernel
  have hsub : trimSlashes sampleSpec.source.subPath = "apps/web" := by decide +kernel
  have hagree := compose_render_agree bytes sampleSpec_admitted sampleImages (by decide)
    (by decide : defaultGitBaseURL.toList.getLast? = some '/') (by decide) id 900
  obtain ⟨inv, hinv⟩ := hagree.1.mpr (by simp [sampleSpec])
  obtain ⟨_, -, -, hcut, -⟩ := hagree.2 inv hinv
  rw [hurl, hsub] at hcut
  exact ⟨sampleSpec_admitted, inv, hinv, hcut⟩

end Agreement

section PushTarget

variable {sha256 : String → List UInt8} {gitBaseURL ns name : String} {spec : BuildSpec}

theorem hexDigit_injOn {m n : ℕ} (hm : m < 16) (hn : n < 16) (h : hexDigit m = hexDigit n) :
    m = n := by
  have ha : ∀ m < 16, ∀ n < 16, hexDigit m = hexDigit n → m = n := by decide
  exact ha m hm n hn h

/-- Different bytes have different digits. -/
theorem hexEncode_injective : Function.Injective hexEncode := by
  intro xs ys h
  have hl := congrArg String.toList h
  simp only [hexEncode, String.toList_ofList] at hl
  clear h
  induction xs generalizing ys with
  | nil =>
    cases ys with
    | nil => rfl
    | cons y ys => simp at hl
  | cons x xs ih =>
    cases ys with
    | nil => simp at hl
    | cons y ys =>
      simp only [flatMap_cons, cons_append, nil_append, List.cons.injEq] at hl
      obtain ⟨hh, hlw, hr⟩ := hl
      have hx := x.toNat_lt
      have hy := y.toNat_lt
      have hd := hexDigit_injOn (by omega) (by omega) hh
      have hm := hexDigit_injOn (by omega) (by omega) hlw
      have hxy : x = y := UInt8.toNat_inj.mp (by omega)
      rw [hxy, ih hr]

theorem identity_injective {ns' name' : String} (hns : '/' ∉ ns.toList) (hns' : '/' ∉ ns'.toList)
    (h : ns ++ "/" ++ name = ns' ++ "/" ++ name') : ns = ns' ∧ name = name' := by
  have hc := congrArg (cut '/') h
  have hl : cut '/' (ns ++ "/" ++ name) = (ns, name) := cut_append name hns
  have hr : cut '/' (ns' ++ "/" ++ name') = (ns', name') := cut_append name' hns'
  rw [hl, hr] at hc
  exact Prod.mk.injEq .. ▸ hc

theorem slash_notMem_of_isLabel (h : isLabel ns.toList = true) : '/' ∉ ns.toList := by
  simp only [isLabel, Bool.and_eq_true, all_eq_true] at h
  intro hm
  have hc := h.2 '/' hm
  revert hc
  decide

variable {spec' : BuildSpec}

/-- Different Builds push under different tags, as far as the hash is injective. -/
theorem buildImageTag_injective (hs : Function.Injective sha256) {ns' name' : String}
    (hns : isLabel ns.toList = true) (hns' : isLabel ns'.toList = true) (hn : name ≠ "")
    (hn' : name' ≠ "") (hc : isCommit spec.commit = true) (hc' : isCommit spec'.commit = true)
    (h : buildImageTag sha256 ns name spec = buildImageTag sha256 ns' name' spec') :
    ns = ns' ∧ name = name' := by
  have hd : ∀ {commit : String}, isCommit commit = true →
      '-' ∉ (String.ofList (commit.toList.take 12)).toList := by
    intro commit hc hm
    rw [String.toList_ofList] at hm
    exact notMem_of_isCommit hc (by decide) (mem_of_mem_take hm)
  simp only [buildImageTag, hn, hn', if_false] at h
  have hct := congrArg (cut '-') h
  rw [show "-" = String.singleton '-' from rfl, cut_append _ (hd hc),
    cut_append _ (hd hc'), Prod.mk.injEq] at hct
  exact identity_injective (slash_notMem_of_isLabel hns) (slash_notMem_of_isLabel hns')
    (hs (hexEncode_injective hct.2))

def isRefChar (c : Char) : Bool :=
  isLowerAlphanum c || c = '-' || c = '.' || c = '/' || c = ':'

variable {inv : Invocation}

/-- A push target is made of the characters of names, with the two separators. -/
theorem isRefChar_of_mem_imageRef (hs : Admissible spec)
    (hi : compose sha256 gitBaseURL ns name spec = .ok inv) {c : Char}
    (hc : c ∈ inv.imageRef.toList) : isRefChar c = true := by
  have hh : ∀ c ∈ registryHost.toList, isRefChar c = true :=
    all_eq_true.mp (by decide)
  rw [compose_imageRef hi] at hc
  simp only [String.toList_append, mem_append] at hc
  rcases hc with (((hc | hc) | hc) | hc) | hc
  · exact hh c hc
  · simp only [String.reduceToList, mem_singleton] at hc
    simp [isRefChar, hc]
  · rcases ((isSubdomain_iff spec.appName).mp hs.2.1).chars c hc with h | h | h <;>
      simp [isRefChar, h]
  · simp only [String.reduceToList, mem_singleton] at hc
    simp [isRefChar, hc]
  rcases mem_buildImageTag hs.1 hc with h | h
  · simp [isRefChar, isLowerAlphanum_of_isLowerHex h]
  · simp [isRefChar, h]

theorem splitOn_outputFields {imageRef : String} (h : ',' ∉ imageRef.toList) :
    (outputFields imageRef).toList.splitOn ',' =
      ["type=image".toList, ("name=" ++ imageRef).toList, "push=true".toList] := by
  have hf : ∀ l ∈ ["type=image".toList, ("name=" ++ imageRef).toList, "push=true".toList],
      ',' ∉ l := by
    simp [h]
  have hj : (outputFields imageRef).toList = [','].intercalate
      ["type=image".toList, ("name=" ++ imageRef).toList, "push=true".toList] := by
    change ("type=image,name=" ++ imageRef ++ ",push=true").toList = _
    simp [List.intercalate]
  rw [hj, splitOn_intercalate ',' hf (by simp)]

structure Push where
  ns : String
  name : String
  spec : BuildSpec
  imageRef : String
  digest : String

/-- The Job of an admitted Build pushes to what was composed for the Build. -/
def Push.Composed (sha256 : String → List UInt8) (gitBaseURL : String) (p : Push) : Prop :=
  admits p.ns p.name p.spec = true ∧
    ∃ inv, compose sha256 gitBaseURL p.ns p.name p.spec = .ok inv ∧ inv.imageRef = p.imageRef

/-- The registry answers for a tag with a digest that was pushed under it. -/
def Serves (S : Registry) (pushes : List Push) : Prop :=
  ∀ url resp, S.head url = .ok resp → resp.statusCode = 200 →
    ∃ p ∈ pushes, p.digest = resp.contentDigest ∧
      ∃ host repo tag, parseRef p.imageRef = .ok (host, repo, tag) ∧
        url = "https://" ++ host ++ "/v2/" ++ repo ++ "/manifests/" ++ tag

theorem manifestURL_injective {repo tag repo' tag' : String} (hr : '/' ∉ repo.toList)
    (hr' : '/' ∉ repo'.toList)
    (h : "https://" ++ registryHost ++ "/v2/" ++ repo ++ "/manifests/" ++ tag =
      "https://" ++ registryHost ++ "/v2/" ++ repo' ++ "/manifests/" ++ tag') :
    repo = repo' ∧ tag = tag' := by
  have hb : repo ++ "/" ++ ("manifests/" ++ tag) = repo' ++ "/" ++ ("manifests/" ++ tag') := by
    simp only [String.append_assoc, String.append_right_inj] at h
    simpa only [String.append_assoc, ← show "/" ++ "manifests/" = "/manifests/" from rfl] using h
  obtain ⟨hs, ht⟩ := identity_injective hr hr' hb
  rw [String.append_right_inj] at ht
  exact ⟨hs, ht⟩

theorem slash_notMem_of_isSubdomain {s : String} (h : isSubdomain s = true) : '/' ∉ s.toList := by
  intro hm
  have hc := ((isSubdomain_iff s).mp h).chars '/' hm
  revert hc
  decide

theorem imageRef_injective (hs : Function.Injective sha256) {ns' name' : String}
    {inv' : Invocation} (hb : admits ns name spec = true) (hb' : admits ns' name' spec' = true)
    (hi : compose sha256 gitBaseURL ns name spec = .ok inv)
    (hi' : compose sha256 gitBaseURL ns' name' spec' = .ok inv')
    (h : inv.imageRef = inv'.imageRef) : ns = ns' ∧ name = name' := by
  have ha := admitted_of_admits hb
  have ha' := admitted_of_admits hb'
  have hp := parseRef_compose ha.admissible hi
  rw [h, parseRef_compose ha'.admissible hi'] at hp
  simp only [Except.ok.injEq, Prod.mk.injEq, true_and] at hp
  exact buildImageTag_injective hs ha.ns ha'.ns
    (ne_empty_of_isSubdomain ha.name) (ne_empty_of_isSubdomain ha'.name)
    ha.admissible.1 ha'.admissible.1 hp.2.symm

/-- A digest that the registry resolves was pushed for this very Build. -/
theorem pushed_of_resolveDigest (hsh : Function.Injective sha256)
    (hb : admits ns name spec = true) (hi : compose sha256 gitBaseURL ns name spec = .ok inv)
    {S : Registry} {pushes : List Push} (hsr : Serves S pushes)
    (hc : ∀ p ∈ pushes, p.Composed sha256 gitBaseURL) {image : String}
    (h : resolveDigest S inv.imageRef = .ok image) :
    ∃ p ∈ pushes, p.ns = ns ∧ p.name = name ∧ p.imageRef = inv.imageRef ∧
      image = registryHost ++ "/" ++ spec.appName ++ "@" ++ p.digest := by
  obtain ⟨host, repo, tag, digest, hpr, hh, rfl⟩ := resolveDigest_ok h
  rw [parseRef_compose (admitted_of_admits hb).admissible hi] at hpr
  cases hpr
  obtain ⟨resp, hrs, hst, hd, -⟩ := headDigest_ok hh
  obtain ⟨p, hp, hps, host', repo', tag', hp', hu⟩ := hsr _ resp hrs hst
  obtain ⟨hpb, inv', hi', hr⟩ := hc p hp
  rw [← hr, parseRef_compose (admitted_of_admits hpb).admissible hi'] at hp'
  cases hp'
  obtain ⟨hrp, ht⟩ := manifestURL_injective
    (slash_notMem_of_isSubdomain (admitted_of_admits hb).admissible.2.1)
    (slash_notMem_of_isSubdomain (admitted_of_admits hpb).admissible.2.1) hu
  have hs : inv.imageRef = inv'.imageRef := by
    rw [compose_imageRef hi, compose_imageRef hi', hrp, ht]
  obtain ⟨rfl, rfl⟩ := imageRef_injective hsh hb hpb hi hi' hs
  exact ⟨p, hp, rfl, rfl, hr.symm.trans hs.symm, by rw [hps, hd]⟩

/-- The push target of an admitted Build is parsed into what it is composed of, stays one
field of BuildKit's output argument, and belongs to this Build alone; so does every digest
that is resolved from it. -/
theorem push_target_own (hsha : Function.Injective sha256) {inv : Invocation}
    (hbuild : admits ns name spec = true)
    (hinv : compose sha256 gitBaseURL ns name spec = .ok inv) :
    parseRef inv.imageRef = .ok (registryHost, spec.appName, buildImageTag sha256 ns name spec) ∧
      (∀ c ∈ inv.imageRef.toList, c ≠ ',' ∧ c ≠ '"' ∧ c ≠ '\'' ∧ c ≠ '@') ∧
      (outputFields inv.imageRef).toList.splitOn ',' =
        ["type=image".toList, ("name=" ++ inv.imageRef).toList, "push=true".toList] ∧
      (∀ ns' name' spec' inv', admits ns' name' spec' = true →
        compose sha256 gitBaseURL ns' name' spec' = .ok inv' → (ns', name') ≠ (ns, name) →
        inv'.imageRef ≠ inv.imageRef) ∧
      ∀ S pushes image, Serves S pushes → (∀ p ∈ pushes, p.Composed sha256 gitBaseURL) →
        resolveDigest S inv.imageRef = .ok image →
        ∃ p ∈ pushes, p.ns = ns ∧ p.name = name ∧ p.imageRef = inv.imageRef ∧
          image = registryHost ++ "/" ++ spec.appName ++ "@" ++ p.digest := by
  have hspec := (admitted_of_admits hbuild).admissible
  have hchars : ∀ c ∈ inv.imageRef.toList, c ≠ ',' ∧ c ≠ '"' ∧ c ≠ '\'' ∧ c ≠ '@' := by
    intro c hc
    have hchar := isRefChar_of_mem_imageRef hspec hinv hc
    refine ⟨?_, ?_, ?_, ?_⟩ <;>
    · rintro rfl
      revert hchar
      decide
  refine ⟨parseRef_compose hspec hinv, hchars, ?_, ?_, ?_⟩
  · exact splitOn_outputFields fun hmem => (hchars ',' hmem).1 rfl
  · intro ns' name' spec' inv' hbuild' hinv' hne hsame
    obtain ⟨rfl, rfl⟩ := imageRef_injective hsha hbuild' hbuild hinv' hinv hsame
    exact hne rfl
  · intro S pushes image hserves hcomposed h
    exact pushed_of_resolveDigest hsha hbuild hinv hserves hcomposed h

def utf8Sum (s : String) : List UInt8 := s.toByteArray.data.toList

theorem utf8Sum_injective : Function.Injective utf8Sum := by
  intro s t h
  rw [utf8Sum, utf8Sum, Array.toList_inj] at h
  exact String.toByteArray_inj.mp (ByteArray.ext h)

/-- The image of a Build has the registry, the App and the Build's own tag. -/
theorem sampleSpec_push_target :
    admits "orkano-apps" "web-1" sampleSpec = true ∧
      ∃ inv, compose utf8Sum defaultGitBaseURL "orkano-apps" "web-1" sampleSpec = .ok inv ∧
        parseRef inv.imageRef = .ok (registryHost, "web",
          buildImageTag utf8Sum "orkano-apps" "web-1" sampleSpec) := by
  obtain ⟨inv, hinv⟩ : ∃ inv,
      compose utf8Sum defaultGitBaseURL "orkano-apps" "web-1" sampleSpec = .ok inv :=
    (compose_ok_iff (by decide +kernel) (by decide +kernel)).mpr (by simp [sampleSpec])
  exact ⟨sampleSpec_admitted, inv, hinv,
    (push_target_own utf8Sum_injective sampleSpec_admitted hinv).1⟩

end PushTarget

end Orkano.Operator.BuildJob
