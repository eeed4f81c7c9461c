import Orkano.Operator.BuildNames
import Orkano.Text.Quote

/-!
The reference of a Build's image: `buildjob.Compose` names the push target, `registry.Resolver`
pins it to the digest the registry reports.
-/
namespace Orkano.Operator.ImageReference

open Text List

def registryHost : String := "orkano-registry.orkano-system.svc.cluster.local"

def defaultDockerfile : String := "Dockerfile"

def defaultGitBaseURL : String := "https://github.com/"

def staticServerImage : String :=
  "nginxinc/nginx-unprivileged:1.30-alpine-slim" ++
    "@sha256:bcb4860e2d7877cf140e4c945f5f9cb304ccb5efbe1dd4fa606a2206142241bf"

def staticServeRoot : String := "/usr/share/nginx/html/"

structure LocalSource where
  gitURL : String
  commit : String
  archiveDigest : String
  appName : String
  subPath : String
deriving DecidableEq, Repr

structure Invocation where
  contextURL : String
  localSource : Option LocalSource
  dockerfilePath : String
  generatedDockerfile : String
  imageRef : String
  nixpacks : Bool
  nixpacksConfigPath : String
deriving DecidableEq, Repr

/-- `hex.EncodeToString`. -/
def hexEncode (sum : List UInt8) : String :=
  String.ofList (sum.flatMap fun b => [hexDigit (b.toNat / 16), hexDigit (b.toNat % 16)])

/-- `strings.Trim` with a slash. -/
def trimSlashes (s : String) : String :=
  String.ofList ((s.toList.dropWhile (· = '/')).rdropWhile (· = '/'))

/-- `strings.TrimRight` with a slash. -/
def trimRightSlashes (s : String) : String := String.ofList (s.toList.rdropWhile (· = '/'))

/-- `strings.TrimPrefix`. -/
def trimPrefix (s front : String) : String :=
  if front.toList <+: s.toList then String.ofList (s.toList.drop front.length) else s

/-- `sha256` is the sum of a text. Every Build has a tag of its own. -/
def buildImageTag (sha256 : String → List UInt8) (ns name : String) (spec : BuildSpec) : String :=
  let identity := if name = "" then spec.appName ++ "/" ++ spec.commit else ns ++ "/" ++ name
  String.ofList (spec.commit.toList.take 12) ++ "-" ++ hexEncode (sha256 identity)

def staticDockerfile (dir : String) : String :=
  "FROM " ++ staticServerImage ++ "\nCOPY " ++ trimRightSlashes dir ++ "/ " ++ staticServeRoot ++ "\n"

/-- The repository to clone; of two, the plain one is taken. -/
def gitURL (gitBaseURL : String) (src : Source) : String :=
  match src.git, src.github with
  | some git, _ => git.url
  | none, some github =>
    (if gitBaseURL = "" then defaultGitBaseURL else gitBaseURL) ++ github.repo ++ ".git"
  | none, none => ""

def composeStrategy (s : BuildStrategy) (inv : Invocation) : Except String Invocation :=
  match s.strategy with
  | .dockerfile =>
    if s.static.isSome ∨ s.nixpacks.isSome then
      .error "compose build invocation: Dockerfile strategy has mismatched members"
    else
      let path := s.dockerfile.getD ""
      .ok { inv with dockerfilePath := if path = "" then defaultDockerfile else path }
  | .static =>
    match s.static, s.dockerfile, s.nixpacks with
    | some dir, none, none => .ok { inv with generatedDockerfile := staticDockerfile dir }
    | _, _, _ => .error "compose build invocation: Static strategy requires only the static member"
  | .nixpacks =>
    match s.nixpacks, s.dockerfile, s.static with
    | some configPath, none, none =>
      .ok { inv with
        nixpacks := true
        nixpacksConfigPath := configPath
        dockerfilePath := ".nixpacks/Dockerfile" }
    | _, _, _ => .error "compose build invocation: Nixpacks strategy requires only the nixpacks member"

/-- Where the sources come from and where the image goes to. -/
def composeSource (sha256 : String → List UInt8) (gitBaseURL ns name : String) (spec : BuildSpec) :
    Invocation :=
  let src := spec.source
  let url := gitURL gitBaseURL src
  let sub := trimSlashes src.subPath
  let contextURL := if url = "" then "" else
    url ++ "#" ++ spec.commit ++ (if sub = "" then "" else ":" ++ sub)
  let inv : Invocation := ⟨contextURL, none, "", "",
    registryHost ++ "/" ++ spec.appName ++ ":" ++ buildImageTag sha256 ns name spec, false, ""⟩
  if src.upload.isSome ∨ spec.strategy.strategy = .nixpacks then
    { inv with
      contextURL := ""
      localSource := some ⟨url, spec.commit, (src.upload.map UploadSource.digest).getD "",
        spec.appName, src.subPath⟩ }
  else inv

/-- `Compose`. -/
def compose (sha256 : String → List UInt8) (gitBaseURL ns name : String) (spec : BuildSpec) :
    Except String Invocation :=
  let src := spec.source
  if src.upload.any fun upload => trimPrefix upload.digest "sha256:" ≠ spec.commit then
    .error "compose build invocation: upload digest does not match Build commit"
  else if src.github.isSome.toNat + src.git.isSome.toNat + src.upload.isSome.toNat ≠ 1 then
    .error "compose build invocation: exactly one source is required"
  else composeStrategy spec.strategy (composeSource sha256 gitBaseURL ns name spec)

/-- `^sha256:[0-9a-f]{64}$`. -/
def digestPattern (digest : String) : Bool :=
  "sha256:".toList.isPrefixOf digest.toList && (digest.toList.drop 7).length = 64 &&
    (digest.toList.drop 7).all isLowerHex

/-- What stands before and after the last colon. -/
def cutLastColon (cs : List Char) : Option (List Char × List Char) :=
  match cs.reverse.dropWhile (· ≠ ':') with
  | [] => none
  | _ :: front => some (front.reverse, (cs.reverse.takeWhile (· ≠ ':')).reverse)

def parseRef (imageRef : String) : Except String (String × String × String) :=
  let host := imageRef.toList.takeWhile (· ≠ '/')
  let rest := (imageRef.toList.dropWhile (· ≠ '/')).tail
  if host = [] ∨ rest = [] then
    .error ("image ref " ++ quoted imageRef ++ " has no host/repository split")
  else if '@' ∈ rest then .error ("image ref " ++ quoted imageRef ++ " is already digest-pinned")
  else match cutLastColon rest with
  | none => .error ("image ref " ++ quoted imageRef ++ " has no tag to resolve")
  | some (repo, tag) =>
    if repo = [] ∨ tag = [] ∨ '/' ∈ tag then
      .error ("image ref " ++ quoted imageRef ++ " has no tag to resolve")
    else .ok (String.ofList host, String.ofList repo, String.ofList tag)

structure Response where
  statusCode : ℕ
  status : String
  contentDigest : String
deriving DecidableEq, Repr

/-- What one resolution meets: the CA bundle in the cluster, whether it parses, whether a
request can be made of a URL, and the answer to it. -/
structure Registry where
  bundle : Except String (Option String)
  parses : String → Bool
  refuses : String → Option String
  head : String → Except String Response

def bundleName : String := "orkano-builds/orkano-registry-ca"

def caPool (S : Registry) : Except String Unit :=
  match S.bundle with
  | .error e => .error ("fetching registry CA bundle " ++ bundleName ++ ": " ++ e)
  | .ok pem =>
    if pem.getD "" = "" then .error ("registry CA bundle " ++ bundleName ++ " has no ca.crt key")
    else if !S.parses (pem.getD "") then
      .error ("registry CA bundle " ++ bundleName ++ ": ca.crt holds no parseable certificate")
    else .ok ()

def headDigest (S : Registry) (url : String) : Except String String :=
  match S.refuses url with
  | some e => .error ("building manifest HEAD request: " ++ e)
  | none =>
    match S.head url with
    | .error e => .error ("manifest HEAD " ++ url ++ ": " ++ e)
    | .ok resp =>
      if resp.statusCode ≠ 200 then
        .error ("manifest HEAD " ++ url ++ ": registry answered " ++ resp.status)
      else if !digestPattern resp.contentDigest then
        .error ("manifest HEAD " ++ url ++ ": registry answered without a usable " ++
          "Docker-Content-Digest header (" ++ quoted resp.contentDigest ++ ")")
      else .ok resp.contentDigest

/-- `Resolver.ResolveDigest`. -/
def resolveDigest (S : Registry) (imageRef : String) : Except String String := do
  let (host, repo, tag) ← parseRef imageRef
  caPool S
  let digest ← headDigest S ("https://" ++ host ++ "/v2/" ++ repo ++ "/manifests/" ++ tag)
  return host ++ "/" ++ repo ++ "@" ++ digest

section Own

/-- An image of the App on the cluster's own registry, pinned by its digest. -/
def OwnImage (appName image : String) : Prop :=
  ∃ hex : String, hex.length = 64 ∧ hex.toList.all isLowerHex = true ∧
    image = registryHost ++ "/" ++ appName ++ "@sha256:" ++ hex

def Admissible (spec : BuildSpec) : Prop :=
  isCommit spec.commit = true ∧ isSubdomain spec.appName = true ∧ spec.appName.length ≤ 253

variable {inv : Invocation}

theorem composeStrategy_imageRef {s : BuildStrategy} {out : Invocation}
    (h : composeStrategy s inv = .ok out) : out.imageRef = inv.imageRef := by
  unfold composeStrategy at h
  repeat' split at h
  all_goals cases h
  all_goals rfl

variable {sha256 : String → List UInt8} {gitBaseURL ns name : String} {spec : BuildSpec}

theorem compose_imageRef (h : compose sha256 gitBaseURL ns name spec = .ok inv) :
    inv.imageRef = registryHost ++ "/" ++ spec.appName ++ ":" ++ buildImageTag sha256 ns name spec
    := by
  unfold compose at h
  dsimp only at h
  split at h
  · cases h
  split at h
  · cases h
  rw [composeStrategy_imageRef h, composeSource]
  dsimp only
  split <;> rfl

theorem isLowerHex_hexDigit (n : ℕ) : isLowerHex (hexDigit n) = true := by
  rcases lt_or_ge n 16 with hn | hn
  · have ha : ∀ m < 16, isLowerHex (hexDigit m) = true := by decide
    exact ha n hn
  have hnn : "0123456789abcdef".toList[n]? = none := getElem?_eq_none (by simpa using hn)
  rw [hexDigit, getD_eq_getElem?_getD, hnn]
  decide

theorem mem_buildImageTag (hcm : isCommit spec.commit = true) {c : Char}
    (hc : c ∈ (buildImageTag sha256 ns name spec).toList) : isLowerHex c = true ∨ c = '-' := by
  simp only [isCommit, Bool.and_eq_true, all_eq_true] at hcm
  simp only [buildImageTag, hexEncode, String.toList_append, String.toList_ofList, mem_append,
    mem_flatMap] at hc
  rcases hc with (hc | hc) | ⟨b, -, hc⟩
  · exact .inl (hcm.2 c (mem_of_mem_take hc))
  · exact .inr (by simpa using hc)
  · rcases mem_pair.mp hc with rfl | rfl <;> exact .inl (isLowerHex_hexDigit _)

theorem buildImageTag_ne_nil : (buildImageTag sha256 ns name spec).toList ≠ [] := by
  simp [buildImageTag]

theorem cutLastColon_append {repo tag : List Char} (htg : ':' ∉ tag) :
    cutLastColon (repo ++ ':' :: tag) = some (repo, tag) := by
  have ht : ∀ c ∈ tag.reverse, decide (c ≠ ':') = true := by
    intro c hc
    rw [mem_reverse] at hc
    exact decide_eq_true fun heq => htg (heq ▸ hc)
  have hr : (repo ++ ':' :: tag).reverse = tag.reverse ++ ':' :: repo.reverse := by simp
  rw [cutLastColon, hr, dropWhile_append_of_pos ht, takeWhile_append_of_pos ht]
  simp

/-- A composed reference is parsed into its parts. -/
theorem parseRef_composed {host repo tag : String} (hh : host.toList ≠ [])
    (hs : '/' ∉ host.toList) (hr : repo.toList ≠ []) (hat : '@' ∉ repo.toList)
    (ht : tag.toList ≠ []) (hta : '@' ∉ tag.toList) (hcl : ':' ∉ tag.toList)
    (hts : '/' ∉ tag.toList) :
    parseRef (host ++ "/" ++ repo ++ ":" ++ tag) = .ok (host, repo, tag) := by
  have hl : (host ++ "/" ++ repo ++ ":" ++ tag).toList =
      host.toList ++ '/' :: (repo.toList ++ ':' :: tag.toList) := by simp
  have ha : ∀ c ∈ host.toList, decide (c ≠ '/') = true :=
    fun c hc => decide_eq_true fun heq => hs (heq ▸ hc)
  have hb : (host ++ "/" ++ repo ++ ":" ++ tag).toList.takeWhile (· ≠ '/') = host.toList := by
    rw [hl, takeWhile_append_of_pos ha]
    simp
  have haf : ((host ++ "/" ++ repo ++ ":" ++ tag).toList.dropWhile (· ≠ '/')).tail =
      repo.toList ++ ':' :: tag.toList := by
    rw [hl, dropWhile_append_of_pos ha]
    simp
  have hu : '@' ∉ repo.toList ++ ':' :: tag.toList := by simp [hat, hta]
  simp only [parseRef, hb, haf, hh, hu, cutLastColon_append hcl, hr, ht,
    hts, append_eq_nil_iff, reduceCtorEq, and_false, or_false, if_false,
    String.ofList_toList]

/-- A digest that is accepted reads `sha256:` and 64 hex digits. -/
theorem hex_of_digestPattern {digest : String} (h : digestPattern digest = true) :
    ∃ hex : String, hex.length = 64 ∧ hex.toList.all isLowerHex = true ∧
      digest = "sha256:" ++ hex := by
  simp only [digestPattern, Bool.and_eq_true, isPrefixOf_iff_prefix, decide_eq_true_eq] at h
  obtain ⟨⟨⟨rest, hr⟩, hl⟩, hh⟩ := h
  have hd : digest.toList.drop 7 = rest := by
    rw [← hr]
    rfl
  rw [hd] at hl hh
  refine ⟨String.ofList rest, by simpa using hl, by simpa using hh, ?_⟩
  apply String.toList_injective
  rw [← hr]
  simp

variable {S : Registry}

theorem headDigest_ok {url digest : String} (h : headDigest S url = .ok digest) :
    ∃ resp, S.head url = .ok resp ∧ resp.statusCode = 200 ∧ resp.contentDigest = digest ∧
      digestPattern digest = true := by
  unfold headDigest at h
  repeat' split at h
  all_goals simp_all

variable {image : String}

/-- A resolved image is the digest of the reference's own manifest. -/
theorem resolveDigest_ok {imageRef : String}
    (h : resolveDigest S imageRef = .ok image) :
    ∃ host repo tag digest, parseRef imageRef = .ok (host, repo, tag) ∧
      headDigest S ("https://" ++ host ++ "/v2/" ++ repo ++ "/manifests/" ++ tag) = .ok digest ∧
      image = host ++ "/" ++ repo ++ "@" ++ digest := by
  unfold resolveDigest at h
  cases hr : parseRef imageRef with
  | error e => simp [hr, bind, Except.bind] at h
  | ok parts =>
    obtain ⟨host, repo, tag⟩ := parts
    cases hp : caPool S with
    | error e => simp [hr, hp, bind, Except.bind] at h
    | ok _ =>
      cases hd : headDigest S ("https://" ++ host ++ "/v2/" ++ repo ++ "/manifests/" ++ tag)
        with
      | error e => simp [hr, hp, hd, bind, Except.bind] at h
      | ok digest =>
        simp only [hr, hp, hd, bind, Except.bind, pure, Except.pure,
          Except.ok.injEq] at h
        exact ⟨host, repo, tag, digest, rfl, hd, h.symm⟩

/-- The push target of an admitted Build is parsed into its App and its tag. -/
theorem parseRef_compose (hs : Admissible spec)
    (hi : compose sha256 gitBaseURL ns name spec = .ok inv) :
    parseRef inv.imageRef = .ok (registryHost, spec.appName, buildImageTag sha256 ns name spec) :=
    by
  obtain ⟨hcm, hn, -⟩ := hs
  have hd := (isSubdomain_iff spec.appName).mp hn
  have ha : ∀ c ∈ spec.appName.toList, c ≠ '@' := by
    rintro c hc rfl
    have hch := hd.chars '@' hc
    revert hch
    decide
  have ht : ∀ c ∈ (buildImageTag sha256 ns name spec).toList, c ≠ '@' ∧ c ≠ ':' ∧ c ≠ '/' := by
    intro c hc
    refine ⟨?_, ?_, ?_⟩ <;>
    · rintro rfl
      have hch := mem_buildImageTag hcm hc
      revert hch
      decide
  rw [compose_imageRef hi]
  exact parseRef_composed (by decide) (by decide) hd.nonempty (fun hc => ha _ hc rfl)
    buildImageTag_ne_nil (fun hc => (ht _ hc).1 rfl) (fun hc => (ht _ hc).2.1 rfl)
    (fun hc => (ht _ hc).2.2 rfl)

theorem ownImage_of_resolveDigest (hs : Admissible spec)
    (hi : compose sha256 gitBaseURL ns name spec = .ok inv)
    (h : resolveDigest S inv.imageRef = .ok image) : OwnImage spec.appName image := by
  obtain ⟨host, repo, tag, digest, hp, hh, rfl⟩ := resolveDigest_ok h
  rw [parseRef_compose hs hi] at hp
  cases hp
  obtain ⟨-, -, -, -, hd⟩ := headDigest_ok hh
  obtain ⟨hex, hl, hhx, rfl⟩ := hex_of_digestPattern hd
  refine ⟨hex, hl, hhx, ?_⟩
  rw [show "@sha256:" = "@" ++ "sha256:" from rfl]
  simp only [String.append_assoc]

end Own

end Orkano.Operator.ImageReference
