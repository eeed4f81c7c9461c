import Orkano.RepoAllowlist.Normalize
import Orkano.Text.Quote

/-!
The manifests that the installer writes. What is embedded and what the templates render to is
left open.
-/
namespace Orkano.Installer

open Text

/-- `path.Ext`: from the last dot of the last element. -/
def pathExt (p : List Char) : List Char :=
  let last := p.reverse.takeWhile (· ≠ '/')
  if '.' ∈ last then '.' :: (last.takeWhile (· ≠ '.')).reverse else []

/-- `path.Base`. -/
def pathBase (p : List Char) : List Char :=
  if p = [] then ['.']
  else
    let base := ((p.reverse.dropWhile (· = '/')).takeWhile (· ≠ '/')).reverse
    if base = [] then ['/'] else base

/-- `path.Dir` of a clean path with a slash in it. -/
def pathDir (p : String) : String :=
  String.ofList ((p.toList.reverse.dropWhile (· ≠ '/')).drop 1).reverse

/-- `path.Join` of clean paths. -/
def pathJoin (dir name : String) : String := dir ++ "/" ++ name

/-- `strings.TrimSuffix`. -/
def trimSuffix (suffix s : List Char) : List Char :=
  if suffix <:+ s then s.take (s.length - suffix.length) else s

structure ManifestFile where
  name : String
  legacyName : String
  content : String
deriving DecidableEq, Repr

def manifestExtension : String := ".yaml"

def isFilenameChar (c : Char) : Bool := c.isLower || c.isDigit

/-- The loop of `manifestFilename`, with the name so far and whether a dash is due; the
error is the character that has no place in a name. -/
def flatten : List Char → List Char → Bool → Except Char (List Char)
  | [], name, _ => .ok name
  | r :: rest, name, pendingDash =>
    if isFilenameChar r then
      flatten rest (name ++ (if pendingDash && name ≠ [] then ['-', r] else [r])) false
    else if r ∈ ['/', '.', '_', '-'] then flatten rest name (name ≠ [])
    else .error r

def maxAddOnName : ℕ := 253

def manifestFilename (sourcePath : String) : Except String String :=
  if pathExt sourcePath.toList ≠ manifestExtension.toList then
    .error ("install: embedded manifest " ++ sourcePath ++ " must use the " ++
      manifestExtension ++ " extension")
  else match flatten (trimSuffix manifestExtension.toList sourcePath.toList) [] false with
  | .error r => .error ("install: embedded manifest " ++ sourcePath ++ " contains " ++ quotedChar r ++
      ", which has no k3s-safe filename mapping: use lowercase letters, digits, and the " ++
      "separators / . _ -")
  | .ok name =>
    if name = [] then
      .error ("install: embedded manifest " ++ sourcePath ++ " has no k3s-safe filename")
    else if name.length > maxAddOnName then
      .error ("install: embedded manifest " ++ sourcePath ++
        " produces an AddOn name longer than 253 characters")
    else .ok (String.ofList name ++ manifestExtension)

example : (manifestFilename "crd/orkano.io_apps.yaml").toOption = some "crd-orkano-io-apps.yaml" := by
  decide +kernel

def checkStem (stem : List Char) : Option String :=
  if stem = [] ∨ byteLength (String.ofList stem) > maxAddOnName then
    some ("install: invalid k3s AddOn name " ++ quoted (String.ofList stem))
  else if stem.any fun c => !(isFilenameChar c || c = '-') then
    some ("install: k3s AddOn name " ++ quoted (String.ofList stem) ++
      " contains an unsupported character")
  else if stem.head? = some '-' ∨ stem.getLast? = some '-' then
    some ("install: k3s AddOn name " ++ quoted (String.ofList stem) ++
      " must start and end with an alphanumeric character")
  else none

/-- The loop of `validateManifestFiles`, with the AddOn names so far. -/
def validateNames : List ManifestFile → List (List Char) → Except String Unit
  | [], _ => .ok ()
  | f :: rest, seen =>
    let name := f.name.toList
    let stem := trimSuffix manifestExtension.toList name
    if pathBase name ≠ name ∨ pathExt name ≠ manifestExtension.toList then
      .error ("install: invalid k3s manifest filename " ++ quoted f.name)
    else match checkStem stem with
    | some message => .error message
    | none =>
      if stem ∈ seen then
        .error ("install: duplicate k3s AddOn name " ++ quoted (String.ofList stem))
      else validateNames rest (stem :: seen)

def validateManifestFiles (files : List ManifestFile) : Except String Unit := validateNames files []

/-- The walk of `manifestsFromFS` over the files of a tree, with the files so far and the
sources of their names. -/
def walkManifests : List (String × String) → List ManifestFile → List (String × String) →
    Except String (List ManifestFile)
  | [], files, _ => .ok files
  | (p, content) :: rest, files, sources =>
    if pathExt p.toList ≠ manifestExtension.toList then walkManifests rest files sources
    else match manifestFilename p with
    | .error e => .error e
    | .ok name =>
      match sources.lookup name with
      | some previous => .error ("install: embedded manifests " ++ previous ++ " and " ++ p ++
          " both map to " ++ name)
      | none =>
        let legacyName := String.ofList (p.toList.map fun c => if c = '/' then '-' else c)
        walkManifests rest
          (files ++ [⟨name, if legacyName = name then "" else legacyName, content⟩])
          ((name, p) :: sources)

def manifestsFromFS (tree : List (String × String)) : Except String (List ManifestFile) :=
  match walkManifests tree [] [] with
  | .error e => .error ("walk embedded manifests: " ++ e)
  | .ok files =>
    if files = [] then .error "install: no embedded manifests found"
    else .ok (files.insertionSort fun f g => f.name ≤ g.name)

structure TemplateData where
  operatorImage : String
  receiverImage : String
  dashboardImage : String
  acmeServer : String
  acmeEmail : String
  unsafeFeatures : String
  sourceZipEnabled : Bool
  receiverHost : String
deriving DecidableEq, Repr

structure Workload where
  ns : String
  kind : String
  name : String
deriving DecidableEq, Repr

/-- `Config`; durations are in nanoseconds. -/
structure Config where
  autoDeployDir : String
  version : String
  acmeEmail : String
  acmeProd : Bool
  repoAllowlist : List String
  unsafeFeatures : List String
  receiverHost : String
  secretsVault : Bool
  readinessTargets : List Workload
  waitTimeout : ℤ
  useSudo : Bool
deriving DecidableEq, Repr

def defaultAutoDeployDir : String := "/var/lib/rancher/k3s/server/manifests"
def manifestSubdir : String := "orkano"

/-- `DefaultWaitTimeout`, five minutes. -/
def defaultWaitTimeout : ℤ := 5 * 60 * 1000000000

def Config.base (c : Config) : String :=
  pathJoin (if c.autoDeployDir = "" then defaultAutoDeployDir else c.autoDeployDir) manifestSubdir

def Config.timeout (c : Config) : ℤ := if c.waitTimeout ≤ 0 then defaultWaitTimeout else c.waitTimeout

structure Assets where
  static : List (String × String)
  externalSecrets : List (String × String)
  templates : List (String × (TemplateData → String))
  /-- `yaml.Unmarshal` of the kind and the name of one document. -/
  readDoc : String → Except String (String × String)
  lower : Lowering

def sourceZip : String := "source.zip"

def knownFeatures : List String := ["source.git", sourceZip, "build.nixpacks"]

/-- `features.Parse`. -/
def parseFeatures : List String → List String → Except String (List String)
  | [], enabled => .ok enabled
  | raw :: rest, enabled =>
    let id := trimSpace raw
    if id = "" then .error "features: feature ID must not be empty"
    else if id ∉ knownFeatures then
      .error ("features: unknown unsafe feature " ++ quoted id ++ " (allowed: " ++
        ",".intercalate (knownFeatures.insertionSort (· ≤ ·)) ++ ")")
    else parseFeatures rest (enabled.insert id)

/-- `^[A-Za-z0-9][A-Za-z0-9._-]*$`. -/
def versionRe (s : String) : Bool :=
  match s.toList with
  | [] => false
  | c :: cs => c.isAlphanum && cs.all fun c => c.isAlphanum || c ∈ ['.', '_', '-']

/-- `^[A-Za-z0-9._%+-]+@[A-Za-z0-9.-]+\.[A-Za-z]{2,}$`: the last label starts behind the
last dot. -/
def emailRe (s : String) : Bool :=
  match s.toList.splitOn '@' with
  | [user, domain] =>
    let top := (domain.reverse.takeWhile (· ≠ '.')).reverse
    let rest := (domain.reverse.dropWhile (· ≠ '.')).drop 1
    user ≠ [] && user.all (fun c => c.isAlphanum || c ∈ ['.', '_', '%', '+', '-']) &&
      rest ≠ [] && rest.all (fun c => c.isAlphanum || c ∈ ['.', '-']) &&
      2 ≤ top.length && top.all Char.isAlpha
  | _ => false

def isLabel (label : List Char) : Bool :=
  label ≠ [] && label.all (fun c => isFilenameChar c || c = '-') && label.head? ≠ some '-' &&
    label.getLast? ≠ some '-'

/-- Labels in lower case with dots between them. -/
def hostRe (s : String) : Bool := (s.toList.splitOn '.').all isLabel

def imageRepo : String := "ghcr.io/orkanoio"

def acmeServer (prod : Bool) : String :=
  if prod then "https://acme-v02.api.letsencrypt.org/directory"
  else "https://acme-staging-v02.api.letsencrypt.org/directory"

def templateExt : String := ".yaml.tmpl"
def receiverIngressTemplate : String := "receiver-ingress.yaml.tmpl"

/-- The message of a repository policy that is refused. -/
def policyError : RepoAllowlist.NormalizeError → String
  | .tooMany => "repository allowlist has more than 400 entries"
  | .tooLong repository => "repository " ++ quoted repository ++ " is longer than 140 characters"
  | .invalid repository => "invalid repository " ++ quoted repository ++ " (want owner/repository)"

/-- The loop of `renderComponents`. -/
def renderEach (data : TemplateData) :
    List (String × (TemplateData → String)) → Except String (List ManifestFile)
  | [] => .ok []
  | (entry, render) :: rest =>
    if ¬ templateExt.toList <:+ entry.toList then renderEach data rest
    else if entry = receiverIngressTemplate ∧ data.receiverHost = "" then renderEach data rest
    else
      let bare := String.ofList (trimSuffix ".tmpl".toList entry.toList)
      match manifestFilename ("components/" ++ bare) with
      | .error e => .error e
      | .ok name =>
        match renderEach data rest with
        | .error e => .error e
        | .ok files => .ok (⟨name, bare, render data⟩ :: files)

def renderComponents (A : Assets) (c : Config) : Except String (List ManifestFile) :=
  match parseFeatures c.unsafeFeatures [] with
  | .error e => .error ("install: unsafe features: " ++ e)
  | .ok enabled =>
    if c.version = "" then .ok []
    else if !versionRe c.version then
      .error ("install: invalid version " ++ quoted c.version ++ " for component image tags")
    else match RepoAllowlist.normalize A.lower c.repoAllowlist with
    | .error e => .error ("install: repository allowlist: " ++ policyError e)
    | .ok _ =>
      if c.acmeEmail ≠ "" ∧ !emailRe c.acmeEmail then
        .error ("install: invalid ACME email " ++ quoted c.acmeEmail)
      else if c.receiverHost ≠ "" ∧ !hostRe c.receiverHost then
        .error ("install: invalid receiver host " ++ quoted c.receiverHost)
      else renderEach
        { operatorImage := imageRepo ++ "/orkano-operator:" ++ c.version
          receiverImage := imageRepo ++ "/orkano-receiver:" ++ c.version
          dashboardImage := imageRepo ++ "/orkano-dashboard:" ++ c.version
          acmeServer := acmeServer c.acmeProd
          acmeEmail := c.acmeEmail
          unsafeFeatures := ",".intercalate (enabled.insertionSort (· ≤ ·))
          sourceZipEnabled := sourceZip ∈ enabled
          receiverHost := c.receiverHost } A.templates

/-- Every manifest that `Apply` writes. -/
def writeSet (A : Assets) (c : Config) : Except String (List ManifestFile) := do
  let files ← manifestsFromFS A.static
  let eso ← if c.secretsVault then manifestsFromFS A.externalSecrets else .ok []
  let comps ← renderComponents A c
  return files ++ eso ++ comps

structure CRDManifest where
  file : ManifestFile
  path : String
  crdName : String
deriving DecidableEq, Repr

def crdManifestPrefix : String := "crd-"

/-- The loop of `ensureSingleDocument`. -/
def singleDocument : List (List Char) → Bool → Bool
  | [], _ => true
  | line :: rest, seenContent =>
    let trimmed := trimSpace (String.ofList line)
    if trimmed = "---" then !seenContent && singleDocument rest seenContent
    else singleDocument rest (seenContent || (trimmed ≠ "" && trimmed.toList.head? ≠ some '#'))

def ensureSingleDocument (content : String) : Except String Unit :=
  if singleDocument (content.toList.splitOn '\n') false then .ok ()
  else .error "multi-document manifest; CRD files must hold exactly one CRD"

def crdName (A : Assets) (content : String) : Except String String := do
  ensureSingleDocument content
  let (kind, name) ← A.readDoc content
  if kind ≠ "CustomResourceDefinition" then
    .error ("kind " ++ quoted kind ++ " is not CustomResourceDefinition")
  else if name = "" then .error "metadata.name is empty"
  else return name

def splitCRDManifests (A : Assets) (base : String) :
    List ManifestFile → Except String (List CRDManifest × List ManifestFile)
  | [] => .ok ([], [])
  | f :: rest =>
    if ¬ crdManifestPrefix.toList <+: f.name.toList then
      (splitCRDManifests A base rest).map fun (crds, others) => (crds, f :: others)
    else match crdName A f.content with
    | .error e => .error ("install: parse " ++ f.name ++ ": " ++ e)
    | .ok name => (splitCRDManifests A base rest).map fun (crds, others) =>
        (⟨f, pathJoin base f.name, name⟩ :: crds, others)

end Orkano.Installer
