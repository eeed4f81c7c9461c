import Mathlib.Algebra.Order.Group.Int
import Mathlib.Data.String.Basic

/-!
The kinds of the `orkano.io` API that the operator reads, with the feature gates an
App may need. Fields that no modelled function looks at are left out.
-/
namespace Orkano.Operator

open List

structure GitHubSource where
  repo : String
  ref : String
deriving DecidableEq, Repr

structure GitSource where
  url : String
  ref : String
deriving DecidableEq, Repr

structure UploadSource where
  digest : String
  fileName : String
deriving DecidableEq, Repr

/-- The schema admits exactly one of the three; the code switches on whichever is
set first. -/
structure Source where
  github : Option GitHubSource
  git : Option GitSource
  upload : Option UploadSource
  subPath : String
deriving DecidableEq, Repr

inductive Strategy where
  | dockerfile
  | static
  | nixpacks
deriving DecidableEq, Repr

structure BuildStrategy where
  strategy : Strategy
  dockerfile : Option String
  static : Option String
  nixpacks : Option String
deriving DecidableEq, Repr

structure App where
  ns : String
  name : String
  source : Source
  build : BuildStrategy
deriving DecidableEq, Repr

structure BuildSpec where
  appName : String
  commit : String
  source : Source
  strategy : BuildStrategy
deriving DecidableEq, Repr

inductive BuildPhase where
  | none
  | pending
  | running
  | succeeded
  | failed
deriving DecidableEq, Repr

/-- `createdAt` is the creation timestamp, in whole seconds. -/
structure Build where
  ns : String
  name : String
  createdAt : Int
  spec : BuildSpec
  phase : BuildPhase
  image : String
deriving DecidableEq, Repr

inductive Feature where
  | sourceGit
  | sourceZip
  | buildNixpacks
deriving DecidableEq, Repr

def requiredForApp (app : App) : List Feature :=
  (if app.source.git.isSome then [.sourceGit] else []) ++
    (if app.source.upload.isSome then [.sourceZip] else []) ++
    (if app.build.strategy = .nixpacks then [.buildNixpacks] else [])

def missingForApp (enabled : List Feature) (app : App) : List Feature :=
  (requiredForApp app).filter fun id => id ∉ enabled

/-- `none` when every gate the App uses is enabled, and the missing ones otherwise. -/
def validateApp (enabled : List Feature) (app : App) : Option (List Feature) :=
  match missingForApp enabled app with
  | [] => none
  | missing => some missing

def isLowerHex (c : Char) : Bool := c.isDigit || ('a' ≤ c && c ≤ 'f')

def isLowerAlphanum (c : Char) : Bool := c.isDigit || c.isLower

def isLabel (cs : List Char) : Bool :=
  cs.head?.any isLowerAlphanum && cs.getLast?.any isLowerAlphanum &&
    cs.all fun c => isLowerAlphanum c || c = '-'

/-- A DNS-1123 subdomain: labels joined by dots. -/
def isSubdomain (name : String) : Bool := (name.toList.splitOn '.').all isLabel

/-- The schema's pattern for a commit: 40 or 64 lowercase hex digits. -/
def isCommit (sha : String) : Bool :=
  (sha.length = 40 || sha.length = 64) && sha.toList.all isLowerHex

/-- What the schema checks of a Build that the dispatcher creates. -/
def Build.admissible (b : Build) : Bool :=
  isCommit b.spec.commit && isSubdomain b.spec.appName && b.spec.appName.length ≤ 253

section Newest

/-- Creation time, then name, decides which of two Builds is newer. -/
def newerBuild (a b : Build) : Bool :=
  if a.createdAt ≠ b.createdAt then b.createdAt < a.createdAt else b.name < a.name

def buildsOf (builds : List Build) (ns appName : String) : List Build :=
  builds.filter fun b => b.ns = ns ∧ b.spec.appName = appName

def sortBuilds (builds : List Build) : List Build :=
  builds.mergeSort fun a b => !newerBuild b a

def newestBuild (builds : List Build) (ns appName : String) : Option Build :=
  (sortBuilds (buildsOf builds ns appName)).head?

/-- The name of the newest Build, and the image of the newest one that succeeded. -/
def observeBuilds (builds : List Build) (ns appName : String) : Option (String × Option String) :=
  match sortBuilds (buildsOf builds ns appName) with
  | [] => none
  | b :: bs =>
    some (b.name, ((b :: bs).find? fun b => b.phase = .succeeded && b.image ≠ "").map (·.image))

theorem newerBuild_iff {a b : Build} :
    newerBuild a b ↔ b.createdAt < a.createdAt ∨ a.createdAt = b.createdAt ∧ b.name < a.name := by
  unfold newerBuild
  split
  · rename_i h
    simp [h]
  rename_i h
  simp only [ne_eq, not_not] at h
  simp [h]

theorem newerBuild_trans {a b c : Build} (hab : newerBuild b a = false)
    (hbc : newerBuild c b = false) : newerBuild c a = false := by
  simp only [← Bool.not_eq_true, newerBuild_iff, not_or, not_and, not_lt] at hab hbc ⊢
  constructor
  · exact hbc.1.trans hab.1
  intro heq
  have hba : b.createdAt = a.createdAt := le_antisymm hab.1 (heq ▸ hbc.1)
  exact (hbc.2 (heq.trans hba.symm)).trans (hab.2 hba)

theorem newerBuild_total (a b : Build) : newerBuild b a = false ∨ newerBuild a b = false := by
  by_contra h
  simp only [not_or, Bool.not_eq_false, newerBuild_iff] at h
  obtain ⟨h1 | ⟨h1, h2⟩, h3 | ⟨h3, h4⟩⟩ := h
  · omega
  · omega
  · omega
  · exact absurd h2 (lt_asymm h4)

theorem pairwise_sortBuilds (builds : List Build) :
    (sortBuilds builds).Pairwise fun a b => newerBuild b a = false := by
  have hs : (sortBuilds builds).Pairwise fun a b => (!newerBuild b a) = true := by
    apply pairwise_mergeSort
    · intro a b c hab hbc
      rw [Bool.not_eq_true'] at hab hbc ⊢
      exact newerBuild_trans hab hbc
    · intro a b
      simpa using newerBuild_total a b
  exact hs.imp fun h => by simpa using h

variable {builds : List Build}

/-- The newest Build is one of the App's, and none of them is newer. -/
theorem newestBuild_spec {ns appName : String} {b : Build}
    (h : newestBuild builds ns appName = some b) :
    b ∈ buildsOf builds ns appName ∧
      ∀ b' ∈ buildsOf builds ns appName, newerBuild b' b = false := by
  unfold newestBuild at h
  obtain ⟨rest, hr⟩ := head?_eq_some_iff.mp h
  have hp : (sortBuilds (buildsOf builds ns appName)).Perm (buildsOf builds ns appName) :=
    mergeSort_perm _ _
  have hs := pairwise_sortBuilds (buildsOf builds ns appName)
  rw [hr] at hp hs
  refine ⟨hp.mem_iff.mp (mem_cons_self ..), ?_⟩
  intro b' hb'
  rcases mem_cons.mp (hp.mem_iff.mpr hb') with rfl | hm
  · simp [newerBuild]
  · exact (pairwise_cons.mp hs).1 b' hm

theorem newestBuild_isSome {ns appName : String} :
    (newestBuild builds ns appName).isSome ↔ buildsOf builds ns appName ≠ [] := by
  have hl := (mergeSort_perm (buildsOf builds ns appName) fun a b => !newerBuild b
    a).length_eq
  unfold newestBuild sortBuilds
  rw [isSome_head?, ne_eq, ne_eq, ← length_eq_zero_iff, ← length_eq_zero_iff, hl]

theorem observeBuilds_name (builds : List Build) (ns appName : String) :
    (observeBuilds builds ns appName).map Prod.fst = (newestBuild builds ns appName).map Build.name := by
  unfold observeBuilds newestBuild
  cases sortBuilds (buildsOf builds ns appName) <;> rfl

end Newest

end Orkano.Operator
