import Orkano.Dashboard.RepoPolicy.Update

/-!
The list of an App's Builds in the dashboard, newest first. The dashboard leaves ties as they
are listed, the App controller breaks them by name.
-/
namespace Orkano.Dashboard.BuildList

open Operator List
open Resources (ApiError validResourceName)
open RepoPolicy (ReadError)

def appsNamespace : String := "orkano-apps"

structure BuildResponse where
  name : String
  creationTimestamp : ℤ
  spec : BuildSpec
  phase : BuildPhase
  image : String
deriving DecidableEq, Repr

def buildToResponse (b : Build) : BuildResponse := ⟨b.name, b.createdAt, b.spec, b.phase, b.image⟩

structure ListResponse where
  items : List BuildResponse
  repo : String
  automaticDeploys : Bool
  githubConfigured : Bool
  githubConnected : Bool
deriving DecidableEq, Repr

/-- `equalFold` is `strings.EqualFold`. -/
structure Config where
  webhookURL : String
  equalFold : String → String → Bool

structure Reads where
  app : Except ApiError Source
  builds : Except ApiError (List Build)
  repositories : Except ReadError (List String)
  settings : Option (List (String × String))

def sourceDisplayName (source : Source) : String :=
  match source.github, source.git, source.upload with
  | some github, _, _ => github.repo
  | none, some git, _ => git.url
  | none, none, some upload => if upload.fileName ≠ "" then upload.fileName else upload.digest
  | none, none, none => ""

def repoAllowed (cfg : Config) (repositories : List String) (repo : String) : Bool :=
  repositories.any fun allowed => cfg.equalFold (Text.trimSpace allowed) (Text.trimSpace repo)

/-- A later row of a key replaces an earlier one. -/
def setting (rows : List (String × String)) (key : String) : String :=
  (rows.reverse.lookup key).getD ""

def sortListed (builds : List Build) : List Build :=
  builds.mergeSort fun a b => b.createdAt ≤ a.createdAt

def listItems (name : String) (listing : List Build) : List BuildResponse :=
  ((sortListed listing).filter fun b => b.spec.appName = name).map buildToResponse

/-- What is said of automatic deploys, for an App with a GitHub repository only. -/
def githubState (cfg : Config) (reads : Reads) (source : Source) :
    Except RepoPolicy.Response (Bool × Bool × Bool) :=
  match source.github with
  | none => .ok (false, false, false)
  | some github =>
    match reads.repositories, reads.settings with
    | .error e, _ => .error (RepoPolicy.writeRepoAllowlistReadError e)
    | .ok _, none => .error (RepoPolicy.writeJSONError 503 "unavailable")
    | .ok repositories, some settings =>
      .ok (repoAllowed cfg repositories github.repo, cfg.webhookURL ≠ "",
        setting settings "github_connected_at" ≠ "")

def handleListBuilds (cfg : Config) (name : String) (reads : Reads) :
    Except RepoPolicy.Response ListResponse :=
  if !validResourceName name then .error (RepoPolicy.writeJSONError 400 "invalid_request")
  else match reads.app, reads.builds with
  | .error e, _ | .ok _, .error e => .error (RepoPolicy.k8sError e)
  | .ok source, .ok listing =>
    match githubState cfg reads source with
    | .error response => .error response
    | .ok (automaticDeploys, githubConfigured, githubConnected) =>
      .ok ⟨listItems name listing, sourceDisplayName source, automaticDeploys, githubConfigured,
        githubConnected⟩

theorem items_of_handleListBuilds {cfg : Config} {name : String} {reads : Reads}
    {listing : List Build} {response : ListResponse} (hr : reads.builds = .ok listing)
    (h : handleListBuilds cfg name reads = .ok response) :
    response.items = listItems name listing := by
  unfold handleListBuilds at h
  rw [hr] at h
  repeat' split at h
  all_goals simp_all
  all_goals subst_vars
  all_goals rfl

section Agreement

variable {cluster listing : List Build} {name : String}

/-- Of the newest of the Builds, the one that stands first has the greatest name. -/
def FirstByName (builds : List Build) : Prop :=
  ∀ a ∈ builds, (∀ c ∈ builds, c.createdAt ≤ a.createdAt) →
    (∀ c ∈ builds, c.createdAt = a.createdAt → c = a ∨ [a, c].Sublist builds) →
    ∀ c ∈ builds, c.createdAt = a.createdAt → c.name ≤ a.name

theorem pair_sublist_of_mem {α : Type} {l : List α} {a c : α} (ha : a ∈ l) (hc : c ∈ l)
    (hne : c ≠ a) : [a, c].Sublist l ∨ [c, a].Sublist l := by
  induction l with
  | nil => cases ha
  | cons x l ih =>
    rcases mem_cons.mp ha with rfl | ha'
    · rcases mem_cons.mp hc with rfl | hc'
      · exact absurd rfl hne
      · exact .inl (List.Sublist.cons_cons _ (singleton_sublist.mpr hc'))
    rcases mem_cons.mp hc with rfl | hc'
    · exact .inr (List.Sublist.cons_cons _ (singleton_sublist.mpr ha'))
    · exact (ih ha' hc').imp (·.cons _) (·.cons _)

theorem createdAt_le_trans (a b c : Build) (hab : decide (b.createdAt ≤ a.createdAt) = true)
    (hbc : decide (c.createdAt ≤ b.createdAt) = true) :
    decide (c.createdAt ≤ a.createdAt) = true := by
  simp only [decide_eq_true_eq] at hab hbc ⊢
  exact hbc.trans hab

theorem createdAt_le_total (a b : Build) :
    (decide (b.createdAt ≤ a.createdAt) || decide (a.createdAt ≤ b.createdAt)) = true := by
  simp only [Bool.or_eq_true, decide_eq_true_eq]
  exact le_total _ _

section Head

variable {a : Build} {rest : List Build} (hn : listing.Nodup)
  (h : ((sortListed listing).filter fun b => b.spec.appName = name) = a :: rest)

include hn h

/-- The sort is stable: no Build as new as the first item is listed before it. -/
theorem not_listed_before_head {c : Build} (hne : c ≠ a) (ht : c.createdAt = a.createdAt) :
    ¬[c, a].Sublist (listing.filter fun b => b.spec.appName = name) := by
  intro hb
  have hd : (a :: rest).Nodup := by
    rw [← h]
    exact ((mergeSort_perm _ _).nodup_iff.mpr hn).filter _
  have hl : [c, a].Sublist (sortListed listing) :=
    pair_sublist_mergeSort createdAt_le_trans createdAt_le_total
      (decide_eq_true ht.ge) (hb.trans filter_sublist)
  have hpr : ([c, a].filter fun b => decide (b.spec.appName = name)) = [c, a] := by
    rw [filter_eq_self]
    exact fun b hm => (mem_filter.mp (hb.subset hm)).2
  have hk := hl.filter fun b => decide (b.spec.appName = name)
  rw [h, hpr] at hk
  rcases sublist_cons_iff.mp hk with hr | ⟨r, heq, -⟩
  · exact (nodup_cons.mp hd).1 (hr.subset (by simp))
  · exact hne (List.cons.inj heq).1

/-- The first item: no Build of the App is newer, and none as new is listed before it. -/
theorem head_listed :
    let builds := listing.filter fun b => b.spec.appName = name
    a ∈ builds ∧ (∀ c ∈ builds, c.createdAt ≤ a.createdAt) ∧
      ∀ c ∈ builds, c.createdAt = a.createdAt → c = a ∨ [a, c].Sublist builds := by
  intro builds
  have hp : ((sortListed listing).filter fun b => b.spec.appName = name).Perm builds :=
    (mergeSort_perm _ _).filter _
  have hs := (pairwise_mergeSort createdAt_le_trans createdAt_le_total listing).filter
    fun b => decide (b.spec.appName = name)
  change ((sortListed listing).filter _).Pairwise _ at hs
  rw [h] at hp hs
  have ha : a ∈ builds := hp.mem_iff.mp mem_cons_self
  refine ⟨ha, ?_, ?_⟩
  · intro c hc
    rcases mem_cons.mp (hp.mem_iff.mpr hc) with rfl | hc
    · exact le_refl _
    · exact of_decide_eq_true ((pairwise_cons.mp hs).1 c hc)
  intro c hc ht
  by_cases hne : c = a
  · exact .inl hne
  · exact .inr ((pair_sublist_of_mem ha hc hne).resolve_right (not_listed_before_head hn h hne ht))

end Head

theorem mem_buildsOf_iff (hl : listing.Perm (cluster.filter fun b => b.ns = appsNamespace))
    {b : Build} : b ∈ buildsOf cluster appsNamespace name ↔
      b ∈ listing.filter fun b => b.spec.appName = name := by
  simp only [buildsOf, mem_filter, hl.mem_iff, Bool.decide_and, Bool.and_eq_true]
  tauto

/-- Dashboard and controller agree on the newest Build of an App exactly when, of its newest
Builds, the one listed first has the greatest name. -/
theorem newest_build_agrees {cfg : Config} {reads : Reads} {response : ListResponse}
    (hnodup : listing.Nodup)
    (hlisting : listing.Perm (cluster.filter fun b => b.ns = appsNamespace))
    (hreads : reads.builds = .ok listing)
    (h : handleListBuilds cfg name reads = .ok response) :
    response.items.head?.map (·.name) =
        (observeBuilds cluster appsNamespace name).map Prod.fst ↔
      FirstByName (listing.filter fun b => b.spec.appName = name) := by
  rw [items_of_handleListBuilds hreads h, observeBuilds_name, listItems]
  have hperm : ((sortListed listing).filter fun b => b.spec.appName = name).Perm
      (listing.filter fun b => b.spec.appName = name) := (mergeSort_perm _ _).filter _
  cases hnewest : newestBuild cluster appsNamespace name with
  | none =>
    have hnone : buildsOf cluster appsNamespace name = [] := by
      by_contra hsome
      rw [← ne_eq, ← newestBuild_isSome, hnewest] at hsome
      cases hsome
    have hempty : (listing.filter fun b => b.spec.appName = name) = [] := by
      rw [eq_nil_iff_forall_not_mem]
      intro b hb
      rw [← mem_buildsOf_iff hlisting, hnone] at hb
      cases hb
    rw [hempty] at hperm ⊢
    simp [hperm.eq_nil, FirstByName]
  | some b =>
    obtain ⟨hb, hnone⟩ := newestBuild_spec hnewest
    simp only [mem_buildsOf_iff hlisting, ← Bool.not_eq_true, newerBuild_iff, not_or, not_and,
      not_lt] at hb hnone
    cases hitems : (sortListed listing).filter fun b => b.spec.appName = name with
    | nil =>
      rw [hitems] at hperm
      rw [hperm.symm.eq_nil] at hb
      cases hb
    | cons a rest =>
      obtain ⟨ha, hnewestTime, hfirstListed⟩ := head_listed hnodup hitems
      have htie : b.createdAt = a.createdAt := le_antisymm (hnewestTime b hb) (hnone a ha).1
      simp only [map_cons, head?_cons, Option.map_some, buildToResponse, Option.some.injEq]
      constructor
      · intro hsame a' ha' hnewest' hfirst' c hc ht
        have htie' : a'.createdAt = a.createdAt :=
          le_antisymm (hnewestTime a' ha') (hnewest' a ha)
        have hhead : a = a' := by
          by_contra hne
          exact not_listed_before_head hnodup hitems (Ne.symm hne) htie'
            ((hfirst' a ha htie'.symm).resolve_left hne)
        rw [← hhead, hsame]
        exact (hnone c hc).2 (ht.trans (htie'.trans htie.symm))
      · intro hfirst
        exact le_antisymm ((hnone a ha).2 htie.symm)
          (hfirst a ha hnewestTime hfirstListed b hb htie)

end Agreement

def sampleBuild (name : String) (createdAt : ℤ) : Build where
  ns := appsNamespace
  name := name
  createdAt := createdAt
  spec := ⟨"web", "0123456789abcdef0123456789abcdef01234567",
    ⟨none, some ⟨"https://git.example/web.git", ""⟩, none, ""⟩, ⟨.dockerfile, none, none, none⟩⟩
  phase := .succeeded
  image := ""

def sampleReads (listing : List Build) : Reads where
  app := .ok (sampleBuild "" 0).spec.source
  builds := .ok listing
  repositories := .ok []
  settings := some []

def sampleConfig : Config := ⟨"", fun s t => s = t⟩

theorem handleListBuilds_sample (listing : List Build) :
    handleListBuilds sampleConfig "web" (sampleReads listing) =
      .ok ⟨listItems "web" listing, "https://git.example/web.git", false, false, false⟩ := by
  have hn : validResourceName "web" = true := by decide
  simp only [handleListBuilds, hn]
  rfl

/-- Two Builds of one second: the dashboard shows the one that is listed first on top, the
status of the App names the other. -/
theorem tied_builds_disagree :
    let builds := [sampleBuild "web-a" 7, sampleBuild "web-b" 7]
    ∃ response, handleListBuilds sampleConfig "web" (sampleReads builds) = .ok response ∧
      response.items.head?.map (·.name) = some "web-a" ∧
      (observeBuilds builds appsNamespace "web").map Prod.fst = some "web-b" := by
  have hlisted : sortListed [sampleBuild "web-a" 7, sampleBuild "web-b" 7] =
      [sampleBuild "web-a" 7, sampleBuild "web-b" 7] := by
    apply mergeSort_of_pairwise
    decide
  have hbuilds : buildsOf [sampleBuild "web-a" 7, sampleBuild "web-b" 7] appsNamespace "web" =
      [sampleBuild "web-a" 7, sampleBuild "web-b" 7] := by decide
  obtain ⟨b, hnewest⟩ := Option.isSome_iff_exists.mp
    (newestBuild_isSome.mpr (hbuilds ▸ cons_ne_nil _ _))
  obtain ⟨hb, hnone⟩ := newestBuild_spec hnewest
  rw [hbuilds] at hb hnone
  have hgreater : newerBuild (sampleBuild "web-b" 7) (sampleBuild "web-a" 7) = true := by decide
  refine ⟨_, handleListBuilds_sample _, ?_, ?_⟩
  · rw [listItems, hlisted]
    decide
  rw [observeBuilds_name, hnewest]
  rcases mem_pair.mp hb with rfl | rfl
  · have hnot := hnone (sampleBuild "web-b" 7) (by simp)
    rw [hgreater] at hnot
    cases hnot
  · rfl

/-- The same two Builds, listed the other way round. -/
theorem tied_builds_agree :
    let builds := [sampleBuild "web-b" 7, sampleBuild "web-a" 7]
    FirstByName (builds.filter fun b => b.spec.appName = "web") ∧
      ∃ response, handleListBuilds sampleConfig "web" (sampleReads builds) = .ok response ∧
        response.items.head?.map (·.name) =
          (observeBuilds builds appsNamespace "web").map Prod.fst := by
  have hfirst : FirstByName ([sampleBuild "web-b" 7, sampleBuild "web-a" 7].filter
      fun b => b.spec.appName = "web") := by
    unfold FirstByName
    decide
  have hnamespace : ([sampleBuild "web-b" 7, sampleBuild "web-a" 7].filter
      fun b => b.ns = appsNamespace) = [sampleBuild "web-b" 7, sampleBuild "web-a" 7] := by decide
  have hlisting : [sampleBuild "web-b" 7, sampleBuild "web-a" 7].Perm
      ([sampleBuild "web-b" 7, sampleBuild "web-a" 7].filter fun b => b.ns = appsNamespace) := by
    rw [hnamespace]
  exact ⟨hfirst, _, handleListBuilds_sample _,
    (newest_build_agrees (by decide) hlisting rfl (handleListBuilds_sample _)).mpr hfirst⟩

end Orkano.Dashboard.BuildList
