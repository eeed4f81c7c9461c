import Mathlib.Logic.Relation
import Orkano.Operator.AppController.Controller

/-!
Whether the rollout only advances. The status is read off the Builds that are left: once a Build
that it refers to is gone while older ones remain, the next reconcile goes back to those.
-/
namespace Orkano.Operator.AppController

open Interleave Program List

/-- The App, all Builds, and the image in the App's Deployment with the Build it is from. -/
structure World where
  app : Option AppObject
  builds : List Build
  deployment : Option (String × Option Build)
  clock : ℕ
deriving DecidableEq

inductive DeployChoice where
  | applied (available : ℤ)
  | conflict
  | failed (message : String) (fault : Fault)

/-- The freedom of each answer. A write may fail before or after its effect. -/
@[reducible] def Choice : Call → Type
  | .getApp | .listBuilds => Option String
  | .applyDeployment _ => DeployChoice
  | .getService => Lookup Bool
  | .deleteService => Option String
  | .applyService => Applied Unit
  | .updateStatus _ => Option Fault

def World.updateStatus (w : World) (app : AppObject) : Bool × World :=
  match w.app with
  | none => (false, w)
  | some cur =>
    if cur.resourceVersion ≠ app.resourceVersion then (false, w)
    else (true, { w with
      app := some { cur with
        status := app.status
        origin := app.origin
        resourceVersion := w.clock }
      clock := w.clock + 1 })

def World.deploy (w : World) (app : AppObject) : World :=
  { w with deployment := some (app.status.image, app.origin.image) }

def answer : (c : Call) → Choice c → World → c.Reply × World
  | .getApp, none, w => (w.app.elim .missing .found, w)
  | .getApp, some message, w => (.failed message, w)
  | .listBuilds, none, w => (some w.builds, w)
  | .listBuilds, some _, w => (none, w)
  | .applyDeployment app, .applied available, w => (.applied available, w.deploy app)
  | .applyDeployment _, .conflict, w => (.conflict, w)
  | .applyDeployment _, .failed message .before, w => (.failed message, w)
  | .applyDeployment app, .failed message .after, w => (.failed message, w.deploy app)
  | .getService, reply, w => (reply, w)
  | .deleteService, reply, w => (reply, w)
  | .applyService, reply, w => (reply, w)
  | .updateStatus app, none, w => w.updateStatus app
  | .updateStatus _, some .before, w => (false, w)
  | .updateStatus app, some .after, w => (false, (w.updateStatus app).2)

def machine : Machine apiServer World := ⟨Choice, fun c k w => some (answer c k w)⟩

inductive Event where
  | create (b : Build)
  | setPhase (ns name : String) (phase : BuildPhase) (image : String)
  | delete (ns name : String)

def World.event (w : World) : Event → World
  | .create b =>
    if w.builds.any fun b' => b'.ns = b.ns ∧ b'.name = b.name then w
    else { w with builds := w.builds ++ [b] }
  | .setPhase ns name phase image =>
    { w with builds := w.builds.map fun b =>
        if b.ns = ns ∧ b.name = name then { b with phase := phase, image := image } else b }
  | .delete ns name => { w with builds := w.builds.filter fun b => ¬ (b.ns = ns ∧ b.name = name) }

inductive RolloutStep (ok : World → Prop) (w w' : World) : Prop where
  | mk (e : Event) (result : Option Failure) : ok (w.event e) →
      Runs machine.exec reconcile (w.event e) result w' → RolloutStep ok w w'

def Rollout (ok : World → Prop) : World → World → Prop := Relation.ReflTransGen (RolloutStep ok)

section Order

variable {builds : List Build} {ns appName : String} {a b : Build}

/-- The later one is there, and is not the older of the two. -/
def Forward (earlier later : Option Build) : Prop :=
  ∀ a ∈ earlier, ∃ b ∈ later, newerBuild a b = false

theorem newerBuild_irrefl (a : Build) : newerBuild a a = false := by
  simp [newerBuild]

theorem Forward.refl (o : Option Build) : Forward o o :=
  fun a ha => ⟨a, ha, newerBuild_irrefl a⟩

theorem Forward.trans {o1 o2 o3 : Option Build} (h1 : Forward o1 o2) (h2 : Forward o2 o3) :
    Forward o1 o3 := by
  intro a ha
  obtain ⟨b, hb, hab⟩ := h1 a ha
  obtain ⟨c, hc, hbc⟩ := h2 b hb
  exact ⟨c, hc, newerBuild_trans hbc hab⟩

theorem newerBuild_congr {a' : Build} (ht : a'.createdAt = a.createdAt) (hn : a'.name = a.name)
    (b : Build) : newerBuild a' b = newerBuild a b := by
  simp only [newerBuild, ht, hn]

/-- The first that satisfies a test, in a list that is sorted from the newest. -/
theorem newestImage_spec (h : newestImage builds ns appName = some b) :
    hasImage b = true ∧ b ∈ buildsOf builds ns appName ∧
      ∀ b' ∈ buildsOf builds ns appName, hasImage b' = true → newerBuild b' b = false := by
  unfold newestImage at h
  obtain ⟨hi, before, after, hsp, hb⟩ := find?_eq_some_iff_append.mp h
  have hp : (sortBuilds (buildsOf builds ns appName)).Perm (buildsOf builds ns appName) :=
    mergeSort_perm _ _
  refine ⟨hi, hp.mem_iff.mp (mem_of_find?_eq_some h), ?_⟩
  intro b' hb' hi'
  have hm := hp.mem_iff.mpr hb'
  have hs := pairwise_sortBuilds (buildsOf builds ns appName)
  rw [hsp] at hm hs
  have ha := (pairwise_append.mp hs).2.1
  rcases mem_append.mp hm with hold | hr
  · have hno := hb b' hold
    rw [hi'] at hno
    cases hno
  rcases mem_cons.mp hr with rfl | hl
  · exact newerBuild_irrefl b'
  · exact (pairwise_cons.mp ha).1 b' hl

/-- The Build is still among them, or none that is older. -/
def KeptAmong (builds : List Build) (a : Build) : Prop :=
  (∃ b ∈ builds, b.createdAt = a.createdAt ∧ b.name = a.name) ∨
    ∀ b ∈ builds, newerBuild a b = false

instance (builds : List Build) (a : Build) : Decidable (KeptAmong builds a) :=
  inferInstanceAs (Decidable ((∃ b ∈ builds, b.createdAt = a.createdAt ∧ b.name = a.name) ∨
    ∀ b ∈ builds, newerBuild a b = false))

theorem KeptAmong.not_newer (h : KeptAmong builds a) (hm : b ∈ builds)
    (hn : ∀ b' ∈ builds, newerBuild b' b = false) : newerBuild a b = false := by
  rcases h with ⟨a', ha', ht, hnm⟩ | hnn
  · rw [← newerBuild_congr ht hnm]
    exact hn a' ha'
  · exact hnn b hm

theorem KeptAmong.forward_newest (h : KeptAmong (buildsOf builds ns appName) a)
    (hb : newestBuild builds ns appName = some b) : newerBuild a b = false := by
  obtain ⟨hm, hn⟩ := newestBuild_spec hb
  exact h.not_newer hm hn

theorem KeptAmong.forward_image (h : KeptAmong ((buildsOf builds ns appName).filter hasImage) a)
    (hb : newestImage builds ns appName = some b) : newerBuild a b = false := by
  obtain ⟨hi, hm, hn⟩ := newestImage_spec hb
  refine h.not_newer (mem_filter.mpr ⟨hm, hi⟩) ?_
  intro b' hb'
  obtain ⟨hm', hi'⟩ := mem_filter.mp hb'
  exact hn b' hm' hi'

end Order

section Observation

variable {builds : List Build} {app : AppObject}

structure Named (app : AppObject) : Prop where
  latest : app.status.latestBuild = (app.origin.latest.map (·.name)).getD ""
  image : app.status.image = (app.origin.image.map (·.image)).getD ""

theorem observeBuilds_eq (builds : List Build) (ns appName : String) :
    observeBuilds builds ns appName = (newestBuild builds ns appName).map fun b =>
      (b.name, (newestImage builds ns appName).map (·.image)) := by
  unfold observeBuilds newestBuild newestImage
  cases sortBuilds (buildsOf builds ns appName) <;> rfl

theorem newestImage_none {ns appName : String} (h : newestBuild builds ns appName = none) :
    newestImage builds ns appName = none := by
  unfold newestBuild at h
  unfold newestImage
  rw [head?_eq_none_iff.mp h]
  rfl

theorem observe_origin : (observe builds app).origin =
    ⟨(newestBuild builds app.ns app.name).or app.origin.latest,
      (newestImage builds app.ns app.name).or app.origin.image⟩ := by
  simp only [observe, observeBuilds_eq]
  cases hn : newestBuild builds app.ns app.name with
  | none => simp [newestImage_none hn]
  | some b => simp

theorem Named.observe (h : Named app) : Named (observe builds app) := by
  simp only [AppController.observe, observeBuilds_eq]
  cases hn : newestBuild builds app.ns app.name with
  | none => simpa using h
  | some b =>
    refine ⟨by simp, ?_⟩
    cases newestImage builds app.ns app.name with
    | none => simpa using h.image
    | some s => simp

end Observation

section Reconcile

variable {w w' : World} {app new : AppObject}

structure SameRollout (new app : AppObject) : Prop where
  latestBuild : app.status.latestBuild = new.status.latestBuild
  image : app.status.image = new.status.image
  origin : app.origin = new.origin

/-- The writes of a reconcile that has observed this. -/
def Carries (new : AppObject) : Call → Prop
  | .applyDeployment app => SameRollout new app ∧ new.status.image ≠ ""
  | .updateStatus app => SameRollout new app
  | _ => True

/-- Up to the observed state: the status as it was or as observed, and so the Deployment. -/
structure RolledTo (new : AppObject) (w w' : World) : Prop where
  builds : w'.builds = w.builds
  app : w'.app = w.app ∨ ∃ app, w'.app = some app ∧ SameRollout new app
  deployment : w'.deployment = w.deployment ∨
    w'.deployment = some (new.status.image, new.origin.image) ∧ new.status.image ≠ ""

theorem SameRollout.refl (app : AppObject) : SameRollout app app := ⟨rfl, rfl, rfl⟩

theorem RolledTo.refl (new : AppObject) (w : World) : RolledTo new w w := ⟨rfl, .inl rfl, .inl rfl⟩

theorem RolledTo.trans {w'' : World} (h : RolledTo new w w') (h' : RolledTo new w' w'') :
    RolledTo new w w'' where
  builds := h'.builds.trans h.builds
  app := by
    rcases h'.app with hs | hn
    · rw [hs]
      exact h.app
    · exact .inr hn
  deployment := by
    rcases h'.deployment with hs | hn
    · rw [hs]
      exact h.deployment
    · exact .inr hn

theorem rolledTo_updateStatus (h : SameRollout new app) : RolledTo new w (w.updateStatus app).2 := by
  unfold World.updateStatus
  split
  · exact .refl new w
  split
  · exact .refl new w
  · exact ⟨rfl, .inr ⟨_, rfl, ⟨h.latestBuild, h.image, h.origin⟩⟩, .inl rfl⟩

theorem rolledTo_deploy (h : SameRollout new app) (hi : new.status.image ≠ "") :
    RolledTo new w (w.deploy app) :=
  ⟨rfl, .inl rfl, .inr ⟨by rw [World.deploy, h.image, h.origin], hi⟩⟩

/-- One call of a reconcile brings the App no further than what was observed. -/
theorem rolledTo_exec (c : Call) (w : World) (x : c.Reply) (w' : World) (hc : Carries new c)
    (hx : machine.exec c w x w') : RolledTo new w w' := by
  obtain ⟨k, hk⟩ := hx
  obtain rfl : (answer c k w).2 = w' := congrArg Prod.snd (Option.some.inj hk)
  cases c with
  | getApp | listBuilds => cases k <;> exact .refl new w
  | applyDeployment app =>
    obtain available | _ | ⟨message, _ | _⟩ := k
    · exact rolledTo_deploy hc.1 hc.2
    · exact .refl new w
    · exact .refl new w
    · exact rolledTo_deploy hc.1 hc.2
  | getService | deleteService | applyService => exact .refl new w
  | updateStatus app =>
    obtain _ | _ | _ := k
    · exact rolledTo_updateStatus hc
    · exact .refl new w
    · exact rolledTo_updateStatus hc

variable {before : AppStatus}

theorem only_updateStatus (h : SameRollout new app) :
    (updateStatus app before).Only (Carries new) := by
  unfold updateStatus
  dsimp only
  split
  · trivial
  simp only [call, perform_bind, only_call]
  refine ⟨⟨h.latestBuild, h.image, h.origin⟩, fun x => ?_⟩
  cases x <;> trivial

theorem only_failReady {reason : Reason} {message : String} {failure : Failure}
    (h : SameRollout new app) : (failReady app before reason message failure).Only (Carries new) :=
  only_bind (only_updateStatus ⟨h.latestBuild, h.image, h.origin⟩) fun _ => trivial

theorem only_ensureService : (ensureService app).Only (Carries new) := by
  unfold ensureService
  split
  · simp only [call, perform_bind, only_call]
    refine ⟨trivial, fun x => ?_⟩
    cases x with
    | failed | missing => trivial
    | found controlled =>
      dsimp only
      split
      · refine ⟨trivial, fun x => ?_⟩
        cases x <;> trivial
      · trivial
  · simp only [call, perform_bind, only_call]
    refine ⟨trivial, fun x => ?_⟩
    cases x <;> trivial

theorem sameRollout_reportReplicas (app : AppObject) (available : ℤ) :
    SameRollout app (reportReplicas app available) := by
  unfold reportReplicas
  dsimp only
  split <;> exact ⟨rfl, rfl, rfl⟩

/-- From the observation on, a reconcile writes what it observed. -/
theorem only_rollOut : (rollOut app before).Only (Carries app) := by
  unfold rollOut
  split
  · exact only_updateStatus ⟨rfl, rfl, rfl⟩
  rename_i hi
  split
  · exact only_failReady (SameRollout.refl app)
  simp only [call, perform_bind, only_call]
  refine ⟨⟨SameRollout.refl app, hi⟩, fun x => ?_⟩
  cases x with
  | conflict => trivial
  | failed message => exact only_failReady (SameRollout.refl app)
  | applied available =>
    apply only_bind only_ensureService
    intro result
    obtain _ | _ | message := result
    · exact only_updateStatus (sameRollout_reportReplicas app available)
    · trivial
    · exact only_failReady (SameRollout.refl app)

/-- A reconcile leaves everything as it was, or takes the App to what the Builds say. -/
theorem runs_reconcile {result : Option Failure} (h : Runs machine.exec reconcile w result w') :
    w' = w ∨ ∃ app, w.app = some app ∧ RolledTo (observe w.builds app) w w' := by
  simp only [reconcile, call, perform_bind, runs_call] at h
  obtain ⟨x, w1, ⟨k, hk⟩, hr⟩ := h
  cases k with
  | some message =>
    cases hk
    exact .inl (runs_done.mp hr).2
  | none =>
    cases hk
    cases ha : w.app with
    | none =>
      simp only [ha, Option.elim_none] at hr
      exact .inl (runs_done.mp hr).2
    | some app =>
      simp only [ha, Option.elim_some] at hr
      split at hr
      · exact .inl (runs_done.mp hr).2
      obtain ⟨x, w2, ⟨k, hk⟩, hr⟩ := runs_call.mp hr
      cases k with
      | some message =>
        cases hk
        exact .inl (runs_done.mp hr).2
      | none =>
        cases hk
        exact .inr ⟨app, rfl, hr.of_only (RolledTo.refl _) RolledTo.trans rolledTo_exec
          only_rollOut⟩

end Reconcile

section Advance

variable {w w' w'' : World} {app : AppObject}

def World.latest (w : World) : Option Build := w.app.bind (·.origin.latest)

def World.image (w : World) : Option Build := w.app.bind (·.origin.image)

def World.deployed (w : World) : Option Build := w.deployment.bind (·.2)

def World.images (w : World) (app : AppObject) : List Build :=
  (buildsOf w.builds app.ns app.name).filter hasImage

/-- A Build that the status or the Deployment refers to is still there, or no older one is
left that could take its place. -/
def OldestFirst (w : World) : Prop :=
  ∀ app ∈ w.app, (∀ a ∈ w.latest, KeptAmong (buildsOf w.builds app.ns app.name) a) ∧
    (∀ a ∈ w.image, KeptAmong (w.images app) a) ∧
    ∀ a ∈ w.deployed, KeptAmong (w.images app) a ∧
      (w.images app = [] → ∀ b ∈ w.image, newerBuild a b = false)

instance (w : World) : Decidable (OldestFirst w) :=
  inferInstanceAs (Decidable (∀ app ∈ w.app, (∀ a ∈ w.latest, KeptAmong _ a) ∧
    (∀ a ∈ w.image, KeptAmong _ a) ∧ ∀ a ∈ w.deployed, KeptAmong _ a ∧
      (w.images app = [] → ∀ b ∈ w.image, newerBuild a b = false)))

structure RolloutInv (w : World) : Prop where
  app : ∀ app ∈ w.app, Named app
  deployment : ∀ d ∈ w.deployment, d.1 = (d.2.map (·.image)).getD ""

structure Advances (w w' : World) : Prop where
  latest : Forward w.latest w'.latest
  image : Forward w.image w'.image
  deployed : Forward w.deployed w'.deployed

theorem Advances.refl (w : World) : Advances w w := ⟨.refl _, .refl _, .refl _⟩

theorem Advances.trans (h : Advances w w') (h' : Advances w' w'') : Advances w w'' :=
  ⟨h.latest.trans h'.latest, h.image.trans h'.image, h.deployed.trans h'.deployed⟩

theorem forward_or {o newest : Option Build} (h : ∀ a ∈ o, ∀ b ∈ newest, newerBuild a b = false) :
    Forward o (newest.or o) := by
  cases newest with
  | none => exact .refl o
  | some b => exact fun a ha => ⟨b, rfl, h a ha b rfl⟩

theorem images_eq_nil (h : newestImage w.builds app.ns app.name = none) : w.images app = [] := by
  unfold newestImage at h
  rw [World.images, filter_eq_nil_iff]
  intro b hb
  have hp : (sortBuilds (buildsOf w.builds app.ns app.name)).Perm
      (buildsOf w.builds app.ns app.name) := mergeSort_perm _ _
  exact find?_eq_none.mp h b (hp.mem_iff.mpr hb)

theorem Named.of_sameRollout {new : AppObject} (hn : Named new) (h : SameRollout new app) :
    Named app := by
  constructor
  · rw [h.latestBuild, h.origin]
    exact hn.latest
  · rw [h.image, h.origin]
    exact hn.image

/-- One reconcile from a state in which Builds went oldest first. -/
theorem advances_of_rolledTo (hi : RolloutInv w) (hk : OldestFirst w) (hap : w.app = some app)
    (h : RolledTo (observe w.builds app) w w') : RolloutInv w' ∧ Advances w w' := by
  have hnm : Named (observe w.builds app) := (hi.app app hap).observe
  obtain ⟨hl, him, hdp⟩ := hk app hap
  have hl0 : w.latest = app.origin.latest := by rw [World.latest, hap]; rfl
  have hi0 : w.image = app.origin.image := by rw [World.image, hap]; rfl
  refine ⟨⟨?_, ?_⟩, ?_, ?_, ?_⟩
  · intro app' ha'
    rcases h.app with hs | ⟨stored, hst, hr⟩
    · exact hi.app app' (hs ▸ ha')
    · cases hst.symm.trans ha'
      exact hnm.of_sameRollout hr
  · intro d hd
    rcases h.deployment with hs | ⟨hnw, _⟩
    · exact hi.deployment d (hs ▸ hd)
    · cases hnw.symm.trans hd
      exact hnm.image
  · rcases h.app with hs | ⟨stored, hst, hr⟩
    · rw [World.latest, World.latest, hs]
      exact .refl _
    have hl' : w'.latest = (newestBuild w.builds app.ns app.name).or w.latest := by
      rw [World.latest, hst, Option.bind_some, hr.origin, observe_origin, hl0]
    rw [hl']
    exact forward_or fun a ha b hb => (hl a ha).forward_newest hb
  · rcases h.app with hs | ⟨stored, hst, hr⟩
    · rw [World.image, World.image, hs]
      exact .refl _
    have hi' : w'.image = (newestImage w.builds app.ns app.name).or w.image := by
      rw [World.image, hst, Option.bind_some, hr.origin, observe_origin, hi0]
    rw [hi']
    exact forward_or fun a ha b hb => (him a ha).forward_image hb
  · rcases h.deployment with hs | ⟨hnw, hsm⟩
    · rw [World.deployed, World.deployed, hs]
      exact .refl _
    have hd' : w'.deployed = (newestImage w.builds app.ns app.name).or w.image := by
      rw [World.deployed, hnw, Option.bind_some, observe_origin, hi0]
    intro a ha
    rw [hd']
    cases hn : newestImage w.builds app.ns app.name with
    | some b => exact ⟨b, rfl, (hdp a ha).1.forward_image hn⟩
    | none =>
      -- nothing left to roll out: the image is the one that the status has kept
      rw [hnm.image, observe_origin, hn, ← hi0] at hsm
      cases hss : w.image with
      | none => simp [hss] at hsm
      | some b => exact ⟨b, rfl, (hdp a ha).2 (images_eq_nil hn) b hss⟩

theorem event_kept (w : World) (e : Event) :
    (w.event e).app = w.app ∧ (w.event e).deployment = w.deployment := by
  cases e with
  | create b =>
    simp only [World.event]
    split <;> exact ⟨rfl, rfl⟩
  | setPhase | delete => exact ⟨rfl, rfl⟩

/-- An event and the reconcile after it never roll the App back. -/
theorem advances_step (hi : RolloutInv w) (h : RolloutStep OldestFirst w w') :
    RolloutInv w' ∧ Advances w w' := by
  obtain ⟨e, result, hk, hrn⟩ := h
  obtain ⟨hap, hd⟩ := event_kept w e
  have hi' : RolloutInv (w.event e) :=
    ⟨by rw [hap]; exact hi.app, by rw [hd]; exact hi.deployment⟩
  have hs : Advances w (w.event e) := by
    constructor
    · rw [World.latest, World.latest, hap]
      exact .refl _
    · rw [World.image, World.image, hap]
      exact .refl _
    · rw [World.deployed, World.deployed, hd]
      exact .refl _
  rcases runs_reconcile hrn with rfl | ⟨app, hst, hr⟩
  · exact ⟨hi', hs⟩
  · obtain ⟨hn, ha⟩ := advances_of_rolledTo hi' hk hst hr
    exact ⟨hn, hs.trans ha⟩

/-- A new App, for which nothing was built or deployed yet. -/
def World.ofApp (app : AppObject) : World :=
  ⟨some { app with status := .empty, origin := ⟨none, none⟩ }, [], none, app.resourceVersion + 1⟩

theorem rolloutInv_ofApp (app : AppObject) : RolloutInv (World.ofApp app) := by
  constructor
  · rintro _ ⟨⟩
    exact ⟨rfl, rfl⟩
  · rintro _ ⟨⟩

/-- No run of events and reconciles rolls the App back. -/
theorem advances_run (hi : RolloutInv w) (h : Rollout OldestFirst w w') :
    RolloutInv w' ∧ Advances w w' := by
  induction h with
  | refl => exact ⟨hi, .refl w⟩
  | tail _ hs ih =>
    obtain ⟨hi', ha⟩ := advances_step ih.1 hs
    exact ⟨hi', ih.2.trans ha⟩

/-- In every run in which Builds go oldest first: the newest Build that the status names, the
one whose image it holds and the one whose image the Deployment runs never go back. -/
theorem rollout_advances {app : AppObject} (h : Rollout OldestFirst (World.ofApp app) w)
    (h' : Rollout OldestFirst w w') : RolloutInv w ∧ Advances w w' := by
  have hinv := (advances_run (rolloutInv_ofApp app) h).1
  exact ⟨hinv, (advances_run hinv h').2⟩

end Advance

section Sample

variable {w : World} {app : AppObject} {b : Build} {builds : List Build}

def Leads (builds : List Build) (app : AppObject) (b : Build) : Prop :=
  b ∈ buildsOf builds app.ns app.name ∧ hasImage b = true ∧
    ∀ b' ∈ buildsOf builds app.ns app.name, newerBuild b b' = false → b' = b

instance : Decidable (Leads builds app b) :=
  inferInstanceAs (Decidable (b ∈ buildsOf builds app.ns app.name ∧ hasImage b = true ∧
    ∀ b' ∈ buildsOf builds app.ns app.name, newerBuild b b' = false → b' = b))

def takeOver (app : AppObject) (b : Build) : AppObject :=
  { app with
    status := { app.status with latestBuild := b.name, image := b.image }
    origin := ⟨some b, some b⟩ }

theorem newestBuild_of_leads (h : Leads builds app b) :
    newestBuild builds app.ns app.name = some b := by
  obtain ⟨hm, _, hl⟩ := h
  cases hn : newestBuild builds app.ns app.name with
  | none =>
    have hp : (sortBuilds (buildsOf builds app.ns app.name)).Perm
        (buildsOf builds app.ns app.name) := mergeSort_perm _ _
    have hs := hp.mem_iff.mpr hm
    rw [head?_eq_none_iff.mp hn] at hs
    cases hs
  | some b' =>
    obtain ⟨hm', hmx⟩ := newestBuild_spec hn
    rw [hl b' hm' (hmx b hm)]

theorem newestImage_of_leads (h : Leads builds app b) :
    newestImage builds app.ns app.name = some b := by
  obtain ⟨hm, hi, hl⟩ := h
  cases hn : newestImage builds app.ns app.name with
  | none =>
    have hp : (sortBuilds (buildsOf builds app.ns app.name)).Perm
        (buildsOf builds app.ns app.name) := mergeSort_perm _ _
    exact absurd hi (find?_eq_none.mp hn b (hp.mem_iff.mpr hm))
  | some b' =>
    obtain ⟨_, hm', hmx⟩ := newestImage_spec hn
    rw [hl b' hm' (hmx b hm hi)]

theorem observe_of_leads (h : Leads builds app b) : observe builds app = takeOver app b := by
  simp only [observe, observeBuilds_eq, newestBuild_of_leads h, newestImage_of_leads h,
    Option.map_some, Option.getD_some, Option.some_or, takeOver]

def smoothPick : (c : Call) → World → Choice c
  | .getApp, _ | .listBuilds, _ => none
  | .applyDeployment _, _ => .applied 1
  | .getService, _ => .missing
  | .deleteService, _ => none
  | .applyService, _ => .applied ()
  | .updateStatus _, _ => none

def World.leadBy (w : World) (b : Build) : World :=
  w.app.elim w fun app => machine.after smoothPick (rollOut (takeOver app b) app.status) w

/-- With a leading Build, the reconcile runs to its rollout. -/
theorem runs_reconcile_leadBy
    (hl : w.app.any fun app => !app.deleting && Leads w.builds app b)
    (hr : w.app.any fun app =>
      (machine.simulate smoothPick (rollOut (takeOver app b) app.status) w).isSome) :
    ∃ result, Runs machine.exec reconcile w result (w.leadBy b) := by
  obtain ⟨app, ha, hr⟩ := (Option.any_eq_true ..).mp hr
  rw [ha, Option.any_some, Bool.and_eq_true, Bool.not_eq_true', decide_eq_true_iff] at hl
  obtain ⟨out, ho⟩ := Option.isSome_iff_exists.mp hr
  have hrs := machine.runs_after (congrArg (Option.map Prod.fst) ho)
  refine ⟨out.1, ?_⟩
  simp only [reconcile, call, perform_bind, World.leadBy, ha, Option.elim_some]
  refine .call ⟨none, rfl⟩ ?_
  simp only [ha, Option.elim_some, hl.1, Bool.false_eq_true, if_false]
  refine .call ⟨none, rfl⟩ ?_
  simp only [observe_of_leads hl.2]
  exact hrs

def sampleApp : AppObject :=
  ⟨"orkano-apps", "web", 0, 1, false, some .web, some 1, .empty, ⟨none, none⟩⟩

def sampleBuild (name : String) (createdAt : ℤ) (image : String) : Build :=
  ⟨"orkano-apps", name, createdAt, ⟨"web", name, ⟨some ⟨"acme/web", "main"⟩, none, none, ""⟩,
    ⟨.dockerfile, none, none, none⟩⟩, .succeeded, image⟩

def firstBuild : Build := sampleBuild "web-1" 1 "registry/web@sha256:1111"

def secondBuild : Build := sampleBuild "web-2" 2 "registry/web@sha256:2222"

theorem rolloutStep_leadBy {ok : World → Prop} (e : Event) (hok : ok (w.event e))
    (hl : (w.event e).app.any fun app => !app.deleting && Leads (w.event e).builds app b)
    (hrn : (w.event e).app.any fun app =>
      (machine.simulate smoothPick (rollOut (takeOver app b) app.status) (w.event e)).isSome) :
    RolloutStep ok w ((w.event e).leadBy b) := by
  obtain ⟨result, hr⟩ := runs_reconcile_leadBy hl hrn
  exact ⟨e, result, hok, hr⟩

def firstRollout : World := ((World.ofApp sampleApp).event (.create firstBuild)).leadBy firstBuild

def secondRollout : World := (firstRollout.event (.create secondBuild)).leadBy secondBuild

def prunedFirst : World := (secondRollout.event (.delete "orkano-apps" "web-1")).leadBy secondBuild

/-- The second Build is rolled out and stays when the first is pruned. -/
theorem second_build_advances :
    Advances firstRollout prunedFirst ∧
      prunedFirst.deployment = some ("registry/web@sha256:2222", some secondBuild) := by
  have hfirst : RolloutStep OldestFirst (World.ofApp sampleApp) firstRollout :=
    rolloutStep_leadBy (.create firstBuild) (by decide +kernel) (by decide +kernel)
      (by decide +kernel)
  have hsecond : RolloutStep OldestFirst firstRollout secondRollout :=
    rolloutStep_leadBy (.create secondBuild) (by decide +kernel) (by decide +kernel)
      (by decide +kernel)
  have hpruned : RolloutStep OldestFirst secondRollout prunedFirst :=
    rolloutStep_leadBy (.delete "orkano-apps" "web-1") (by decide +kernel) (by decide +kernel)
      (by decide +kernel)
  have hto : Rollout OldestFirst firstRollout prunedFirst := .tail (.single hsecond) hpruned
  exact ⟨(rollout_advances (.single hfirst) hto).2, by decide +kernel⟩

def prunedSecond : World := (secondRollout.event (.delete "orkano-apps" "web-2")).leadBy firstBuild

/-- The App goes back to the older Build and its image. -/
theorem pruned_build_rolled_back :
    Rollout (fun _ => True) (World.ofApp sampleApp) secondRollout ∧
      Rollout (fun _ => True) secondRollout prunedSecond ∧
      secondRollout.app.map (fun app => (app.status.latestBuild, app.status.image)) =
        some ("web-2", "registry/web@sha256:2222") ∧
      prunedSecond.app.map (fun app => (app.status.latestBuild, app.status.image)) =
        some ("web-1", "registry/web@sha256:1111") ∧
      prunedSecond.deployment = some ("registry/web@sha256:1111", some firstBuild) ∧
      newerBuild secondBuild firstBuild = true := by
  have hfirst : RolloutStep (fun _ => True) (World.ofApp sampleApp) firstRollout :=
    rolloutStep_leadBy (.create firstBuild) trivial (by decide +kernel) (by decide +kernel)
  have hsecond : RolloutStep (fun _ => True) firstRollout secondRollout :=
    rolloutStep_leadBy (.create secondBuild) trivial (by decide +kernel) (by decide +kernel)
  have hpruned : RolloutStep (fun _ => True) secondRollout prunedSecond :=
    rolloutStep_leadBy (.delete "orkano-apps" "web-2") trivial (by decide +kernel)
      (by decide +kernel)
  exact ⟨.tail (.single hfirst) hsecond, .single hpruned, by decide +kernel, by decide +kernel,
    by decide +kernel, by decide +kernel⟩

end Sample

end Orkano.Operator.AppController
