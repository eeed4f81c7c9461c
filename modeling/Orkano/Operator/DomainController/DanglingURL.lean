import Orkano.Interleave.RelyGuarantee
import Orkano.Operator.DomainController.Convergence

/-!
The URL of an App that has lost its Domains. The finalizer lets a Domain go only after the URL has
been derived without it; but a URL may also come from a Domain that does not carry it yet.
-/
namespace Orkano.Operator.DomainController

open Interleave Program List

def World.create (w : World) (d : Domain) : World := { w with domains := d :: w.domains }

/-- A Domain without finalizers goes at once, another one is marked. -/
def World.delete (w : World) (key : Key) : World :=
  (w.store key fun d => { d with deleting := true }).collect key

/-- Domains are created under free names and deleted where `ok` allows it. -/
inductive UserStep (ok : Domain → Prop) : World → World → Prop where
  | create {w : World} {d : Domain} : w.domain d.key = none → d.deleting = false →
      UserStep ok w (w.create d)
  | delete {w : World} {d : Domain} : d ∈ w.domains → ok d → UserStep ok w (w.delete d.key)

def exec (_ : Unit) (c : Call) (w : World) (x : c.Reply) (w' : World) : Prop := answer c w = (x, w')

def cluster (clusterIssuer : String) (ok : Domain → Prop) :
    System apiServer World Unit (Option Failure) where
  exec := exec
  env := UserStep ok
  restart w w' := w' = w
  starts _ p := ∃ key, p = reconcile clusterIssuer key

theorem steps_reconcile (clusterIssuer : String) (ok : Domain → Prop) (key : Key) (w : World) :
    (cluster clusterIssuer ok).Steps (Config.idle w)
      (Config.idle ((reconcile clusterIssuer key).eval answer w).2) := by
  have hr : Runs ((cluster clusterIssuer ok).exec ()) (reconcile clusterIssuer key) w _ _ :=
    runs_eval answer (fun _ _ => rfl) (reconcile clusterIssuer key) w
  exact System.steps_idle_of_runs ⟨key, rfl⟩ hr

section Invariant

variable {w w' w'' : World} {d : Domain} {key app : Key} {r : Route}

/-- An App with a URL has a Domain that cannot go without the URL being derived anew. -/
structure Attached (w : World) : Prop where
  keyed : w.Keyed
  url : ∀ app view, w.apps app = some view → view.url ≠ "" → Referenced w app

/-- Every Domain is there still, with its finalizers. -/
def Endures (w w' : World) : Prop :=
  ∀ d ∈ w.domains, ∃ d' ∈ w'.domains, d'.toRoute = d.toRoute ∧ d'.finalizers = d.finalizers ∧
    (d.deleting = true → d'.deleting = true) ∧ (Counts d → Counts d')

theorem Endures.refl (w : World) : Endures w w := fun d hd => ⟨d, hd, rfl, rfl, id, id⟩

theorem Endures.trans (h : Endures w w') (h' : Endures w' w'') : Endures w w'' := by
  intro d hd
  obtain ⟨d', hd', hr, hf, hdl, hc⟩ := h d hd
  obtain ⟨d'', hd'', hr', hf', hdl', hc'⟩ := h' d' hd'
  exact ⟨d'', hd'', hr'.trans hr, hf'.trans hf,
    fun h => hdl' (hdl h), fun h => hc' (hc h)⟩

theorem Referenced.endures (h : Referenced w app) (hw : Endures w w') : Referenced w' app := by
  obtain ⟨d, hd, ha, hc⟩ := h
  obtain ⟨d', hd', hr, -, -, hc'⟩ := hw d hd
  refine ⟨d', hd', ?_, hc' hc⟩
  rw [hr, ha]

/-- The Domain of that route carries the finalizer. -/
def Carries (r : Route) (w : World) : Prop :=
  ∃ d ∈ w.domains, d.toRoute = r ∧ domainFinalizer ∈ d.finalizers

theorem Carries.referenced (h : Carries r w) : Referenced w r.appKey := by
  obtain ⟨d, hd, rfl, hf⟩ := h
  exact ⟨d, hd, rfl, .inr hf⟩

theorem Carries.endures (h : Carries r w) (hw : Endures w w') : Carries r w' := by
  obtain ⟨d, hd, rfl, hfn⟩ := h
  obtain ⟨d', hd', hr, hf, -, -⟩ := hw d hd
  exact ⟨d', hd', hr, hf ▸ hfn⟩

def Dying (r : Route) (w : World) : Prop := ∃ d ∈ w.domains, d.toRoute = r ∧ d.deleting = true

theorem Dying.endures (h : Dying r w) (hw : Endures w w') : Dying r w' := by
  obtain ⟨d, hd, rfl, hdl⟩ := h
  obtain ⟨d', hd', hr, -, hdl', -⟩ := hw d hd
  exact ⟨d', hd', hr, hdl' hdl⟩

/-- The App of that route has another Domain that counts. -/
def Shared (r : Route) (w : World) : Prop :=
  ∃ d ∈ w.domains, d.key ≠ r.key ∧ d.appKey = r.appKey ∧ Counts d

theorem Shared.referenced (h : Shared r w) : Referenced w r.appKey := by
  obtain ⟨d, hd, -, ha, hc⟩ := h
  exact ⟨d, hd, ha, hc⟩

theorem Shared.endures (h : Shared r w) (hw : Endures w w') : Shared r w' := by
  obtain ⟨d, hd, hk, ha, hc⟩ := h
  obtain ⟨d', hd', hr, -, -, hc'⟩ := hw d hd
  refine ⟨d', hd', ?_, ?_, hc' hc⟩
  · rwa [hr]
  · rwa [hr]

theorem Dying.shared (h : Dying r w) (hk : w.Keyed) (hd : d ∈ w.domains)
    (ha : d.appKey = r.appKey) (hl : d.deleting = false) : Shared r w := by
  refine ⟨d, hd, ?_, ha, .inl hl⟩
  intro hky
  obtain ⟨d', hd', rfl, hdl⟩ := h
  rw [hk.eq_of_key hd' hd hky, hdl] at hl
  cases hl

end Invariant

section Changes

variable {w w' : World} {d : Domain} {key app : Key} {f : Domain → Domain}

theorem collect_eq_self (h : ∀ d ∈ w.domains, d.key = key → d.finalizers ≠ []) :
    w.collect key = w := by
  have hk : (w.domains.filter fun d => ¬ (d.key = key ∧ d.deleting ∧ d.finalizers = [])) =
      w.domains := by
    rw [filter_eq_self]
    intro d hd
    have hf := h d hd
    simp only [decide_eq_true_eq]
    rintro ⟨hky, -, hn⟩
    exact hf hky hn
  rw [World.collect, hk]

theorem keyed_collect (h : w.Keyed) : (w.collect key).Keyed :=
  h.sublist (filter_sublist.map _)

theorem endures_store (hr : ∀ d, (f d).toRoute = d.toRoute)
    (hf : ∀ d, (f d).finalizers = d.finalizers)
    (hdl : ∀ d, d.deleting = true → (f d).deleting = true)
    (hc : ∀ d ∈ w.domains, d.key = key → Counts d → Counts (f d)) : Endures w (w.store key f) := by
  intro d hd
  by_cases hk : d.key = key
  · subst hk
    exact ⟨f d, mem_store_self hd, hr d, hf d, hdl d, hc d hd rfl⟩
  · exact ⟨d, mem_store_of_ne hd hk, rfl, rfl, id, id⟩

theorem Attached.store (h : Attached w) (hr : ∀ d, (f d).toRoute = d.toRoute)
    (hc : ∀ d, Counts d → Counts (f d)) : Attached (w.store key f) where
  keyed := keyed_store h.keyed hr
  url app view happ hurl := by
    obtain ⟨d, hd, hda, hdc⟩ := h.url app view happ hurl
    by_cases hk : d.key = key
    · subst hk
      refine ⟨f d, mem_store_self hd, ?_, hc d hdc⟩
      rw [hr, hda]
    · exact ⟨d, mem_store_of_ne hd hk, hda, hdc⟩

theorem Attached.setApp (h : Attached w) (ha : Referenced w app) (view : AppView) :
    Attached (w.setApp app (some view)) where
  keyed := h.keyed
  url app' view' := by
    by_cases heq : app' = app
    · subst heq
      exact fun _ _ => ha
    · simp only [World.setApp, Function.update_of_ne heq]
      exact h.url app' view'

theorem Attached.clearApp (h : Attached w) {view : AppView} (hu : view.url = "") :
    Attached (w.setApp app (some view)) where
  keyed := h.keyed
  url app' view' := by
    by_cases heq : app' = app
    · subst heq
      simp only [World.setApp, Function.update_self, Option.some.injEq]
      rintro rfl hne
      exact absurd hu hne
    · simp only [World.setApp, Function.update_of_ne heq]
      exact h.url app' view'

structure Persist (w w' : World) : Prop where
  apps : w'.apps = w.apps
  domains : Endures w w'

def Held (d : Domain) : Prop := domainFinalizer ∈ d.finalizers

instance : DecidablePred Held := fun d =>
  inferInstanceAs (Decidable (domainFinalizer ∈ d.finalizers))

/-- What users do leaves URLs with a Domain to answer for them. -/
theorem UserStep.persist (h : UserStep Held w w') (hi : Attached w) :
    Attached w' ∧ Persist w w' := by
  cases h with
  | @create d hf _ =>
    have hdm : Endures w (w.create d) :=
      fun d' hd' => ⟨d', mem_cons_of_mem _ hd', rfl, rfl, id, id⟩
    have hnw : d.key ∉ w.domains.map (·.key) := by
      simpa [World.domain] using hf
    exact ⟨⟨nodup_cons.mpr ⟨hnw, hi.keyed⟩,
      fun app view ha hu => (hi.url app view ha hu).endures hdm⟩, rfl, hdm⟩
  | @delete d hd hh =>
    have hn : ∀ d' ∈ (w.store d.key fun d => { d with deleting := true }).domains,
        d'.key = d.key → d'.finalizers ≠ [] := by
      intro d' hd' hk
      obtain ⟨d0, hd0, ⟨hk0, rfl⟩ | ⟨hk0, rfl⟩⟩ := mem_store hd'
      · rw [hi.keyed.eq_of_key hd hd0 hk0]
        exact ne_nil_of_mem hh
      · exact absurd hk hk0
    rw [World.delete, collect_eq_self hn]
    have hdm : Endures w (w.store d.key fun d => { d with deleting := true }) := by
      refine endures_store (fun d' => ?_) (fun d' => ?_) (fun d' _ => ?_) fun d' hd' hk _ => ?_
      · rfl
      · rfl
      · rfl
      · rw [hi.keyed.eq_of_key hd hd' hk]
        exact .inr hh
    exact ⟨⟨keyed_store hi.keyed fun _ => rfl,
      fun app view ha hu => (hi.url app view ha hu).endures hdm⟩, rfl, hdm⟩

end Changes

section Calls

variable {clusterIssuer : String} {w w' : World} {d : Domain} {app : Key}

/-- The calls that leave finalizers alone and write no other App. -/
def Confined (app : Key) : Call → Prop
  | .updateDomain _ => False
  | .updateAppStatus key _ => key = app
  | _ => True

/-- Calls for one App leave the others attached. -/
theorem confined_step {c : Call} {x : c.Reply} (hc : Confined app c) (hi : Attached w)
    (ha : Referenced w app) (hx : answer c w = (x, w')) : Attached w' ∧ Endures w w' := by
  obtain rfl : (answer c w).2 = w' := congrArg Prod.snd hx
  cases c with
  | updateDomain d => exact hc.elim
  | updateDomainStatus d =>
    exact ⟨hi.store (fun _ => rfl) fun _ => id,
      endures_store (fun _ => rfl) (fun _ => rfl) (fun _ => id) fun _ _ _ => id⟩
  | updateAppStatus key view =>
    obtain rfl : key = app := hc
    exact ⟨hi.setApp ha view, Endures.refl w⟩
  | createIngress key ing | updateIngress key ing | deleteIngress key =>
    exact ⟨⟨hi.keyed, hi.url⟩, Endures.refl w⟩
  | getDomain _ | listByHost _ | listByApp _ | getIngress _ | getCertificate _ | getApp _
  | readApp _ => exact ⟨hi, Endures.refl w⟩

theorem only_updateStatus (d : Domain) (before : DomainStatus) :
    (updateStatus d before).Only (Confined app) := by
  unfold updateStatus
  dsimp only
  split
  · trivial
  · exact ⟨trivial, fun x => by cases x <;> trivial⟩

theorem only_failReady (d : Domain) (before : DomainStatus) (f : Failure) :
    (failReady d before f).Only (Confined app) := by
  unfold failReady
  split
  · trivial
  · exact only_bind (only_updateStatus _ _) fun _ => trivial

theorem only_hostWinner (host : String) : (hostWinner host).Only (Confined app) :=
  ⟨trivial, fun x => by cases x <;> trivial⟩

theorem only_oldestWinner (domains : List Domain) (found : Option Route) :
    (oldestWinner domains found).Only (Confined app) := by
  induction domains generalizing found with
  | nil => trivial
  | cons d domains ih =>
    unfold oldestWinner
    split
    · exact ih found
    refine only_bind (only_hostWinner d.host) fun x => ?_
    cases x with
    | error f => trivial
    | ok winner =>
      dsimp only
      split
      · exact ih _
      · exact ih _

theorem only_appURL (app : Key) (view : AppView) : (appURL app view).Only (Confined app) := by
  unfold appURL
  simp only [call, perform_bind]
  split
  · trivial
  refine ⟨trivial, fun x => ?_⟩
  cases x with
  | error f => trivial
  | ok domains =>
    refine only_bind (only_oldestWinner domains none) fun y => ?_
    rcases y with f | _ | r <;> trivial

/-- The end of `updateAppURL`. -/
def storeURL (app : Key) (view : AppView) : Except Failure String → Prog (Option Failure)
  | .error f => return some f
  | .ok url =>
    if view.url = url then return none
    else do
      match ← call (.updateAppStatus app { view with url := url }) with
      | none => return none
      | some f => return some (f.wrap ("updating App " ++ app.name ++ " status.url"))

theorem updateAppURL_eq (app : Key) : updateAppURL app = .call (.readApp app) fun x =>
    match x with
    | .missing => return none
    | .failed message => return some ⟨message, false⟩
    | .found view => appURL app view >>= storeURL app view := by
  rfl

theorem only_storeURL (view : AppView) (x : Except Failure String) :
    (storeURL app view x).Only (Confined app) := by
  unfold storeURL
  cases x with
  | error f => trivial
  | ok url =>
    dsimp only
    split
    · trivial
    · exact ⟨rfl, fun y => by cases y <;> trivial⟩

theorem only_updateAppURL (app : Key) : (updateAppURL app).Only (Confined app) := by
  rw [updateAppURL_eq]
  refine ⟨trivial, fun x => ?_⟩
  cases x with
  | missing | failed => trivial
  | found view => exact only_bind (only_appURL app view) (only_storeURL view)

theorem only_deleteOwnIngress (d : Domain) : (deleteOwnIngress d).Only (Confined app) := by
  refine ⟨trivial, fun x => ?_⟩
  cases x with
  | missing | failed => trivial
  | found ing =>
    change Program.Only _ (if _ then _ else _)
    split
    · trivial
    · exact ⟨trivial, fun _ => trivial⟩

theorem only_applyIngress (d : Domain) : (applyIngress clusterIssuer d).Only (Confined app) := by
  refine ⟨trivial, fun x => ?_⟩
  cases x with
  | failed message => trivial
  | missing => exact ⟨trivial, fun _ => trivial⟩
  | found ing =>
    obtain ⟨_ | owner, _⟩ := ing
    · trivial
    change Program.Only _ (if _ then _ else _)
    split
    · trivial
    split
    · trivial
    · exact ⟨trivial, fun _ => trivial⟩

theorem only_observeCertificate (d : Domain) : (observeCertificate d).Only (Confined app) := by
  refine ⟨trivial, fun x => ?_⟩
  rcases x with _ | _ | _ | _ <;> trivial

variable {before : DomainStatus}

theorem only_finish (ha : d.appKey = app) : (announce.finish before d).Only (Confined app) := by
  subst ha
  refine only_bind (only_updateAppURL d.appKey) fun x => ?_
  cases x with
  | none => exact only_updateStatus _ _
  | some f => trivial

theorem only_announce {certReady : ConditionStatus} {certMessage : String} :
    (announce d before certReady certMessage).Only (Confined d.appKey) := by
  have hf : ∀ o, (announce.finish before (routeReady d o certReady certMessage)).Only
      (Confined d.appKey) := fun o => only_finish (by rw [routeReady_key])
  refine ⟨trivial, fun x => ?_⟩
  cases x with
  | failed message => exact only_failReady _ _ _
  | missing => exact hf none
  | found view => exact hf (some view)

theorem only_conflicted (winner : Option Route) :
    (conflicted d winner).Only (Confined d.appKey) := by
  refine only_bind (only_deleteOwnIngress d) fun x => ?_
  cases x with
  | some f => exact only_failReady _ _ _
  | none =>
    refine only_bind (only_updateAppURL d.appKey) fun y => ?_
    cases y with
    | some f => trivial
    | none => exact only_updateStatus _ _

theorem only_routed : (routed clusterIssuer d).Only (Confined d.appKey) := by
  refine only_bind (only_applyIngress d) fun x => ?_
  cases x with
  | some f => exact only_failReady _ _ _
  | none =>
    refine only_bind (only_observeCertificate d) fun y => ?_
    cases y with
    | error f => exact only_failReady _ _ _
    | ok cert => exact only_announce (d := setCertificateReady d cert.1 cert.2.1 cert.2.2)

theorem only_elect : (elect clusterIssuer d).Only (Confined d.appKey) := by
  refine only_bind (only_hostWinner d.host) fun x => ?_
  cases x with
  | error f => trivial
  | ok winner =>
    dsimp only
    split
    · exact only_conflicted winner
    · exact only_routed

end Calls

section Reconcile

variable {clusterIssuer : String} {ok : Domain → Prop} {w : World} {d : Domain} {app : Key}
  {r : Route}

def attachment : Discipline World Unit where
  inv := Attached
  evolves _ _ := True
  rely _ := Persist
  evolves_refl _ := trivial
  evolves_trans := fun _ _ => trivial
  rely_refl _ w := ⟨rfl, Endures.refl w⟩
  rely_trans := fun _ _ _ _ h h' => ⟨h'.apps.trans h.apps, h.domains.trans h'.domains⟩

theorem allowed_of_attached {w' : World} (h : Attached w') : Allowed attachment () w w' :=
  ⟨h, trivial, fun t ht => absurd (Subsingleton.elim t ()) ht⟩

abbrev Keeps {α : Type} (post : α → World → Prop) : Prog α → World → Prop :=
  Safe exec attachment () post

variable {α : Type}

theorem keeps_call {post : α → World → Prop} {c : Call} {next : c.Reply → Prog α}
    (h : ∀ w1, Persist w w1 → Attached w1 → Attached (answer c w1).2 ∧
      Keeps post (next (answer c w1).1) (answer c w1).2) :
    Keeps post (.call c next) w := by
  intro w1 hp hi x w2 hx
  obtain ⟨ha, hn⟩ := h w1 hp hi
  rw [show answer c w1 = (x, w2) from hx] at ha hn
  exact ⟨allowed_of_attached ha, hn⟩

theorem keeps_confined {R : World → Prop} (he : ∀ {w w'}, R w → Endures w w' → R w')
    (hap : ∀ {w}, R w → Referenced w app) {p : Prog α} (hp : p.Only (Confined app)) (hw : R w) :
    Keeps (fun _ => R) p w := by
  refine safe_of_only_keeping (fun c w1 x w2 hc hi hR hx => ?_)
    (fun w1 w2 hR hpr => he hR (Persist.domains hpr)) hp hw
  obtain ⟨ha, hd⟩ := confined_step hc hi (hap hR) hx
  exact ⟨allowed_of_attached ha, he hR hd⟩

/-- Nothing is left that the URL could be derived from, or another Domain stands for it. -/
def Released (r : Route) (w : World) : Prop :=
  (∀ view, w.apps r.appKey = some view → view.url = "") ∨ Shared r w

theorem Released.persist {w' : World} (h : Released r w) (hw : Persist w w') : Released r w' := by
  rcases h with h | h
  · exact .inl (hw.apps ▸ h)
  · exact .inr (h.endures hw.domains)

theorem oldestWinner_of_dying {domains : List Domain} (h : ∀ d ∈ domains, d.deleting = true) :
    oldestWinner domains none = .done (.ok none) := by
  induction domains with
  | nil => rfl
  | cons d domains ih =>
    rw [oldestWinner, if_pos (h d mem_cons_self)]
    exact ih fun d' hd' => h d' (mem_cons_of_mem _ hd')

theorem keeps_shared {p : Prog α} (hp : p.Only (Confined r.appKey)) (hd : Dying r w)
    (hs : Shared r w) : Keeps (fun _ w => Dying r w ∧ Shared r w) p w :=
  keeps_confined (fun h hw => ⟨h.1.endures hw, h.2.endures hw⟩) (fun h => h.2.referenced) hp
    ⟨hd, hs⟩

variable {view : AppView}

/-- While one of its Domains is dying, the URL of an App is derived from the others. -/
theorem keeps_appURL (hdy : Dying r w) (hv : w.apps r.appKey = some view) :
    Keeps
      (fun x w => Dying r w ∧ (Shared r w ∨ x = .ok "" ∧ w.apps r.appKey = some view))
      (appURL r.appKey view) w := by
  have ho := only_appURL r.appKey view
  unfold appURL at ho ⊢
  simp only [call, perform_bind] at ho ⊢
  split at ho
  · rename_i ht
    rw [if_pos ht]
    exact ⟨hdy, .inr ⟨rfl, hv⟩⟩
  rename_i ht
  rw [if_neg ht]
  refine keeps_call fun w1 hp hi => ⟨hi, ?_⟩
  have hd1 : Dying r w1 := hdy.endures hp.domains
  have hv1 : w1.apps r.appKey = some view := by rw [hp.apps, hv]
  by_cases ha : ∀ d ∈ w1.domains.filter (fun d => d.appKey = r.appKey), d.deleting = true
  · simp only [answer, oldestWinner_of_dying ha]
    exact ⟨hd1, .inr ⟨rfl, hv1⟩⟩
  -- the listing has a live Domain, which is another one and stays
  push Not at ha
  obtain ⟨d, hd, hl⟩ := ha
  obtain ⟨hm, hap⟩ := mem_filter.mp hd
  have hs : Shared r w1 := hd1.shared hi.keyed hm (of_decide_eq_true hap)
    (Bool.eq_false_iff.mpr hl)
  have hr := ho.2 (.ok (w1.domains.filter fun d => d.appKey = r.appKey))
  exact (keeps_shared hr hd1 hs).mono fun _ _ h => ⟨h.1, .inl h.2⟩

theorem keeps_storeURL (hd : Dying r w) (hv : w.apps r.appKey = some view) :
    Keeps (fun _ w => Dying r w ∧ Released r w) (storeURL r.appKey view (.ok "")) w := by
  unfold storeURL
  dsimp only
  split
  · rename_i hu
    refine ⟨hd, .inl fun view' hv' => ?_⟩
    rw [hv] at hv'
    cases hv'
    exact hu
  refine keeps_call fun w1 hp hi => ⟨hi.clearApp rfl, ?_⟩
  refine ⟨hd.endures hp.domains, .inl fun view' hv' => ?_⟩
  simp only [answer, World.setApp, Function.update_self, Option.some.injEq] at hv'
  subst hv'
  rfl

/-- A URL that is derived anew no longer needs the dying Domain. -/
theorem keeps_updateAppURL (hd : Dying r w) :
    Keeps (fun x w => Dying r w ∧ (x = none → Released r w)) (updateAppURL r.appKey) w := by
  rw [updateAppURL_eq]
  refine keeps_call fun w1 hp hi => ⟨hi, ?_⟩
  have hd1 : Dying r w1 := hd.endures hp.domains
  simp only [answer]
  cases hv : w1.apps r.appKey with
  | none =>
    refine ⟨hd1, fun _ => .inl ?_⟩
    simp [hv]
  | some view =>
    refine Safe.bind ((keeps_appURL hd1 hv).mono fun x w2 h => ?_)
    obtain ⟨hd2, hs | ⟨rfl, hv2⟩⟩ := h
    · exact (keeps_shared (only_storeURL view x) hd2 hs).mono
        fun _ _ h => ⟨h.1, fun _ => .inr h.2⟩
    · exact (keeps_storeURL hd2 hv2).mono fun _ _ h => ⟨h.1, fun _ => h.2⟩

/-- The finalizer may go once the URL is released. -/
theorem Attached.release (h : Attached w) (hdy : Dying r w) (hr : Released r w)
    (finalizers : List String) : Attached (w.storeFinalizers r.key finalizers) where
  keyed := keyed_collect (keyed_store h.keyed fun _ => rfl)
  url app view happ hurl := by
    have hkp : ∀ d ∈ w.domains, d.key ≠ r.key →
        d ∈ (w.storeFinalizers r.key finalizers).domains :=
      fun d hd hk => mem_collect_of_ne (mem_store_of_ne hd hk) hk
    obtain ⟨d, hd, hda, hc⟩ := h.url app view happ hurl
    by_cases hk : d.key = r.key
    · -- the Domain itself: its App has another one, or no URL
      obtain ⟨d', hd', hrt, -⟩ := hdy
      have hs : d.toRoute = r := by
        rw [← hrt, h.keyed.eq_of_key hd' hd (by rw [hk, hrt])]
      have ha' : r.appKey = app := by rw [← hs, hda]
      subst ha'
      rcases hr with hn | ⟨d2, hd2, hk2, ha2, hc2⟩
      · exact absurd (hn view happ) hurl
      · exact ⟨d2, hkp d2 hd2 hk2, ha2, hc2⟩
    · exact ⟨d, hkp d hd hk, hda, hc⟩

theorem Attached.hold (h : Attached w) {finalizers : List String}
    (hf : domainFinalizer ∈ finalizers) (hd : d ∈ w.domains) :
    Attached (w.storeFinalizers d.key finalizers) ∧
      Carries d.toRoute (w.storeFinalizers d.key finalizers) := by
  have hc : w.storeFinalizers d.key finalizers =
      w.store d.key fun d => { d with finalizers := finalizers } := by
    apply collect_eq_self
    intro d' hd' hk
    obtain ⟨d0, -, ⟨-, rfl⟩ | ⟨hk0, rfl⟩⟩ := mem_store hd'
    · exact ne_nil_of_mem hf
    · exact absurd hk hk0
  rw [hc]
  have ha : Attached (w.store d.key fun d => { d with finalizers := finalizers }) := by
    refine h.store (fun d => ?_) fun d _ => ?_
    · rfl
    · exact .inr hf
  exact ⟨ha, _, mem_store_self hd, rfl, hf⟩

/-- A Domain goes only after the URL of its App. -/
theorem keeps_finalize (hd : d ∈ w.domains) (hdl : d.deleting = true) :
    Keeps (fun _ _ => True) (finalize d) w := by
  unfold finalize
  split
  · trivial
  refine Safe.bind ((keeps_updateAppURL ⟨d, hd, rfl, hdl⟩).mono fun x w1 h => ?_)
  obtain ⟨hdy, hr⟩ := h
  cases x with
  | some f => trivial
  | none =>
    refine keeps_call fun w2 hp hi => ?_
    simp only [answer]
    split
    · exact ⟨hi, trivial⟩
    · have hd2 := hdy.endures hp.domains
      exact ⟨hi.release hd2 ((hr rfl).persist hp) _, trivial⟩

theorem keeps_elect (h : Carries d.toRoute w) : Keeps (fun _ _ => True) (elect clusterIssuer d) w :=
  (keeps_confined Carries.endures Carries.referenced only_elect h).mono fun _ _ _ => trivial

/-- No reconcile leaves a URL without a Domain, at any of its calls. -/
theorem keeps_reconcile (key : Key) : Keeps (fun _ _ => True) (reconcile clusterIssuer key) w := by
  refine keeps_call fun w1 hp hi => ⟨hi, ?_⟩
  simp only [answer]
  cases hfn : w1.domain key with
  | none => trivial
  | some d =>
    obtain ⟨hd, rfl⟩ := mem_of_domain hfn
    change Keeps _ (if _ then _ else if _ then _ else _) _
    split
    · rename_i hdl
      exact keeps_finalize hd hdl
    split
    · rename_i hf
      exact keeps_elect ⟨d, hd, rfl, hf⟩
    refine keeps_call fun w2 hp2 hi2 => ?_
    obtain ⟨d', hd', hr, -⟩ := hp2.domains d hd
    have hf2 : w2.domain d.key = some d' := by
      rw [← domain_of_mem hi2.keyed hd', hr]
    have hf : domainFinalizer ∈ d.finalizers ++ [domainFinalizer] := by simp
    obtain ⟨ha, hc⟩ := hi2.hold hf hd'
    rw [hr] at ha hc
    simp only [answer, hf2]
    refine ⟨ha, keeps_elect ?_⟩
    rwa [hr]

/-- Any interleaving of users and reconciles leaves no URL without a Domain. -/
theorem cluster_respects (clusterIssuer : String) :
    (cluster clusterIssuer Held).Respects attachment fun _ _ _ => True where
  starts := by
    rintro ⟨⟩ _ w ⟨key, rfl⟩ -
    exact keeps_reconcile key
  lasts := fun _ _ _ _ _ _ => trivial
  env := by
    intro w w' hi hs
    obtain ⟨ha, hp⟩ := hs.persist hi
    exact ⟨ha, trivial, fun _ => hp⟩
  restart := by
    rintro w _ hi rfl
    exact ⟨hi, trivial⟩

end Reconcile

/-- Where no Domain is deleted before it carries the finalizer, an App without Domains shows
no URL. -/
theorem no_dangling_url {clusterIssuer : String} {w : World}
    {c : Config apiServer World Unit (Option Failure)} (hdomains : w.domains = [])
    (hurls : ∀ app view, w.apps app = some view → view.url = "")
    (hsteps : (cluster clusterIssuer Held).Steps (Config.idle w) c) (app : Key) (view : AppView)
    (happ : c.shared.apps app = some view) (hnone : ∀ d ∈ c.shared.domains, d.appKey ≠ app) :
    view.url = "" := by
  have hstart : Attached w := by
    refine ⟨?_, fun app view happ hurl => absurd (hurls app view happ) hurl⟩
    simp [World.Keyed, hdomains]
  obtain ⟨hgood, -⟩ :=
    System.reachable_good (cluster_respects clusterIssuer) (System.good_idle hstart) hsteps
  by_contra hurl
  obtain ⟨d, hd, hd_app, -⟩ := hgood.inv.url app view happ hurl
  exact hnone d hd hd_app

section Sample

def webApp : Key := ⟨"orkano-apps", "web"⟩

def hostDomain (name : String) (uid : ℕ) (host : String) : Domain :=
  ⟨⟨"orkano-apps", name, uid, uid, host, "web"⟩, 1, false, [], ⟨0, none, none⟩⟩

def firstDomain : Domain := hostDomain "first" 1 "one.example.com"

def secondDomain : Domain := hostDomain "second" 2 "two.example.com"

def emptyCluster : World where
  domains := []
  ingresses _ := none
  apps key := if key = webApp then some ⟨none, ""⟩ else none
  certificates _ := none

def afterReconcile (key : Key) (w : World) : World :=
  ((reconcile "letsencrypt" key).eval answer w).2

variable {ok : Domain → Prop} {w : World} {d : Domain} {key : Key}

theorem steps_create (hf : w.domain d.key = none) (hl : d.deleting = false) :
    (cluster "letsencrypt" ok).Steps (Config.idle w) (Config.idle (w.create d)) :=
  .single (.env (.create hf hl))

theorem steps_delete (h : ∃ d ∈ w.domains, d.key = key ∧ ok d) :
    (cluster "letsencrypt" ok).Steps (Config.idle w) (Config.idle (w.delete key)) := by
  obtain ⟨d, hd, rfl, hok⟩ := h
  exact .single (.env (.delete hd hok))

theorem steps_afterReconcile (key : Key) (w : World) :
    (cluster "letsencrypt" ok).Steps (Config.idle w) (Config.idle (afterReconcile key w)) :=
  steps_reconcile "letsencrypt" ok key w

/-- The second Domain lends its host to the URL when the first one goes, and goes itself
before it was ever reconciled. -/
theorem url_of_vanished_domain :
    ∃ w, (cluster "letsencrypt" fun _ => True).Steps (Config.idle emptyCluster) (Config.idle w) ∧
      w.domains = [] ∧ w.apps webApp = some ⟨none, "https://two.example.com"⟩ := by
  let w₁ := afterReconcile firstDomain.key (emptyCluster.create firstDomain)
  let w₂ := (w₁.create secondDomain).delete firstDomain.key
  let w₃ := afterReconcile firstDomain.key w₂
  refine ⟨w₃.delete secondDomain.key, ?_, by decide +kernel, by decide +kernel⟩
  have h₁ : (cluster "letsencrypt" fun _ => True).Steps (Config.idle emptyCluster)
      (Config.idle w₁) :=
    (steps_create (by decide +kernel) rfl).trans (steps_afterReconcile _ _)
  have h₂ : (cluster "letsencrypt" fun _ => True).Steps (Config.idle w₁) (Config.idle w₂) :=
    (steps_create (by decide +kernel) rfl).trans (steps_delete (by decide +kernel))
  have h₃ : (cluster "letsencrypt" fun _ => True).Steps (Config.idle w₂)
      (Config.idle (w₃.delete secondDomain.key)) :=
    (steps_afterReconcile _ _).trans (steps_delete (by decide +kernel))
  exact (h₁.trans h₂).trans h₃

/-- A Domain that is deleted after its first reconcile takes the URL along. -/
theorem url_of_finalized_domain :
    let w₁ := afterReconcile firstDomain.key (emptyCluster.create firstDomain)
    let w₂ := afterReconcile firstDomain.key (w₁.delete firstDomain.key)
    w₁.apps webApp = some ⟨none, "https://one.example.com"⟩ ∧ w₂.domains = [] ∧
      (w₂.apps webApp).isSome ∧ ∀ view, w₂.apps webApp = some view → view.url = "" := by
  intro w₁ w₂
  have h₁ : (cluster "letsencrypt" Held).Steps (Config.idle emptyCluster) (Config.idle w₁) :=
    (steps_create (by decide +kernel) rfl).trans (steps_afterReconcile _ _)
  have h₂ : (cluster "letsencrypt" Held).Steps (Config.idle w₁) (Config.idle w₂) :=
    (steps_delete (by decide +kernel)).trans (steps_afterReconcile _ _)
  have hurls : ∀ app view, emptyCluster.apps app = some view → view.url = "" := by
    intro app view happ
    simp only [emptyCluster] at happ
    split at happ
    · cases happ
      rfl
    · cases happ
  have hnone : w₂.domains = [] := by decide +kernel
  refine ⟨by decide +kernel, hnone, by decide +kernel, fun view happ => ?_⟩
  refine no_dangling_url rfl hurls (h₁.trans h₂) webApp view happ ?_
  simp [Config.idle, hnone]

end Sample

end Orkano.Operator.DomainController
