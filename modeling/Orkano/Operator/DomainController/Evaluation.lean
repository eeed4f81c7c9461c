import Mathlib
import Orkano.Operator.DomainController.Controller

/-!
What one reconcile of a Domain does, with fresh reads and writes that succeed: its Ingress,
its condition and its App's URL become values that depend only on the live Domains.
-/
namespace Orkano.Operator.DomainController

open Interleave Program List

structure World where
  domains : List Domain
  ingresses : Key → Option Ingress
  apps : Key → Option AppView
  certificates : Key → Option (List CertificateCondition)

def World.domain (w : World) (key : Key) : Option Domain := w.domains.find? fun d => d.key = key

def World.store (w : World) (key : Key) (f : Domain → Domain) : World :=
  { w with domains := w.domains.map fun d => if d.key = key then f d else d }

def World.setIngress (w : World) (key : Key) (ing : Option Ingress) : World :=
  { w with ingresses := Function.update w.ingresses key ing }

def World.setApp (w : World) (app : Key) (view : Option AppView) : World :=
  { w with apps := Function.update w.apps app view }

/-- A Domain that is being deleted goes with its last finalizer. -/
def World.collect (w : World) (key : Key) : World :=
  { w with domains := w.domains.filter fun d => ¬ (d.key = key ∧ d.deleting ∧ d.finalizers = []) }

def World.storeFinalizers (w : World) (key : Key) (finalizers : List String) : World :=
  (w.store key fun d => { d with finalizers := finalizers }).collect key

def World.storeStatus (w : World) (key : Key) (status : DomainStatus) : World :=
  w.store key fun d => { d with status := status }

def answer : (c : Call) → World → c.Reply × World
  | .getDomain key, w => ((w.domain key).elim .missing .found, w)
  | .updateDomain d, w =>
    match w.domain d.key with
    | none => (.error ⟨"not found", false⟩, w)
    | some cur =>
      (.ok { cur with finalizers := d.finalizers }, w.storeFinalizers d.key d.finalizers)
  | .updateDomainStatus d, w => (none, w.storeStatus d.key d.status)
  | .listByHost host, w => (.ok (w.domains.filter fun d => d.host = host), w)
  | .listByApp app, w => (.ok (w.domains.filter fun d => d.appKey = app), w)
  | .getIngress key, w => ((w.ingresses key).elim .missing .found, w)
  | .createIngress key ing, w | .updateIngress key ing, w => (none, w.setIngress key (some ing))
  | .deleteIngress key, w => (none, w.setIngress key none)
  | .getCertificate key, w => ((w.certificates key).elim .missing (.found ∘ .ok), w)
  | .getApp key, w | .readApp key, w => ((w.apps key).elim .missing .found, w)
  | .updateAppStatus key view, w => (none, w.setApp key (some view))

/-- The Domains are reconciled one after the other, in the order of the schedule. -/
def run (clusterIssuer : String) (schedule : List Key) (w : World) : World :=
  schedule.foldl (fun w key => ((reconcile clusterIssuer key).eval answer w).2) w

section Order

variable {a b c r : Route} {routes : List Route}

def Route.rank (r : Route) : ℤ ×ₗ String ×ₗ String := toLex (r.createdAt, toLex (r.name, r.ns))

theorem olderDomain_iff : olderDomain a b ↔ a.rank < b.rank := by
  simp only [olderDomain, Route.rank, Prod.Lex.toLex_lt_toLex]
  split
  · rename_i ht
    simp only [decide_eq_true_iff, ht, false_and, or_false]
  rename_i ht
  rw [ne_eq, not_not] at ht
  split
  · rename_i hn
    simp only [decide_eq_true_iff, ht, lt_self_iff_false, hn, false_and, or_false, true_and,
      false_or]
  rename_i hn
  rw [ne_eq, not_not] at hn
  simp only [decide_eq_true_iff, ht, hn, lt_self_iff_false, true_and, false_or]

theorem oldest_eq_argmin (routes : List Route) : oldest routes = routes.argmin Route.rank := by
  have hs : (List.argAux fun a b => olderDomain a b = true) =
      List.argAux fun a b : Route => a.rank < b.rank := by
    funext o b
    cases o with
    | none => rfl
    | some a => simp only [List.argAux, olderDomain_iff]
  rw [oldest, hs, List.argmin]

theorem oldest_spec (h : oldest routes = some r) :
    r ∈ routes ∧ ∀ r' ∈ routes, olderDomain r' r = false := by
  rw [oldest_eq_argmin] at h
  refine ⟨argmin_mem h, ?_⟩
  intro r' hr'
  rw [← Bool.not_eq_true, olderDomain_iff]
  exact not_lt_of_mem_argmin hr' h

theorem oldest_none : oldest routes = none ↔ routes = [] := by
  rw [oldest_eq_argmin, argmin_eq_none]

def winner (routes : List Route) (host : String) : Option Route :=
  oldest (routes.filter fun r => r.host = host)

def Wins (routes : List Route) (r : Route) : Prop := (winner routes r.host).map (·.key) = some r.key

instance : Decidable (Wins routes r) :=
  inferInstanceAs (Decidable ((winner routes r.host).map (·.key) = some r.key))

/-- The App's live Domains that win their hosts. -/
def winning (routes : List Route) (app : Key) : List Route :=
  routes.filter fun r => r.appKey = app ∧ Wins routes r

def derivedURL (routes : List Route) (app : Key) (view : AppView) : String :=
  if view.workloadType ≠ .web then ""
  else (oldest (winning routes app)).elim "" fun r => "https://" ++ r.host

theorem liveRoutes_filter (domains : List Domain) (p : Route → Prop) [DecidablePred p] :
    liveRoutes (domains.filter fun d => p d.toRoute) =
      (liveRoutes domains).filter fun r => p r := by
  simp only [liveRoutes, filter_map, filter_filter, Function.comp_def, Bool.and_comm]

theorem liveRoutes_cons_dying {d : Domain} (h : d.deleting = true) (domains : List Domain) :
    liveRoutes (d :: domains) = liveRoutes domains := by
  simp [liveRoutes, h]

theorem liveRoutes_cons_live {d : Domain} (h : d.deleting = false) (domains : List Domain) :
    liveRoutes (d :: domains) = d.toRoute :: liveRoutes domains := by
  simp [liveRoutes, h]

end Order

section Evaluation

variable {w : World} {d : Domain} {app : Key}

abbrev World.routes (w : World) : List Route := liveRoutes w.domains

theorem eval_hostWinner (w : World) (host : String) :
    (hostWinner host).eval answer w = (.ok (winner w.routes host), w) := by
  simp only [hostWinner, call, perform_bind, eval_call, answer, pure_eq, eval_done]
  rw [liveRoutes_filter w.domains fun r => r.host = host, winner]

/-- The loop finds the oldest of the Domains that win their host. -/
theorem eval_oldestWinner (w : World) (domains : List Domain) (found : Option Route) :
    (oldestWinner domains found).eval answer w =
      (.ok (((liveRoutes domains).filter fun r => Wins w.routes r).foldl
        (List.argAux fun a b => olderDomain a b = true) found), w) := by
  induction domains generalizing found with
  | nil => rfl
  | cons d domains ih =>
    unfold oldestWinner
    cases hd : d.deleting with
    | true => rw [if_pos rfl, ih, liveRoutes_cons_dying hd]
    | false =>
      rw [if_neg Bool.false_ne_true, eval_bind, eval_hostWinner, liveRoutes_cons_live hd]
      dsimp only
      by_cases hw : Wins w.routes d.toRoute
      · have hk : (winner w.routes d.host).map (·.key) = some d.key := hw
        rw [if_neg (not_not.mpr hk), ih, filter_cons_of_pos (by simpa using hw),
          foldl_cons]
      · have hk : (winner w.routes d.host).map (·.key) ≠ some d.key := hw
        rw [if_pos hk, ih, filter_cons_of_neg (by simpa using hw)]

theorem eval_appURL (w : World) (app : Key) (view : AppView) :
    (appURL app view).eval answer w = (.ok (derivedURL w.routes app view), w) := by
  unfold appURL derivedURL
  split
  · rfl
  have hl : ((liveRoutes (w.domains.filter fun d => d.appKey = app)).filter
      fun r => Wins w.routes r) = winning w.routes app := by
    rw [liveRoutes_filter w.domains fun r => r.appKey = app, winning, filter_filter]
    simp only [Bool.decide_and, Bool.and_comm]
  simp only [call, perform_bind, eval_call, answer, eval_bind, eval_oldestWinner, hl]
  rw [← oldest]
  cases oldest (winning w.routes app) <;> rfl

def World.finalApp (w : World) (app : Key) : Option AppView :=
  (w.apps app).map fun view => { view with url := derivedURL w.routes app view }

theorem setApp_self {view : Option AppView} (h : w.apps app = view) : w.setApp app view = w := by
  subst h
  simp [World.setApp]

theorem eval_updateAppURL (w : World) (app : Key) :
    (updateAppURL app).eval answer w = (none, w.setApp app (w.finalApp app)) := by
  simp only [updateAppURL, call, perform_bind, eval_call, answer, World.finalApp]
  cases ha : w.apps app with
  | none => simp [setApp_self ha]
  | some view =>
    simp only [Option.elim_some, eval_bind, eval_appURL, Option.map_some]
    split
    · rename_i hs
      rw [← hs]
      simp [setApp_self ha]
    · rfl

/-- The Ingress of a Domain that has won its host. -/
def wanted (clusterIssuer : String) (r : Route) (current : Option Ingress) : Ingress :=
  routeIngress clusterIssuer r (current.getD newIngress)

def OwnIngress (w : World) (r : Route) : Prop :=
  ∀ ing ∈ w.ingresses r.key, ing.controller = some r.ownerRef

variable {key : Key}

theorem setIngress_self {ing : Option Ingress} (h : w.ingresses key = ing) :
    w.setIngress key ing = w := by
  subst h
  simp [World.setIngress]

theorem eval_deleteOwnIngress (h : OwnIngress w d.toRoute) :
    (deleteOwnIngress d).eval answer w = (none, w.setIngress d.key none) := by
  simp only [deleteOwnIngress, call, perform_bind, eval_call, answer]
  cases hi : w.ingresses d.key with
  | none => simp [setIngress_self hi]
  | some ing =>
    have hc : ing.controller = some d.ownerRef := h ing hi
    simp [hc, Route.ownerRef, perform, answer]

variable {clusterIssuer : String}

theorem eval_applyIngress (h : OwnIngress w d.toRoute) :
    (applyIngress clusterIssuer d).eval answer w =
      (none, w.setIngress d.key (some (wanted clusterIssuer d.toRoute (w.ingresses d.key)))) := by
  simp only [applyIngress, call, perform_bind, eval_call, answer]
  cases hi : w.ingresses d.key with
  | none => rfl
  | some ing =>
    have hc : ing.controller = some d.ownerRef := h ing hi
    simp only [Option.elim_some, hc, OwnerRef.sameObject, decide_true, Bool.and_self,
      Bool.not_true, Bool.false_eq_true, if_false]
    split
    · rename_i hs
      rw [wanted, Option.getD_some, hs, setIngress_self hi]
      rfl
    · rfl

def World.certificateState (w : World) (d : Domain) : ConditionStatus × Reason × String :=
  match w.certificates ⟨d.ns, tlsSecretName d.toRoute⟩ with
  | none => (.unknown, .certificatePending,
      "waiting for cert-manager to create Certificate " ++ tlsSecretName d.toRoute)
  | some conditions => DomainController.certificateState d.toRoute conditions

theorem eval_observeCertificate (w : World) (d : Domain) :
    (observeCertificate d).eval answer w = (.ok (w.certificateState d), w) := by
  simp only [observeCertificate, call, perform_bind, eval_call, answer, World.certificateState]
  cases w.certificates ⟨d.ns, tlsSecretName d.toRoute⟩ <;> rfl

def stamp (d : Domain) : DomainStatus := { d.status with observedGeneration := d.generation }

variable {f : Domain → Domain}

theorem store_self (h : ∀ d ∈ w.domains, d.key = key → f d = d) : w.store key f = w := by
  have hm : (w.domains.map fun d => if d.key = key then f d else d) = w.domains := by
    conv_rhs => rw [← map_id w.domains]
    apply map_congr_left
    intro d hd
    split
    · rename_i hk
      exact h d hd hk
    · rfl
  rw [World.store, hm]

variable {before : DomainStatus}

theorem eval_updateStatus (h : ∀ d' ∈ w.domains, d'.key = d.key → d'.status = before) :
    (updateStatus d before).eval answer w = (none, w.storeStatus d.key (stamp d)) := by
  unfold updateStatus stamp
  dsimp only
  split
  · rename_i hs
    rw [hs, World.storeStatus, store_self]
    · rfl
    · intro d' hd' hk
      rw [← h d' hd' hk]
  · rfl

def World.finalStatus (w : World) (d : Domain) : DomainStatus :=
  if Wins w.routes d.toRoute then
    let c := w.certificateState d
    stamp (routeReady (setCertificateReady d c.1 c.2.1 c.2.2) (w.apps d.appKey) c.1 c.2.2)
  else stamp (hostConflict d (winner w.routes d.host))

def World.finalIngress (w : World) (clusterIssuer : String) (r : Route) : Option Ingress :=
  if Wins w.routes r then some (wanted clusterIssuer r (w.ingresses r.key)) else none

/-- What the reconcile of a live Domain leads to, apart from its finalizer. -/
def World.settle (w : World) (clusterIssuer : String) (d : Domain) : World :=
  ((w.setIngress d.key (w.finalIngress clusterIssuer d.toRoute)).setApp d.appKey
    (w.finalApp d.appKey)).storeStatus d.key (w.finalStatus d)

theorem routeReady_key (app : Option AppView) (certReady : ConditionStatus) (certMessage : String) :
    (routeReady d app certReady certMessage).toRoute = d.toRoute := by
  unfold routeReady
  cases app with
  | none => rfl
  | some app =>
    dsimp only
    split
    · rfl
    · split <;> rfl

theorem eval_announce {certReady : ConditionStatus} {certMessage : String}
    (h : ∀ d' ∈ w.domains, d'.key = d.key → d'.status = before) :
    (announce d before certReady certMessage).eval answer w =
      (none, (w.setApp d.appKey (w.finalApp d.appKey)).storeStatus d.key
        (stamp (routeReady d (w.apps d.appKey) certReady certMessage))) := by
  have hf : ∀ app, (announce.finish before (routeReady d app certReady certMessage)).eval
      answer w = (none, (w.setApp d.appKey (w.finalApp d.appKey)).storeStatus d.key
        (stamp (routeReady d app certReady certMessage))) := by
    intro app
    have hr := routeReady_key (d := d) app certReady certMessage
    simp only [announce.finish, eval_bind, eval_updateAppURL, hr]
    rw [eval_updateStatus, hr]
    rw [hr]
    exact h
  simp only [announce, call, perform_bind, eval_call, answer]
  cases w.apps d.appKey with
  | none => exact hf none
  | some app => exact hf (some app)

theorem eval_elect (ho : OwnIngress w d.toRoute)
    (h : ∀ d' ∈ w.domains, d'.key = d.key → d'.status = d.status) :
    (elect clusterIssuer d).eval answer w = (none, w.settle clusterIssuer d) := by
  simp only [elect, eval_bind, eval_hostWinner, World.settle, World.finalIngress, World.finalStatus]
  by_cases hw : Wins w.routes d.toRoute
  · have hk : (winner w.routes d.host).map (·.key) = some d.key := hw
    rw [if_neg (not_not.mpr hk), if_pos hw, if_pos hw]
    simp only [routed, eval_bind, eval_applyIngress ho, eval_observeCertificate]
    exact eval_announce h
  have hk : (winner w.routes d.host).map (·.key) ≠ some d.key := hw
  rw [if_pos hk, if_neg hw, if_neg hw]
  simp only [conflicted, eval_bind, eval_deleteOwnIngress ho, eval_updateAppURL]
  exact eval_updateStatus h

/-- The finalizers of a live Domain after its reconcile. -/
def held (finalizers : List String) : List String :=
  if domainFinalizer ∈ finalizers then finalizers else finalizers ++ [domainFinalizer]

def World.reconciled (w : World) (clusterIssuer : String) (d : Domain) : World :=
  ((w.setIngress d.key (w.finalIngress clusterIssuer d.toRoute)).setApp d.appKey
    (w.finalApp d.appKey)).store d.key fun d' =>
      { d' with
        finalizers := held d.finalizers
        status := w.finalStatus { d with finalizers := held d.finalizers } }

/-- The reconcile of a Domain that is being deleted and carries the finalizer. -/
def World.finalized (w : World) (d : Domain) : World :=
  (w.setApp d.appKey (w.finalApp d.appKey)).storeFinalizers d.key
    (d.finalizers.filter (· ≠ domainFinalizer))

def World.Keyed (w : World) : Prop := (w.domains.map (·.key)).Nodup

theorem World.Keyed.eq_of_key (h : w.Keyed) {d' : Domain} (hd : d ∈ w.domains) (hd' : d' ∈ w.domains)
    (hk : d'.key = d.key) : d' = d := inj_on_of_nodup_map h hd' hd hk

theorem mem_of_domain (h : w.domain key = some d) : d ∈ w.domains ∧ d.key = key := by
  unfold World.domain at h
  exact ⟨mem_of_find?_eq_some h, by simpa using find?_some h⟩

theorem domain_of_mem (hk : w.Keyed) (hd : d ∈ w.domains) : w.domain d.key = some d := by
  cases hf : w.domain d.key with
  | none =>
    have hno := find?_eq_none.mp hf d hd
    simp at hno
  | some d' =>
    obtain ⟨hd', hky⟩ := mem_of_domain hf
    rw [hk.eq_of_key hd hd' hky]

theorem storeFinalizers_live (hky : w.Keyed) (hd : d ∈ w.domains) (hl : d.deleting = false)
    (finalizers : List String) :
    w.storeFinalizers d.key finalizers = w.store d.key fun d' => { d' with finalizers := finalizers } := by
  rw [World.storeFinalizers, World.collect, filter_eq_self.mpr]
  intro d' hd'
  obtain ⟨d0, hd0, rfl⟩ := mem_map.mp hd'
  split
  · rename_i hk
    rw [hky.eq_of_key hd hd0 hk]
    simp [hl]
  · rename_i hk
    simp [hk]

theorem liveRoutes_map (domains : List Domain) (hr : ∀ d, (f d).toRoute = d.toRoute)
    (hd : ∀ d, (f d).deleting = d.deleting) : liveRoutes (domains.map f) = liveRoutes domains := by
  simp only [liveRoutes, filter_map, Function.comp_def, hd, map_map, hr]

theorem routes_store (hr : ∀ d, (f d).toRoute = d.toRoute) (hd : ∀ d, (f d).deleting = d.deleting) :
    (w.store key f).routes = w.routes := by
  apply liveRoutes_map
  · intro d
    split
    · exact hr d
    · rfl
  intro d
  split
  · exact hd d
  · rfl

theorem store_store {g : Domain → Domain} (hf : ∀ d, (f d).key = d.key) :
    (w.store key f).store key g = w.store key (g ∘ f) := by
  simp only [World.store, map_map, Function.comp_def]
  congr 1
  apply map_congr_left
  intro d _
  by_cases hk : d.key = key
  · simp [hk, hf]
  · simp [hk]

theorem settle_store (clusterIssuer : String) (d : Domain) :
    (w.store d.key fun d' => { d' with finalizers := held d.finalizers }).settle clusterIssuer
      { d with finalizers := held d.finalizers } = w.reconciled clusterIssuer d := by
  have hr : (w.store d.key fun d' => { d' with finalizers := held d.finalizers }).routes =
      w.routes := routes_store (fun _ => rfl) fun _ => rfl
  simp only [World.settle, World.reconciled, World.finalIngress, World.finalApp, World.finalStatus,
    hr]
  exact store_store (w := (w.setIngress d.key _).setApp d.appKey _) fun _ => rfl

/-- What the reconcile of a live Domain comes to. -/
theorem eval_reconcile_live (hk : w.Keyed) (hd : d ∈ w.domains) (hl : d.deleting = false)
    (ho : OwnIngress w d.toRoute) :
    (reconcile clusterIssuer d.key).eval answer w = (none, w.reconciled clusterIssuer d) := by
  have he : (elect clusterIssuer { d with finalizers := held d.finalizers }).eval answer
      (w.store d.key fun d' => { d' with finalizers := held d.finalizers }) =
        (none, w.reconciled clusterIssuer d) := by
    rw [← settle_store]
    apply eval_elect
    · exact ho
    intro d' hd' hky
    obtain ⟨d0, hd0, rfl⟩ := mem_map.mp hd'
    split at hky
    · rename_i hk0
      rw [if_pos hk0, hk.eq_of_key hd hd0 hk0]
    · rename_i hk0
      exact absurd hky hk0
  simp only [reconcile, call, perform_bind, eval_call, answer, domain_of_mem hk hd,
    Option.elim_some, hl, Bool.false_eq_true, if_false]
  split
  · rename_i hf
    have hh : held d.finalizers = d.finalizers := if_pos hf
    have hs : (w.store d.key fun d' => { d' with finalizers := d.finalizers }) = w := by
      apply store_self
      intro d' hd' hky
      rw [hk.eq_of_key hd hd' hky]
    rw [hh, hs] at he
    exact he
  · rename_i hf
    have hh : held d.finalizers = d.finalizers ++ [domainFinalizer] := if_neg hf
    simp only [eval_call, answer, domain_of_mem hk hd, storeFinalizers_live hk hd hl]
    rw [hh] at he
    exact he

theorem eval_reconcile_dying (hk : w.Keyed) (hd : d ∈ w.domains)
    (hdl : d.deleting = true) :
    (reconcile clusterIssuer d.key).eval answer w =
      (none, if domainFinalizer ∈ d.finalizers then w.finalized d else w) := by
  simp only [reconcile, call, perform_bind, eval_call, answer, domain_of_mem hk hd,
    Option.elim_some, hdl, if_true, finalize]
  by_cases hf : domainFinalizer ∈ d.finalizers
  · rw [if_neg (not_not.mpr hf), if_pos hf]
    have hfn : (w.setApp d.appKey (w.finalApp d.appKey)).domain d.key = some d :=
      domain_of_mem hk hd
    simp only [eval_bind, eval_updateAppURL, eval_call, answer, hfn, pure_eq, eval_done]
    rfl
  · rw [if_pos hf, if_neg hf]
    rfl

theorem eval_reconcile_missing (h : w.domain key = none) :
    (reconcile clusterIssuer key).eval answer w = (none, w) := by
  simp [reconcile, call, answer, h]

theorem routes_reconciled : (w.reconciled clusterIssuer d).routes = w.routes := by
  rw [World.reconciled, routes_store]
  · rfl
  · exact fun _ => rfl
  · exact fun _ => rfl

theorem routes_collect : (w.collect key).routes = w.routes := by
  simp only [World.routes, World.collect, liveRoutes, filter_filter]
  congr 1
  apply filter_congr
  intro d _
  cases d.deleting <;> simp

theorem routes_finalized : (w.finalized d).routes = w.routes := by
  rw [World.finalized, World.storeFinalizers, routes_collect, routes_store]
  · rfl
  · exact fun _ => rfl
  · exact fun _ => rfl

end Evaluation

end Orkano.Operator.DomainController
