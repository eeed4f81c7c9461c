import Orkano.Operator.DomainController.Evaluation

/-!
Where the Domains of a cluster settle. What a reconcile makes of an Ingress or a URL depends only
on the live Domains: so any order in which every Domain comes up leads to one state.
-/
namespace Orkano.Operator.DomainController

open Interleave Program List

variable {clusterIssuer : String} {w₀ w : World} {d : Domain} {app : Key} {r : Route}

theorem wanted_wanted (o : Option Ingress) :
    wanted clusterIssuer r (some (wanted clusterIssuer r o)) = wanted clusterIssuer r o := by
  have hl : ∀ l : Finmap fun _ : String => String,
      ((((l.insert "app.orkano.io/app" r.appName).insert "app.kubernetes.io/managed-by" "orkano").insert
        "app.orkano.io/app" r.appName).insert "app.kubernetes.io/managed-by" "orkano") =
      (l.insert "app.orkano.io/app" r.appName).insert "app.kubernetes.io/managed-by" "orkano" := by
    intro l
    rw [Finmap.insert_insert_of_ne _ (by decide), Finmap.insert_insert,
      Finmap.insert_insert_of_ne _ (by decide), Finmap.insert_insert]
  simp only [wanted, routeIngress, mutateIngress, Option.getD_some, hl, Finmap.insert_insert]

theorem finalApp_eq (hr : w.routes = w₀.routes)
    (h : w.apps app = w₀.apps app ∨ w.apps app = w₀.finalApp app) :
    w.finalApp app = w₀.finalApp app := by
  rw [World.finalApp, World.finalApp, hr]
  rcases h with h | h
  · rw [h]
  · rw [h, World.finalApp, Option.map_map]
    rfl

theorem finalIngress_eq (hr : w.routes = w₀.routes)
    (h : w.ingresses r.key = w₀.ingresses r.key ∨
      w.ingresses r.key = w₀.finalIngress clusterIssuer r) :
    w.finalIngress clusterIssuer r = w₀.finalIngress clusterIssuer r := by
  rw [World.finalIngress, World.finalIngress, hr]
  by_cases hw : Wins w₀.routes r
  · rw [if_pos hw, if_pos hw]
    rcases h with h | h
    · rw [h]
    · rw [h, World.finalIngress, if_pos hw, wanted_wanted]
  · rw [if_neg hw, if_neg hw]

section Progress

/-- The Domains whose reconcile derives the URL of their App. -/
def Counts (d : Domain) : Prop := d.deleting = false ∨ domainFinalizer ∈ d.finalizers

def Referenced (w : World) (app : Key) : Prop := ∃ d ∈ w.domains, d.appKey = app ∧ Counts d

/-- The condition of a Domain whose host belongs to another. -/
def Conflicted (s : DomainStatus) : Prop :=
  s.ready.map (fun c => (c.status, c.reason)) = some (.false, .hostConflict)

/-- How far a run has come that has reconciled the Domains in `done`: these are where they
belong, and everything else is there or as it was. -/
structure Progress (clusterIssuer : String) (w₀ : World) (done : List Key) (w : World) : Prop where
  keyed : w.Keyed
  routes : w.routes = w₀.routes
  pending : ∀ d ∈ w₀.domains, d.key ∉ done → d ∈ w.domains
  source : ∀ d ∈ w.domains, ∃ d₀ ∈ w₀.domains, d₀.toRoute = d.toRoute ∧
    d₀.deleting = d.deleting ∧
    (d.deleting = true → domainFinalizer ∈ d.finalizers → domainFinalizer ∈ d₀.finalizers)
  apps : ∀ app, w.apps app = w₀.apps app ∨ Referenced w₀ app ∧ w.apps app = w₀.finalApp app
  appsDone : ∀ d ∈ w₀.domains, d.key ∈ done → Counts d → w.apps d.appKey = w₀.finalApp d.appKey
  ingresses : ∀ key, w.ingresses key = w₀.ingresses key ∨
    ∃ r ∈ w₀.routes, r.key = key ∧ w.ingresses key = w₀.finalIngress clusterIssuer r
  ingressesDone : ∀ r ∈ w₀.routes, r.key ∈ done →
    w.ingresses r.key = w₀.finalIngress clusterIssuer r
  conflicts : ∀ r ∈ w₀.routes, r.key ∈ done → ¬ Wins w₀.routes r →
    ∃ d ∈ w.domains, d.toRoute = r ∧ Conflicted d.status

variable {done : List Key} {key : Key}

theorem mem_routes : r ∈ w.routes ↔ ∃ d ∈ w.domains, d.deleting = false ∧ d.toRoute = r := by
  simp [World.routes, liveRoutes, and_assoc]

theorem route_mem (hd : d ∈ w.domains) (hl : d.deleting = false) : d.toRoute ∈ w.routes :=
  mem_routes.mpr ⟨d, hd, hl, rfl⟩

theorem World.Keyed.route_eq (h : w.Keyed) {r' : Route} (hr : r ∈ w.routes) (hr' : r' ∈ w.routes)
    (hk : r'.key = r.key) : r' = r := by
  obtain ⟨d, hd, _, rfl⟩ := mem_routes.mp hr
  obtain ⟨d', hd', _, rfl⟩ := mem_routes.mp hr'
  rw [h.eq_of_key hd hd' hk]

theorem Progress.refl (hk : w₀.Keyed) : Progress clusterIssuer w₀ [] w₀ where
  keyed := hk
  routes := rfl
  pending _ hd _ := hd
  source d hd := ⟨d, hd, rfl, rfl, fun _ h => h⟩
  apps _ := .inl rfl
  appsDone _ _ h := (not_mem_nil h).elim
  ingresses _ := .inl rfl
  ingressesDone _ _ h := (not_mem_nil h).elim
  conflicts _ _ h := (not_mem_nil h).elim

theorem Progress.finalApp_eq (h : Progress clusterIssuer w₀ done w) (app : Key) :
    w.finalApp app = w₀.finalApp app :=
  DomainController.finalApp_eq h.routes ((h.apps app).imp_right And.right)

theorem Progress.ingress_or (h : Progress clusterIssuer w₀ done w) (hk : w₀.Keyed)
    (hr : r ∈ w₀.routes) : w.ingresses r.key = w₀.ingresses r.key ∨
      w.ingresses r.key = w₀.finalIngress clusterIssuer r := by
  rcases h.ingresses r.key with hold | ⟨r', hr', hky, hn⟩
  · exact .inl hold
  · rw [hk.route_eq hr hr' hky] at hn
    exact .inr hn

theorem Progress.finalIngress_eq (h : Progress clusterIssuer w₀ done w) (hk : w₀.Keyed)
    (hr : r ∈ w₀.routes) : w.finalIngress clusterIssuer r = w₀.finalIngress clusterIssuer r :=
  DomainController.finalIngress_eq h.routes (h.ingress_or hk hr)

theorem Progress.ownIngress (h : Progress clusterIssuer w₀ done w) (hk : w₀.Keyed)
    (hr : r ∈ w₀.routes) (ho : OwnIngress w₀ r) : OwnIngress w r := by
  intro ing hi
  rcases h.ingress_or hk hr with hold | hn
  · exact ho ing (hold ▸ hi)
  rw [Option.mem_def, hn, World.finalIngress] at hi
  split at hi
  · cases hi
    rfl
  · cases hi

theorem Progress.route_of_key (h : Progress clusterIssuer w₀ done w) (hk : w₀.Keyed) {d0 : Domain}
    (hd : d ∈ w.domains) (hd0 : d0 ∈ w₀.domains) (hky : d0.key = d.key) :
    d0.toRoute = d.toRoute ∧ d0.deleting = d.deleting := by
  obtain ⟨d1, hd1, hr, hdl, _⟩ := h.source d hd
  have hk1 : d1.key = d.key := by rw [Route.key, Route.key, hr]
  rw [hk.eq_of_key hd1 hd0 (hky.trans hk1.symm)]
  exact ⟨hr, hdl⟩

variable {f : Domain → Domain}

theorem keyed_store (hk : w.Keyed) (hf : ∀ d, (f d).toRoute = d.toRoute) :
    (w.store key f).Keyed := by
  have hs : (w.store key f).domains.map (·.key) = w.domains.map (·.key) := by
    simp only [World.store, map_map]
    apply map_congr_left
    intro d _
    simp only [Function.comp_apply]
    split
    · rw [hf]
    · rfl
  rw [World.Keyed, hs]
  exact hk

theorem mem_store_of_ne (hd : d ∈ w.domains) (hk : d.key ≠ key) : d ∈ (w.store key f).domains :=
  mem_map.mpr ⟨d, hd, if_neg hk⟩

theorem mem_store_self (hd : d ∈ w.domains) : f d ∈ (w.store d.key f).domains :=
  mem_map.mpr ⟨d, hd, if_pos rfl⟩

theorem mem_store (hd : d ∈ (w.store key f).domains) :
    ∃ d' ∈ w.domains, d'.key = key ∧ d = f d' ∨ d'.key ≠ key ∧ d = d' := by
  obtain ⟨d', hd', rfl⟩ := mem_map.mp hd
  refine ⟨d', hd', ?_⟩
  by_cases hk : d'.key = key
  · exact .inl ⟨hk, if_pos hk⟩
  · exact .inr ⟨hk, if_neg hk⟩

theorem hostConflict_conflicted (d : Domain) (o : Option Route) :
    Conflicted (stamp (hostConflict d o)) := rfl

section Updates

variable {w' : World}

theorem Progress.apps_set (h : Progress clusterIssuer w₀ done w) (hr : Referenced w₀ app)
    (hap : w'.apps = Function.update w.apps app (w.finalApp app)) (app' : Key) :
    w'.apps app' = w₀.apps app' ∨ Referenced w₀ app' ∧ w'.apps app' = w₀.finalApp app' := by
  rw [hap]
  by_cases ha : app' = app
  · subst ha
    rw [Function.update_self, h.finalApp_eq]
    exact .inr ⟨hr, rfl⟩
  · rw [Function.update_of_ne ha]
    exact h.apps app'

theorem Progress.appsDone_set (h : Progress clusterIssuer w₀ done w) (hk : w₀.Keyed)
    (hd : d ∈ w.domains) (hap : w'.apps = Function.update w.apps d.appKey (w.finalApp d.appKey))
    {d' : Domain} (hd' : d' ∈ w₀.domains) (hdn : d'.key ∈ d.key :: done) (hc : Counts d') :
    w'.apps d'.appKey = w₀.finalApp d'.appKey := by
  rw [hap]
  by_cases ha : d'.appKey = d.appKey
  · rw [ha, Function.update_self, h.finalApp_eq]
  rw [Function.update_of_ne ha]
  rcases mem_cons.mp hdn with hky | hdn
  · refine absurd ?_ ha
    rw [(h.route_of_key hk hd hd' hky).1]
  · exact h.appsDone d' hd' hdn hc

theorem Progress.ingresses_set (h : Progress clusterIssuer w₀ done w) (hky : w₀.Keyed)
    (hr : r ∈ w₀.routes)
    (hi : w'.ingresses = Function.update w.ingresses r.key (w.finalIngress clusterIssuer r))
    (key : Key) : w'.ingresses key = w₀.ingresses key ∨
      ∃ r' ∈ w₀.routes, r'.key = key ∧ w'.ingresses key = w₀.finalIngress clusterIssuer r' := by
  rw [hi]
  by_cases hk : key = r.key
  · subst hk
    rw [Function.update_self, h.finalIngress_eq hky hr]
    exact .inr ⟨r, hr, rfl, rfl⟩
  · rw [Function.update_of_ne hk]
    exact h.ingresses key

theorem Progress.ingressesDone_set (h : Progress clusterIssuer w₀ done w) (hky : w₀.Keyed)
    (hr : r ∈ w₀.routes)
    (hi : w'.ingresses = Function.update w.ingresses r.key (w.finalIngress clusterIssuer r))
    {r' : Route} (hr' : r' ∈ w₀.routes) (hd : r'.key ∈ r.key :: done) :
    w'.ingresses r'.key = w₀.finalIngress clusterIssuer r' := by
  rw [hi]
  by_cases hk : r'.key = r.key
  · rw [hky.route_eq hr hr' hk, Function.update_self, h.finalIngress_eq hky hr]
  · rw [Function.update_of_ne hk]
    exact h.ingressesDone r' hr' ((mem_cons.mp hd).resolve_left hk)

end Updates

/-- The reconcile of a live Domain puts its Ingress and its App's URL in place. -/
theorem Progress.live (h : Progress clusterIssuer w₀ done w) (hky : w₀.Keyed) (hd : d ∈ w.domains)
    (hl : d.deleting = false) :
    Progress clusterIssuer w₀ (d.key :: done) (w.reconciled clusterIssuer d) := by
  have hm : d.toRoute ∈ w₀.routes := h.routes ▸ route_mem hd hl
  have hrf : Referenced w₀ d.appKey := by
    obtain ⟨d0, hd0, hrt, hdl, _⟩ := h.source d hd
    exact ⟨d0, hd0, by rw [hrt], .inl (hdl.trans hl)⟩
  refine ⟨keyed_store h.keyed fun _ => rfl, ?_, ?_, ?_, ?_, ?_, ?_, ?_, ?_⟩
  · exact routes_reconciled.trans h.routes
  · intro d' hd' hp
    rw [mem_cons, not_or] at hp
    exact mem_store_of_ne (h.pending d' hd' hp.2) hp.1
  · intro d' hd'
    obtain ⟨d1, hd1, ⟨hk, rfl⟩ | ⟨_, rfl⟩⟩ := mem_store hd'
    · obtain ⟨d0, hd0, hrt, hdl, _⟩ := h.source d1 hd1
      rw [h.keyed.eq_of_key hd hd1 hk] at hdl
      refine ⟨d0, hd0, hrt, ?_, ?_⟩
      · rw [hdl, h.keyed.eq_of_key hd hd1 hk]
      intro hdy
      rw [h.keyed.eq_of_key hd hd1 hk, hl] at hdy
      cases hdy
    · exact h.source d' hd1
  · exact h.apps_set hrf rfl
  · intro d' hd' hdn hcn
    exact h.appsDone_set hky hd rfl hd' hdn hcn
  · exact h.ingresses_set hky hm rfl
  · intro r hr hdn
    exact h.ingressesDone_set hky hm rfl hr hdn
  intro r hr hdn hls
  by_cases hk : r.key = d.key
  · obtain rfl := hky.route_eq hm hr hk
    refine ⟨_, mem_store_self hd, rfl, ?_⟩
    have hs : w.finalStatus { d with finalizers := held d.finalizers } =
        stamp (hostConflict { d with finalizers := held d.finalizers } (winner w.routes d.host)) :=
      if_neg (h.routes ▸ hls)
    rw [hs]
    exact hostConflict_conflicted _ _
  · obtain ⟨d', hd', hrt, hc⟩ :=
      h.conflicts r hr ((mem_cons.mp hdn).resolve_left hk) hls
    refine ⟨d', mem_store_of_ne hd' ?_, hrt, hc⟩
    rw [← hrt] at hk
    exact hk

theorem mem_collect (hd : d ∈ (w.collect key).domains) : d ∈ w.domains :=
  mem_of_mem_filter hd

theorem mem_collect_of_ne (hd : d ∈ w.domains) (hk : d.key ≠ key) : d ∈ (w.collect key).domains :=
  mem_filter.mpr ⟨hd, by simp [hk]⟩

/-- The reconcile of a Domain that is being deleted and carries the finalizer. -/
theorem Progress.finalized (h : Progress clusterIssuer w₀ done w) (hky : w₀.Keyed)
    (hd : d ∈ w.domains) (hdl : d.deleting = true) (hf : domainFinalizer ∈ d.finalizers) :
    Progress clusterIssuer w₀ (d.key :: done) (w.finalized d) := by
  have hrf : Referenced w₀ d.appKey := by
    obtain ⟨d0, hd₀, hrt, _, hf0⟩ := h.source d hd
    exact ⟨d0, hd₀, by rw [hrt], .inr (hf0 hdl hf)⟩
  -- a live Domain has another name
  have ho : ∀ r ∈ w₀.routes, r.key ≠ d.key := by
    intro r hr hk
    obtain ⟨d', hd', hl, rfl⟩ := mem_routes.mp (h.routes ▸ hr)
    rw [h.keyed.eq_of_key hd hd' hk, hdl] at hl
    cases hl
  refine ⟨?_, routes_finalized.trans h.routes, ?_, ?_, ?_, ?_, ?_, ?_, ?_⟩
  · have hs : ((w.setApp d.appKey (w.finalApp d.appKey)).store d.key fun d' =>
        { d' with finalizers := d.finalizers.filter (· ≠ domainFinalizer) }).Keyed :=
      keyed_store h.keyed fun _ => rfl
    exact hs.sublist (filter_sublist.map _)
  · intro d' hd' hp
    rw [mem_cons, not_or] at hp
    exact mem_collect_of_ne (mem_store_of_ne (h.pending d' hd' hp.2) hp.1) hp.1
  · intro d' hd'
    obtain ⟨d1, hd1, ⟨hk, rfl⟩ | ⟨_, rfl⟩⟩ := mem_store (mem_collect hd')
    · obtain ⟨d0, hd₀, hrt, hd0, _⟩ := h.source d1 hd1
      exact ⟨d0, hd₀, hrt, hd0, fun _ hin => by simp at hin⟩
    · exact h.source d' hd1
  · exact h.apps_set hrf rfl
  · intro d' hd' hdn hcn
    exact h.appsDone_set hky hd rfl hd' hdn hcn
  · exact h.ingresses
  · intro r hr hdn
    exact h.ingressesDone r hr ((mem_cons.mp hdn).resolve_left (ho r hr))
  intro r hr hdn hls
  obtain ⟨d', hd', hrt, hc⟩ :=
    h.conflicts r hr ((mem_cons.mp hdn).resolve_left (ho r hr)) hls
  have hk : d'.key ≠ d.key := by
    rw [← hrt] at hr
    exact ho _ hr
  exact ⟨d', mem_collect_of_ne (mem_store_of_ne hd' hk) hk, hrt, hc⟩

/-- A key without a Domain to reconcile is done at once. -/
theorem Progress.idle (h : Progress clusterIssuer w₀ done w)
    (ha : ∀ d ∈ w₀.domains, d.key = key → Counts d → key ∈ done)
    (hrt : ∀ r ∈ w₀.routes, r.key = key → key ∈ done) :
    Progress clusterIssuer w₀ (key :: done) w := by
  have hdn : ∀ {key'}, key' ∈ key :: done → (key' = key → key ∈ done) → key' ∈ done := by
    intro key' hm hk
    rcases mem_cons.mp hm with rfl | hm
    · exact hk rfl
    · exact hm
  refine { h with pending := ?_, appsDone := ?_, ingressesDone := ?_, conflicts := ?_ }
  · intro d hd hp
    exact h.pending d hd fun hm => hp (mem_cons_of_mem _ hm)
  · intro d hd hm hc
    exact h.appsDone d hd (hdn hm fun hk => ha d hd hk hc) hc
  · intro r hr hm
    exact h.ingressesDone r hr (hdn hm (hrt r hr))
  · intro r hr hm
    exact h.conflicts r hr (hdn hm (hrt r hr))

/-- Whatever key comes next, its reconcile adds it to those that are done. -/
theorem Progress.step (h : Progress clusterIssuer w₀ done w) (hky : w₀.Keyed)
    (ho : ∀ r ∈ w₀.routes, OwnIngress w₀ r) (key : Key) :
    Progress clusterIssuer w₀ (key :: done) ((reconcile clusterIssuer key).eval answer w).2 := by
  have hls : ∀ d ∈ w₀.domains, d.key = key → d ∉ w.domains → key ∈ done := by
    intro d hd hk hg
    by_contra hpending
    exact hg (h.pending d hd (hk ▸ hpending))
  cases hfn : w.domain key with
  | none =>
    rw [eval_reconcile_missing hfn]
    have hno : ∀ d ∈ w.domains, d.key ≠ key := by
      intro d hd
      simpa using find?_eq_none.mp hfn d hd
    refine h.idle (fun d hd hk _ => hls d hd hk fun hm => hno d hm hk) ?_
    intro r hr hk
    obtain ⟨d, hd, _, rfl⟩ := mem_routes.mp (h.routes ▸ hr)
    exact absurd hk (hno d hd)
  | some d =>
    obtain ⟨hd, rfl⟩ := mem_of_domain hfn
    cases hdl : d.deleting with
    | false =>
      have hm : d.toRoute ∈ w₀.routes := h.routes ▸ route_mem hd hdl
      rw [eval_reconcile_live h.keyed hd hdl (h.ownIngress hky hm (ho _ hm))]
      exact h.live hky hd hdl
    | true =>
      rw [eval_reconcile_dying h.keyed hd hdl]
      by_cases hf : domainFinalizer ∈ d.finalizers
      · rw [if_pos hf]
        exact h.finalized hky hd hdl hf
      rw [if_neg hf]
      refine h.idle (fun d0 hd0 hk hc => hls d0 hd0 hk fun hm => ?_) ?_
      · -- it would be this Domain, which counts for nothing
        obtain rfl := h.keyed.eq_of_key hd hm hk
        rcases hc with hl | hin
        · rw [hdl] at hl
          cases hl
        · exact hf hin
      intro r hr hk
      obtain ⟨d', hd', hl, rfl⟩ := mem_routes.mp (h.routes ▸ hr)
      rw [h.keyed.eq_of_key hd hd' hk, hdl] at hl
      cases hl

theorem Progress.run (h : Progress clusterIssuer w₀ done w) (hk : w₀.Keyed)
    (ho : ∀ r ∈ w₀.routes, OwnIngress w₀ r) (schedule : List Key) :
    Progress clusterIssuer w₀ (schedule.reverse ++ done)
      (DomainController.run clusterIssuer schedule w) := by
  induction schedule generalizing done w with
  | nil => exact h
  | cons key schedule ih =>
    rw [reverse_cons, append_assoc]
    exact ih (h.step hk ho key)

end Progress

section Settled

/-- No live Domain that claims the host is older. -/
def Least (w : World) (d : Domain) : Prop :=
  ∀ d' ∈ w.domains, d'.deleting = false → d'.host = d.host → olderDomain d'.toRoute d.toRoute = false

instance : Decidable (Least w d) :=
  inferInstanceAs (Decidable (∀ d' ∈ w.domains, d'.deleting = false → d'.host = d.host →
    olderDomain d'.toRoute d.toRoute = false))

def Serves (w : World) (app : Key) (d : Domain) : Prop :=
  d.deleting = false ∧ d.appKey = app ∧ Least w d

/-- What an App's URL should be: the host of the oldest Domain that serves it, and nothing
for an App that is no Web App or has no such Domain. -/
def IsURL (w : World) (app : Key) (view : AppView) (url : String) : Prop :=
  (view.workloadType = .web ∧ ∃ d ∈ w.domains, Serves w app d ∧
    (∀ d' ∈ w.domains, Serves w app d' → olderDomain d'.toRoute d.toRoute = false) ∧
    url = "https://" ++ d.host) ∨
  (view.workloadType ≠ .web ∨ ∀ d ∈ w.domains, ¬ Serves w app d) ∧ url = ""

theorem key_eq_of_not_older {a b : Route} (hab : olderDomain a b = false)
    (hba : olderDomain b a = false) : a.key = b.key := by
  rw [← Bool.not_eq_true, olderDomain_iff, not_lt] at hab hba
  have hr : a.rank = b.rank := le_antisymm hba hab
  simp only [Route.rank, EmbeddingLike.apply_eq_iff_eq, Prod.mk.injEq] at hr
  rw [Route.key, Route.key, hr.2.1, hr.2.2]

theorem mem_winner {host : String} (h : winner w.routes host = some r) :
    r ∈ w.routes ∧ r.host = host ∧ ∀ r' ∈ w.routes, r'.host = host → olderDomain r' r = false := by
  obtain ⟨hm, hl⟩ := oldest_spec h
  obtain ⟨hr, hh⟩ := mem_filter.mp hm
  refine ⟨hr, by simpa using hh, ?_⟩
  intro r' hr' hh'
  exact hl r' (mem_filter.mpr ⟨hr', by simpa using hh'⟩)

/-- The Domain that wins a host is the oldest live one. -/
theorem wins_iff_least (hky : w.Keyed) (hd : d ∈ w.domains) (hlv : d.deleting = false) :
    Wins w.routes d.toRoute ↔ Least w d := by
  constructor
  · intro hwn d' hd' hl' hh
    obtain ⟨r, hr, hk⟩ := Option.map_eq_some_iff.mp hwn
    obtain ⟨hm, _, hl⟩ := mem_winner hr
    rw [hky.route_eq (route_mem hd hlv) hm hk] at hl
    exact hl _ (route_mem hd' hl') hh
  intro hl
  cases hw : winner w.routes d.host with
  | none =>
    have he := oldest_none.mp hw
    have hm : d.toRoute ∈ w.routes.filter fun r => r.host = d.host :=
      mem_filter.mpr ⟨route_mem hd hlv, by simp⟩
    rw [he] at hm
    cases hm
  | some r =>
    obtain ⟨hm, hh, hr⟩ := mem_winner hw
    obtain ⟨d', hd', hl', rfl⟩ := mem_routes.mp hm
    have hk := key_eq_of_not_older (hl d' hd' hl' hh)
      (hr _ (route_mem hd hlv) rfl)
    rw [Wins, hw, Option.map_some, hk]

theorem mem_winning (hk : w.Keyed) :
    r ∈ winning w.routes app ↔ ∃ d ∈ w.domains, Serves w app d ∧ d.toRoute = r := by
  simp only [winning, mem_filter, decide_eq_true_iff]
  constructor
  · rintro ⟨hr, ha, hw⟩
    obtain ⟨d, hd, hl, rfl⟩ := mem_routes.mp hr
    exact ⟨d, hd, ⟨hl, ha, (wins_iff_least hk hd hl).mp hw⟩, rfl⟩
  · rintro ⟨d, hd, ⟨hl, ha, hls⟩, rfl⟩
    exact ⟨route_mem hd hl, ha, (wins_iff_least hk hd hl).mpr hls⟩

/-- The derived URL is the one that an App should have. -/
theorem derivedURL_isURL (hk : w.Keyed) (app : Key) (view : AppView) :
    IsURL w app view (derivedURL w.routes app view) := by
  unfold derivedURL
  split
  · rename_i ht
    exact .inr ⟨.inl ht, rfl⟩
  rename_i ht
  rw [ne_eq, not_not] at ht
  cases ho : oldest (winning w.routes app) with
  | none =>
    refine .inr ⟨.inr fun d hd hs => ?_, rfl⟩
    have hm := (mem_winning hk).mpr ⟨d, hd, hs, rfl⟩
    rw [oldest_none.mp ho] at hm
    cases hm
  | some r =>
    obtain ⟨hm, hl⟩ := oldest_spec ho
    obtain ⟨d, hd, hs, rfl⟩ := (mem_winning hk).mp hm
    refine .inl ⟨ht, d, hd, hs, ?_, rfl⟩
    intro d' hd' hs'
    exact hl _ ((mem_winning hk).mpr ⟨d', hd', hs', rfl⟩)

variable (clusterIssuer) in
theorem wanted_routes (r : Route) (o : Option Ingress) :
    (wanted clusterIssuer r o).host = r.host ∧ (wanted clusterIssuer r o).serviceName = r.appName := by
  cases o <;> exact ⟨rfl, rfl⟩

variable {done : List Key}

theorem Progress.ingress_settled (h : Progress clusterIssuer w₀ done w)
    (hdn : ∀ d ∈ w₀.domains, d.key ∈ done) (key : Key) :
    (∃ r ∈ w₀.routes, r.key = key ∧ w.ingresses key = w₀.finalIngress clusterIssuer r) ∨
      (∀ r ∈ w₀.routes, r.key ≠ key) ∧ w.ingresses key = w₀.ingresses key := by
  by_cases hrt : ∃ r ∈ w₀.routes, r.key = key
  · obtain ⟨r, hr, rfl⟩ := hrt
    obtain ⟨d, hd, _, rfl⟩ := mem_routes.mp hr
    exact .inl ⟨d.toRoute, hr, rfl, h.ingressesDone _ hr (hdn d hd)⟩
  push Not at hrt
  rcases h.ingresses key with hold | ⟨r, hr, hk, _⟩
  · exact .inr ⟨hrt, hold⟩
  · exact absurd hk (hrt r hr)

theorem Progress.apps_settled (h : Progress clusterIssuer w₀ done w)
    (hdn : ∀ d ∈ w₀.domains, d.key ∈ done) (app : Key) :
    Referenced w₀ app ∧ w.apps app = w₀.finalApp app ∨
      ¬ Referenced w₀ app ∧ w.apps app = w₀.apps app := by
  by_cases hr : Referenced w₀ app
  · obtain ⟨d, hd, rfl, hc⟩ := hr
    exact .inl ⟨⟨d, hd, rfl, hc⟩, h.appsDone d hd (hdn d hd) hc⟩
  rcases h.apps app with hold | ⟨hy, _⟩
  · exact .inr ⟨hr, hold⟩
  · exact absurd hy hr

/-- After every Domain has come up, in any order: of the live Domains of a host only the
oldest has an Ingress, the others are in conflict; an App has the URL of the oldest Domain
that serves it; and another order would have led to the same Ingresses and URLs. -/
theorem domains_converge (clusterIssuer : String) (w : World) (hkeys : w.Keyed)
    (hown : ∀ d ∈ w.domains, d.deleting = false → OwnIngress w d.toRoute) (schedule : List Key)
    (hall : ∀ d ∈ w.domains, d.key ∈ schedule) :
    (∀ d ∈ w.domains, d.deleting = false →
      (Least w d → ∃ ing, (run clusterIssuer schedule w).ingresses d.key = some ing ∧
        ing.controller = some d.ownerRef ∧ ing.host = d.host ∧ ing.serviceName = d.appName) ∧
      (¬ Least w d → (run clusterIssuer schedule w).ingresses d.key = none ∧
        ∃ d' ∈ (run clusterIssuer schedule w).domains, d'.toRoute = d.toRoute ∧ Conflicted d'.status)) ∧
    (∀ app view, w.apps app = some view → Referenced w app →
      ∃ view', (run clusterIssuer schedule w).apps app = some view' ∧ IsURL w app view view'.url) ∧
    ∀ schedule' : List Key, (∀ d ∈ w.domains, d.key ∈ schedule') →
      (run clusterIssuer schedule' w).ingresses = (run clusterIssuer schedule w).ingresses ∧
      (run clusterIssuer schedule' w).apps = (run clusterIssuer schedule w).apps := by
  have hownRoutes : ∀ r ∈ w.routes, OwnIngress w r := by
    intro r hr
    obtain ⟨d, hd, hlive, rfl⟩ := mem_routes.mp hr
    exact hown d hd hlive
  have hprogress : ∀ s : List Key, (∀ d ∈ w.domains, d.key ∈ s) →
      (∀ d ∈ w.domains, d.key ∈ s.reverse ++ []) ∧
        Progress clusterIssuer w (s.reverse ++ []) (run clusterIssuer s w) := by
    intro s hs
    refine ⟨fun d hd => ?_, (Progress.refl hkeys).run hkeys hownRoutes s⟩
    rw [append_nil, mem_reverse]
    exact hs d hd
  obtain ⟨hdone, h⟩ := hprogress schedule hall
  refine ⟨?_, ?_, ?_⟩
  · intro d hd hlive
    have hr := route_mem hd hlive
    have hingress := h.ingressesDone d.toRoute hr (hdone d hd)
    rw [World.finalIngress] at hingress
    rw [← wins_iff_least hkeys hd hlive]
    constructor
    · intro hwins
      rw [if_pos hwins] at hingress
      obtain ⟨hhost, hservice⟩ := wanted_routes clusterIssuer d.toRoute
        (w.ingresses d.key)
      exact ⟨_, hingress, rfl, hhost, hservice⟩
    intro hloses
    rw [if_neg hloses] at hingress
    exact ⟨hingress, h.conflicts d.toRoute hr (hdone d hd) hloses⟩
  · intro app view hview href
    obtain ⟨_, happ⟩ := (h.apps_settled hdone app).resolve_right fun hno => hno.1 href
    refine ⟨{ view with url := derivedURL w.routes app view }, ?_, derivedURL_isURL hkeys app view⟩
    rw [happ, World.finalApp, hview, Option.map_some]
  intro schedule' hall'
  obtain ⟨hdone', h'⟩ := hprogress schedule' hall'
  constructor
  · funext key
    rcases h.ingress_settled hdone key with ⟨r, hr, hkey, hing⟩ | ⟨hno, hing⟩
    · obtain ⟨r', hr', hkey', hing'⟩ := (h'.ingress_settled hdone' key).resolve_right
        fun hno => hno.1 r hr hkey
      rw [hing, hing', hkeys.route_eq hr hr' (hkey'.trans hkey.symm)]
    obtain ⟨_, hing'⟩ := (h'.ingress_settled hdone' key).resolve_left (by
      rintro ⟨r, hr, hkey, -⟩
      exact hno r hr hkey)
    rw [hing, hing']
  · funext app
    rcases h.apps_settled hdone app with ⟨href, happ⟩ | ⟨hno, happ⟩
    · obtain ⟨_, happ'⟩ := (h'.apps_settled hdone' app).resolve_right fun hno => hno.1 href
      rw [happ, happ']
    · obtain ⟨_, happ'⟩ := (h'.apps_settled hdone' app).resolve_left fun hyes => hno hyes.1
      rw [happ, happ']

end Settled

def sampleDomain (name : String) (uid : ℕ) (createdAt : ℤ) : Domain :=
  ⟨⟨"orkano-apps", name, uid, createdAt, "www.example.com", "web"⟩, 1, false, [], ⟨0, none, none⟩⟩

def olderSample : Domain := sampleDomain "older" 1 1

def newerSample : Domain := sampleDomain "newer" 2 2

def sampleCluster : World where
  domains := [newerSample, olderSample]
  ingresses _ := none
  apps key := if key = ⟨"orkano-apps", "web"⟩ then some ⟨none, "https://old.example.com"⟩ else none
  certificates _ := none

/-- Of two Domains with one host the older is routed, and its App has the URL. -/
theorem older_domain_routed :
    Least sampleCluster olderSample ∧ ¬ Least sampleCluster newerSample ∧
      (∃ ing, (run "letsencrypt" [newerSample.key, olderSample.key] sampleCluster).ingresses
        olderSample.key = some ing ∧ ing.controller = some olderSample.ownerRef ∧
          ing.host = "www.example.com" ∧ ing.serviceName = "web") ∧
      (run "letsencrypt" [newerSample.key, olderSample.key] sampleCluster).ingresses
        newerSample.key = none := by
  have hleast : Least sampleCluster olderSample := by decide +kernel
  have hnewer : ¬ Least sampleCluster newerSample := by decide +kernel
  have hkeys : sampleCluster.Keyed := by
    unfold World.Keyed
    decide +kernel
  have hown : ∀ d ∈ sampleCluster.domains, d.deleting = false → OwnIngress sampleCluster d.toRoute := by
    rintro _ _ _ _ ⟨⟩
  have hall : ∀ d ∈ sampleCluster.domains, d.key ∈ [newerSample.key, olderSample.key] := by
    decide +kernel
  have hsettled := (domains_converge "letsencrypt" sampleCluster hkeys hown _ hall).1
  exact ⟨hleast, hnewer, (hsettled olderSample (by decide +kernel) rfl).1 hleast,
    ((hsettled newerSample (by decide +kernel) rfl).2 hnewer).1⟩

/-- A Domain that is being deleted and is held by somebody else's finalizer. -/
def dyingSample : Domain :=
  { olderSample with deleting := true, finalizers := ["foregroundDeletion"] }

def dyingCluster : World := { sampleCluster with domains := [dyingSample] }

/-- Its reconcile has nothing to do, and a URL that nobody serves stays. -/
theorem url_of_dying_domain_kept :
    dyingCluster.Keyed ∧ (∀ d ∈ dyingCluster.domains, d.appKey = ⟨"orkano-apps", "web"⟩ ∧
      d.deleting = true ∧ d.key ∈ [dyingSample.key]) ∧
      (run "letsencrypt" [dyingSample.key] dyingCluster).apps ⟨"orkano-apps", "web"⟩ =
        some ⟨none, "https://old.example.com"⟩ := by
  refine ⟨?_, by decide +kernel, by decide +kernel⟩
  unfold World.Keyed
  decide +kernel

end Orkano.Operator.DomainController
