import Orkano.Dashboard.Auth.OIDCIntegrity

/-!
Logout. The handler answers 204 whether or not the session could be deleted. Once the row is
gone it stays gone, since tokens are not drawn twice.
-/
namespace Orkano.Dashboard

open Interleave Program

variable {P : Primitives} {visit : ℕ → Visit} {faulty : Bool} {t : ℕ} {s s' : World × Journal}
  {α : Type}

structure Gone (tokenHash : String) (s : World × Journal) : Prop where
  created : ∃ m ∈ s.2.created, m.tokenHash = tokenHash
  absent : ∀ p ∈ s.1.db.owners, p.1 ≠ tokenHash

theorem Gone.step {tokenHash : String} {c : Call} {x : c.Reply}
    (hx : (freshVisits P visit faulty).exec t c s x s') (ha : Advances s s')
    (h : Gone tokenHash s) : Gone tokenHash s' := by
  obtain ⟨m, hm, hh⟩ := h.created
  refine ⟨⟨m, ha.created hm, hh⟩, fun p hp => ?_⟩
  rcases mem_owners_exec hx.2.1.1 hp with hold | ⟨expiresAt, rfl⟩
  · exact h.absent p hold
  · intro heq
    exact hx.1 _ _ _ rfl m hm (hh.trans heq.symm)

def revoking (X : World × Journal → Prop) : Discipline (World × Journal) ℕ where
  inv s := Recorded s ∧ X s
  evolves s s' := Advances s s' ∧ ∀ h, Gone h s → Gone h s'
  rely _ s s' := Advances s s' ∧ ∀ h, Gone h s → Gone h s'
  evolves_refl s := ⟨.refl s, fun _ h => h⟩
  evolves_trans h h' := ⟨h.1.trans h'.1, fun k hk => h'.2 k (h.2 k hk)⟩
  rely_refl _ s := ⟨.refl s, fun _ h => h⟩
  rely_trans _ _ _ _ h h' := ⟨h.1.trans h'.1, fun k hk => h'.2 k (h.2 k hk)⟩

/-- A delete of a session that is answered without an error. -/
def Deletes : (c : Call) → c.Reply → Prop
  | .store (.deleteSession _), x => x = .ok ()
  | _, _ => True

/-- Visits with fresh tokens whose deletes of sessions go through. -/
def deletingVisits (P : Primitives) (visit : ℕ → Visit) (faulty : Bool) :
    System dashboard (World × Journal) ℕ Outcome :=
  (freshVisits P visit faulty).restrict fun _ c _ x => Deletes c x

section Walk

variable {X : World × Journal → Prop} (hX : ∀ s s', X s → (revoking X).evolves s s' → X s')
include hX

theorem allowed_revoking {c : Call} {x : c.Reply} (hi : (revoking X).inv s)
    (hx : (deletingVisits P visit faulty).exec t c s x s') : Allowed (revoking X) t s s' := by
  obtain ⟨hr, ha, -⟩ := exec_journaled hx.2.2 hi.1
  have hg : ∀ h, Gone h s → Gone h s' := fun _ h => h.step hx.2 ha
  exact ⟨⟨hr, hX s s' hi.2 ⟨ha, hg⟩⟩, ⟨ha, hg⟩, fun _ _ => ⟨ha, hg⟩⟩

theorem safe_revoking {R : World × Journal → Prop}
    (hR : ∀ s s', R s → (revoking X).evolves s s' → R s') (p : Prog α) (hs : R s) :
    Safe (deletingVisits P visit faulty).exec (revoking X) t (fun _ => R) p s :=
  safe_of_only (fun _ _ _ _ _ hi _ hx => allowed_revoking hX hi hx) hR hR p.only_true hs

theorem safe_revoking_any (p : Prog α) :
    Safe (deletingVisits P visit faulty).exec (revoking X) t (fun _ _ => True) p s :=
  safe_revoking hX (R := fun _ => True) (fun _ _ h _ => h) p trivial

theorem safe_query_revoking {β : Type} {q : StoreCall} {f : Except DbError q.Row → Prog β}
    {post : β → World × Journal → Prop}
    (hf : ∀ s1 x s2, (revoking X).inv s1 → (revoking X).evolves s s1 →
      (deletingVisits P visit faulty).exec t (.store q) s1 x s2 →
      (revoking X).evolves s1 s2 →
      Safe (deletingVisits P visit faulty).exec (revoking X) t post (f x) s2) :
    Safe (deletingVisits P visit faulty).exec (revoking X) t post (storeCall q >>= f) s := by
  intro s1 hr hi x s2 hx
  have ha := allowed_revoking hX hi hx
  exact ⟨ha, hf s1 x s2 hi hr hx ha.evolves⟩

/-- A request that is resolved to a session had its token in the store. -/
theorem safe_resolveSession (r : Request) :
    Safe (deletingVisits P visit faulty).exec (revoking X) t
      (fun found s => ∀ raw, r.cookie sessionCookie = some raw → found.isSome →
        ∃ m ∈ s.2.created, m.tokenHash = hashToken P raw) (resolveSession P r) s := by
  unfold resolveSession
  split
  · intro _ _ h
    cases h
  rename_i raw hr
  refine safe_query_revoking hX fun s1 sess s2 hi _ hx hev => ?_
  cases sess with
  | error e =>
    intro _ _ h
    cases h
  | ok sess =>
    obtain ⟨hss, hh⟩ := mem_of_getSession hx.2.2.1.1
    obtain ⟨m, hm, hmh, -⟩ := hi.1.created _ (Db.mem_owners hss)
    have hk : ∃ m ∈ s2.2.created, m.tokenHash = hashToken P raw :=
      ⟨m, hev.1.created hm, hmh.trans hh⟩
    have hs : ∀ s s' : World × Journal, (∃ m ∈ s.2.created, m.tokenHash = hashToken P raw) →
        (revoking X).evolves s s' → ∃ m ∈ s'.2.created, m.tokenHash = hashToken P raw :=
      fun _ _ ⟨m, hm, h⟩ he => ⟨m, he.1.created hm, h⟩
    refine (safe_revoking hX hs _ hk).mono fun found s h raw' hr' _ => ?_
    cases hr.symm.trans hr'
    exact h

/-- A logout that ends has removed the session of its cookie. -/
theorem safe_handleLogout {r : Request} {user : SessionUser} {raw : String}
    (hrw : r.cookie sessionCookie = some raw)
    (hk : ∃ m ∈ s.2.created, m.tokenHash = hashToken P raw) :
    Safe (deletingVisits P visit faulty).exec (revoking X) t
      (fun _ s => Gone (hashToken P raw) s) (handleLogout P r user) s := by
  unfold handleLogout
  simp only [hrw]
  refine safe_query_revoking hX fun s1 x s2 _ hr hx hev => ?_
  obtain ⟨m, hm, hh⟩ := hk
  have hok : x = .ok () := hx.1
  have hg : Gone (hashToken P raw) s2 := by
    refine ⟨⟨m, hev.1.created (hr.1.created hm), hh⟩, ?_⟩
    obtain ⟨now, ⟨-, hdb⟩ | ⟨her, -⟩⟩ := exec_store hx.2.2.1.1
    · rw [hdb]
      intro p hp
      obtain ⟨sess, hs, rfl⟩ := List.mem_map.mp hp
      simpa using (List.mem_filter.mp hs).2
    · rw [her] at hok
      cases hok
  exact safe_revoking hX (fun _ _ h he => he.2 _ h) _ hg

end Walk

/-- What a logout that was answered 204 has done. -/
def LoggedOut (P : Primitives) (v : Visit) (a : Outcome) (s : World × Journal) : Prop :=
  ∀ raw resp, v.job = .serve .logout → v.request.cookie sessionCookie = some raw →
    a = .response resp → resp.status = 204 → Gone (hashToken P raw) s

/-- A session that a logout removed does not come back. -/
theorem deletingVisits_respects : (deletingVisits P visit faulty).Respects
    (revoking fun _ => True) (fun t => LoggedOut P (visit t)) where
  lasts := fun _ _ _ _ h hr raw resp hj hrw ha h204 => hr.2 _ (h raw resp hj hrw ha h204)
  starts := by
    rintro t _ s rfl -
    by_cases hj : (visit t).job = .serve .logout
    · simp only [Visit.program, hj, serve, requireSession]
      refine Safe.bind (Safe.bind ((safe_resolveSession (fun _ _ h _ => h) _).mono
        fun found s hf => ?_))
      cases found with
      | none =>
        intro raw resp _ _ ha h204
        cases ha
        cases h204
      | some found =>
        cases hrw : (visit t).request.cookie sessionCookie with
        | none =>
          refine (safe_revoking_any (fun _ _ h _ => h) _).mono fun resp s _ raw _ _ hr' => ?_
          rw [hrw] at hr'
          cases hr'
        | some raw =>
          refine (safe_handleLogout (fun _ _ h _ => h) hrw (hf raw hrw rfl)).mono
            fun resp s hg raw' _ _ hr' _ _ => ?_
          rw [hrw] at hr'
          cases hr'
          exact hg
    · exact (safe_revoking_any (fun _ _ h _ => h) _).mono
        fun _ _ _ _ _ hj' => absurd hj' hj
  env := fun _ h => h.1.elim
  restart := by
    rintro ⟨w, j⟩ ⟨w', j'⟩ hi ⟨h, h'⟩
    cases h
    cases h'
    exact ⟨hi, .refl _, fun _ h => h⟩

/-- A request is refused if it brings a token whose session is gone. -/
def Refused (P : Primitives) (v : Visit) (tokenHash : String) (a : Outcome) : Prop :=
  ∀ raw found, v.job = .resolveSession → v.request.cookie sessionCookie = some raw →
    hashToken P raw = tokenHash → a = .session found → found = none

theorem safe_resolveSession_gone {r : Request} {raw : String}
    (hr : r.cookie sessionCookie = some raw) :
    Safe (deletingVisits P visit faulty).exec (revoking (Gone (hashToken P raw))) t
      (fun found _ => found = none) (resolveSession P r) s := by
  unfold resolveSession
  simp only [hr]
  refine safe_query_revoking (fun _ _ h he => he.2 _ h) fun s1 sess s2 hi _ hx _ => ?_
  cases sess with
  | error e => rfl
  | ok sess =>
    obtain ⟨hs, hh⟩ := mem_of_getSession hx.2.2.1.1
    exact absurd hh (hi.2.absent _ (Db.mem_owners hs))

/-- Threads that start once the session is gone are refused; of the others nothing is said. -/
theorem deletingVisits_refuse (tokenHash : String) (t' : ℕ) :
    (deletingVisits P visit faulty).Respects (revoking (Gone tokenHash))
      (fun t a _ => t = t' → Refused P (visit t) tokenHash a) where
  lasts := fun _ _ _ _ h _ => h
  starts := by
    rintro t _ s rfl -
    by_cases hj : (visit t).job = .resolveSession
    · cases hr : (visit t).request.cookie sessionCookie with
      | none =>
        refine (safe_revoking_any (fun _ _ h he => he.2 _ h) _).mono fun _ _ _ _ raw _ _ hr' => ?_
        rw [hr] at hr'
        cases hr'
      | some raw =>
        by_cases hh : hashToken P raw = tokenHash
        · subst hh
          simp only [Visit.program, hj]
          refine Safe.bind ((safe_resolveSession_gone hr).mono fun found s hn => ?_)
          rintro - raw' found' - - - ha
          cases ha
          exact hn
        refine (safe_revoking_any (fun _ _ h he => he.2 _ h) _).mono
          fun _ _ _ _ raw' _ _ hr' hh' => ?_
        rw [hr] at hr'
        cases hr'
        exact absurd hh' hh
    · exact (safe_revoking_any (fun _ _ h he => he.2 _ h) _).mono
        fun _ _ _ _ _ _ hj' => absurd hj' hj
  env := fun _ h => h.1.elim
  restart := by
    rintro ⟨w, j⟩ ⟨w', j'⟩ hi ⟨h, h'⟩
    cases h
    cases h'
    exact ⟨hi, .refl _, fun _ h => h⟩

/-- If deletes of sessions go through, then once a logout has been answered 204 no request
that starts afterwards is resolved to a session by the same token. -/
theorem logout_is_final {w₀ : World} {c c₁ c' : Config dashboard (World × Journal) ℕ Outcome}
    {t' : ℕ} {raw : String} {resp : Response} {found : Option (SessionUser × Session)}
    (hfresh : w₀.db.Fresh)
    (hc : (deletingVisits P visit faulty).Steps (Config.idle (w₀, Journal.empty)) c)
    (hlogout : (visit t).job = .serve .logout)
    (hcookie : (visit t).request.cookie sessionCookie = some raw)
    (hanswer : c.threads t = some (.done (.response resp))) (h204 : resp.status = 204)
    (hc₁ : (deletingVisits P visit faulty).Steps c c₁) (hstart : c₁.threads t' = none)
    (hc' : (deletingVisits P visit faulty).Steps c₁ c')
    (hresolve : (visit t').job = .resolveSession)
    (hcookie' : (visit t').request.cookie sessionCookie = some raw)
    (hfound : c'.threads t' = some (.done (.session found))) : found = none := by
  obtain ⟨hgood, -⟩ := System.reachable_good deletingVisits_respects
    (System.good_idle ⟨hfresh.recorded, trivial⟩) hc
  have hgone : Gone (hashToken P raw) c.shared :=
    hgood.safe t _ hanswer raw resp hlogout hcookie rfl h204
  obtain ⟨hgood₁, hev⟩ := System.reachable_good deletingVisits_respects hgood hc₁
  have hrefuse : (deletingVisits P visit faulty).Good (revoking (Gone (hashToken P raw)))
      (fun t a _ => t = t' → Refused P (visit t) (hashToken P raw) a) c₁ := by
    refine ⟨⟨hgood₁.inv.1, hev.2 _ hgone⟩, fun u p hp => ?_⟩
    refine (safe_revoking_any (fun _ _ h he => he.2 _ h) p).mono fun _ _ _ hu => ?_
    rw [hu, hstart] at hp
    cases hp
  have hlast := (System.reachable_good (deletingVisits_refuse _ t') hrefuse hc').1
  exact hlast.safe t' _ hfound rfl raw found hresolve hcookie' rfl rfl

theorem deletes_of_exec {c : Call} {w w' : World} {x : c.Reply}
    (h : (machine P false).exec c w x w') : Deletes c x := by
  unfold Deletes
  split
  · exact (exec_store_sound h).choose_spec.1
  · trivial

/-- A sign-in, a logout with its session, and a request that brings the token again. -/
def logoutVisits : ℕ → Visit
  | 0 => sampleVisits "A" "A" 0
  | 1 => sampleVisits "A" "A" 1
  | 2 => ⟨deployedWith "A", { anonymousRequest with cookies := [(sessionCookie, "k")] },
      .serve .logout, none, deployedWith_unverified "A"⟩
  | _ => ⟨deployedWith "A", { anonymousRequest with cookies := [(sessionCookie, "k")] },
      .resolveSession, none, deployedWith_unverified "A"⟩

def deletePick (fault : Option Fault) : (c : Call) → World × Journal → c.Choice
  | .store (.deleteSession _), _ => ⟨0, fault⟩
  | c, s => samplePick 0 c s.1

def afterLogoutVisit (fault : Option Fault) (t : ℕ) (s : World × Journal) : World × Journal :=
  (visitMachine fault.isSome false (logoutVisits t) t).after (deletePick fault)
    ((logoutVisits t).program samplePrimitives) s

def signedInState : World × Journal := afterVisits false logoutVisits [0, 1]

def logoutResponse : Response := ⟨204, [], "", [clearCookie (logoutVisits 2).request sessionCookie]⟩

theorem runs_logout : Runs (visitMachine false false (logoutVisits 2) 2).exec
    ((logoutVisits 2).program samplePrimitives) signedInState (.response logoutResponse)
    (afterLogoutVisit none 2 signedInState) :=
  Machine.runs_after _ (by decide +kernel)

theorem runs_refused : Runs (visitMachine false false (logoutVisits 3) 3).exec
    ((logoutVisits 3).program samplePrimitives) (afterLogoutVisit none 2 signedInState)
    (.session none) (afterLogoutVisit none 3 (afterLogoutVisit none 2 signedInState)) :=
  Machine.runs_after _ (by decide +kernel)

theorem exec_deleting {c : Call} {x : c.Reply}
    (h : (visitMachine false false (logoutVisits t) t).exec c s x s') :
    (deletingVisits samplePrimitives logoutVisits false).exec t c s x s' :=
  ⟨deletes_of_exec (exec_visitMachine h).1.1.1, (exec_visitMachine h).2.1, (exec_visitMachine h).1⟩

def loggedOutConfig : Config dashboard (World × Journal) ℕ Outcome :=
  ⟨afterLogoutVisit none 2 signedInState,
    Function.update (fun _ => none) 2 (some (.done (.response logoutResponse)))⟩

/-- A sign-in and the logout of its session are a run of the dashboard. -/
theorem steps_loggedOut : (deletingVisits samplePrimitives logoutVisits false).Steps
    (Config.idle (emptyWorld, Journal.empty)) loggedOutConfig := by
  have hs := steps_afterVisits (deletingVisits samplePrimitives logoutVisits false) false
    (fun _ _ _ _ _ => exec_deleting) (fun _ => rfl) [0, 1]
  have hl := System.steps_done_of_runs (M := deletingVisits samplePrimitives logoutVisits false)
    (c := Config.idle signedInState) (t := 2) rfl rfl (runs_logout.mono fun _ _ _ _ => exec_deleting)
  exact hs.trans hl

def refusedConfig : Config dashboard (World × Journal) ℕ Outcome :=
  ⟨afterLogoutVisit none 3 (afterLogoutVisit none 2 signedInState),
    Function.update loggedOutConfig.threads 3 (some (.done (.session none)))⟩

/-- The token of the logout is refused afterwards. -/
theorem logged_out_token_refused :
    (deletingVisits samplePrimitives logoutVisits false).Steps loggedOutConfig refusedConfig ∧
      ∃ found, refusedConfig.threads 3 = some (.done (.session found)) ∧ found = none := by
  have hsteps := System.steps_done_of_runs (M := deletingVisits samplePrimitives logoutVisits false)
    (c := loggedOutConfig) (t := 3) rfl rfl (runs_refused.mono fun _ _ _ _ => exec_deleting)
  have hidle : loggedOutConfig.threads 3 = none := rfl
  have hdone : refusedConfig.threads 3 = some (.done (.session none)) := rfl
  exact ⟨hsteps, none, hdone, logout_is_final (t := 2) emptyWorld_fresh steps_loggedOut rfl rfl rfl
    rfl .refl hidle hsteps rfl rfl hdone⟩

theorem runs_failed_logout : Runs (visitMachine true false (logoutVisits 2) 2).exec
    ((logoutVisits 2).program samplePrimitives) signedInState (.response logoutResponse)
    (afterLogoutVisit (some .before) 2 signedInState) :=
  Machine.runs_after _ (by decide +kernel)

def resolvedSession : SessionUser × Session := (⟨1, "1", true⟩, ⟨"k", 1, sessionTTL, none⟩)

theorem runs_resolved : Runs (visitMachine true false (logoutVisits 3) 3).exec
    ((logoutVisits 3).program samplePrimitives) (afterLogoutVisit (some .before) 2 signedInState)
    (.session (some resolvedSession))
    (afterLogoutVisit (some .before) 3 (afterLogoutVisit (some .before) 2 signedInState)) :=
  Machine.runs_after _ (by decide +kernel)

/-- The store is away for one query: the logout is answered 204, and the token goes on
being resolved to its session. -/
theorem failed_delete_keeps_session :
    ∃ c c', (freshVisits samplePrimitives logoutVisits true).Steps
        (Config.idle (emptyWorld, Journal.empty)) c ∧
      (logoutVisits 2).job = .serve .logout ∧
      (logoutVisits 2).request.cookie sessionCookie = some "k" ∧
      c.threads 2 = some (.done (.response logoutResponse)) ∧ logoutResponse.status = 204 ∧
      c.threads 3 = none ∧ (freshVisits samplePrimitives logoutVisits true).Steps c c' ∧
      (logoutVisits 3).job = .resolveSession ∧
      (logoutVisits 3).request.cookie sessionCookie = some "k" ∧
      c'.threads 3 = some (.done (.session (some resolvedSession))) := by
  have hexec : ∀ t c s x s', (visitMachine true false (logoutVisits t) t).exec c s x s' →
      (freshVisits samplePrimitives logoutVisits true).exec t c s x s' :=
    fun _ _ _ _ _ h => ⟨(exec_visitMachine h).2.1, (exec_visitMachine h).1⟩
  have hsigned := steps_afterVisits (freshVisits samplePrimitives logoutVisits true) false
    (fun _ _ _ _ _ h => ⟨(exec_visitMachine h).2.1,
      ⟨exec_of_sound (exec_visitMachine h).1.1.1, (exec_visitMachine h).1.1.2⟩,
      (exec_visitMachine h).1.2⟩) (fun _ => rfl) [0, 1]
  have hlogout := System.steps_done_of_runs (M := freshVisits samplePrimitives logoutVisits true)
    (c := Config.idle signedInState) (t := 2) rfl rfl (runs_failed_logout.mono (hexec 2))
  have hresolved := System.steps_done_of_runs (M := freshVisits samplePrimitives logoutVisits true)
    (c := ⟨afterLogoutVisit (some .before) 2 signedInState, Function.update (fun _ => none) 2
      (some (.done (.response logoutResponse)))⟩) (t := 3) rfl rfl (runs_resolved.mono (hexec 3))
  exact ⟨_, _, hsigned.trans hlogout, rfl, rfl, rfl, rfl, rfl, hresolved, rfl, rfl, rfl⟩

end Orkano.Dashboard
