import Orkano.Dashboard.Auth.Bootstrap
import Orkano.Dashboard.Auth.PurposeSeparation
import Orkano.Dashboard.Auth.Visits

/-!
What a completed OIDC callback guarantees. A sign-in keys the user row on issuer and subject.
A step-up compares the subject alone, so it is bound to the identity of the session only while
the row was stored under the issuer that is configured now (`SameIssuer`).
-/
namespace Orkano.Dashboard

open Interleave Program List

variable {P : Primitives} {visit : ℕ → Visit} {faulty : Bool} {t : ℕ} {s s' : World × Journal}
  {X : World × Journal → Prop} {Q : Call → Prop} {α β : Type}

def Opens : Call → Prop
  | .cipherOpen _ => True
  | _ => False

theorem Journal.readings_mono {c : Call} (hc : ¬ Opens c) (x : c.Reply) (j : Journal) :
    j.readings t ⊆ (j.record t c x).readings t := by
  unfold Journal.record
  split
  · exact absurd trivial hc
  all_goals simp

structure Verified (P : Primitives) (visit : ℕ → Visit) (t : ℕ) (flow : OIDCFlow) (id : Identity)
    (s : World × Journal) : Prop where
  cookie : ∃ v writer text, (visit t).request.cookie oidcCookie = some v ∧
    s.1.lookup v = some (writer, text) ∧ OIDCFlow.unmarshal text = some flow
  live : ∃ now ∈ s.2.readings t, unix now < flow.expires
  state : flow.state ≠ "" ∧ (visit t).request.param "state" = flow.state
  token : ∃ token, (visit t).token = some token ∧
    exchange (visit t).deployment.provider flow.nonce token = some id
  allowed : ∃ idp, (visit t).deployment.server.oidc = some idp ∧ idp.authorize P id = true

theorem Verified.mono {flow : OIDCFlow} {id : Identity} (h : Verified P visit t flow id s)
    (ha : Advances s s') (hr : s.2.readings t ⊆ s'.2.readings t) :
    Verified P visit t flow id s' := by
  obtain ⟨v, writer, text, hv, hl, hf⟩ := h.cookie
  obtain ⟨now, hn, hlv⟩ := h.live
  exact ⟨⟨v, writer, text, hv, ha.sealed hl, hf⟩, ⟨now, hr hn, hlv⟩, h.state, h.token,
    h.allowed⟩

/-- Steps of the visit `t`, a class of calls, and a fact that they keep. -/
structure Keeping (P : Primitives) (visit : ℕ → Visit) (faulty : Bool)
    (exec : ℕ → (c : Call) → World × Journal → c.Reply → World × Journal → Prop) (t : ℕ)
    (X : World × Journal → Prop) (Q : Call → Prop) : Prop where
  step : ∀ {c s x s'}, exec t c s x s' → (journaled P visit faulty).exec t c s x s'
  passive : ∀ c, Passive c → Q c
  keeps : ∀ {c s x s'}, Q c → exec t c s x s' → Advances s s' → X s → X s'

section Walk

variable {exec : ℕ → (c : Call) → World × Journal → c.Reply → World × Journal → Prop}
  (hK : Keeping P visit faulty exec t X Q)
include hK

variable {c : Call}

theorem Keeping.allowed {x : c.Reply} (hc : Q c) (hi : (tracked X).inv s) (hx : exec t c s x s') :
    Allowed (tracked X) t s s' :=
  allowed_tracked (hK.step hx) hi.1 fun ha => hK.keeps hc hx ha hi.2

theorem Keeping.safe {p : Prog α} (hp : p.Only Q) : Safe exec (tracked X) t (fun _ _ => True) p s :=
  safe_of_only (R := fun _ => True) (fun _ _ _ _ hc hi _ hx => hK.allowed hc hi hx)
    (fun _ _ h _ => h) (fun _ _ h _ => h) hp trivial

theorem Keeping.safe_audited {r : Request} {actor action target outcome : String} {resp : α} :
    Safe exec (tracked X) t (fun _ _ => True)
      (audit r actor action target outcome >>= fun _ => pure resp) s :=
  hK.safe (only_bind (only_audit (fun _ => hK.passive _ trivial) _ _ _ _) fun _ => trivial)

variable {post : β → World × Journal → Prop}

theorem Keeping.safe_ask {f : c.Reply → Prog β} (hc : Q c)
    (hf : ∀ s1 x s2, Recorded s1 → X s1 → Advances s s1 →
      s1.2.readings t = s.2.readings t → exec t c s1 x s2 → Advances s1 s2 →
      Safe exec (tracked X) t post (f x) s2) :
    Safe exec (tracked X) t post (call c >>= f) s := by
  intro s1 hr hi x s2 hx
  have ha := hK.allowed hc hi hx
  exact ⟨ha, hf s1 x s2 hi.1 hi.2 hr.1 hr.2 hx ha.evolves⟩

theorem Keeping.safe_verified {flow : OIDCFlow} {id : Identity} {f : c.Reply → Prog β} (hc : Q c)
    (ho : ¬ Opens c)
    (hv : Verified P visit t flow id s)
    (hf : ∀ s1 x s2, Recorded s1 → exec t c s1 x s2 → Advances s s1 → Advances s1 s2 →
      Verified P visit t flow id s2 → Safe exec (tracked X) t post (f x) s2) :
    Safe exec (tracked X) t post (call c >>= f) s := by
  refine hK.safe_ask hc fun s1 x s2 hrc _ ha hr hx ha' => ?_
  have hv1 : Verified P visit t flow id s1 := hv.mono ha (by rw [hr]; exact List.Subset.refl _)
  refine hf s1 x s2 hrc hx ha ha' (hv1.mono ha' ?_)
  rw [(hK.step hx).2]
  exact Journal.readings_mono ho x s1.2

/-- An accepted cookie opens to a flow that was live at a reading of this visit. -/
theorem Keeping.safe_readOIDCCookie (r : Request) :
    Safe exec (tracked X) t (fun o s => ∀ flow, o = some flow →
        (∃ v writer text, r.cookie oidcCookie = some v ∧ s.1.lookup v = some (writer, text) ∧
          OIDCFlow.unmarshal text = some flow) ∧
        flow.state ≠ "" ∧ ∃ now ∈ s.2.readings t, unix now < flow.expires)
      (readOIDCCookie r) s := by
  unfold readOIDCCookie readCookie
  split
  · simp
  rename_i v hv
  refine hK.safe_ask (hK.passive _ trivial) fun s1 plain s2 _ _ _ _ hx _ => ?_
  obtain ⟨hp, hw⟩ := exec_cipherOpen.mp (hK.step hx).1.1
  cases he : s1.1.lookup v with
  | none =>
    rw [hp, he]
    simp
  | some entry =>
    rw [hp, he, Option.map_some]
    dsimp only
    split
    · simp
    rename_i flow hf
    split
    · simp
    rename_i ho
    refine hK.safe_ask (hK.passive _ trivial) fun s3 now s4 _ _ ha _ hx' ha' => ?_
    simp only [pure_eq, safe_done]
    intro flow' hf'
    split at hf'
    · cases hf'
    rename_i hep
    cases hf'
    have hl : s2.1.lookup v = some entry := hw ▸ he
    refine ⟨⟨v, entry.1, entry.2, hv, ha'.sealed (ha.sealed hl), hf⟩, ?_, now, ?_,
      Int64.not_le.mp hep⟩
    · simpa using ho
    · simp [(hK.step hx').2, Journal.record]

/-- The callback is safe if what it does for a verified identity is. -/
theorem Keeping.safe_handleOIDCCallback
    (hst : ∀ flow id clear s, flow.reauth = true → Verified P visit t flow id s →
      Safe exec (tracked X) t (fun _ _ => True)
        (completeOIDCStepUp (visit t).request flow id clear) s)
    (hlg : ∀ flow id clear s, flow.reauth = false → Verified P visit t flow id s →
      Safe exec (tracked X) t (fun _ _ => True) (completeOIDCLogin (visit t).request id clear) s) :
    Safe exec (tracked X) t (fun _ _ => True)
      (handleOIDCCallback P (visit t).deployment.server (visit t).request) s := by
  unfold handleOIDCCallback
  split
  · trivial
  rename_i idp hi
  refine Safe.bind ((hK.safe_readOIDCCookie _).mono fun cookie s hc => ?_)
  dsimp only
  split
  · exact hK.safe_audited
  split
  · exact hK.safe_audited
  rename_i flow
  obtain ⟨hsl, hne, hlv⟩ := hc flow rfl
  split
  · exact hK.safe_audited
  rename_i hs
  split
  · exact hK.safe_audited
  refine hK.safe_ask (hK.passive _ trivial) fun s1 x s2 _ _ had hrd hx ha' => ?_
  cases x with
  | none => exact hK.safe_audited
  | some id =>
    dsimp only
    split
    · exact hK.safe_audited
    rename_i ha
    simp only [Bool.or_eq_true, decide_eq_true_eq, not_or, not_not] at hs
    have hr2 : s2.2.readings t = s.2.readings t := by
      rw [(hK.step hx).2]
      exact hrd
    obtain ⟨v, writer, text, hv, hl, hf⟩ := hsl
    have hvr : Verified P visit t flow id s2 :=
      ⟨⟨v, writer, text, hv, ha'.sealed (had.sealed hl), hf⟩,
        hr2 ▸ hlv, ⟨hne, hs.2⟩, (hK.step hx).1.2, idp, hi, by simpa using ha⟩
    split
    · rename_i hr
      exact hst flow id _ s2 hr hvr
    · rename_i hr
      exact hlg flow id _ s2 (by simpa using hr) hvr

end Walk

/-- A callback looks up no user whose row was stored under another issuer than the one
configured for it. -/
def SameIssuer (v : Visit) : (c : Call) → c.Reply → Prop
  | .store (.getUserByID _), .ok user => v.job = .serve .oidcCallback →
    ∀ issuer subject, user.oidc = some (issuer, subject) → issuer = v.deployment.provider.issuer
  | _, _ => True

/-- Visits with fresh tokens, where each callback meets the issuer its users were stored
under. -/
def steadyVisits (P : Primitives) (visit : ℕ → Visit) (faulty : Bool) :
    System dashboard (World × Journal) ℕ Outcome :=
  (freshVisits P visit faulty).restrict fun t c _ x => SameIssuer (visit t) c x

/-- What a run on fixed inputs has to respect: the token of the visit, fresh session
tokens, and with `steady` the issuer of the rows that are looked up. -/
def permits (steady : Bool) (v : Visit) :
    (c : Call) → World × Journal → c.Reply → World × Journal → Bool
  | .exchangeOIDC _ nonce _, _, some id, _ =>
    v.token.bind (exchange v.deployment.provider nonce) = some id
  | .store (.createSession tokenHash _ _), s, _, _ =>
    s.2.created.all fun m => m.tokenHash ≠ tokenHash
  | .store (.getUserByID _), _, .ok user, _ =>
    !steady || user.oidc.all fun link => link.1 = v.deployment.provider.issuer
  | _, _, _, _ => true

def visitMachine (faulty steady : Bool) (v : Visit) (t : ℕ) :
    Machine dashboard (World × Journal) :=
  ((machine samplePrimitives faulty).logging (Journal.record t)).guard (permits steady v)

theorem exec_visitMachine {steady : Bool} {c : Call} {x : c.Reply}
    (h : (visitMachine faulty steady (visit t) t).exec c s x s') :
    (journaled samplePrimitives visit faulty).exec t c s x s' ∧ FreshToken c s ∧
      (steady = true → SameIssuer (visit t) c x) := by
  obtain ⟨he, hok⟩ := (Machine.exec_guard _).mp h
  obtain ⟨hmc, hlg⟩ := Machine.exec_logging _ he
  unfold permits at hok
  refine ⟨⟨⟨hmc, ?_⟩, hlg⟩, ?_, ?_⟩
  · unfold Visit.Redeems
    split
    · simpa [Option.bind_eq_some_iff] using hok
    · trivial
  · rintro tokenHash userId expiresAt rfl m hm
    simpa using all_eq_true.mp hok m hm
  intro hs
  unfold SameIssuer
  split
  · intro _ issuer subject hl
    simpa [hs, hl] using hok
  · trivial

def deployedWith (issuer : String) : Deployment where
  server := { sampleConfig with
    oidc := some { allowedEmails := [], allowedGroups := ["admins"], authCodeURL := fun _ _ _ _ => "/idp" } }
  provider := ⟨issuer, "groups"⟩

theorem deployedWith_unverified (issuer : String) (tok : IDToken) (h : none = some tok) :
    tok.issuer = (deployedWith issuer).provider.issuer := by
  cases h

def memberToken (issuer : String) : IDToken where
  issuer := issuer
  subject := "1"
  nonce := "n"
  claims name := if name = "groups" then .string "admins" else .null

/-- A sign-in with the provider at `before`, then a step-up of that session with the
provider at `now`. -/
def sampleVisits (before now : String) : ℕ → Visit
  | 0 => ⟨deployedWith before, anonymousRequest, .serve .oidcLogin, none, nofun⟩
  | 1 => ⟨deployedWith before,
      { anonymousRequest with
        cookies := [(oidcCookie, "v1:")], query := [("state", "s"), ("code", "c")] },
      .serve .oidcCallback, some (memberToken before), by rintro _ ⟨⟩; rfl⟩
  | 2 => ⟨deployedWith now,
      { anonymousRequest with cookies := [(sessionCookie, "k")], query := [("stepup", "1")] },
      .serve .oidcLogin, none, nofun⟩
  | _ => ⟨deployedWith now,
      { anonymousRequest with
        cookies := [(oidcCookie, "v1:x")], query := [("state", "s"), ("code", "c")] },
      .serve .oidcCallback, some (memberToken now), by rintro _ ⟨⟩; rfl⟩

def visitPick (v : Visit) : (c : Call) → World × Journal → c.Choice
  | .exchangeOIDC _ nonce _, _ => v.token.bind (exchange v.deployment.provider nonce)
  | .newSessionToken, _ => some "k"
  | c, s => samplePick 0 c s.1

def afterVisit (steady : Bool) (visit : ℕ → Visit) (s : World × Journal) (t : ℕ) : World × Journal :=
  (visitMachine false steady (visit t) t).after (visitPick (visit t)) ((visit t).program samplePrimitives) s

def afterVisits (steady : Bool) (visit : ℕ → Visit) (ts : List ℕ) : World × Journal :=
  ts.foldl (afterVisit steady visit) (emptyWorld, Journal.empty)

theorem steps_afterVisits (M : System dashboard (World × Journal) ℕ Outcome) (steady : Bool)
    (he : ∀ t c s x s', (visitMachine false steady (visit t) t).exec c s x s' → M.exec t c s x s')
    (hs : ∀ t, M.starts t ((visit t).program samplePrimitives)) (ts : List ℕ) :
    M.Steps (Config.idle (emptyWorld, Journal.empty)) (Config.idle (afterVisits steady visit ts)) :=
  System.steps_idle_after _ (fun t => visitPick (visit t)) _ he hs ts _

theorem emptyWorld_fresh : emptyWorld.db.Fresh := ⟨rfl, rfl⟩

section SignIn

variable {w₁ w₂ : World} {issuer subject : String} {user : User}

theorem standsFor_of_getUserByOIDC (hi : w₁.db.Identified)
    (hx : (machine P faulty).exec (.store (.getUserByOIDC issuer subject)) w₁ (.ok user) w₂) :
    w₂.db.StandsFor user.id (some (issuer, subject)) := by
  obtain ⟨hdb, hm, hl⟩ := mem_of_getUserByOIDC hx
  have hi2 : w₂.db.Identified := hdb ▸ hi
  exact hi2.standsFor (hl ▸ Db.mem_identities hm)

theorem standsFor_of_createOIDCUser {username : Option String} (hi : w₁.db.Identified)
    (hx : (machine P faulty).exec (.store (.createOIDCUser username issuer subject)) w₁ (.ok user)
      w₂) : w₂.db.StandsFor user.id (some (issuer, subject)) := by
  have hi2 : w₂.db.Identified := (exec_relinks hx).identified hi
  obtain ⟨now, ⟨hr, hdb⟩ | ⟨hr, -⟩⟩ := exec_store hx
  · simp only [StoreCall.run, Db.createOIDCUser] at hr hdb
    split at hr
    · cases hr
    obtain ⟨hn, hm⟩ := Db.mem_insertUser hr.symm
    have hl : user.oidc = some (issuer, subject) := by rw [hn]
    rw [← hdb] at hm
    exact hi2.standsFor (hl ▸ Db.mem_identities hm)
  · cases hr

structure SignedIn (P : Primitives) (visit : ℕ → Visit) (m : Creation) (flow : OIDCFlow)
    (id : Identity) (s : World × Journal) : Prop where
  cookie : ∃ v writer text, (visit m.thread).request.cookie oidcCookie = some v ∧
    s.1.lookup v = some (writer, text) ∧ OIDCFlow.unmarshal text = some flow
  live : ∃ now ∈ m.readings, unix now < flow.expires
  login : flow.reauth = false
  state : flow.state ≠ "" ∧ (visit m.thread).request.param "state" = flow.state
  token : ∃ token, (visit m.thread).token = some token ∧
    exchange (visit m.thread).deployment.provider flow.nonce token = some id
  allowed : ∃ idp, (visit m.thread).deployment.server.oidc = some idp ∧ idp.authorize P id = true
  user : s.1.db.StandsFor m.userId (some (id.issuer, id.subject))

theorem SignedIn.advances {m : Creation} {flow : OIDCFlow} {id : Identity}
    (h : SignedIn P visit m flow id s) (ha : Advances s s') : SignedIn P visit m flow id s' := by
  obtain ⟨v, writer, text, hv, hl, hf⟩ := h.cookie
  exact ⟨⟨v, writer, text, hv, ha.sealed hl, hf⟩, h.live, h.login, h.state, h.token,
    h.allowed, ha.standsFor h.user⟩

/-- Every session that a callback created has that behind it. -/
def AllSignedIn (P : Primitives) (visit : ℕ → Visit) (s : World × Journal) : Prop :=
  ∀ m ∈ s.2.created, (visit m.thread).job = .serve .oidcCallback →
    ∃ flow id, SignedIn P visit m flow id s

theorem allSignedIn_step {c : Call} {x : c.Reply} (hX : AllSignedIn P visit s)
    (ha : Advances s s') (hj : s'.2 = s.2.record t c x)
    (hn : ∀ m expiresAt, (visit t).job = .serve .oidcCallback → m.thread = t →
      m.readings = s.2.readings t → c = .store (.createSession m.tokenHash m.userId expiresAt) →
      ∃ flow id, SignedIn P visit m flow id s') : AllSignedIn P visit s' := by
  intro m hm hjb
  rcases Journal.mem_created_record (hj ▸ hm) with hold | ⟨ht, hr, expiresAt, hc⟩
  · obtain ⟨flow, id, h⟩ := hX m hold hjb
    exact ⟨flow, id, h.advances ha⟩
  · exact hn m expiresAt (ht ▸ hjb) ht hr hc

variable (P visit faulty t) in
theorem keeping_mintsNothing : Keeping P visit faulty (journaled P visit faulty).exec t
    (AllSignedIn P visit) MintsNothing where
  step h := h
  passive _ h := mintsNothing_of_quiet h.quiet
  keeps hc hx hadv hX := by
    refine allSignedIn_step hX hadv hx.2 fun m expiresAt _ _ _ hcl => ?_
    rw [hcl] at hc
    exact hc.elim

variable (P faulty) in
theorem keeping_others (ht : (visit t).job ≠ .serve .oidcCallback) :
    Keeping P visit faulty (journaled P visit faulty).exec t (AllSignedIn P visit)
      (fun _ => True) where
  step h := h
  passive _ _ := trivial
  keeps _ hx hadv hX := allSignedIn_step hX hadv hx.2 fun _ _ hj _ _ _ => absurd hj ht

abbrev SafeSignIn (P : Primitives) (visit : ℕ → Visit) (faulty : Bool) (t : ℕ)
    (post : α → World × Journal → Prop) (p : Prog α) (s : World × Journal) : Prop :=
  Safe (journaled P visit faulty).exec (tracked (AllSignedIn P visit)) t post p s

variable {flow : OIDCFlow} {id : Identity}

/-- The user of a verified identity is found or provisioned under its issuer and subject. -/
theorem safe_resolveOIDCUser_verified (hv : Verified P visit t flow id s) :
    SafeSignIn P visit faulty t (fun x s => Verified P visit t flow id s ∧
        ∀ uid name, x = .ok (uid, name) → s.1.db.StandsFor uid (some (id.issuer, id.subject)))
      (resolveOIDCUser id) s := by
  have hK := keeping_mintsNothing P visit faulty t
  refine hK.safe_verified trivial not_false hv fun s1 x s2 hr hx _ _ hv => ?_
  split
  · rename_i user
    refine ⟨hv, fun uid name heq => ?_⟩
    cases heq
    exact standsFor_of_getUserByOIDC hr.identified hx.1.1
  · refine hK.safe_verified trivial not_false hv fun s1 x s2 hr hx _ _ hv => ?_
    split
    · refine ⟨hv, fun uid name heq => ?_⟩
      cases heq
      exact standsFor_of_createOIDCUser hr.identified hx.1.1
    refine hK.safe_verified trivial not_false hv fun s1 x s2 hr hx _ _ hv => ?_
    split
    · refine ⟨hv, fun uid name heq => ?_⟩
      cases heq
      exact standsFor_of_getUserByOIDC hr.identified hx.1.1
    · exact ⟨hv, fun _ _ heq => nomatch heq⟩
  · exact ⟨hv, fun _ _ heq => nomatch heq⟩

/-- A session may be created for the user that a verified identity stands for. -/
theorem safe_mintSession_verified {uid : Int} (hlg : flow.reauth = false)
    (hv : Verified P visit t flow id s) (hu : s.1.db.StandsFor uid (some (id.issuer, id.subject))) :
    SafeSignIn P visit faulty t (fun _ _ => True) (mintSession uid) s := by
  have hK := keeping_mintsNothing P visit faulty t
  refine hK.safe_verified trivial not_false hv fun s1 x s2 _ _ ha ha' hv => ?_
  have hu := ha'.standsFor (ha.standsFor hu)
  split
  · trivial
  refine hK.safe_verified trivial not_false hv fun s1 now s2 _ _ ha ha' hv => ?_
  have hu := ha'.standsFor (ha.standsFor hu)
  intro s3 hr hi x s4 hx
  have hv3 : Verified P visit t flow id s3 :=
    hv.mono hr.1 (by rw [hr.2]; exact List.Subset.refl _)
  refine ⟨allowed_tracked hx hi.1 fun had => ?_, by cases x <;> trivial⟩
  refine allSignedIn_step hi.2 had hx.2 fun m expiresAt _ ht hrd hcl => ?_
  cases hcl
  subst ht
  obtain ⟨v, writer, text, hc, hl, hf⟩ := hv3.cookie
  exact ⟨flow, id, ⟨v, writer, text, hc, had.sealed hl, hf⟩, hrd ▸ hv3.live,
    hlg, hv3.state, hv3.token, hv3.allowed, had.standsFor (hr.1.standsFor hu)⟩

theorem safe_completeOIDCLogin_verified {r : Request} {clear : Cookie} (hl : flow.reauth = false)
    (hv : Verified P visit t flow id s) :
    SafeSignIn P visit faulty t (fun _ _ => True) (completeOIDCLogin r id clear) s := by
  have hK := keeping_mintsNothing P visit faulty t
  refine Safe.bind ((safe_resolveOIDCUser_verified hv).mono fun user s h => ?_)
  split
  · exact hK.safe_audited
  · refine Safe.bind ((safe_mintSession_verified hl h.1 (h.2 _ _ rfl)).mono fun raw s _ => ?_)
    split <;> exact hK.safe_audited

/-- Every session of a callback has a verified identity behind it. -/
theorem journaled_respects_signIn : (journaled P visit faulty).Respects
    (tracked (AllSignedIn P visit)) (fun _ _ _ => True) where
  lasts := fun _ _ _ _ _ _ => trivial
  starts := by
    rintro t _ s rfl -
    by_cases hj : (visit t).job = .serve .oidcCallback
    · have hK := keeping_mintsNothing P visit faulty t
      simp only [Visit.program, hj]
      refine Safe.bind ((hK.safe_handleOIDCCallback ?_ ?_).mono fun _ _ _ => trivial)
      · exact fun flow id clear s _ _ =>
          hK.safe (only_completeOIDCStepUp hK.passive (fun _ => trivial) _ _ _)
      · exact fun flow id clear s hl hv => safe_completeOIDCLogin_verified hl hv
    have hK := keeping_others P faulty hj
    exact hK.safe (only_visit hK.passive fun route _ =>
      only_serve hK.passive (fun _ _ _ => trivial) (fun _ _ _ => trivial) (fun _ => trivial)
        (fun _ _ _ => trivial) route)
  env := fun _ h => h.1.elim
  restart := by
    rintro ⟨w, j⟩ ⟨w', j'⟩ hi ⟨h, h'⟩
    cases h
    cases h'
    exact ⟨hi, .refl _⟩

/-- Every sealed string holds what its writer wrote. -/
theorem journaled_respects_sealed : (journaled P visit faulty).Respects
    (Discipline.invariant fun s => SealedByWriters s.1) (fun _ _ _ => True) where
  lasts := fun _ _ _ _ _ _ => trivial
  starts := by
    rintro t _ s rfl -
    exact safe_of_only (R := fun _ => True)
      (fun c s x s' hc hi _ hx =>
        ⟨sealedByWriters_exec hc hi hx.1.1, trivial, fun _ _ => trivial⟩)
      (fun _ _ h _ => h) (fun _ _ h _ => h)
      (only_visit (fun _ => sealsOwn_of_passive) fun route _ => serve_sealsOwn _ route) trivial
  env := fun _ h => h.1.elim
  restart := by
    rintro s s' hi ⟨h, -⟩
    refine ⟨?_, trivial⟩
    change SealedByWriters s'.1
    rw [h]
    exact hi

/-- Only the OIDC flow seals a document with a state and a nonce. -/
theorem flow_of_nonce {writer : Writer} {text : String} (hw : Wrote writer text)
    (hf : OIDCFlow.unmarshal text = some flow) (hs : flow.state ≠ "") (hn : flow.nonce ≠ "") :
    writer = .oidc ∧ text = flow.marshal := by
  cases writer with
  | challenge _ =>
    obtain ⟨ch, -, rfl⟩ := hw
    rw [OIDCFlow.unmarshal_challenge] at hf
    cases hf
    exact absurd rfl hs
  | oidc =>
    obtain ⟨f, rfl⟩ := hw
    rw [OIDCFlow.unmarshal_oidcFlow] at hf
    cases hf
    exact ⟨rfl, rfl⟩
  | github =>
    obtain ⟨f, rfl⟩ := hw
    rw [OIDCFlow.unmarshal_githubFlow] at hf
    cases hf
    exact absurd rfl hn
  | totpSeed =>
    have := (unmarshal_seed OIDCFlow.fields OIDCFlow.zero hw).symm.trans hf
    cases this

/-- In every run from a fresh store, every session in the store was created by some visit
for an existing user. One that an OIDC callback created comes from a cookie the OIDC flow
sealed for a sign-in and that had not expired by the callback's clock; the query carried
its state, the token its nonce, the allowlist admitted the identity, and the user's row
is linked to the issuer and subject of that token. -/
theorem oidc_callback_session_integrity {w₀ : World}
    {c : Config dashboard (World × Journal) ℕ Outcome} (hfresh : w₀.db.Fresh)
    (hsealed : w₀.sealed = [])
    (hc : (journaled P visit faulty).Steps (Config.idle (w₀, Journal.empty)) c) :
    (∀ sess ∈ c.shared.1.db.sessions, (∃ u ∈ c.shared.1.db.users, u.id = sess.userId) ∧
      ∃ m ∈ c.shared.2.created, m.tokenHash = sess.tokenHash ∧ m.userId = sess.userId) ∧
    ∀ m ∈ c.shared.2.created, (visit m.thread).job = .serve .oidcCallback →
      ∃ (v : String) (flow : OIDCFlow) (token : IDToken) (id : Identity) (idp : Authenticator),
        (visit m.thread).request.cookie oidcCookie = some v ∧
        c.shared.1.lookup v = some (.oidc, flow.marshal) ∧ flow.reauth = false ∧
        (∃ now ∈ m.readings, unix now < flow.expires) ∧
        (visit m.thread).request.param "state" = flow.state ∧ flow.state ≠ "" ∧
        (visit m.thread).token = some token ∧ token.nonce = flow.nonce ∧ flow.nonce ≠ "" ∧
        exchange (visit m.thread).deployment.provider flow.nonce token = some id ∧
        (visit m.thread).deployment.server.oidc = some idp ∧ idp.authorize P id = true ∧
        ∀ u ∈ c.shared.1.db.users, u.id = m.userId → u.oidc = some (token.issuer, token.subject) := by
  have hstart : (tracked (AllSignedIn P visit)).inv (w₀, Journal.empty) :=
    ⟨hfresh.recorded, fun _ hm => absurd hm not_mem_nil⟩
  have hnone : (Discipline.invariant (τ := ℕ) fun s : World × Journal => SealedByWriters s.1).inv
      (w₀, Journal.empty) := fun e he => by simp [hsealed] at he
  obtain ⟨hrec, hsigned⟩ :=
    (System.reachable_good journaled_respects_signIn (System.good_idle hstart) hc).1.inv
  have hwrote : SealedByWriters c.shared.1 :=
    (System.reachable_good journaled_respects_sealed (System.good_idle hnone) hc).1.inv
  constructor
  · intro sess hsess
    have howner := Db.mem_owners hsess
    obtain ⟨q, hq, hid⟩ := hrec.referenced _ howner
    obtain ⟨u, hu, rfl⟩ := mem_map.mp hq
    exact ⟨⟨u, hu, hid⟩, hrec.created _ howner⟩
  intro m hm hjob
  obtain ⟨flow, id, h⟩ := hsigned m hm hjob
  obtain ⟨v, writer, text, hv, hlookup, hflow⟩ := h.cookie
  obtain ⟨token, htoken, hid⟩ := h.token
  obtain ⟨idp, hidp, hauth⟩ := h.allowed
  obtain ⟨hnonce, heq, hissuer, hsubject⟩ := exchange_eq_some hid
  obtain ⟨rfl, rfl⟩ := flow_of_nonce (hwrote.wrote hlookup) hflow h.state.1 hnonce
  refine ⟨v, flow, token, id, idp, hv, hlookup, h.login, h.live, h.state.2, h.state.1, htoken, heq,
    hnonce, hid, hidp, hauth, ?_⟩
  intro u hu hui
  have hlink := h.user.linked _ (Db.mem_identities hu) hui
  rwa [hissuer, hsubject, ← (visit m.thread).verified token htoken] at hlink

/-- A sign-in leaves a session of the identity in the token. -/
theorem member_signs_in :
    ∃ m ∈ (afterVisits false (sampleVisits "A" "A") [0, 1]).2.created, m.tokenHash = "k" ∧
      ∀ u ∈ (afterVisits false (sampleVisits "A" "A") [0, 1]).1.db.users, u.id = m.userId →
        u.oidc = some ("A", "1") := by
  have hsteps := steps_afterVisits (journaled samplePrimitives (sampleVisits "A" "A") false) false
    (fun _ _ _ _ _ h => (exec_visitMachine h).1) (fun _ => rfl) [0, 1]
  have hcreated : (afterVisits false (sampleVisits "A" "A") [0, 1]).2.created.map
      (fun m => (m.thread, m.tokenHash)) = [(1, "k")] := by decide +kernel
  have hkeys := mem_singleton_self (1, "k")
  rw [← hcreated] at hkeys
  obtain ⟨m, hm, hkey⟩ := mem_map.mp hkeys
  obtain ⟨hthread, hhash⟩ := Prod.mk.inj hkey
  have hjob : (sampleVisits "A" "A" m.thread).job = .serve .oidcCallback := by rw [hthread]; rfl
  have hsound := (oidc_callback_session_integrity emptyWorld_fresh rfl hsteps).2
  simp only [Config.idle] at hsound
  obtain ⟨v, flow, token, id, idp, -, -, -, -, -, -, htoken, -, -, -, -, -, hrow⟩ :=
    hsound m hm hjob
  have hmember : some (memberToken "A") = some token := by rwa [hthread] at htoken
  cases hmember
  exact ⟨m, hm, hhash, hrow⟩

/-- An id never passes to another identity, not even once its user is gone. -/
theorem user_id_keeps_identity {w₀ : World} {c c' : Config dashboard (World × Journal) ℕ Outcome}
    {u u' : User} (hfresh : w₀.db.Fresh)
    (hc : (journaled P visit faulty).Steps (Config.idle (w₀, Journal.empty)) c)
    (hc' : (journaled P visit faulty).Steps c c') (hu : u ∈ c.shared.1.db.users)
    (hu' : u' ∈ c'.shared.1.db.users) (hid : u'.id = u.id) : u'.oidc = u.oidc := by
  have hstart : (tracked (AllSignedIn P visit)).inv (w₀, Journal.empty) :=
    ⟨hfresh.recorded, fun _ hm => absurd hm not_mem_nil⟩
  have hgood := (System.reachable_good journaled_respects_signIn (System.good_idle hstart) hc).1
  have hev := (System.reachable_good journaled_respects_signIn hgood hc').2
  have hstands := hgood.inv.1.identified.standsFor (Db.mem_identities hu)
  exact (hev.standsFor hstands).linked _ (Db.mem_identities hu') hid

/-- A member signs in, and an enrollment is begun and abandoned for another one. -/
def abandonedVisits : ℕ → Visit
  | 0 => sampleVisits "A" "A" 0
  | 1 => sampleVisits "A" "A" 1
  | 2 => ⟨deployedWith "A", anonymousRequest,
      .serve (.redeem (some ⟨"", "first", "correct horse"⟩)), none, deployedWith_unverified "A"⟩
  | _ => ⟨deployedWith "A", anonymousRequest,
      .serve (.redeem (some ⟨"", "second", "correct horse"⟩)), none, deployedWith_unverified "A"⟩

/-- The second enrollment deletes the first admin, whose id is not given again; the member is
found as before. -/
theorem member_keeps_identity :
    let before := (afterVisits false abandonedVisits [0, 1, 2]).1.db.users
    let after := (afterVisits false abandonedVisits [0, 1, 2, 3]).1.db.users
    before.map User.id = [1, 2] ∧ after.map User.id = [1, 3] ∧
      ∀ u ∈ before, ∀ u' ∈ after, u'.id = u.id → u'.oidc = u.oidc := by
  let M := journaled samplePrimitives abandonedVisits false
  have hexec : ∀ t c s x s', (visitMachine false false (abandonedVisits t) t).exec c s x s' →
      M.exec t c s x s' := fun _ _ _ _ _ h => (exec_visitMachine h).1
  have hbefore := steps_afterVisits M false hexec (fun _ => rfl) [0, 1, 2]
  have hafter := System.steps_idle_after _ (fun t => visitPick (abandonedVisits t)) _ hexec
    (fun _ => rfl) [3] (afterVisits false abandonedVisits [0, 1, 2])
  refine ⟨by decide +kernel, by decide +kernel, fun u hu u' hu' => ?_⟩
  exact user_id_keeps_identity emptyWorld_fresh hbefore hafter hu hu'

end SignIn

/-- A token stands for one user, and a session that a callback marked belongs to the
identity the callback verified. -/
structure MarksBound (visit : ℕ → Visit) (s : World × Journal) : Prop where
  functional : ∀ m ∈ s.2.created, ∀ m' ∈ s.2.created, m.tokenHash = m'.tokenHash →
    m.userId = m'.userId
  marks : ∀ e ∈ s.2.marked, (visit e.1).job = .serve .oidcCallback →
    ∃ token, (visit e.1).token = some token ∧ ∃ m ∈ s.2.created, m.tokenHash = e.2 ∧
      s.1.db.StandsFor m.userId (some (token.issuer, token.subject))

/-- A step adds at most one session, under a fresh token, and at most one mark. -/
theorem marksBound_step {c : Call} {x : c.Reply} (hX : MarksBound visit s) (ha : Advances s s')
    (hf : FreshToken c s) (hj : s'.2 = s.2.record t c x)
    (hn : ∀ tokenHash, (visit t).job = .serve .oidcCallback →
      c = .store (.markSessionReauth tokenHash) →
      ∃ token, (visit t).token = some token ∧ ∃ m ∈ s.2.created, m.tokenHash = tokenHash ∧
        s.1.db.StandsFor m.userId (some (token.issuer, token.subject))) : MarksBound visit s' := by
  constructor
  · intro m hm m' hm' heq
    rcases Journal.mem_created_record (hj ▸ hm) with hold | ⟨-, -, e, hc⟩ <;>
      rcases Journal.mem_created_record (hj ▸ hm') with ho' | ⟨-, -, e', hc'⟩
    · exact hX.functional m hold m' ho' heq
    · exact absurd heq (hf _ _ _ hc' m hold)
    · exact absurd heq.symm (hf _ _ _ hc m' ho')
    rw [hc] at hc'
    simp only [Call.store.injEq, StoreCall.createSession.injEq] at hc'
    exact hc'.2.1
  · intro e he hjb
    have hmr : ∃ token, (visit e.1).token = some token ∧ ∃ m ∈ s.2.created, m.tokenHash = e.2 ∧
        s.1.db.StandsFor m.userId (some (token.issuer, token.subject)) := by
      rcases Journal.mem_marked_record (hj ▸ he) with hold | ⟨ht, hc⟩
      · exact hX.marks e hold hjb
      · rw [ht] at hjb ⊢
        exact hn e.2 hjb hc
    obtain ⟨token, htk, m, hm, heq, hs⟩ := hmr
    exact ⟨token, htk, m, ha.created hm, heq, ha.standsFor hs⟩

def MarksNothing : Call → Prop
  | .store (.markSessionReauth _) => False
  | _ => True

theorem marksNothing_of_passive {c : Call} (h : Passive c) : MarksNothing c := by
  unfold MarksNothing
  split
  · exact h
  · trivial

variable (P visit faulty t) in
theorem keeping_marksNothing : Keeping P visit faulty (steadyVisits P visit faulty).exec t
    (MarksBound visit) MarksNothing where
  step h := h.2.2
  passive _ := marksNothing_of_passive
  keeps hc hx hadv hX := by
    refine marksBound_step hX hadv hx.2.1 hx.2.2.2 fun tokenHash _ hcl => ?_
    rw [hcl] at hc
    exact hc.elim

variable (P faulty) in
theorem keeping_unmarked (ht : (visit t).job ≠ .serve .oidcCallback) :
    Keeping P visit faulty (steadyVisits P visit faulty).exec t (MarksBound visit)
      (fun _ => True) where
  step h := h.2.2
  passive _ _ := trivial
  keeps _ hx hadv hX := marksBound_step hX hadv hx.2.1 hx.2.2.2 fun _ hj => absurd hj ht

theorem mem_of_getSession {w₁ w₂ : World} {tokenHash : String} {sess : Session}
    (hx : (machine P faulty).exec (.store (.getSession tokenHash)) w₁ (.ok sess) w₂) :
    sess ∈ w₁.db.sessions ∧ sess.tokenHash = tokenHash := by
  obtain ⟨now, ⟨hr, -⟩ | ⟨hr, -⟩⟩ := exec_store hx
  · simp only [StoreCall.run, Db.getSession] at hr
    generalize hf : w₁.db.sessions.find? _ = found at hr
    cases found with
    | none => cases hr
    | some found =>
      cases hr
      have hk := find?_some hf
      simp only [decide_eq_true_eq] at hk
      exact ⟨mem_of_find?_eq_some hf, hk.1⟩
  · cases hr

theorem findUser_of_getUserByID {w₁ w₂ : World} {id : Int} {user : User}
    (hx : (machine P faulty).exec (.store (.getUserByID id)) w₁ (.ok user) w₂) :
    user ∈ w₁.db.users ∧ user.id = id := by
  obtain ⟨now, ⟨hr, -⟩ | ⟨hr, -⟩⟩ := exec_store hx
  · simp only [StoreCall.run, Db.getUserByID] at hr
    cases hf : w₁.db.findUser id with
    | none => simp [hf, Db.orNoRows] at hr
    | some u =>
      simp only [hf, Db.orNoRows, Except.ok.injEq] at hr
      exact hr ▸ Db.mem_of_findUser hf
  · cases hr

/-- A step-up for a verified identity marks a session of that identity. -/
theorem safe_completeOIDCStepUp {flow : OIDCFlow} {id : Identity} {clear : Cookie}
    (hj : (visit t).job = .serve .oidcCallback) (hv : Verified P visit t flow id s) :
    Safe (steadyVisits P visit faulty).exec (tracked (MarksBound visit)) t (fun _ _ => True)
      (completeOIDCStepUp (visit t).request flow id clear) s := by
  have hK := keeping_marksNothing P visit faulty t
  obtain ⟨token, ht, hid⟩ := hv.token
  obtain ⟨-, -, -, hsb⟩ := exchange_eq_some hid
  unfold completeOIDCStepUp
  split
  · exact hK.safe_audited
  refine hK.safe_ask trivial fun s1 sess s2 hrc _ _ _ hx ha => ?_
  cases sess with
  | error e => exact hK.safe_audited
  | ok sess =>
    obtain ⟨hss, hh⟩ := mem_of_getSession (hK.step hx).1.1
    obtain ⟨m, hm, hmh, hms⟩ : ∃ m ∈ s1.2.created, m.tokenHash = sess.tokenHash ∧
        m.userId = sess.userId := hrc.created _ (Db.mem_owners hss)
    have hm := ha.created hm
    dsimp only
    split
    · exact hK.safe_audited
    refine hK.safe_ask trivial fun s3 user s4 hrc _ ha _ hx ha' => ?_
    cases user with
    | error e => trivial
    | ok user =>
      obtain ⟨hu, hud⟩ := findUser_of_getUserByID (hK.step hx).1.1
      have hs := hrc.identified.standsFor (Db.mem_identities hu)
      dsimp only
      split
      · exact hK.safe_audited
      rename_i hc
      simp only [Bool.or_eq_true, decide_eq_true_eq, not_or, not_not] at hc
      obtain ⟨⟨issuer, subject⟩, hl, hsu⟩ := Option.map_eq_some_iff.mp hc.1
      have his : issuer = token.issuer :=
        (hx.1 hj issuer subject hl).trans ((visit t).verified token ht).symm
      rw [hl, his, show subject = token.subject from hsu.trans hsb, hud,
        ← hms] at hs
      intro s5 hr hi x s6 hx'
      refine ⟨allowed_tracked (hK.step hx') hi.1 fun ha6 => ?_, ?_⟩
      · refine marksBound_step hi.2 ha6 hx'.2.1 hx'.2.2.2 fun tokenHash _ hcl => ?_
        cases hcl
        exact ⟨token, ht, m, hr.1.created (ha'.created (ha.created hm)),
          hmh.trans hh, hr.1.standsFor (ha'.standsFor hs)⟩
      · cases x <;> exact hK.safe_audited

/-- A session that a callback marked belongs to the identity it verified. -/
theorem steadyVisits_respects : (steadyVisits P visit faulty).Respects
    (tracked (MarksBound visit)) (fun _ _ _ => True) where
  lasts := fun _ _ _ _ _ _ => trivial
  starts := by
    rintro t _ s rfl -
    by_cases hj : (visit t).job = .serve .oidcCallback
    · have hK := keeping_marksNothing P visit faulty t
      simp only [Visit.program, hj]
      refine Safe.bind ((hK.safe_handleOIDCCallback ?_ ?_).mono fun _ _ _ => trivial)
      · exact fun flow id clear s _ hv => safe_completeOIDCStepUp hj hv
      · exact fun flow id clear s _ _ => hK.safe
          (only_completeOIDCLogin hK.passive (fun _ _ _ => trivial) (fun _ => trivial) _)
    have hK := keeping_unmarked P faulty hj
    exact hK.safe (only_visit hK.passive fun route _ =>
      only_serve hK.passive (fun _ _ _ => trivial) (fun _ _ _ => trivial) (fun _ => trivial)
        (fun _ _ _ => trivial) route)
  env := fun _ h => h.1.elim
  restart := by
    rintro ⟨w, j⟩ ⟨w', j'⟩ hi ⟨h, h'⟩
    cases h
    cases h'
    exact ⟨hi, .refl _⟩

/-- As long as callbacks meet the issuer their users were stored under, every session
that an OIDC step-up marked belongs to the user with the issuer and the subject of the
token verified in that callback. -/
theorem oidc_stepup_same_identity {w₀ : World} {c : Config dashboard (World × Journal) ℕ Outcome}
    (hfresh : w₀.db.Fresh)
    (hc : (steadyVisits P visit faulty).Steps (Config.idle (w₀, Journal.empty)) c) {tokenHash : String}
    (hmark : (t, tokenHash) ∈ c.shared.2.marked) (hjob : (visit t).job = .serve .oidcCallback) :
    ∃ token, (visit t).token = some token ∧
      ∀ sess ∈ c.shared.1.db.sessions, sess.tokenHash = tokenHash →
        ∃ u ∈ c.shared.1.db.users, u.id = sess.userId ∧
          u.oidc = some (token.issuer, token.subject) := by
  have hstart : (tracked (MarksBound visit)).inv (w₀, Journal.empty) :=
    ⟨hfresh.recorded, fun _ hm => absurd hm not_mem_nil,
      fun _ he => absurd he not_mem_nil⟩
  obtain ⟨hrec, hbound⟩ :=
    (System.reachable_good steadyVisits_respects (System.good_idle hstart) hc).1.inv
  obtain ⟨token, htoken, m, hm, hhash, hstands⟩ := hbound.marks _ hmark hjob
  refine ⟨token, htoken, fun sess hsess heq => ?_⟩
  have howner := Db.mem_owners hsess
  obtain ⟨m', hm', hhash', huser'⟩ := hrec.created _ howner
  have hsame : m.userId = sess.userId :=
    (hbound.functional m hm m' hm' (hhash.trans (heq.symm.trans hhash'.symm))).trans huser'
  obtain ⟨q, hq, hid⟩ := hrec.referenced _ howner
  obtain ⟨u, hu, rfl⟩ := mem_map.mp hq
  exact ⟨u, hu, hid, hstands.linked _ hq (hid.trans hsame.symm)⟩

/-- A step-up under the issuer of the sign-in. -/
theorem same_issuer_steps_up :
    (3, "k") ∈ (afterVisits true (sampleVisits "A" "A") [0, 1, 2, 3]).2.marked ∧
      ∀ sess ∈ (afterVisits true (sampleVisits "A" "A") [0, 1, 2, 3]).1.db.sessions,
        sess.tokenHash = "k" →
        ∃ u ∈ (afterVisits true (sampleVisits "A" "A") [0, 1, 2, 3]).1.db.users,
          u.id = sess.userId ∧ u.oidc = some ("A", "1") := by
  have hsteps := steps_afterVisits (steadyVisits samplePrimitives (sampleVisits "A" "A") false) true
    (fun _ _ _ _ _ h => ⟨(exec_visitMachine h).2.2 rfl, (exec_visitMachine h).2.1,
      (exec_visitMachine h).1⟩) (fun _ => rfl) [0, 1, 2, 3]
  have hmark : (3, "k") ∈ (afterVisits true (sampleVisits "A" "A") [0, 1, 2, 3]).2.marked := by
    decide +kernel
  have hsound := @oidc_stepup_same_identity _ _ _ 3 _ _ emptyWorld_fresh hsteps "k"
  simp only [Config.idle] at hsound
  obtain ⟨token, htoken, hsess⟩ := hsound hmark rfl
  have hmember : some (memberToken "A") = some token := htoken
  cases hmember
  exact ⟨hmark, hsess⟩

/-- With the provider moved to another issuer between sign-in and step-up, the session of
one identity is marked for another that has the same subject. -/
theorem moved_issuer_steps_up :
    (freshVisits samplePrimitives (sampleVisits "A" "B") false).Steps
      (Config.idle (emptyWorld, Journal.empty))
      (Config.idle (afterVisits false (sampleVisits "A" "B") [0, 1, 2, 3])) ∧
    (sampleVisits "A" "B" 3).job = .serve .oidcCallback ∧
    (sampleVisits "A" "B" 3).token = some (memberToken "B") ∧
    (3, "k") ∈ (afterVisits false (sampleVisits "A" "B") [0, 1, 2, 3]).2.marked ∧
    (afterVisits false (sampleVisits "A" "B") [0, 1, 2, 3]).1.db.sessions =
      [⟨"k", 1, sessionTTL, some 0⟩] ∧
    (afterVisits false (sampleVisits "A" "B") [0, 1, 2, 3]).1.db.users.map
      (fun u => (u.id, u.oidc)) = [(1, some ("A", "1"))] := by
  have hsteps := steps_afterVisits (freshVisits samplePrimitives (sampleVisits "A" "B") false) false
    (fun _ _ _ _ _ h => ⟨(exec_visitMachine h).2.1, (exec_visitMachine h).1⟩) (fun _ => rfl)
    [0, 1, 2, 3]
  refine ⟨hsteps, rfl, rfl, ?_⟩
  decide +kernel

end Orkano.Dashboard
