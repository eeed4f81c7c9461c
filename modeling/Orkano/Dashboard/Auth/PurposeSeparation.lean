import Orkano.Dashboard.Auth.Calls

/-!
Which sealed string is accepted by which cookie reader. All documents are sealed under one key
and told apart by their fields; the two flow cookies share the fields their readers check.
-/
namespace Orkano.Dashboard

open Interleave Program

variable {P : Primitives} {cfg : ServerConfig} {faulty : Bool}

section Reachable

/-- What may run in the dashboard: any request, and any of the cookie setters with
arguments of its own. -/
inductive Activity where
  | request (r : Request) (route : Route)
  | challenge (r : Request) (ch : Challenge) (ttl : Time)
  | oidc (r : Request) (flow : OIDCFlow)
  | github (r : Request) (flow : GitHubFlow)

def Activity.program (P : Primitives) (cfg : ServerConfig) : Activity → Prog Unit
  | request r route => do let _ ← serve P cfg r route
  | challenge r ch ttl => do let _ ← setChallengeCookie r ch ttl
  | oidc r flow => do let _ ← setOIDCCookie r flow
  | github r flow => do let _ ← setGitHubCookie r flow

def sealers (P : Primitives) (cfg : ServerConfig) (faulty : Bool) :
    System dashboard World ℕ Unit where
  exec _ := (machine P faulty).exec
  env _ _ := False
  restart w w' := w' = w
  starts _ p := ∃ a : Activity, p = a.program P cfg

/-- Every sealed string holds a document of the writer on record. -/
def SealedByWriters (w : World) : Prop := ∀ e ∈ w.sealed, Wrote e.2.1 e.2.2

variable {c : Call} {w : World}

theorem sealed_of_exec {w' : World} {x : c.Reply}
    (h : (machine P faulty).exec c w x w') :
    w'.sealed = w.sealed ∨ ∃ writer text v, c = .cipherSeal writer text ∧
      w'.sealed = (v, writer, text) :: w.sealed := by
  rcases (exec_frame h).2 with hs | ⟨writer, text, rfl⟩
  · exact .inl hs
  rcases exec_cipherSeal.mp h with ⟨-, rfl⟩ | ⟨encoded, -, -, rfl⟩
  · exact .inl rfl
  · exact .inr ⟨writer, text, _, rfl, rfl⟩

/-- A call that does not seal a foreign document. -/
def SealsOwn (c : Call) : Prop := ∀ writer text, c = .cipherSeal writer text → Wrote writer text

theorem sealsOwn_of_passive (hc : Passive c) : SealsOwn c := by
  rintro writer text rfl
  exact hc.elim

theorem sealsOwn_of_wrote (writer : Writer) (text : String) (h : Wrote writer text) :
    SealsOwn (.cipherSeal writer text) := by
  rintro _ _ ⟨⟩
  exact h

theorem serve_sealsOwn (r : Request) (route : Route) : (serve P cfg r route).Only SealsOwn := by
  have hs : ∀ q, SealsOwn (.store q) := by
    rintro q writer text ⟨⟩
  exact only_serve (fun _ => sealsOwn_of_passive) sealsOwn_of_wrote (fun _ _ _ => hs _)
    (fun _ => hs _) (fun _ _ _ => hs _) route

theorem only_sealsOwn (a : Activity) : (a.program P cfg).Only SealsOwn := by
  have hQ : ∀ c, Passive c → SealsOwn c := fun _ => sealsOwn_of_passive
  cases a with
  | request r route => exact only_bind (serve_sealsOwn r route) fun _ => trivial
  | challenge r ch ttl =>
    exact only_bind (only_setChallengeCookie hQ sealsOwn_of_wrote ch ttl) fun _ => trivial
  | oidc r flow => exact only_bind (only_setOIDCCookie hQ sealsOwn_of_wrote flow) fun _ => trivial
  | github r flow =>
    exact only_bind (only_setGitHubCookie hQ sealsOwn_of_wrote flow) fun _ => trivial

theorem sealedByWriters_exec {x : c.Reply} {w' : World} (hc : SealsOwn c) (hi : SealedByWriters w)
    (hx : (machine P faulty).exec c w x w') : SealedByWriters w' := by
  intro e he
  rcases sealed_of_exec hx with h | ⟨writer, text, v, rfl, h⟩
  · exact hi e (h ▸ he)
  rw [h, List.mem_cons] at he
  rcases he with rfl | he
  · exact hc writer text rfl
  · exact hi e he

variable {writer : Writer} {text : String}

theorem SealedByWriters.wrote (hi : SealedByWriters w) {v : String}
    (hv : w.lookup v = some (writer, text)) : Wrote writer text := by
  obtain ⟨l1, l2, hl, -⟩ := List.lookup_eq_some_iff.mp hv
  exact hi (v, writer, text) (by rw [hl]; simp)

/-- Any number of requests at once seal only what their writers wrote. -/
theorem sealers_respect : (sealers P cfg faulty).Respects (Discipline.invariant SealedByWriters)
    (fun _ _ _ => True) where
  lasts := fun _ _ _ _ _ _ => trivial
  starts := by
    rintro t _ w ⟨a, rfl⟩ -
    exact safe_of_only (R := fun _ => True)
      (fun c s x s' hc hi _ hx => ⟨sealedByWriters_exec hc hi hx, trivial, fun _ _ => trivial⟩)
      (fun _ _ h _ => h) (fun _ _ h _ => h) (only_sealsOwn a) trivial
  env _ h := h.elim
  restart hi h := ⟨h ▸ hi, trivial⟩

theorem wrote_of_reachable {w0 : World} {c : Config dashboard World ℕ Unit} {v : String}
    (h0 : w0.sealed = []) (hc : (sealers P cfg faulty).Steps (Config.idle w0) c)
    (hv : c.shared.lookup v = some (writer, text)) : Wrote writer text := by
  have hs : SealedByWriters w0 := fun e he => by simp [h0] at he
  have hi := (System.reachable_good sealers_respect (System.good_idle hs) hc).1.inv
  exact SealedByWriters.wrote hi hv

end Reachable

section Readers

inductive Reader where
  | enrollChallenge
  | totpChallenge
  | oidc
  | github
deriving DecidableEq, Repr

namespace Reader

def cookieName : Reader → String
  | enrollChallenge | totpChallenge => challengeCookie
  | oidc => oidcCookie
  | github => githubCookie

/-- The writer whose documents the reader is meant for. -/
def writer : Reader → Writer
  | enrollChallenge => .challenge stageEnroll
  | totpChallenge => .challenge stageTOTP
  | oidc => .oidc
  | github => .github

/-- Whether the reader accepts the cookie of a request. -/
def read (rd : Reader) (r : Request) : Prog Bool :=
  match rd with
  | enrollChallenge => return (← readChallenge r stageEnroll).isSome
  | totpChallenge => return (← readChallenge r stageTOTP).isSome
  | oidc => return (← readOIDCCookie r).isSome
  | github => return (← readGitHubCookie r).isSome

end Reader

/-- In world `w`, the reader accepts the cookie of `r` with its clock at `t`. -/
def AcceptsAt (P : Primitives) (faulty : Bool) (rd : Reader) (r : Request) (t : Time)
    (w : World) : Prop :=
  ∃ w', Runs (machine P faulty).exec (rd.read r) w true w' ∧ w'.clock = t

/-- In world `w`, the GitHub callback gets past its cookie and state checks. -/
def PassesAt (P : Primitives) (faulty : Bool) (r : Request) (t : Time) (w : World) : Prop :=
  ∃ flow w', Runs (machine P faulty).exec (githubCallbackFlow r) w (.ok flow) w' ∧ w'.clock = t

/-- A live flow cookie in front of the other flow's reader. -/
def Crossed (rd : Reader) (writer : Writer) (text : String) (t : Time) : Prop :=
  match rd, writer with
  | .github, .oidc =>
    ∃ flow : OIDCFlow, text = flow.marshal ∧ flow.state ≠ "" ∧ unix t < flow.expires
  | .oidc, .github =>
    ∃ flow : GitHubFlow, text = flow.marshal ∧ flow.state ≠ "" ∧ unix t < flow.expires
  | _, _ => False

/-- A live OIDC flow cookie in front of the GitHub callback, with the query that an
OIDC sign-in with this state would produce. -/
def CrossedCallback (r : Request) (writer : Writer) (text : String) (t : Time) : Prop :=
  writer = .oidc ∧ r.param "error" = "" ∧
    ∃ flow : OIDCFlow, text = flow.marshal ∧ flow.state ≠ "" ∧ r.param "state" = flow.state ∧
      unix t < flow.expires

/-- Acceptance of a cookie whose value was sealed, in terms of the document. -/
theorem accepts_readCookie {α : Type} {r : Request} {name v : String} {decode : String → Option α}
    {own : α → Bool} {expires : α → Int64} {w : World} {t : Time} {writer : Writer}
    {text : String} (hr : r.cookie name = some v) (hv : w.lookup v = some (writer, text)) :
    (∃ w', Runs (machine P faulty).exec
        (do return (← readCookie r name decode own expires).isSome) w true w' ∧ w'.clock = t) ↔
      ∃ a, decode text = some a ∧ own a = true ∧ unix t < expires a := by
  constructor
  · rintro ⟨w', hrn, rfl⟩
    obtain ⟨o, w1, hrd, hp⟩ := runs_bind.mp hrn
    obtain ⟨hs, rfl⟩ := runs_done.mp hp
    obtain ⟨a, rfl⟩ := Option.isSome_iff_exists.mp hs.symm
    obtain ⟨hd, ho, ht, -⟩ := (runs_readCookie hr hv).mp hrd
    exact ⟨a, hd, ho, ht⟩
  rintro ⟨a, hd, ho, ht⟩
  refine ⟨{ w with clock := t }, runs_bind.mpr ⟨some a, _, ?_, runs_done.mpr ⟨rfl, rfl⟩⟩, rfl⟩
  exact (runs_readCookie hr hv).mpr ⟨hd, ho, ht, rfl⟩

theorem unmarshal_seed {α : Type} (fields : List (Json.Field α)) (zero : α) {text : String}
    (h : Wrote .totpSeed text) : Json.unmarshal fields zero text = none := by
  refine Json.unmarshal_upper_or_digit fields zero fun c hc => ?_
  have hb := List.all_eq_true.mp h c hc
  simp only [isBase32, Bool.or_eq_true, Bool.and_eq_true, decide_eq_true_eq] at hb
  refine hb.imp id fun ⟨h2, h7⟩ => ?_
  simp only [Char.isDigit, Bool.and_eq_true, decide_eq_true_eq]
  exact ⟨UInt32.le_trans (by decide) h2, UInt32.le_trans h7 (by decide)⟩

variable {w : World} {r : Request} {t : Time} {v : String} {writer : Writer} {text : String}

/-- Only the stage that wrote a challenge reads it. -/
theorem writer_of_challenge {ch : Challenge} {stage : String} (hw : Wrote writer text)
    (hd : Challenge.unmarshal text = some ch) (hs : ch.stage = stage) (hne : stage ≠ "") :
    writer = .challenge stage := by
  cases writer with
  | challenge _ =>
    obtain ⟨ch', rfl, rfl⟩ := hw
    rw [Challenge.unmarshal_challenge] at hd
    cases hd
    rw [hs]
  | oidc =>
    obtain ⟨flow, rfl⟩ := hw
    rw [Challenge.unmarshal_oidcFlow] at hd
    cases hd
    exact absurd hs.symm hne
  | github =>
    obtain ⟨flow, rfl⟩ := hw
    rw [Challenge.unmarshal_githubFlow] at hd
    cases hd
    exact absurd hs.symm hne
  | totpSeed =>
    have := (unmarshal_seed Challenge.fields Challenge.zero hw).symm.trans hd
    cases this

/-- An OIDC flow that is live was written as one, or is a live GitHub flow. -/
theorem writer_of_oidcFlow {flow : OIDCFlow} (hw : Wrote writer text)
    (hd : OIDCFlow.unmarshal text = some flow) (hs : flow.state ≠ "") (ht : unix t < flow.expires) :
    writer = .oidc ∨ Crossed .oidc writer text t := by
  cases writer with
  | challenge _ =>
    obtain ⟨ch, -, rfl⟩ := hw
    rw [OIDCFlow.unmarshal_challenge] at hd
    cases hd
    exact absurd rfl hs
  | oidc => exact .inl rfl
  | github =>
    obtain ⟨f, rfl⟩ := hw
    rw [OIDCFlow.unmarshal_githubFlow] at hd
    cases hd
    exact .inr ⟨f, rfl, hs, ht⟩
  | totpSeed =>
    have := (unmarshal_seed OIDCFlow.fields OIDCFlow.zero hw).symm.trans hd
    cases this

variable {flow : GitHubFlow}

/-- A GitHub flow that is live was written as one, or is a live OIDC flow. -/
theorem writer_of_githubFlow (hw : Wrote writer text)
    (hd : GitHubFlow.unmarshal text = some flow) (hs : flow.state ≠ "")
    (ht : unix t < flow.expires) :
    writer = .github ∨ writer = .oidc ∧
      ∃ f : OIDCFlow, text = f.marshal ∧ f.state = flow.state ∧ unix t < f.expires := by
  cases writer with
  | challenge _ =>
    obtain ⟨ch, -, rfl⟩ := hw
    rw [GitHubFlow.unmarshal_challenge] at hd
    cases hd
    exact absurd rfl hs
  | oidc =>
    obtain ⟨f, rfl⟩ := hw
    rw [GitHubFlow.unmarshal_oidcFlow] at hd
    cases hd
    exact .inr ⟨rfl, f, rfl, rfl, ht⟩
  | github => exact .inl rfl
  | totpSeed =>
    have := (unmarshal_seed GitHubFlow.fields GitHubFlow.zero hw).symm.trans hd
    cases this

variable {rd : Reader}

/-- A reader accepts its own cookies, and a live one of the other flow. -/
theorem acceptsAt_cases (hw : Wrote writer text) (hr : r.cookie rd.cookieName = some v)
    (hv : w.lookup v = some (writer, text)) (h : AcceptsAt P faulty rd r t w) :
    writer = rd.writer ∨ Crossed rd writer text t := by
  cases rd with
  | enrollChallenge | totpChallenge =>
    obtain ⟨ch, hd, hs, -⟩ := (accepts_readCookie hr hv).mp h
    exact .inl (writer_of_challenge hw hd (by simpa using hs) (by decide))
  | oidc =>
    obtain ⟨flow, hd, hs, ht⟩ := (accepts_readCookie hr hv).mp h
    exact writer_of_oidcFlow hw hd (by simpa using hs) ht
  | github =>
    obtain ⟨flow, hd, hs, ht⟩ := (accepts_readCookie hr hv).mp h
    have hne : flow.state ≠ "" := by simpa using hs
    refine (writer_of_githubFlow hw hd hne ht).imp id ?_
    rintro ⟨rfl, f, htx, hst, he⟩
    exact ⟨f, htx, hst ▸ hne, he⟩

theorem acceptsAt_of_crossed (hr : r.cookie rd.cookieName = some v)
    (hv : w.lookup v = some (writer, text)) (h : Crossed rd writer text t) :
    AcceptsAt P faulty rd r t w ∧ writer ≠ rd.writer := by
  unfold Crossed at h
  split at h
  · obtain ⟨flow, rfl, hs, ht⟩ := h
    refine ⟨(accepts_readCookie hr hv).mpr ⟨_, GitHubFlow.unmarshal_oidcFlow flow, ?_, ht⟩, nofun⟩
    simpa using hs
  · obtain ⟨flow, rfl, hs, ht⟩ := h
    refine ⟨(accepts_readCookie hr hv).mpr ⟨_, OIDCFlow.unmarshal_githubFlow flow, ?_, ht⟩, nofun⟩
    simpa using hs
  · exact h.elim

private theorem not_runs_refuse {p : Prog Unit} {w1 w2 : World} {resp : Response}
    (h : Runs (machine P faulty).exec
      (p >>= fun _ => done (Except.error resp : Except Response GitHubFlow)) w1 (.ok flow) w2) :
    False := by
  obtain ⟨_, _, -, h⟩ := runs_bind.mp h
  exact nomatch (runs_done.mp h).1

/-- The callback's checks, in terms of the document in its cookie. -/
theorem passesAt_iff (hr : r.cookie githubCookie = some v)
    (hv : w.lookup v = some (writer, text)) :
    PassesAt P faulty r t w ↔ r.param "error" = "" ∧
      ∃ flow, GitHubFlow.unmarshal text = some flow ∧ flow.state ≠ "" ∧
        unix t < flow.expires ∧ r.param "state" = flow.state := by
  constructor
  · rintro ⟨flow, w', hrn, rfl⟩
    obtain ⟨o, w1, hrd, h⟩ := runs_bind.mp hrn
    dsimp only at h
    split at h
    · exact (not_runs_refuse h).elim
    rename_i he
    split at h
    · exact (not_runs_refuse h).elim
    split at h
    · exact (not_runs_refuse h).elim
    rename_i hs
    obtain ⟨hf, rfl⟩ := runs_done.mp h
    cases hf
    obtain ⟨hd, ho, ht, -⟩ := (runs_readCookie hr hv).mp hrd
    simp only [Bool.or_eq_true, decide_eq_true_eq, not_or, not_not] at hs
    exact ⟨by simpa using he, flow, hd, by simpa using ho, ht, hs.2⟩
  · rintro ⟨he, flow, hd, hne, ht, hs⟩
    have hrd : Runs (machine P faulty).exec (readGitHubCookie r) w (some flow)
        { w with clock := t } :=
      (runs_readCookie hr hv).mpr ⟨hd, by simpa using hne, ht, rfl⟩
    refine ⟨flow, { w with clock := t }, runs_bind.mpr ⟨some flow, _, hrd, ?_⟩, rfl⟩
    simp [he, hs, hne]

/-- The callback is passed with a cookie of another flow exactly when that is a live
OIDC flow cookie whose state the query repeats. -/
theorem passesAt_cases (hw : Wrote writer text) (hr : r.cookie githubCookie = some v)
    (hv : w.lookup v = some (writer, text)) (h : PassesAt P faulty r t w) :
    writer = .github ∨ CrossedCallback r writer text t := by
  obtain ⟨he, flow, hd, hne, ht, hs⟩ := (passesAt_iff hr hv).mp h
  refine (writer_of_githubFlow hw hd hne ht).imp id ?_
  rintro ⟨rfl, f, htx, hf, hep⟩
  exact ⟨rfl, he, f, htx, hf ▸ hne, hs.trans hf.symm, hep⟩

theorem passesAt_of_crossed (hr : r.cookie githubCookie = some v)
    (hv : w.lookup v = some (writer, text)) (h : CrossedCallback r writer text t) :
    PassesAt P faulty r t w ∧ writer ≠ .github := by
  obtain ⟨rfl, he, f, rfl, hne, hs, ht⟩ := h
  exact ⟨(passesAt_iff hr hv).mpr
    ⟨he, _, GitHubFlow.unmarshal_oidcFlow f, hne, ht, hs⟩, nofun⟩

end Readers

def sampleFlow : OIDCFlow := { OIDCFlow.zero with state := "s", nonce := "n", verifier := "v", expires := 600 }

/-- The world after a visitor without a session has started an OIDC sign-in. -/
def worldAfterOIDCLogin : World :=
  { emptyWorld with sealed := [("v1:c", .oidc, sampleFlow.marshal)] }

def crossedRequest (cookieName : String) : Request :=
  { anonymousRequest with
    cookies := [(cookieName, "v1:c")], query := [("state", "s"), ("code", "x")] }

theorem reaches_worldAfterOIDCLogin :
    (sealers samplePrimitives sampleConfig false).Steps (Config.idle emptyWorld)
      (Config.idle worldAfterOIDCLogin) := by
  have hr : Runs (machine samplePrimitives false).exec
      ((Activity.request anonymousRequest .oidcLogin).program samplePrimitives sampleConfig)
      emptyWorld () worldAfterOIDCLogin := by
    refine .call ⟨some ("s", "n", "v"), rfl⟩ (.call ⟨(0 : Time), rfl⟩ ?_)
    exact .call ⟨some "c", rfl⟩ .done
  have hs : (sealers samplePrimitives sampleConfig false).starts 0
      ((Activity.request anonymousRequest .oidcLogin).program samplePrimitives sampleConfig) :=
    ⟨_, rfl⟩
  exact System.steps_idle_of_runs hs hr

/-- In every reachable world, a reader accepts a sealed string only from its own
writer, unless it is one of the two flow readers and is handed a live cookie of the
other flow; and the GitHub callback is passed only with a cookie of its own flow,
unless it is handed a live OIDC cookie with the state it carries. -/
theorem accepts_own_writer_iff {w₀ : World} {c : Config dashboard World ℕ Unit} {v : String}
    {writer : Writer} {text : String} (h₀ : w₀.sealed = [])
    (hc : (sealers P cfg faulty).Steps (Config.idle w₀) c)
    (hv : c.shared.lookup v = some (writer, text)) :
    (∀ rd r t, r.cookie rd.cookieName = some v →
      ((AcceptsAt P faulty rd r t c.shared → writer = rd.writer) ↔
        ¬ Crossed rd writer text t)) ∧
    (∀ r t, r.cookie githubCookie = some v →
      ((PassesAt P faulty r t c.shared → writer = .github) ↔
        ¬ CrossedCallback r writer text t)) := by
  have hw := wrote_of_reachable h₀ hc hv
  constructor
  · intro rd r t hr
    constructor
    · intro h hcross
      obtain ⟨ha, hne⟩ := acceptsAt_of_crossed hr hv hcross
      exact hne (h ha)
    · intro hcross ha
      exact (acceptsAt_cases hw hr hv ha).resolve_right hcross
  · intro r t hr
    constructor
    · intro h hcross
      obtain ⟨hp, hne⟩ := passesAt_of_crossed hr hv hcross
      exact hne (h hp)
    · intro hcross hp
      exact (passesAt_cases hw hr hv hp).resolve_right hcross

/-- The cookie of an OIDC sign-in is no second-factor challenge. -/
theorem totp_reader_refuses_oidc_cookie :
    ¬ AcceptsAt samplePrimitives false .totpChallenge (crossedRequest challengeCookie) 0
      worldAfterOIDCLogin := by
  have hv : worldAfterOIDCLogin.lookup "v1:c" = some (.oidc, sampleFlow.marshal) := rfl
  have h := ((accepts_own_writer_iff rfl reaches_worldAfterOIDCLogin hv).1 .totpChallenge
    (crossedRequest challengeCookie) 0 rfl).mpr id
  exact fun ha => nomatch h ha

/-- A visitor without a session starts an OIDC sign-in and gets past the checks of
the GitHub callback with the cookie of that sign-in. -/
theorem oidc_cookie_passes_github_callback :
    ∃ c, (sealers samplePrimitives sampleConfig false).Steps (Config.idle emptyWorld) c ∧
      c.shared.lookup "v1:c" = some (.oidc, sampleFlow.marshal) ∧ c.shared.db.sessions = [] ∧
      AcceptsAt samplePrimitives false .github (crossedRequest githubCookie) 0 c.shared ∧
      PassesAt samplePrimitives false (crossedRequest githubCookie) 0 c.shared := by
  refine ⟨_, reaches_worldAfterOIDCLogin, rfl, rfl, ?_, ?_⟩
  · have hcross : Crossed .github .oidc sampleFlow.marshal 0 :=
      ⟨sampleFlow, rfl, by decide, by decide⟩
    exact (acceptsAt_of_crossed (v := "v1:c") rfl rfl hcross).1
  have hcross : CrossedCallback (crossedRequest githubCookie) .oidc sampleFlow.marshal 0 :=
    ⟨rfl, rfl, sampleFlow, rfl, by decide, rfl, by decide⟩
  exact (passesAt_of_crossed (v := "v1:c") rfl rfl hcross).1

end Orkano.Dashboard
