import Orkano.Dashboard.Auth.Calls
import Orkano.Dashboard.Auth.Identities
import Orkano.Interleave.History

/-!
Any number of visitors at once, each served under the configuration in force for it. The token
that a callback redeems its code for is part of the visit; what the token library has not
verified is up to the visitor. A journal beside the world keeps what the tables forget.
-/
namespace Orkano.Dashboard

open Interleave Program

inductive Claim where
  | null
  | bool (b : Bool)
  | number (isOne : Bool)
  | string (s : String)
  | array (elements : List Claim)
  | object

def stringClaim : Claim → String
  | .string s => s
  | _ => ""

/-- Providers send a verified email as a boolean, a string or a number. -/
def boolClaim : Claim → Bool
  | .bool b => b
  | .string s => Json.foldName s = Json.foldName "true"
  | .number isOne => isOne
  | _ => false

def stringSliceClaim : Claim → List String
  | .string s => if s = "" then [] else [s]
  | .array elements => (elements.map stringClaim).filter (· ≠ "")
  | _ => []

structure IDToken where
  issuer : String
  subject : String
  nonce : String
  claims : String → Claim

structure Provider where
  issuer : String
  groupsClaim : String

/-- `Exchange` from the verified token on: the nonce must be the one of the flow. -/
def exchange (provider : Provider) (nonce : String) (token : IDToken) : Option Identity :=
  if nonce = "" || token.nonce = "" || token.nonce ≠ nonce then none
  else if token.subject = "" then none
  else some
    { subject := token.subject
      issuer := provider.issuer
      email := stringClaim (token.claims "email")
      emailVerified := boolClaim (token.claims "email_verified")
      groups := stringSliceClaim (token.claims provider.groupsClaim) }

theorem exchange_eq_some {provider : Provider} {nonce : String} {token : IDToken} {id : Identity}
    (h : exchange provider nonce token = some id) :
    nonce ≠ "" ∧ token.nonce = nonce ∧ id.issuer = provider.issuer ∧ id.subject = token.subject := by
  unfold exchange at h
  split at h
  · cases h
  rename_i hn
  split at h
  · cases h
  cases h
  simp only [Bool.or_eq_true, decide_eq_true_eq, not_or, not_not] at hn
  exact ⟨hn.1.1, hn.2, rfl, rfl⟩

structure Deployment where
  server : ServerConfig
  provider : Provider

inductive Job where
  | serve (route : Route)
  | resolveSession
  | secondFactor (user : User) (req : LoginTOTPRequest)

inductive Outcome where
  | response (resp : Response)
  | session (found : Option (SessionUser × Session))
  | factor (ok : Bool)
deriving DecidableEq

structure Visit where
  deployment : Deployment
  request : Request
  job : Job
  token : Option IDToken
  verified : ∀ tok, token = some tok → tok.issuer = deployment.provider.issuer

namespace Visit

def program (P : Primitives) (v : Visit) : Prog Outcome :=
  match v.job with
  | .serve route => do return .response (← serve P v.deployment.server v.request route)
  | .resolveSession => do return .session (← Dashboard.resolveSession P v.request)
  | .secondFactor user req => do return .factor (← secondFactorOK P user req)

/-- An exchange succeeds only with the token of the visit. -/
def Redeems (v : Visit) : (c : Call) → c.Reply → Prop
  | .exchangeOIDC _ nonce _, some id =>
    ∃ token, v.token = some token ∧ exchange v.deployment.provider nonce token = some id
  | _, _ => True

end Visit

/-- The dashboard with visit `t` in thread `t`. A restart loses the requests in flight;
requests that come later may meet another configuration. -/
def visits (P : Primitives) (visit : ℕ → Visit) (faulty : Bool) :
    System dashboard World ℕ Outcome where
  exec t c w x w' := (machine P faulty).exec c w x w' ∧ (visit t).Redeems c x
  env _ _ := False
  restart w w' := w' = w
  starts t p := p = (visit t).program P

/-- A session that was created: by which visit, and what that visit had read from the
clock since it last opened a cookie. -/
structure Creation where
  thread : ℕ
  tokenHash : String
  userId : Int
  readings : List Time

structure Journal where
  created : List Creation
  marked : List (ℕ × String)
  redeemed : List (ℕ × Int × String)
  readings : ℕ → List Time

namespace Journal

def empty : Journal := ⟨[], [], [], fun _ => []⟩

def record (t : ℕ) : (c : Call) → c.Reply → Journal → Journal
  | .cipherOpen _, _, j => { j with readings := Function.update j.readings t [] }
  | .now, now, j => { j with readings := Function.update j.readings t (now :: j.readings t) }
  | .store (.createSession tokenHash userId _), _, j =>
    { j with created := ⟨t, tokenHash, userId, j.readings t⟩ :: j.created }
  | .store (.markSessionReauth tokenHash), _, j => { j with marked := (t, tokenHash) :: j.marked }
  | .store (.consumeRecoveryCode userId codeHash), .ok _, j =>
    { j with redeemed := (t, userId, codeHash) :: j.redeemed }
  | _, _, j => j

end Journal

def journaled (P : Primitives) (visit : ℕ → Visit) (faulty : Bool) :
    System dashboard (World × Journal) ℕ Outcome :=
  (visits P visit faulty).logging Journal.record

/-- No session is created under a token that was drawn before. -/
def FreshToken (c : Call) (s : World × Journal) : Prop :=
  ∀ tokenHash userId expiresAt, c = .store (.createSession tokenHash userId expiresAt) →
    ∀ m ∈ s.2.created, m.tokenHash ≠ tokenHash

/-- Visits whose session tokens are never drawn twice. -/
def freshVisits (P : Primitives) (visit : ℕ → Visit) (faulty : Bool) :
    System dashboard (World × Journal) ℕ Outcome :=
  (journaled P visit faulty).restrict fun _ c s _ => FreshToken c s

section Only

variable {P : Primitives} {Q : Call → Prop}

theorem only_visit {v : Visit} (hQ : ∀ c, Passive c → Q c)
    (hs : ∀ route, v.job = .serve route → (serve P v.deployment.server v.request route).Only Q) :
    (v.program P).Only Q := by
  unfold Visit.program
  split
  · rename_i route hj
    exact only_bind (hs route hj) fun _ => trivial
  · exact only_bind (only_resolveSession hQ) fun _ => trivial
  · exact only_bind (only_secondFactorOK hQ _ _) fun _ => trivial

end Only

section Steps

variable {P : Primitives} {visit : ℕ → Visit} {faulty : Bool} {t : ℕ} {s s' s'' : World × Journal}

structure Recorded (s : World × Journal) : Prop where
  identified : s.1.db.Identified
  referenced : s.1.db.Referenced
  created : ∀ p ∈ s.1.db.owners, ∃ m ∈ s.2.created, m.tokenHash = p.1 ∧ m.userId = p.2

/-- What no step takes back: whom a drawn id stands for, what a sealed string holds,
and the record of created sessions. -/
structure Advances (s s' : World × Journal) : Prop where
  standsFor : ∀ {id o}, s.1.db.StandsFor id o → s'.1.db.StandsFor id o
  sealed : ∀ {v e}, s.1.lookup v = some e → s'.1.lookup v = some e
  created : s.2.created ⊆ s'.2.created

theorem Advances.refl (s : World × Journal) : Advances s s := ⟨id, id, List.Subset.refl _⟩

theorem Advances.trans (h : Advances s s') (h' : Advances s' s'') : Advances s s'' :=
  ⟨h'.standsFor ∘ h.standsFor, h'.sealed ∘ h.sealed, List.Subset.trans h.created h'.created⟩

theorem Journal.created_record (c : Call) (x : c.Reply) (j : Journal) :
    j.created ⊆ (j.record t c x).created := by
  unfold Journal.record
  split <;> simp

variable {c : Call} {j : Journal}

theorem Journal.mem_created_record {x : c.Reply} {m : Creation}
    (hm : m ∈ (j.record t c x).created) : m ∈ j.created ∨ m.thread = t ∧
      m.readings = j.readings t ∧ ∃ e, c = .store (.createSession m.tokenHash m.userId e) := by
  unfold Journal.record at hm
  split at hm
  case h_3 =>
    rcases List.mem_cons.mp hm with rfl | hm
    · exact .inr ⟨rfl, rfl, _, rfl⟩
    · exact .inl hm
  all_goals exact .inl hm

theorem Journal.mem_marked_record {x : c.Reply} {e : ℕ × String}
    (he : e ∈ (j.record t c x).marked) :
    e ∈ j.marked ∨ e.1 = t ∧ c = .store (.markSessionReauth e.2) := by
  unfold Journal.record at he
  split at he
  case h_4 =>
    rcases List.mem_cons.mp he with rfl | he
    · exact .inr ⟨rfl, rfl⟩
    · exact .inl he
  all_goals exact .inl he

theorem Journal.readings_record {x : c.Reply} {u : ℕ} (hu : u ≠ t) :
    (j.record t c x).readings u = j.readings u := by
  unfold Journal.record
  split <;> simp [hu]

theorem lookup_exec {x : c.Reply} {w w' : World} (hx : (machine P faulty).exec c w x w')
    {v : String} {e : Writer × String} (h : w.lookup v = some e) : w'.lookup v = some e := by
  rcases (exec_frame hx).2 with hs | ⟨writer, text, rfl⟩
  · rwa [World.lookup, hs]
  rcases exec_cipherSeal.mp hx with ⟨-, rfl⟩ | ⟨encoded, -, hf, rfl⟩
  · exact h
  -- the new string was not sealed before
  have hne : v ≠ "v1:" ++ encoded := by
    intro heq
    rw [heq, hf] at h
    cases h
  simpa [World.lookup, List.lookup_cons, beq_eq_false_iff_ne.mpr hne] using h

/-- One call keeps the journal in step with the tables. -/
theorem exec_journaled {x : c.Reply} (hx : (journaled P visit faulty).exec t c s x s')
    (hi : Recorded s) :
    Recorded s' ∧ Advances s s' ∧ ∀ u, u ≠ t → s'.2.readings u = s.2.readings u := by
  obtain ⟨⟨he, -⟩, hj⟩ := hx
  have hr := exec_relinks he
  have hc : s.2.created ⊆ s'.2.created := hj ▸ Journal.created_record c x s.2
  refine ⟨⟨hr.identified hi.identified, ?_, ?_⟩, ⟨?_, lookup_exec he, hc⟩, ?_⟩
  · exact exec_keeps (fun q _ _ => referenced_run q) he hi.referenced
  · intro p hp
    rcases mem_owners_exec he hp with hold | ⟨expiresAt, rfl⟩
    · obtain ⟨m, hm, heq⟩ := hi.created p hold
      exact ⟨m, hc hm, heq⟩
    · exact ⟨⟨t, p.1, p.2, s.2.readings t⟩, by simp [hj, Journal.record], rfl, rfl⟩
  · exact fun h => h.relinks hr
  · intro u hu
    rw [hj, Journal.readings_record hu]

/-- The journal agrees with the tables and `X` holds; the others leave alone what a visit
read from the clock. -/
def tracked (X : World × Journal → Prop) : Discipline (World × Journal) ℕ where
  inv s := Recorded s ∧ X s
  evolves := Advances
  rely t s s' := Advances s s' ∧ s'.2.readings t = s.2.readings t
  evolves_refl := .refl
  evolves_trans := .trans
  rely_refl _ s := ⟨.refl s, rfl⟩
  rely_trans _ _ _ _ h h' := ⟨h.1.trans h'.1, h'.2.trans h.2⟩

theorem allowed_tracked {X : World × Journal → Prop} {x : c.Reply}
    (hx : (journaled P visit faulty).exec t c s x s') (hi : Recorded s)
    (hX : Advances s s' → X s') : Allowed (tracked X) t s s' := by
  obtain ⟨hrc, ha, hr⟩ := exec_journaled hx hi
  exact ⟨⟨hrc, hX ha⟩, ha, fun u hu => ⟨ha, hr u hu⟩⟩

end Steps

theorem Db.Fresh.recorded {w : World} (h : w.db.Fresh) : Recorded (w, Journal.empty) where
  identified := ⟨by simp [Db.identities, h.users], by simp [Db.identities, h.users]⟩
  referenced := by simp [Db.Referenced, Db.owners, h.sessions]
  created := by simp [Db.owners, h.sessions]

end Orkano.Dashboard
