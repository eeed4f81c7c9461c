import Mathlib.Tactic.Common
import Orkano.Receiver.Webhook

/-!
Which requests ring the doorbell: exactly those that pass every check, once and with their own
delivery ID and repository.
-/
namespace Orkano.Receiver

open Interleave Program RepoAllowlist Text List

/-- Surroundings that answer with this policy file and this result of an insert; the
inserts asked for are kept. -/
def surroundings (policy : Option Bytes) (inserted : Option ℕ) :
    (c : Call) → List EnqueueDeliveryParams → c.Reply × List EnqueueDeliveryParams
  | .readPolicy, asked => (policy, asked)
  | .enqueueDelivery arg, asked => (inserted, asked ++ [arg])

/-- A request from nothing asked for: the response, and the inserts. -/
def handled (P : Primitives) (h : Handler) (policy : Option Bytes) (inserted : Option ℕ)
    (r : Request) : Response × List EnqueueDeliveryParams :=
  (webhook P h r).eval (surroundings policy inserted) []

/-- The policy that is in force: what the file says, or what was fixed at startup. -/
def Handler.policy (P : Primitives) (h : Handler) (file : Option Bytes) :
    Except PolicyError (List String) :=
  match h.source, file with
  | .file, none => .error .unreadable
  | .file, some raw => (parse P.lowering (String.ofList (decodeRunes raw))).mapError .invalid
  | .fixed (.error e), _ => .error (.invalid e)
  | .fixed (.ok repositories), _ => (normalize P.lowering repositories).mapError .invalid

structure Presented (P : Primitives) (h : Handler) (r : Request) (id : Bytes) (name : String) :
    Prop where
  post : r.method = "POST"
  whole : r.body.broken = false
  size : r.body.bytes.length ≤ h.maxBody
  signature : r.signature = bytes "sha256=" ++ hexEncode (P.hmacSHA256 h.secret r.body.bytes)
  event : r.event = bytes "push"
  delivery : r.delivery = id
  idLength : 1 ≤ id.length ∧ id.length ≤ maxDeliveryIDLen
  payload : repositoryName r.body.bytes = some name
  nameLength : 1 ≤ byteLength name ∧ byteLength name ≤ maxRepoLen

structure Admitted (P : Primitives) (h : Handler) (policy : Option Bytes) (r : Request)
    (id : Bytes) (name : String) : Prop extends Presented P h r id name where
  listed : ∃ entries, h.policy P policy = .ok entries ∧ P.lowering.toLower name ∈ entries

variable {P : Primitives} {h : Handler} {r : Request} {policy : Option Bytes}
  {inserted : Option ℕ} {id : Bytes} {name : String} {asked : List EnqueueDeliveryParams}

/-- Normalizing what was read and normalized already changes nothing. -/
theorem eval_repositories :
    (repositories P h).eval (surroundings policy inserted) asked = (h.policy P policy, asked) := by
  simp only [repositories, Handler.policy]
  cases h.source with
  | file =>
    cases policy with
    | none => rfl
    | some raw =>
      simp only [AllowlistSource.repositories, call, perform_bind, call_bind, eval_call,
        surroundings, pure_eq, done_bind]
      cases hp : parse P.lowering (String.ofList (decodeRunes raw)) with
      | error e => rfl
      | ok entries =>
        simp only [Except.mapError, eval_done, normalize_normalize hp]
  | fixed result => cases result <;> rfl

theorem eval_allowed (repo : String) :
    (allowed P h repo).eval (surroundings policy inserted) asked =
      ((h.policy P policy).map fun entries => entries.contains (P.lowering.toLower repo), asked) := by
  rw [allowed, eval_bind, eval_repositories]
  cases h.policy P policy <;> rfl

/-- A push is enqueued exactly when the policy lists its repository. -/
theorem eval_acceptPush (event : Bytes) :
    (acceptPush P h id name event).eval (surroundings policy inserted) asked =
      match h.policy P policy with
      | .error _ => (respond 503 "repository policy unavailable", asked)
      | .ok entries =>
        if P.lowering.toLower name ∈ entries then
          (match inserted with
            | none => respond 500 "enqueue failed"
            | some _ => respond 202 "accepted", asked ++ [⟨id, name, event⟩])
        else (respond 403 "repository not allowed", asked) := by
  rw [acceptPush, eval_bind, eval_allowed]
  cases hp : h.policy P policy with
  | error e => rfl
  | ok entries =>
    by_cases hl : P.lowering.toLower name ∈ entries
    · simp only [Except.map, contains_iff_mem.mpr hl, hl, ↓reduceIte, call,
        perform_bind, eval_call, surroundings]
      cases inserted <;> rfl
    have hn : entries.contains (P.lowering.toLower name) = false := by
      simpa using hl
    simp only [Except.map, hn, hl, ↓reduceIte, pure_eq, eval_done]

theorem validSignature_iff {secret he body : Bytes} :
    validSignature P secret he body = true ↔
      he = bytes "sha256=" ++ hexEncode (P.hmacSHA256 secret body) := by
  have hne : bytes "sha256=" ++ hexEncode (P.hmacSHA256 secret body) ≠ [] :=
    append_ne_nil_of_left_ne_nil (by decide) _
  simp only [validSignature, Bool.and_eq_true, decide_eq_true_eq]
  constructor
  · rintro ⟨-, heq⟩
    exact heq.symm
  · rintro rfl
    exact ⟨hne, rfl⟩

theorem readBody_ok_iff {maxBody : ℕ} {body : Body} {text : Bytes} :
    readBody maxBody body = .ok text ↔
      body.bytes.length ≤ maxBody ∧ body.broken = false ∧ text = body.bytes := by
  unfold readBody
  split
  case isTrue hlarge =>
    simp only [reduceCtorEq, false_iff]
    omega
  case isFalse hsize =>
    cases hb : body.broken
    · simp only [Bool.false_eq_true, ↓reduceIte, Except.ok.injEq, true_and]
      exact ⟨fun heq => ⟨by omega, heq.symm⟩, fun hok => hok.2.symm⟩
    · simp

/-- A push goes on to the policy, or is refused for its fields. -/
theorem push_cases {body : Bytes} :
    (∃ repo, repositoryName body = some repo ∧ 1 ≤ r.delivery.length ∧
      r.delivery.length ≤ maxDeliveryIDLen ∧ 1 ≤ byteLength repo ∧ byteLength repo ≤ maxRepoLen ∧
      push P h r body = acceptPush P h r.delivery repo r.event) ∨
    ((∀ repo, repositoryName body = some repo → 1 ≤ r.delivery.length →
      r.delivery.length ≤ maxDeliveryIDLen → 1 ≤ byteLength repo → ¬ byteLength repo ≤ maxRepoLen) ∧
      ∃ message, push P h r body = .done (respond 400 message)) := by
  unfold push
  split
  case isTrue hempty => exact .inr ⟨by simp [hempty], _, rfl⟩
  case isFalse hid =>
    have hp : 1 ≤ r.delivery.length := length_pos_iff.mpr hid
    split
    case isTrue hlong => exact .inr ⟨fun _ _ _ hle => absurd hle (by omega), _, rfl⟩
    case isFalse hlong =>
      split
      case h_1 hjson => exact .inr ⟨by simp [hjson], _, rfl⟩
      case h_2 repo hjson =>
        split
        case isTrue hnone =>
          refine .inr ⟨?_, _, rfl⟩
          intro repo' hr' _ _ hl
          rw [hjson, Option.some.injEq] at hr'
          exact absurd (hr' ▸ hnone) (byteLength_pos.mp hl)
        case isFalse hsome =>
          split
          case isTrue htoo =>
            refine .inr ⟨?_, _, rfl⟩
            intro repo' hr' _ _ _
            rw [hjson, Option.some.injEq] at hr'
            rw [← hr']
            omega
          case isFalse hfits =>
            exact .inl ⟨repo, hjson, hp, not_lt.mp hlong, byteLength_pos.mpr hsome, not_lt.mp hfits,
              rfl⟩

/-- A request goes on to the policy when it is presented as it should be; else it is
answered without a call, and a push among these is refused. -/
theorem webhook_cases :
    (∃ id name, Presented P h r id name ∧
      webhook P h r = acceptPush P h id name (bytes "push")) ∨
    ((∀ id name, ¬ Presented P h r id name) ∧ ∃ response, webhook P h r = .done response ∧
      (r.event = bytes "push" → 400 ≤ response.status)) := by
  unfold webhook
  split
  case isTrue hmethod =>
    exact .inr ⟨fun _ _ hp => hmethod hp.post, _, rfl, fun _ => by decide⟩
  case isFalse hmethod =>
    have hpt : r.method = "POST" := not_not.mp hmethod
    cases hr : readBody h.maxBody r.body with
    | error e =>
      refine .inr ⟨?_, ?_⟩
      · intro id name hp
        have hok := readBody_ok_iff.mpr ⟨hp.size, hp.whole, rfl⟩
        rw [hr] at hok
        cases hok
      cases e
      · exact ⟨_, rfl, fun _ => by decide⟩
      · exact ⟨_, rfl, fun _ => by decide⟩
    | ok body =>
      obtain ⟨hsz, hw, rfl⟩ := readBody_ok_iff.mp hr
      simp only []
      split
      case isTrue hb =>
        refine .inr ⟨?_, _, rfl, fun _ => by decide⟩
        intro id name hp
        rw [validSignature_iff.mpr hp.signature] at hb
        cases hb
      case isFalse hgood =>
        have hs := validSignature_iff.mp (by simpa using hgood)
        have ho : r.event ≠ bytes "push" → ∀ id name, ¬ Presented P h r id name :=
          fun hne _ _ hp => hne hp.event
        split
        case isTrue hping =>
          have hne : r.event ≠ bytes "push" := by
            rw [hping]
            decide
          exact .inr ⟨ho hne, _, rfl, fun hps => absurd hps hne⟩
        case isFalse =>
          split
          case isFalse hne => exact .inr ⟨ho hne, _, rfl, fun hps => absurd hps hne⟩
          case isTrue hevent =>
            rcases @push_cases P h r r.body.bytes with
              ⟨repo, hrp, hid, hid', hl, hl', hps⟩ | ⟨hno, message, hps⟩
            · refine .inl ⟨r.delivery, repo, ?_, hevent ▸ hps⟩
              exact ⟨hpt, hw, hsz, hs, hevent, rfl, ⟨hid, hid'⟩, hrp, hl, hl'⟩
            refine .inr ⟨?_, _, hps, fun _ => le_rfl⟩
            intro id name hp
            have hid : r.delivery = id := hp.delivery
            exact hno name hp.payload (hid ▸ hp.idLength.1) (hid ▸ hp.idLength.2) hp.nameLength.1
              hp.nameLength.2

theorem Presented.unique {id' : Bytes} {name' : String} (hp : Presented P h r id name)
    (hp' : Presented P h r id' name') : id = id' ∧ name = name' :=
  ⟨hp.delivery.symm.trans hp'.delivery, Option.some.inj (hp.payload.symm.trans hp'.payload)⟩

/-- Whatever the request and the policy at the moment it is read: the inserts asked for are
exactly that of an admitted request, with its own ID and name, once; and no push is
answered with success when the policy cannot be read or is malformed. -/
theorem webhook_admission (P : Primitives) (h : Handler) (policy : Option Bytes)
    (inserted : Option ℕ) (r : Request) :
    (∀ arg, arg ∈ (handled P h policy inserted r).2 ↔
      ∃ id name, arg = ⟨id, name, bytes "push"⟩ ∧ Admitted P h policy r id name) ∧
    (handled P h policy inserted r).2.length ≤ 1 ∧
    ∀ e, h.policy P policy = .error e → r.event = bytes "push" →
      400 ≤ (handled P h policy inserted r).1.status := by
  unfold handled
  rcases webhook_cases (P := P) (h := h) (r := r) with ⟨id, name, hp, heq⟩ | ⟨hno, response, heq, hpush⟩
  · rw [heq, eval_acceptPush]
    cases hpolicy : h.policy P policy with
    | error e =>
      refine ⟨?_, Nat.zero_le _, fun _ _ _ => show 400 ≤ 503 by decide⟩
      intro arg
      simp only [not_mem_nil, false_iff]
      rintro ⟨id', name', -, hadmitted⟩
      obtain ⟨entries, hentries, -⟩ := hadmitted.listed
      rw [hpolicy] at hentries
      cases hentries
    | ok entries =>
      simp only []
      split
      case isTrue hlisted =>
        refine ⟨?_, le_rfl, nofun⟩
        intro arg
        simp only [nil_append, mem_singleton]
        constructor
        · rintro rfl
          exact ⟨id, name, rfl, hp, entries, hpolicy, hlisted⟩
        rintro ⟨id', name', rfl, hadmitted⟩
        obtain ⟨rfl, rfl⟩ := hp.unique hadmitted.toPresented
        rfl
      case isFalse hunlisted =>
        refine ⟨?_, Nat.zero_le _, nofun⟩
        intro arg
        simp only [not_mem_nil, false_iff]
        rintro ⟨id', name', -, hadmitted⟩
        obtain ⟨rfl, rfl⟩ := hp.unique hadmitted.toPresented
        obtain ⟨entries', hentries, hlisted⟩ := hadmitted.listed
        rw [hpolicy, Except.ok.injEq] at hentries
        exact hunlisted (hentries ▸ hlisted)
  · rw [heq, eval_done]
    refine ⟨?_, Nat.zero_le _, fun _ _ hevent => hpush hevent⟩
    intro arg
    simp only [not_mem_nil, false_iff]
    rintro ⟨id, name, -, hadmitted⟩
    exact hno id name hadmitted.toPresented

/-- Nothing is hashed and only ASCII has a lowercase. -/
def samplePrimitives : Primitives := ⟨fun _ _ => [], asciiLowering⟩

def sampleRequest : Request where
  method := "POST"
  body := ⟨bytes "\x7b\"repository\":\x7b\"full_name\":\"Acme/Web\"\x7d\x7d", false⟩
  signature := bytes "sha256="
  event := bytes "push"
  delivery := bytes "1"

example : handled samplePrimitives ⟨[], .file, 100⟩ (some (bytes "acme/web\n")) (some 1) sampleRequest =
    (respond 202 "accepted", [⟨bytes "1", "Acme/Web", bytes "push"⟩]) := by decide +kernel

end Orkano.Receiver
