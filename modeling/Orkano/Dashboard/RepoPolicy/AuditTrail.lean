import Orkano.Dashboard.RepoPolicy.Update

/-!
Updates of the repository policy under way together, beside anybody else who writes the
ConfigMap. An update may be stored and yet be answered with an error, or be stored after that
answer. A request is known by its thread and by how many attempts that thread had recorded.
-/
namespace Orkano.Dashboard.RepoPolicy

open Interleave Program Text List
open RepoAllowlist (format parse)
open Resources (ApiError)

section World

structure Entry where
  request : ℕ × ℕ
  outcome : Outcome
  policyHash : String
  /-- The ConfigMap when the request began, and when the entry was stored. -/
  since : Versioned ConfigMap
  upTo : Versioned ConfigMap
deriving DecidableEq

structure Write where
  request : ℕ × ℕ
  before : Versioned ConfigMap
  after : ConfigMap
  audit : List Entry
deriving DecidableEq

structure Pending where
  request : ℕ × ℕ
  resourceVersion : ℕ
  configMap : ConfigMap
deriving DecidableEq

structure World where
  configMap : Versioned ConfigMap
  audit : List Entry
  pending : List Pending
  serial : ℕ → ℕ
  since : ℕ → Versioned ConfigMap
  /-- What a request has stored, was told is not, and has not read back. -/
  unread : ℕ → Option ConfigMap
  writes : List Write

namespace World

variable (w : World) (t : ℕ)

def start (configMap : Versioned ConfigMap) : World :=
  ⟨configMap, [], [], fun _ => 0, fun _ => configMap, fun _ => none, []⟩

def request : ℕ × ℕ := (t, w.serial t)

def entry (outcome : Outcome) (policyHash : String) : Entry :=
  ⟨w.request t, outcome, policyHash, w.since t, w.configMap⟩

def begin : World where
  configMap := w.configMap
  audit := w.audit
  pending := w.pending
  serial := Function.update w.serial t (w.serial t + 1)
  since := Function.update w.since t w.configMap
  unread := Function.update w.unread t none
  writes := w.writes

def note (outcome : Outcome) (policyHash : String) : World :=
  { w with audit := w.entry t outcome policyHash :: w.audit }

def append (outcome : Outcome) (policyHash : String) : World :=
  if outcome = .attempt then (w.begin t).note t outcome policyHash else w.note t outcome policyHash

def store (request : ℕ × ℕ) (configMap : ConfigMap) : World where
  configMap := w.configMap.write (some configMap)
  audit := w.audit
  pending := w.pending
  serial := w.serial
  since := w.since
  unread := w.unread
  writes := ⟨request, w.configMap, configMap, w.audit⟩ :: w.writes

def read : World := { w with unread := Function.update w.unread t none }

def miss (configMap : ConfigMap) : World :=
  { w with unread := Function.update w.unread t (some configMap) }

def land (p : Pending) : World :=
  { w.store p.request p.configMap with pending := w.pending.erase p }

end World

inductive Fate where
  | answered
  | lost (e : ApiError)
  | delayed (e : ApiError)
  | refused (e : ApiError)

inductive EntryFate where
  | stored
  | lost
  | refused

@[reducible] def Call.Choice : Call → Type
  | .appendAudit _ _ => EntryFate
  | .getConfigMap => Option ApiError
  | .updateConfigMap _ _ => Fate

def stale (w : World) : ApiError := if w.configMap.current.isSome then .conflict else .notFound

def answer (t : ℕ) : (c : Call) → c.Choice → World → Option (c.Reply × World)
  | .appendAudit outcome policyHash, .stored, w => some (true, w.append t outcome policyHash)
  | .appendAudit outcome policyHash, .lost, w => some (false, w.append t outcome policyHash)
  | .appendAudit _ _, .refused, w => some (false, w)
  | .getConfigMap, none, w =>
    match w.configMap.get with
    | some fetched => some (.ok fetched, w.read t)
    | none => some (.error .notFound, w.read t)
  | .getConfigMap, some e, w => some (.error e, w.read t)
  | .updateConfigMap version configMap, .answered, w =>
    match w.configMap.update version configMap with
    | some v => some (.ok v.version, w.store (w.request t) configMap)
    | none => some (.error (stale w), w)
  | .updateConfigMap version configMap, .lost e, w =>
    match w.configMap.update version configMap with
    | some _ => some (.error e, (w.store (w.request t) configMap).miss t configMap)
    | none => some (.error e, w)
  | .updateConfigMap version configMap, .delayed e, w =>
    some (.error e, { w with pending := ⟨w.request t, version, configMap⟩ :: w.pending })
  | .updateConfigMap _ _, .refused e, w => some (.error e, w)

def machine (t : ℕ) : Machine services World where
  Choice := Call.Choice
  answer := answer t

/-- What happens besides: anybody writes or deletes the ConfigMap, and, unless updates are
prompt, one that was answered is stored late. -/
inductive Others (prompt : Bool) : World → World → Prop where
  | write {w : World} (o : Option ConfigMap) :
      Others prompt w { w with configMap := w.configMap.write o }
  | land {w : World} {v : Versioned ConfigMap} (p : Pending) : prompt = false → p ∈ w.pending →
      w.configMap.update p.resourceVersion p.configMap = some v →
      Others prompt w (w.land p)

/-- A read-back finds in place what its request has stored. -/
def Undisturbed (t : ℕ) : (c : Call) → World → c.Reply → Prop
  | .getConfigMap, w, .ok fetched => ∀ configMap, w.unread t = some configMap → fetched.2 = configMap
  | _, _, _ => True

/-- The dashboard with update `t` in thread `t`. If `prompt`, no update is stored after
its answer, and read-backs are undisturbed. -/
def updates (L : Lowering) (hash : String → String) (body : ℕ → Option UpdateRequest)
    (prompt : Bool) : System services World ℕ Response where
  exec t c w x w' := (machine t).exec c w x w' ∧ (prompt = true → Undisturbed t c w x)
  env := Others prompt
  restart w w' := w' = w
  starts t p := p = handleUpdateRepoAllowlist L hash (body t)

variable {t : ℕ} {w w' : World}

theorem exec_appendAudit {outcome : Outcome} {policyHash : String} {x : Bool}
    (h : (machine t).exec (.appendAudit outcome policyHash) w x w') :
    w' = w.append t outcome policyHash ∨ x = false ∧ w' = w := by
  obtain ⟨_ | _ | _, hk⟩ := h <;> cases hk
  · exact .inl rfl
  · exact .inl rfl
  · exact .inr ⟨rfl, rfl⟩

theorem exec_getConfigMap {x : Except ApiError (ℕ × ConfigMap)}
    (h : (machine t).exec .getConfigMap w x w') :
    w' = w.read t ∧ ∀ version configMap, x = .ok (version, configMap) →
      w.configMap.get = some (version, configMap) := by
  obtain ⟨_ | e, hk⟩ := h
  · simp only [machine, answer] at hk
    split at hk <;> cases hk
    · rename_i hg
      refine ⟨rfl, ?_⟩
      rintro _ _ ⟨⟩
      exact hg
    · exact ⟨rfl, nofun⟩
  · cases hk
    exact ⟨rfl, nofun⟩

/-- An update that names another version than the current one stores nothing. -/
theorem exec_updateConfigMap {version : ℕ} {configMap : ConfigMap} {x : Except ApiError ℕ}
    (h : (machine t).exec (.updateConfigMap version configMap) w x w') :
    ((∃ n, x = .ok n) ∧ w.configMap.version = version ∧
        w' = w.store (w.request t) configMap) ∨
      (∃ e, x = .error e) ∧ (w' = w ∨
        w.configMap.version = version ∧ w' = (w.store (w.request t) configMap).miss t configMap ∨
        w' = { w with pending := ⟨w.request t, version, configMap⟩ :: w.pending }) := by
  obtain ⟨_ | e | e | e, hk⟩ := h
  · simp only [machine, answer] at hk
    split at hk <;> cases hk
    · rename_i hup
      exact .inl ⟨⟨_, rfl⟩, (Versioned.update_eq_some.mp hup).2.1, rfl⟩
    · exact .inr ⟨⟨_, rfl⟩, .inl rfl⟩
  · simp only [machine, answer] at hk
    split at hk <;> cases hk
    · rename_i hup
      exact .inr ⟨⟨_, rfl⟩, .inr (.inl ⟨(Versioned.update_eq_some.mp hup).2.1, rfl⟩)⟩
    · exact .inr ⟨⟨_, rfl⟩, .inl rfl⟩
  · cases hk
    exact .inr ⟨⟨_, rfl⟩, .inr (.inr rfl)⟩
  · cases hk
    exact .inr ⟨⟨_, rfl⟩, .inl rfl⟩

end World

section Invariant

variable (L : Lowering) (hash : String → String) (body : ℕ → Option UpdateRequest) (prompt : Bool)

/-- A write that was asked for from the version, and had its attempt in the trail. -/
def Attempted (request : ℕ × ℕ) (version : ℕ) (configMap : ConfigMap) (audit : List Entry) : Prop :=
  ∃ policy text, Requested L (body request.1) version.repr policy text ∧
    configMap.policy = some text ∧
    ∃ r ∈ audit, r.request = request ∧ r.outcome = .attempt ∧ r.policyHash = hash text

/-- The policy that the entry's request asked for, with the hash of its text, was there at
some moment during the request. -/
def Entry.Witnessed (r : Entry) : Prop :=
  ∃ version policy text, Requested L (body r.request.1) version policy text ∧
    r.policyHash = hash text ∧ ∃ v, r.since.Later v ∧ v.Later r.upTo ∧ Holds L v policy

structure Inv (w : World) : Prop where
  writes : ∀ e ∈ w.writes, Attempted L hash body e.request e.before.version e.after e.audit
  pending : ∀ p ∈ w.pending, Attempted L hash body p.request p.resourceVersion p.configMap w.audit
  witnessed : ∀ r ∈ w.audit, r.outcome = .success → r.Witnessed L hash body
  truthful : prompt = true → ∀ r ∈ w.audit, r.outcome = .failure →
    ∀ e ∈ w.writes, e.request ≠ r.request
  begun : ∀ t, (w.since t).Later w.configMap
  upTo : ∀ r ∈ w.audit, r.upTo.Later w.configMap
  entrySerial : ∀ r ∈ w.audit, r.request.2 ≤ w.serial r.request.1
  writeSerial : ∀ e ∈ w.writes, e.request.2 ≤ w.serial e.request.1

/-- What no other thread does to a request: begin it anew, speak for it, or, if prompt,
write for it. -/
structure Undone (t : ℕ) (w w' : World) : Prop where
  serial : w'.serial t = w.serial t
  since : w'.since t = w.since t
  unread : w'.unread t = w.unread t
  later : w.configMap.Later w'.configMap
  audit : w.audit ⊆ w'.audit
  entries : ∀ r ∈ w'.audit, r.request.1 = t → r ∈ w.audit
  writes : prompt = true → ∀ e ∈ w'.writes, e.request.1 = t → e ∈ w.writes

def trail : Discipline World ℕ where
  inv := Inv L hash body prompt
  evolves _ _ := True
  rely := Undone prompt
  evolves_refl _ := trivial
  evolves_trans := fun _ _ => trivial
  rely_refl _ _ := ⟨rfl, rfl, rfl, .refl _, List.Subset.refl _, fun _ h _ => h, fun _ _ h _ => h⟩
  rely_trans _ _ _ _ h h' :=
    ⟨h'.serial.trans h.serial, h'.since.trans h.since, h'.unread.trans h.unread,
      h.later.trans h'.later, List.Subset.trans h.audit h'.audit,
      fun r hr ht => h.entries r (h'.entries r hr ht) ht,
      fun hp e he ht => h.writes hp e (h'.writes hp e he ht) ht⟩

end Invariant

section Steps

variable {L : Lowering} {hash : String → String} {body : ℕ → Option UpdateRequest} {prompt : Bool}
  {t u : ℕ} {w w' : World}
variable {request : ℕ × ℕ} {configMap : ConfigMap}

theorem Attempted.mono {version : ℕ} {audit audit' : List Entry}
    (h : Attempted L hash body request version configMap audit) (hs : audit ⊆ audit') :
    Attempted L hash body request version configMap audit' := by
  obtain ⟨policy, text, hrq, ht, r, hr, hrs⟩ := h
  exact ⟨policy, text, hrq, ht, r, hs hr, hrs⟩

variable {outcome : Outcome} {policyHash : String}

/-- A row may be noted that is witnessed, or tells a failure of a request that wrote nothing. -/
theorem Inv.note (h : Inv L hash body prompt w)
    (hs : outcome = .success → (w.entry t outcome policyHash).Witnessed L hash body)
    (hf : prompt = true → outcome = .failure → ∀ e ∈ w.writes, e.request ≠ w.request t) :
    Inv L hash body prompt (w.note t outcome policyHash) where
  writes := h.writes
  pending p hp := (h.pending p hp).mono (subset_cons_self _ _)
  witnessed := by
    simp only [World.note, forall_mem_cons]
    exact ⟨hs, h.witnessed⟩
  truthful hp := by
    simp only [World.note, forall_mem_cons]
    exact ⟨hf hp, h.truthful hp⟩
  begun := h.begun
  upTo := by
    simp only [World.note, forall_mem_cons]
    exact ⟨.refl _, h.upTo⟩
  entrySerial := by
    simp only [World.note, forall_mem_cons]
    exact ⟨le_refl _, h.entrySerial⟩
  writeSerial := h.writeSerial

theorem serial_begin (w : World) (t u : ℕ) : w.serial u ≤ (w.begin t).serial u := by
  by_cases hu : u = t
  · subst hu
    simp [World.begin]
  · simp [World.begin, hu]

theorem Inv.begin (h : Inv L hash body prompt w) : Inv L hash body prompt (w.begin t) where
  writes := h.writes
  pending := h.pending
  witnessed := h.witnessed
  truthful := h.truthful
  begun u := by
    by_cases hu : u = t
    · subst hu
      simp [World.begin, Versioned.Later.refl]
    · simpa [World.begin, hu] using h.begun u
  upTo := h.upTo
  entrySerial r hr := (h.entrySerial r hr).trans (serial_begin w t _)
  writeSerial e he := (h.writeSerial e he).trans (serial_begin w t _)

/-- A policy may be stored whose attempt is in the trail. -/
theorem Inv.store (h : Inv L hash body prompt w)
    (ha : Attempted L hash body request w.configMap.version configMap w.audit)
    (hq : prompt = true → ∀ r ∈ w.audit, r.outcome = .failure → request ≠ r.request) :
    Inv L hash body prompt (w.store request configMap) where
  writes := by
    simp only [World.store, forall_mem_cons]
    exact ⟨ha, h.writes⟩
  pending := h.pending
  witnessed := h.witnessed
  truthful hp r hr hfail := by
    simp only [World.store, forall_mem_cons]
    exact ⟨hq hp r hr hfail, h.truthful hp r hr hfail⟩
  begun u := (h.begun u).trans (Versioned.later_write _ _)
  upTo r hr := (h.upTo r hr).trans (Versioned.later_write _ _)
  entrySerial := h.entrySerial
  writeSerial := by
    obtain ⟨_, _, _, _, r, hr, hrq, -⟩ := ha
    simp only [World.store, forall_mem_cons]
    exact ⟨hrq ▸ h.entrySerial r hr, h.writeSerial⟩

theorem Inv.read (h : Inv L hash body prompt w) (unread : ℕ → Option ConfigMap) :
    Inv L hash body prompt { w with unread := unread } :=
  ⟨h.writes, h.pending, h.witnessed, h.truthful, h.begun, h.upTo, h.entrySerial, h.writeSerial⟩

theorem Inv.delay (h : Inv L hash body prompt w) {p : Pending}
    (ha : Attempted L hash body p.request p.resourceVersion p.configMap w.audit) :
    Inv L hash body prompt { w with pending := p :: w.pending } where
  writes := h.writes
  pending := by
    simp only [forall_mem_cons]
    exact ⟨ha, h.pending⟩
  witnessed := h.witnessed
  truthful := h.truthful
  begun := h.begun
  upTo := h.upTo
  entrySerial := h.entrySerial
  writeSerial := h.writeSerial

theorem Inv.write (h : Inv L hash body prompt w) (o : Option ConfigMap) :
    Inv L hash body prompt { w with configMap := w.configMap.write o } where
  writes := h.writes
  pending := h.pending
  witnessed := h.witnessed
  truthful := h.truthful
  begun u := (h.begun u).trans (Versioned.later_write _ _)
  upTo r hr := (h.upTo r hr).trans (Versioned.later_write _ _)
  entrySerial := h.entrySerial
  writeSerial := h.writeSerial

theorem undone_note (hu : u ≠ t) :
    Undone prompt u w (w.note t outcome policyHash) where
  serial := rfl
  since := rfl
  unread := rfl
  later := .refl _
  audit := subset_cons_self _ _
  entries := by
    simp only [World.note, forall_mem_cons]
    exact ⟨fun h => absurd h.symm hu, fun r hr _ => hr⟩
  writes := fun _ _ h _ => h

theorem undone_begin (hu : u ≠ t) : Undone prompt u w (w.begin t) where
  serial := by simp [World.begin, hu]
  since := by simp [World.begin, hu]
  unread := by simp [World.begin, hu]
  later := .refl _
  audit := List.Subset.refl _
  entries := fun _ h _ => h
  writes := fun _ _ h _ => h

theorem undone_store (hu : prompt = true → request.1 ≠ u) : Undone prompt u w
    (w.store request configMap) where
  serial := rfl
  since := rfl
  unread := rfl
  later := Versioned.later_write _ _
  audit := List.Subset.refl _
  entries := fun _ h _ => h
  writes hp := by
    simp only [World.store, forall_mem_cons]
    exact ⟨fun h => absurd h (hu hp), fun e he _ => he⟩

theorem undone_unread {o : Option ConfigMap} (hu : u ≠ t) :
    Undone prompt u w { w with unread := Function.update w.unread t o } where
  serial := rfl
  since := rfl
  unread := by simp [hu]
  later := .refl _
  audit := List.Subset.refl _
  entries := fun _ h _ => h
  writes := fun _ _ h _ => h

theorem undone_pending (pending : List Pending) : Undone prompt u w { w with pending := pending } :=
  ⟨rfl, rfl, rfl, .refl _, List.Subset.refl _, fun _ h _ => h, fun _ _ h _ => h⟩

theorem undone_write (o : Option ConfigMap) :
    Undone prompt u w { w with configMap := w.configMap.write o } :=
  ⟨rfl, rfl, rfl, Versioned.later_write _ _, List.Subset.refl _, fun _ h _ => h, fun _ _ h _ => h⟩

end Steps

section Walk

variable {L : Lowering} {hash : String → String} {body : ℕ → Option UpdateRequest} {prompt : Bool}
  {t : ℕ} {w w' : World} {version text : String} {policy : List String}

structure Working (hash : String → String) (t : ℕ) (text : String) (w : World) : Prop where
  attempt : ∃ r ∈ w.audit, r.request = w.request t ∧ r.outcome = .attempt ∧ r.policyHash = hash text
  quiet : ∀ r ∈ w.audit, r.request = w.request t → r.outcome = .attempt

/-- Nothing was written for the request; this is known only of prompt updates. -/
def Unwritten (prompt : Bool) (t : ℕ) (w : World) : Prop :=
  prompt = true → ∀ e ∈ w.writes, e.request ≠ w.request t

/-- The policy was there at some moment since the request began. -/
def Found (L : Lowering) (t : ℕ) (policy : List String) (w : World) : Prop :=
  ∃ v, (w.since t).Later v ∧ v.Later w.configMap ∧ Holds L v policy

/-- What a request that was answered 200 has in the trail. -/
def Answered (L : Lowering) (hash : String → String) (body : ℕ → Option UpdateRequest) (t : ℕ)
    (a : Response) (w : World) : Prop :=
  a.status = 200 → ∃ version policy text, Requested L (body t) version policy text ∧
    ∃ r ∈ w.audit, r.request = w.request t ∧ r.outcome = .success ∧ r.policyHash = hash text ∧
      r.since = w.since t

theorem Undone.request (h : Undone prompt t w w') : w'.request t = w.request t := by
  simp only [World.request, h.serial]

theorem Working.undone (h : Working hash t text w) (hu : Undone prompt t w w') :
    Working hash t text w' := by
  obtain ⟨r, hr, hrs⟩ := h.attempt
  constructor
  · exact ⟨r, hu.audit hr, by rw [hu.request]; exact hrs⟩
  intro r hr hrq
  rw [hu.request] at hrq
  exact h.quiet r (hu.entries r hr (congrArg Prod.fst hrq)) hrq

theorem Unwritten.undone (h : Unwritten prompt t w) (hu : Undone prompt t w w') :
    Unwritten prompt t w' := by
  intro hp e he hr
  rw [hu.request] at hr
  exact h hp e (hu.writes hp e he (congrArg Prod.fst hr)) hr

theorem Found.undone (h : Found L t policy w) (hu : Undone prompt t w w') : Found L t policy w' := by
  obtain ⟨v, hs, hl, hh⟩ := h
  exact ⟨v, by rw [hu.since]; exact hs, hl.trans hu.later, hh⟩

variable {a : Response}

theorem Answered.undone (h : Answered L hash body t a w) (hu : Undone prompt t w w') :
    Answered L hash body t a w' := by
  intro h200
  obtain ⟨version, policy, text, hrq, r, hr, hrs⟩ := h h200
  exact ⟨version, policy, text, hrq, r, hu.audit hr, by rw [hu.request, hu.since]; exact hrs⟩

/-- The programs of a thread, under the discipline of the trail. -/
abbrev SafeAt (L : Lowering) (hash : String → String) (body : ℕ → Option UpdateRequest)
    (prompt : Bool) (t : ℕ) (p : Prog Response) (w : World) : Prop :=
  Safe (updates L hash body prompt).exec (trail L hash body prompt) t (Answered L hash body t) p w

theorem answered_of_ne (h : a.status ≠ 200) : Answered L hash body t a w :=
  fun h200 => absurd h200 h

theorem k8sError_status (e : ApiError) : (k8sError e).status ≠ 200 := by
  cases e <;> decide

variable {outcome : Outcome} {policyHash : String}

theorem allowed_note (h : Inv L hash body prompt w)
    (hs : outcome = .success → (w.entry t outcome policyHash).Witnessed L hash body)
    (hf : outcome = .failure → Unwritten prompt t w) :
    Allowed (trail L hash body prompt) t w (w.note t outcome policyHash) :=
  ⟨h.note hs fun hp ho => hf ho hp, trivial, fun _ hu => undone_note hu⟩

theorem allowed_self (h : Inv L hash body prompt w) : Allowed (trail L hash body prompt) t w w :=
  ⟨h, trivial, fun _ _ => (trail L hash body prompt).rely_refl _ _⟩

theorem safe_record {response : Response} (hrs : response.status ≠ 200) (ha : outcome ≠ .attempt)
    (hs : outcome ≠ .success) (hf : outcome = .failure → Unwritten prompt t w) :
    SafeAt L hash body prompt t (recordRepoAllowlistAudit outcome policyHash response) w := by
  intro w1 hr hi x w2 hx
  refine ⟨?_, answered_of_ne hrs⟩
  rcases exec_appendAudit hx.1 with rfl | ⟨-, rfl⟩
  · rw [World.append, if_neg ha]
    exact allowed_note hi (fun h => absurd h hs) fun h => (hf h).undone hr
  · exact allowed_self hi

/-- Success is noted only for a policy that was there since the request began. -/
theorem safe_succeed {snapshot : Snapshot} (hrq : Requested L (body t) version policy text)
    (hf : Found L t policy w) : SafeAt L hash body prompt t (succeed (hash text) snapshot) w := by
  intro w1 hr hi x w2 hx
  have hf := hf.undone hr
  have hn : Allowed (trail L hash body prompt) t w1 (w1.note t .success (hash text)) :=
    allowed_note hi (fun _ => ⟨version, policy, text, hrq, rfl, hf⟩) nofun
  cases x with
  | true =>
    rcases exec_appendAudit hx.1 with rfl | ⟨h, -⟩
    · refine ⟨hn, fun _ => ⟨version, policy, text, hrq, ?_⟩⟩
      exact ⟨_, mem_cons_self, rfl, rfl, rfl, rfl⟩
    · cases h
  | false =>
    refine ⟨?_, answered_of_ne (by decide)⟩
    rcases exec_appendAudit hx.1 with rfl | ⟨-, rfl⟩
    · exact hn
    · exact allowed_self hi

theorem unwritten_of_refused (hi : Inv L hash body prompt w)
    (h : ∀ version policy text, ¬ Requested L (body t) version policy text) :
    Unwritten prompt t w := by
  intro _ e he hrq
  obtain ⟨policy, text, hr, -⟩ := hi.writes e he
  rw [hrq] at hr
  exact h _ _ _ hr

variable (hhash : Function.Injective hash)
include hhash

/-- An update that was answered with an error is resolved to what is there. If the own
write is there unread, a read-back that succeeds finds it. -/
theorem safe_resolve {e : ApiError} (hrq : Requested L (body t) version policy text)
    (how : Unwritten prompt t w ∨
      ∃ configMap : ConfigMap, w.unread t = some (configMap.setPolicy text)) :
    SafeAt L hash body prompt t (resolve L hash (hash text) e) w := by
  intro w1 hr hi x w2 hx
  obtain ⟨hw2, hg⟩ := exec_getConfigMap hx.1
  subst hw2
  refine ⟨⟨hi.read _, trivial, fun _ hu => undone_unread hu⟩, ?_⟩
  cases x with
  | error e' => exact safe_record (k8sError_status e) nofun nofun nofun
  | ok fetched =>
    obtain ⟨n, configMap⟩ := fetched
    change SafeAt L hash body prompt t
      (if (outcomeOf L hash (hash text) (snapshotOf L n configMap)).2 = .success then _ else _) _
    split
    · rename_i hs
      obtain ⟨raw, hrw, hpr⟩ := policy_of_outcomeOf hhash hrq.parse_text hs
      have hc := (Versioned.get_eq_some.mp (hg n configMap rfl)).1
      exact safe_succeed hrq
        ⟨w1.configMap, hi.begun t, .refl _, configMap, raw, hc, hrw, hpr⟩
    rename_i ho
    have hat : (outcomeOf L hash (hash text) (snapshotOf L n configMap)).2 ≠ .attempt := by
      unfold outcomeOf
      repeat' split
      all_goals exact nofun
    refine safe_record (k8sError_status e) hat ho fun _ => ?_
    intro hp
    rcases how with hun | ⟨own, how⟩
    · have hun1 : Unwritten prompt t w1 := hun.undone hr
      exact hun1 hp
    -- undisturbed, the read-back would have found the text
    have hf : configMap = own.setPolicy text := hx.2 hp _ (hr.unread.trans how)
    obtain ⟨req, -, -, ha⟩ := hrq
    obtain ⟨_, -, -, hfr⟩ := accept_eq_ok ha
    have hpr := Requested.parse_text ⟨req, rfl, rfl, ha⟩
    rw [hf] at ho
    exact absurd (outcomeOf_setPolicy hpr hfr) ho

/-- The write of a policy and the row that tells its outcome. -/
theorem safe_update {n : ℕ} {configMap : ConfigMap} {repositories : List String}
    (hrq : Requested L (body t) version policy text) (hv : n.repr = version)
    (hw : Working hash t text w) (hun : Unwritten prompt t w) :
    SafeAt L hash body prompt t
      (do
        match ← call (.updateConfigMap n (configMap.setPolicy text)) with
        | .error e => resolve L hash (hash text) e
        | .ok updated => succeed (hash text) ⟨repositories, updated.repr⟩) w := by
  intro w1 hr hi x w2 hx
  have hw := hw.undone hr
  have hun1 : Unwritten prompt t w1 := hun.undone hr
  have ha : Attempted L hash body (w1.request t) n (configMap.setPolicy text) w1.audit :=
    ⟨policy, text, hv ▸ hrq, policy_setPolicy _ _, hw.attempt⟩
  have hq : prompt = true → ∀ r ∈ w1.audit, r.outcome = .failure → w1.request t ≠ r.request := by
    intro _ r hr hf heq
    rw [hw.quiet r hr heq.symm] at hf
    cases hf
  rcases exec_updateConfigMap hx.1 with
    ⟨⟨m, rfl⟩, hn, rfl⟩ | ⟨⟨e, rfl⟩, rfl | ⟨hn, rfl⟩ | rfl⟩
  · refine ⟨⟨hi.store (hn ▸ ha) hq, trivial, fun u hu => undone_store fun _ => hu.symm⟩, ?_⟩
    refine safe_succeed hrq ⟨_, ?_, .refl _, _, _, rfl, policy_setPolicy _ _, hrq.parse_text⟩
    exact (hi.begun t).trans (Versioned.later_write _ _)
  · exact ⟨allowed_self hi, safe_resolve hhash hrq (.inl hun1)⟩
  · have hs : Inv L hash body prompt (w1.store (w1.request t) (configMap.setPolicy text)) :=
      hi.store (hn ▸ ha) hq
    refine ⟨⟨hs.read _, trivial, fun u hu => ?_⟩, safe_resolve hhash hrq (.inr ?_)⟩
    · exact (trail L hash body prompt).rely_trans u (undone_store fun _ => hu.symm) (undone_unread hu)
    · exact ⟨configMap, by simp [World.miss]⟩
  · refine ⟨⟨hi.delay ha, trivial, fun _ _ => undone_pending _⟩, ?_⟩
    exact safe_resolve hhash hrq (.inl hun1)

/-- The attempt is noted before the policy is read and written. -/
theorem safe_submit (hrq : Requested L (body t) version policy text) :
    SafeAt L hash body prompt t (submit L hash version policy text) w := by
  intro w1 hr hi x w2 hx
  have hb := hi.begin (t := t)
  have hn : Allowed (trail L hash body prompt) t w1 (w1.append t .attempt (hash text)) := by
    rw [World.append, if_pos rfl]
    refine ⟨hb.note nofun nofun, trivial, fun u hu => ?_⟩
    exact (trail L hash body prompt).rely_trans u (undone_begin hu) (undone_note hu)
  cases x with
  | false =>
    refine ⟨?_, answered_of_ne (by decide)⟩
    rcases exec_appendAudit hx.1 with rfl | ⟨-, rfl⟩
    · exact hn
    · exact allowed_self hi
  | true =>
    rcases exec_appendAudit hx.1 with rfl | ⟨h, -⟩
    swap
    · cases h
    refine ⟨hn, ?_⟩
    rw [World.append, if_pos rfl]
    -- the serial is new, so nothing has been written or recorded under it
    have hnw : ∀ request : ℕ × ℕ, request.2 ≤ w1.serial request.1 →
        request ≠ (w1.begin t).request t := by
      rintro ⟨u, n⟩ hle heq
      simp only [World.request, World.begin, Function.update_self, Prod.mk.injEq] at heq
      obtain ⟨rfl, rfl⟩ := heq
      simp only at hle
      omega
    have hw : Working hash t text ((w1.begin t).note t .attempt (hash text)) := by
      refine ⟨⟨_, mem_cons_self, rfl, rfl, rfl⟩, ?_⟩
      simp only [World.note, forall_mem_cons]
      refine ⟨fun _ => rfl, fun r hr heq => ?_⟩
      exact absurd heq (hnw _ (hi.entrySerial r hr))
    have hun : Unwritten prompt t ((w1.begin t).note t .attempt (hash text)) :=
      fun _ e he => hnw _ (hi.writeSerial e he)
    intro w3 hr3 hi3 y w4 hy
    obtain ⟨hw4, -⟩ := exec_getConfigMap hy.1
    subst hw4
    refine ⟨⟨hi3.read _, trivial, fun _ hu => undone_unread hu⟩, ?_⟩
    have hw3 : Working hash t text (w3.read t) :=
      ⟨(hw.undone hr3).attempt, (hw.undone hr3).quiet⟩
    have hun3 : Unwritten prompt t w3 := hun.undone hr3
    cases y with
    | error e =>
      refine safe_record (w := w3.read t) ?_ nofun nofun fun _ => hun3
      cases e <;> decide
    | ok fetched =>
      obtain ⟨n, configMap⟩ := fetched
      change SafeAt L hash body prompt t (if n.repr ≠ version then _ else _) _
      split
      · exact safe_record (by decide) nofun nofun fun _ => hun3
      · rename_i hv
        exact safe_update hhash hrq (not_not.mp hv) hw3 hun3

/-- Every request keeps the trail, whatever its body. -/
theorem safe_handleUpdateRepoAllowlist (hi : Inv L hash body prompt w) :
    SafeAt L hash body prompt t (handleUpdateRepoAllowlist L hash (body t)) w := by
  cases hb : body t with
  | none =>
    refine safe_record (by decide) nofun nofun fun _ => unwritten_of_refused hi ?_
    rintro version policy text ⟨req, hr, -⟩
    cases hb.symm.trans hr
  | some req =>
    unfold handleUpdateRepoAllowlist
    cases ha : accept L req with
    | error response =>
      simp only [ha]
      refine safe_record ?_ nofun nofun fun _ => unwritten_of_refused hi ?_
      · exact accept_status ha
      rintro version policy text ⟨req', hr, -, ha'⟩
      cases hb.symm.trans hr
      cases ha.symm.trans ha'
    | ok accepted =>
      simp only [ha]
      exact safe_submit hhash ⟨req, hb, rfl, ha⟩

/-- So do any number of requests at once. -/
theorem updates_respects :
    (updates L hash body prompt).Respects (trail L hash body prompt) (Answered L hash body) where
  starts := by
    rintro t _ w rfl hi
    exact safe_handleUpdateRepoAllowlist hhash hi
  lasts := fun _ _ _ _ h hr => h.undone hr
  env := by
    rintro w _ hi (⟨o⟩ | ⟨p, rfl, hp, hup⟩)
    · exact ⟨hi.write o, trivial, fun _ => undone_write o⟩
    obtain ⟨-, hv, -⟩ := Versioned.update_eq_some.mp hup
    have hs := hi.store (hv ▸ hi.pending p hp) nofun
    refine ⟨⟨hs.writes, fun q hq => ?_, hs.witnessed, nofun, hs.begun, hs.upTo,
      hs.entrySerial, hs.writeSerial⟩, trivial, fun u => ?_⟩
    · exact hi.pending q (mem_of_mem_erase hq)
    · exact (trail L hash body false).rely_trans u (undone_store nofun) (undone_pending _)
  restart := by
    rintro w _ hi rfl
    exact ⟨hi, trivial⟩

end Walk

theorem inv_start {L : Lowering} {hash : String → String} {body : ℕ → Option UpdateRequest}
    {prompt : Bool} (configMap : Versioned ConfigMap) :
    Inv L hash body prompt (World.start configMap) where
  writes := nofun
  pending := nofun
  witnessed := nofun
  truthful := nofun
  begun _ := .refl _
  upTo := nofun
  entrySerial := nofun
  writeSerial := nofun

def samplePolicy : Versioned ConfigMap := ⟨[some ⟨[(dataKey, "")]⟩]⟩

def sampleBody : ℕ → Option UpdateRequest
  | 0 => some ⟨some ["Acme/Web"], "1"⟩
  | _ => some ⟨some ["acme/api"], "1"⟩

def samplePick (fate : Fate) : (c : Call) → World → c.Choice
  | .appendAudit _ _, _ => .stored
  | .getConfigMap, _ => none
  | .updateConfigMap _ _, _ => fate

def promptMachine (t : ℕ) : Machine services World :=
  (machine t).guard fun
    | .getConfigMap, w, .ok fetched, _ => (w.unread t).all fun configMap => fetched.2 = configMap
    | _, _, _, _ => true

theorem exec_promptMachine {prompt : Bool} {t : ℕ} {c : Call} {w w' : World} {x : c.Reply}
    (h : (promptMachine t).exec c w x w') :
    (updates asciiLowering id sampleBody prompt).exec t c w x w' := by
  obtain ⟨he, hok⟩ := (Machine.exec_guard _).mp h
  refine ⟨he, fun _ => ?_⟩
  unfold Undisturbed
  split
  · simpa [Option.all_eq_true] using hok
  · trivial

def afterUpdates (fate : Fate) (ts : List ℕ) : World :=
  ts.foldl (fun w t => (promptMachine t).after (samplePick fate)
    (handleUpdateRepoAllowlist asciiLowering id (sampleBody t)) w) (World.start samplePolicy)

theorem steps_afterUpdates (prompt : Bool) (fate : Fate) (ts : List ℕ) :
    (updates asciiLowering id sampleBody prompt).Steps
      (Config.idle (World.start samplePolicy)) (Config.idle (afterUpdates fate ts)) :=
  System.steps_idle_after promptMachine (fun _ => samplePick fate) _
    (fun _ _ _ _ _ => exec_promptMachine) (fun _ => rfl) ts _

section Trail

variable {L : Lowering} {hash : String → String} {body : ℕ → Option UpdateRequest}
  {configMap : Versioned ConfigMap} {c : Config services World ℕ Response}

/-- Whatever becomes of the updates and whoever else writes the policy: an answer 200 means
that the policy was in force since the request began and that this is on record; a write
replaces the version that its request named, and it is on record before it is made. -/
theorem policy_update_on_record (hhash : Function.Injective hash)
    (hsteps : (updates L hash body false).Steps (Config.idle (World.start configMap)) c) :
    (∀ t a, c.threads t = some (.done a) → a.status = 200 →
      ∃ version policy text, Requested L (body t) version policy text ∧
        (∃ v, (c.shared.since t).Later v ∧ v.Later c.shared.configMap ∧ Holds L v policy) ∧
        ∃ r ∈ c.shared.audit, r.request = c.shared.request t ∧ r.outcome = .success ∧
          r.policyHash = hash text) ∧
    ∀ e ∈ c.shared.writes, ∃ policy text,
      Requested L (body e.request.1) e.before.version.repr policy text ∧ e.after.policy = some text ∧
      ∃ r ∈ e.audit, r.request = e.request ∧ r.outcome = .attempt ∧ r.policyHash = hash text := by
  obtain ⟨hgood, -⟩ := System.reachable_good (updates_respects hhash)
    (System.good_idle (inv_start configMap)) hsteps
  refine ⟨fun t a hdone h200 => ?_, hgood.inv.writes⟩
  obtain ⟨version, policy, text, hreq, r, hr, hrequest, hsuccess, hpolicy, hsince⟩ :=
    hgood.safe t _ hdone h200
  obtain ⟨_, _, _, hreq', -, v, hv, hv', hholds⟩ := hgood.inv.witnessed r hr hsuccess
  rw [hrequest] at hreq'
  obtain ⟨-, rfl, -⟩ := hreq.unique hreq'
  refine ⟨version, policy, text, hreq, ⟨v, hsince ▸ hv, ?_, hholds⟩, r, hr, hrequest, hsuccess, hpolicy⟩
  exact hv'.trans (hgood.inv.upTo r hr)

def recordedResponse : Response := ⟨200, "", some ⟨["acme/web"], "2"⟩⟩

def recordedWorld : World :=
  (promptMachine 0).after (samplePick (.lost .unavailable))
    (handleUpdateRepoAllowlist asciiLowering id (sampleBody 0)) (World.start samplePolicy)

theorem runs_recorded : Runs (promptMachine 0).exec
    (handleUpdateRepoAllowlist asciiLowering id (sampleBody 0)) (World.start samplePolicy)
    recordedResponse recordedWorld :=
  Machine.runs_after _ (by decide +kernel)

def recordedConfig : Config services World ℕ Response :=
  ⟨recordedWorld, Function.update (fun _ => none) 0 (some (.done recordedResponse))⟩

/-- An update that is stored and answered with an error is read back, recorded and
answered 200. -/
theorem lost_answer_on_record :
    recordedConfig.threads 0 = some (.done recordedResponse) ∧ recordedResponse.status = 200 ∧
    ∃ version policy text, Requested asciiLowering (sampleBody 0) version policy text ∧
      (∃ v, (recordedConfig.shared.since 0).Later v ∧ v.Later recordedConfig.shared.configMap ∧
        Holds asciiLowering v policy) ∧
      ∃ r ∈ recordedConfig.shared.audit, r.request = recordedConfig.shared.request 0 ∧
        r.outcome = .success ∧ r.policyHash = text := by
  have hsteps : (updates asciiLowering id sampleBody false).Steps
      (Config.idle (World.start samplePolicy)) recordedConfig :=
    System.steps_done_of_runs rfl rfl (runs_recorded.mono fun _ _ _ _ => exec_promptMachine)
  have hdone : recordedConfig.threads 0 = some (.done recordedResponse) := rfl
  exact ⟨hdone, rfl,
    (policy_update_on_record Function.injective_id hsteps).1 0 recordedResponse hdone rfl⟩

/-- Where updates are prompt and read-backs undisturbed, a recorded failure means that
nothing was written for the request, and a recorded success that its policy was in force
while it was under way. -/
theorem policy_outcome_truthful (hhash : Function.Injective hash)
    (hsteps : (updates L hash body true).Steps (Config.idle (World.start configMap)) c) :
    ∀ r ∈ c.shared.audit,
      (r.outcome = .failure → ∀ e ∈ c.shared.writes, e.request ≠ r.request) ∧
      (r.outcome = .success → ∃ version policy text,
        Requested L (body r.request.1) version policy text ∧
          ∃ v, r.since.Later v ∧ v.Later r.upTo ∧ Holds L v policy) := by
  obtain ⟨hgood, -⟩ := System.reachable_good (updates_respects hhash)
    (System.good_idle (inv_start configMap)) hsteps
  intro r hr
  refine ⟨hgood.inv.truthful rfl r hr, fun hsuccess => ?_⟩
  obtain ⟨version, policy, text, hreq, -, hfound⟩ := hgood.inv.witnessed r hr hsuccess
  exact ⟨version, policy, text, hreq, hfound⟩

/-- Of two requests from one version the second is recorded as a failure, and the only
write is the first one's. -/
theorem second_update_fails :
    (afterUpdates .answered [1, 0]).audit.map (fun r => (r.request, r.outcome)) =
      [((0, 1), .failure), ((0, 1), .attempt), ((1, 1), .success), ((1, 1), .attempt)] ∧
    (afterUpdates .answered [1, 0]).writes.map Write.request = [(1, 1)] ∧
    ∀ r ∈ (afterUpdates .answered [1, 0]).audit,
      (r.outcome = .failure → ∀ e ∈ (afterUpdates .answered [1, 0]).writes, e.request ≠ r.request) ∧
      (r.outcome = .success → ∃ version policy text,
        Requested asciiLowering (sampleBody r.request.1) version policy text ∧
          ∃ v, r.since.Later v ∧ v.Later r.upTo ∧ Holds asciiLowering v policy) :=
  ⟨by decide +kernel, by decide +kernel,
    policy_outcome_truthful Function.injective_id (steps_afterUpdates true .answered [1, 0])⟩

def delayedUpdate : Pending := ⟨(0, 1), 1, ⟨[(dataKey, "acme/web\n")]⟩⟩

def landedWorld : World := (afterUpdates (.delayed .unavailable) [0]).land delayedUpdate

/-- An update is answered with an error, read back before it is stored, and recorded as a
failure; then it is stored. -/
theorem delayed_update_recorded_as_failure :
    (updates asciiLowering id sampleBody false).Steps
      (Config.idle (World.start samplePolicy)) (Config.idle landedWorld) ∧
    landedWorld.audit.map (fun r => (r.request, r.outcome)) =
      [((0, 1), .failure), ((0, 1), .attempt)] ∧
    landedWorld.writes.map (fun e => (e.request, e.after.policy)) = [((0, 1), some "acme/web\n")] ∧
    landedWorld.configMap.current = some delayedUpdate.configMap := by
  have hpending : delayedUpdate ∈ (afterUpdates (.delayed .unavailable) [0]).pending := by
    decide +kernel
  have hcurrent : (afterUpdates (.delayed .unavailable) [0]).configMap.current.isSome ∧
      (afterUpdates (.delayed .unavailable) [0]).configMap.version = 1 := by decide +kernel
  have hland : ∀ w : World, delayedUpdate ∈ w.pending → w.configMap.current.isSome →
      w.configMap.version = 1 → Others false w (w.land delayedUpdate) :=
    fun w hp hc hv => .land delayedUpdate rfl hp (Versioned.update_eq_some.mpr ⟨hc, hv, rfl⟩)
  exact ⟨(steps_afterUpdates false (.delayed .unavailable) [0]).tail
      (.env (hland _ hpending hcurrent.1 hcurrent.2)),
    by decide +kernel, by decide +kernel, by decide +kernel⟩

end Trail

end Orkano.Dashboard.RepoPolicy
