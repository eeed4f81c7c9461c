import Mathlib.Data.List.Basic
import Orkano.Doctor.Netpol

/-!
What the isolation probe's verdict says about the batches that it ran, whatever the cluster and
the clock answer.
-/
namespace Orkano.Doctor

open Interleave Program List

abbrev Batch := Role → Option LegOutcome

def Batch.fresh : Batch := fun _ => none

/-- The allowed path works and both forbidden ones are closed. -/
def Batch.isolated (b : Batch) : Bool :=
  b .control = some .connected && b .denyRegistry = some .blocked && b .denyEgress = some .blocked

/-- The allowed path works and so does a forbidden one. -/
def Batch.leaked (b : Batch) : Bool :=
  b .control = some .connected &&
    (b .denyRegistry = some .connected || b .denyEgress = some .connected)

structure Trace where
  batches : List Batch
  absent : Bool

def Trace.empty : Trace := ⟨[], false⟩

def Trace.push (t : Trace) (b : Batch) : Trace := { t with batches := b :: t.batches }

def leakCount (batches : List Batch) : ℕ := batches.countP Batch.leaked

/-- A control canary opens a batch; a finished canary is seen. -/
def note : (c : Call) → c.Reply → Trace → Trace
  | .listPolicies _, some 0, t => { t with absent := true }
  | .createPod pod, _, t => if pod.role = .control then t.push .fresh else t
  | .getPod role _, .ok pod, t =>
    if pod.isTerminal then
      { t with batches := t.batches.modifyHead (Function.update · role (classifyCanary pod)) }
    else t
  | _, _, t => t

def recorder : Machine cluster Trace where
  Choice := Call.Reply
  answer c x t := some (x, note c x t)

theorem recorder_exec {c : Call} {t t' : Trace} {x : c.Reply} :
    recorder.exec c t x t' ↔ t' = note c x t := by
  constructor
  · rintro ⟨y, hy⟩
    obtain ⟨rfl, rfl⟩ := Prod.mk.inj (Option.some.inj hy)
    rfl
  · rintro rfl
    exact ⟨x, rfl⟩

section Canaries

variable {t : Trace} {b : Batch} {role : Role} {name : String}

def BatchResult.leg (r : BatchResult) : Role → LegOutcome
  | .control => r.control
  | .denyRegistry => r.denyRegistry
  | .denyEgress => r.denyEgress

@[simp] theorem leg_record (r : BatchResult) (role : Role) (outcome : LegOutcome)
    (detail : String) :
    (r.record role outcome detail).leg = Function.update r.leg role outcome := by
  funext role'
  cases role <;> cases role' <;> rfl

theorem ensures_readCanary :
    Ensures recorder.exec (readCanary role name) (t.push b) fun out t' =>
      (∀ seen, out = .ok seen → t' = t.push (Function.update b role (some seen.1))) ∧
        ∀ e, out = .error e → t' = t.push b := by
  simp only [readCanary, call, perform_bind, ensures_call, recorder_exec]
  rintro x _ rfl
  cases x with
  | error e => simp [note]
  | ok pod =>
    by_cases hp : pod.isTerminal
    · simp [note, hp, Trace.push]
    · simp [note, hp]

/-- A canary that finishes in time is seen as it is classified. -/
theorem ensures_pollCanary (ctxErr : String) (n : ℕ) :
    Ensures recorder.exec (pollCanary role name ctxErr n) (t.push b) fun out t' =>
      (out.2.2 = none → t' = t.push (Function.update b role (some out.1))) ∧
        (out.2.2 ≠ none → t' = t.push b) := by
  induction n with
  | zero =>
    unfold pollCanary
    refine ensures_readCanary.bind fun out t' ho => ?_
    cases out with
    | error e => simpa using ho.2 e rfl
    | ok seen => simpa using ho.1 seen rfl
  | succ n ih =>
    unfold pollCanary
    refine ensures_readCanary.bind fun out t' ho => ?_
    cases out with
    | error e =>
      rw [ho.2 e rfl]
      exact ih
    | ok seen => simpa using ho.1 seen rfl

theorem ensures_waitCanaryOutcome :
    Ensures recorder.exec (waitCanaryOutcome role name) (t.push b) fun out t' =>
      (out.2.2 = none → t' = t.push (Function.update b role (some out.1))) ∧
        (out.2.2 ≠ none → t' = t.push b) := by
  simp only [waitCanaryOutcome, call, perform_bind, ensures_call, recorder_exec]
  rintro x _ rfl
  exact ensures_pollCanary x.2 x.1

theorem ensures_cleanup (pods : List CanaryPod) :
    Ensures recorder.exec (cleanup pods) t fun _ t' => t' = t := by
  induction pods with
  | nil => exact ensures_done.mpr rfl
  | cons pod rest ih =>
    simp only [cleanup, call, perform_bind, ensures_call, recorder_exec]
    rintro _ _ rfl
    exact ih

theorem ensures_createPods {pods : List CanaryPod} (hp : ∀ pod ∈ pods, pod.role ≠ .control) :
    Ensures recorder.exec (createPods pods) t fun _ t' => t' = t := by
  induction pods with
  | nil => exact ensures_done.mpr rfl
  | cons pod rest ih =>
    simp only [createPods, call, perform_bind, ensures_call, recorder_exec]
    rintro x _ rfl
    have hn : note (.createPod pod) x t = t := if_neg (hp pod mem_cons_self)
    rw [hn]
    cases x with
    | some e => exact ensures_done.mpr rfl
    | none => exact ih fun pod hpd => hp pod (mem_cons_of_mem _ hpd)

/-- The batch in the trace shows what the result says of these roles. -/
def Agrees (roles : List Role) (r : BatchResult) (b : Batch) : Prop :=
  ∀ role ∈ roles, b role = some (r.leg role)

variable {roles : List Role} {r : BatchResult}

theorem Agrees.record (h : Agrees roles r b)
    (role : Role) (outcome : LegOutcome) (detail : String) :
    Agrees (role :: roles) (r.record role outcome detail) (Function.update b role (some outcome))
    := by
  intro role' hr'
  rw [leg_record]
  by_cases heq : role' = role
  · subst heq
    rw [Function.update_self, Function.update_self]
  · rw [Function.update_of_ne heq, Function.update_of_ne heq]
    exact h role' ((mem_cons.mp hr').resolve_left heq)

/-- Waiting for the pods records each role as it ended. -/
theorem ensures_waitPods (pods : List CanaryPod)
    (h : Agrees roles r b) :
    Ensures recorder.exec (waitPods r pods) (t.push b) fun out t' =>
      ∃ b', t' = t.push b' ∧
        ∀ r', out = .ok r' → Agrees ((pods.map CanaryPod.role).reverse ++ roles) r' b' := by
  induction pods generalizing roles r b with
  | nil =>
    refine ensures_done.mpr ⟨b, rfl, ?_⟩
    rintro _ ⟨⟩
    exact h
  | cons pod rest ih =>
    unfold waitPods
    refine ensures_waitCanaryOutcome.bind fun out t' ho => ?_
    obtain ⟨outcome, detail, _ | e⟩ := out
    · rw [ho.1 rfl]
      simpa using ih (h.record pod.role outcome detail)
    · rw [ho.2 (by simp)]
      exact ensures_done.mpr ⟨b, rfl, by simp⟩

end Canaries

section Verdict

variable {p : NetpolProbe} {t : Trace} {registryVIP apiVIP : String} {absent : Bool}

/-- A batch adds one entry to the trace, which shows what the batch returns. -/
theorem ensures_runCanaryBatch (attempt : ℕ) :
    Ensures recorder.exec (runCanaryBatch p attempt registryVIP apiVIP) t fun out t' =>
      ∃ b, t' = t.push b ∧ ∀ r, out = .ok r → ∀ role, b role = some (r.leg role) := by
  simp only [runCanaryBatch, call, perform_bind, ensures_call, recorder_exec]
  intro stamp t1 ht1
  have hs : t1 = t := ht1
  rw [hs]
  have hc : Ensures recorder.exec (createPods (batchPods p stamp attempt registryVIP apiVIP)) t
      fun _ t' => t' = t.push .fresh := by
    rw [batchPods, createPods]
    simp only [call, perform_bind, ensures_call, recorder_exec]
    rintro x _ rfl
    cases x with
    | some e => exact ensures_done.mpr rfl
    | none => exact ensures_createPods (by simp [canaryPod])
  refine hc.bind fun e t' ht' => ?_
  subst ht'
  cases e with
  | some e =>
    refine (ensures_cleanup _).bind fun _ t' ht' => ?_
    exact ensures_done.mpr ⟨.fresh, ht', by simp⟩
  | none =>
    have hn : Agrees [] ⟨.indeterminate, .indeterminate, .indeterminate, ""⟩ .fresh := by
      simp [Agrees]
    refine (ensures_waitPods _ hn).bind fun out t' ho => ?_
    refine (ensures_cleanup _).bind fun _ t'' ht'' => ?_
    obtain ⟨b, hb, ha⟩ := ho
    refine ensures_done.mpr ⟨b, ht''.trans hb, fun r hr role => ha r hr role ?_⟩
    cases role <;> simp [batchPods, canaryPod]

theorem ensures_settleFrom (settleDeadline : Option ℤ) :
    Ensures recorder.exec (settleFrom p settleDeadline) t fun _ t' => t' = t := by
  cases settleDeadline with
  | some deadline => exact ensures_done.mpr rfl
  | none =>
    simp only [settleFrom, call, perform_bind, ensures_call, recorder_exec]
    rintro now _ rfl
    exact ensures_done.mpr rfl

theorem ensures_roomToRetry (permitted : Bool) (settleDeadline ceiling : ℤ) :
    Ensures recorder.exec (roomToRetry p permitted settleDeadline ceiling) t fun _ t' => t' = t := by
  simp only [roomToRetry, call, perform_bind, ensures_call, recorder_exec]
  intro now t1 ht1
  have hs : t1 = t := ht1
  rw [hs]
  split
  · simp only [ensures_call, recorder_exec]
    rintro ended _ rfl
    exact ensures_done.mpr rfl
  · exact ensures_done.mpr rfl

/-- What a verdict says of the newest batch and of the leaks so far. -/
def Backed (p : NetpolProbe) (t : Trace) (res : Result) : Prop :=
  ∃ b older, t.batches = b :: older ∧
    (res.status = .pass ∧ b.isolated = true ∨
      res.status = .fail ∧ b.leaked = true ∧
        (p.timing.minLeakBatches ≤ leakCount t.batches ∨ t.absent = true))

variable {b : Batch} {r : BatchResult} {res : Result}

/-- A verdict over a batch is backed by it. -/
theorem judge_backed (hb : ∀ role, b role = some (r.leg role))
    (ha : absent = true → t.absent = true)
    (h : judge absent registryVIP apiVIP r = some (.ok res)) : Backed p (t.push b) res := by
  have hc := hb .control
  have hr := hb .denyRegistry
  have he := hb .denyEgress
  simp only [BatchResult.leg] at hc hr he
  refine ⟨b, t.batches, rfl, ?_⟩
  unfold judge at h
  split_ifs at h with hd hbl hl
  · cases h
  · cases h
    refine .inl ⟨rfl, ?_⟩
    simp_all [Batch.isolated]
  cases h
  refine .inr ⟨rfl, ?_, .inr (ha hl.2)⟩
  simp_all [Batch.leaked, BatchResult.leaked]

theorem leaked_of_judge (hb : ∀ role, b role = some (r.leg role))
    (h : judge absent registryVIP apiVIP r = none) : b.leaked = r.leaked := by
  have hc : r.control = .connected := by
    by_contra hdead
    simp [judge, hdead] at h
  simp [Batch.leaked, BatchResult.leaked, hb, BatchResult.leg, hc]

/-- A batch ends in a verdict that it backs, or says whether it leaked. -/
theorem ensures_probeBatch (ha : absent = true → t.absent = true) (attempt : ℕ)
    (settleDeadline : Option ℤ) :
    Ensures recorder.exec (probeBatch p absent registryVIP apiVIP attempt settleDeadline) t
      fun out t' => ∃ b, t' = t.push b ∧ (∀ res, out = .inl (.ok res) → Backed p t' res) ∧
        ∀ r deadline, out = .inr (r, deadline) → b.leaked = r.leaked := by
  unfold probeBatch
  refine (ensures_runCanaryBatch attempt).bind fun out t' ho => ?_
  obtain ⟨b, rfl, hb⟩ := ho
  cases out with
  | error e => exact ensures_done.mpr ⟨b, rfl, by simp, by simp⟩
  | ok r =>
    dsimp only
    cases hj : judge absent registryVIP apiVIP r with
    | some verdict =>
      refine ensures_done.mpr ⟨b, rfl, ?_, by simp⟩
      rintro res ⟨⟩
      exact judge_backed (hb r rfl) ha hj
    | none =>
      refine (ensures_settleFrom settleDeadline).bind fun deadline t' ht' => ?_
      refine ensures_done.mpr ⟨b, ht', by simp, ?_⟩
      rintro _ _ ⟨⟩
      exact leaked_of_judge (hb r rfl) hj

theorem leakCount_cons (b : Batch) (batches : List Batch) :
    leakCount (b :: batches) = leakCount batches + b.leaked.toNat := by
  cases h : b.leaked <;> simp [leakCount, h]

theorem conclude_backed (hb : b.leaked = r.leaked)
    (h : conclude p registryVIP apiVIP (leakCount t.batches + r.leaked.toNat) r = .ok res) :
    Backed p (t.push b) res := by
  refine ⟨b, t.batches, rfl, .inr ?_⟩
  unfold conclude at h
  split_ifs at h with hl
  cases h
  refine ⟨rfl, hb.trans hl.2, .inl ?_⟩
  rw [Trace.push, leakCount_cons, hb]
  exact hl.1

/-- The loop: at most `left + 1` batches, and a verdict that the trace backs. -/
theorem ensures_probeLoop (ceiling : ℤ) (left attempt : ℕ) (settleDeadline : Option ℤ)
    (ha : absent = true → t.absent = true) :
    Ensures recorder.exec (probeLoop p absent registryVIP apiVIP ceiling left attempt settleDeadline
      (leakCount t.batches)) t fun out t' =>
        t'.batches.length ≤ t.batches.length + left + 1 ∧ ∀ res, out = .ok res → Backed p t' res := by
  induction left generalizing t attempt settleDeadline with
  | zero =>
    unfold probeLoop
    refine (ensures_probeBatch ha attempt settleDeadline).bind fun out t' ho => ?_
    obtain ⟨b, rfl, hv, hl⟩ := ho
    obtain verdict | ⟨r, deadline⟩ := out
    · refine ensures_done.mpr ⟨by simp [Trace.push], ?_⟩
      rintro res rfl
      exact hv res rfl
    refine (ensures_roomToRetry false deadline ceiling).bind fun _ t' ht' => ?_
    subst ht'
    refine ensures_done.mpr ⟨by simp [Trace.push], fun res hr => ?_⟩
    exact conclude_backed (hl r deadline rfl) hr
  | succ left ih =>
    unfold probeLoop
    refine (ensures_probeBatch ha attempt settleDeadline).bind fun out t' ho => ?_
    obtain ⟨b, rfl, hv, hl⟩ := ho
    obtain verdict | ⟨r, deadline⟩ := out
    · refine ensures_done.mpr ⟨by simp [Trace.push], ?_⟩
      rintro res rfl
      exact hv res rfl
    refine (ensures_roomToRetry true deadline ceiling).bind fun room t' ht' => ?_
    subst ht'
    have hc : leakCount t.batches + r.leaked.toNat = leakCount (t.push b).batches := by
      rw [Trace.push, leakCount_cons, hl r deadline rfl]
    cases room with
    | false =>
      refine ensures_done.mpr ⟨by simp [Trace.push], fun res hr => ?_⟩
      exact conclude_backed (hl r deadline rfl) hr
    | true =>
      rw [if_pos rfl, hc]
      refine (ih (t := t.push b) (attempt + 1) (some deadline) ha).mono fun out t' ho => ?_
      have hln : t'.batches.length ≤ (t.push b).batches.length + left + 1 := ho.1
      simp only [Trace.push, length_cons] at hln
      exact ⟨by omega, ho.2⟩

theorem ensures_serviceVIP (ns name : String) :
    Ensures recorder.exec (serviceVIP ns name) t fun _ t' => t' = t := by
  simp only [serviceVIP, call, perform_bind, ensures_call, recorder_exec]
  rintro x _ rfl
  cases x with
  | error e => exact ensures_done.mpr rfl
  | ok vip =>
    dsimp only
    split <;> exact ensures_done.mpr rfl

theorem ensures_networkPoliciesPresent :
    Ensures recorder.exec networkPoliciesPresent t fun out t' =>
      t'.batches = t.batches ∧ ((out.2 && !out.1) = true → t'.absent = true) := by
  simp only [networkPoliciesPresent, call, perform_bind, ensures_call, recorder_exec]
  rintro x _ rfl
  obtain _ | _ | n := x
  · exact ensures_done.mpr ⟨rfl, by simp⟩
  · exact ensures_done.mpr ⟨rfl, by simp [note]⟩
  · exact ensures_done.mpr ⟨rfl, by simp⟩

theorem ensures_sweepCanaries : Ensures recorder.exec sweepCanaries t fun _ t' => t' = t := by
  simp only [Doctor.sweepCanaries, call, perform_bind, ensures_call, recorder_exec]
  rintro x _ rfl
  cases x <;> exact ensures_done.mpr rfl

/-- The probe stays within its batches, and its verdict is backed. -/
theorem ensures_probeNetworkPolicy :
    Ensures recorder.exec (probeNetworkPolicy p) .empty fun out t =>
      t.batches.length ≤ p.timing.maxBatches - 1 + 1 ∧ ∀ res, out = .ok res → Backed p t res := by
  have he : ∀ {e : String} {t : Trace}, t.batches = [] →
      Ensures recorder.exec (done (.error e) : Prog (Except String Result)) t fun out t =>
        t.batches.length ≤ p.timing.maxBatches - 1 + 1 ∧ ∀ res, out = .ok res → Backed p t res := by
    intro e t ht
    exact ensures_done.mpr ⟨by simp [ht], by simp⟩
  unfold probeNetworkPolicy
  refine (ensures_serviceVIP _ _).bind fun registryVIP t ht => ?_
  subst ht
  cases registryVIP with
  | error e => exact he rfl
  | ok registryVIP =>
    refine (ensures_serviceVIP _ _).bind fun apiVIP t ht => ?_
    subst ht
    cases apiVIP with
    | error e => exact he rfl
    | ok apiVIP =>
      refine ensures_networkPoliciesPresent.bind fun policies t ht => ?_
      refine ensures_sweepCanaries.bind fun swept t' ht' => ?_
      rw [ht']
      cases swept with
      | some e => exact he ht.1
      | none =>
        simp only [call, perform_bind, ensures_call, recorder_exec]
        intro start t1 ht1
        have hs : t1 = t := ht1
        rw [hs]
        have hn : 0 = leakCount t.batches := by rw [ht.1]; rfl
        rw [hn]
        refine (ensures_probeLoop _ _ 1 none ht.2).mono fun out t' ho => ?_
        exact ⟨by simpa [ht.1, Trace.empty] using ho.1, ho.2⟩

/-- Whatever the canaries, the clock and the cluster do: no more batches are run than
permitted; a pass rests on a last batch whose forbidden legs were both blocked while the
control connected; a fail rests on enough leaks, the last batch among them, or on a leak
without policies; and there is no other verdict. -/
theorem probe_verdict {verdict : Except String Result} {t : Trace}
    (h : Runs recorder.exec (probeNetworkPolicy p) .empty verdict t) :
    (0 < p.timing.maxBatches → t.batches.length ≤ p.timing.maxBatches) ∧
    ∀ res, verdict = .ok res →
      (res.status = .pass ∨ res.status = .fail) ∧
      (res.status = .pass → ∃ b older, t.batches = b :: older ∧ b .control = some .connected ∧
        b .denyRegistry = some .blocked ∧ b .denyEgress = some .blocked) ∧
      (res.status = .fail →
        (p.timing.minLeakBatches ≤ leakCount t.batches ∧
          ∃ b older, t.batches = b :: older ∧ b.leaked = true) ∨
        t.absent = true ∧ ∃ b ∈ t.batches, b.leaked = true) := by
  obtain ⟨hlen, hbacked⟩ := ensures_probeNetworkPolicy.post verdict t h
  refine ⟨fun hpos => by omega, fun res hres => ?_⟩
  obtain ⟨b, older, hbatches, ⟨hpass, hisolated⟩ | ⟨hfail, hleaked, hwhy⟩⟩ := hbacked res hres
  · refine ⟨.inl hpass, fun _ => ⟨b, older, hbatches, ?_⟩, fun hfail => ?_⟩
    · simpa [Batch.isolated, and_assoc] using hisolated
    · rw [hpass] at hfail
      cases hfail
  refine ⟨.inr hfail, fun hpass => ?_, fun _ => ?_⟩
  · rw [hfail] at hpass
    cases hpass
  rcases hwhy with hleaks | habsent
  · exact .inl ⟨hleaks, b, older, hbatches, hleaked⟩
  · exact .inr ⟨habsent, b, by simp [hbatches], hleaked⟩

end Verdict

def deployedProbe : NetpolProbe := ⟨netpolTiming, fun _ => "1m30s"⟩

def exited (code : ℤ) : PodStatus := ⟨.succeeded, "", [⟨"probe", none, some ⟨code, ""⟩⟩]⟩

/-- The exit codes of each batch: control, registry leg, apiserver leg. The settle window
closes after the last of them. -/
def scriptPick (script : List (Role → ℤ)) : (c : Call) → Trace → c.Reply
  | .getService _ _, _ => .ok "10.43.0.1"
  | .listPolicies _, _ => some 3
  | .sweepCanaries, _ => .deleted
  | .stamp, _ => 0
  | .clock, t => if t.batches.length < script.length then 0 else netpolTiming.waitBudget
  | .createPod _, _ => none
  | .patience, _ => (0, "")
  | .getPod role _, t => .ok (exited ((script.getD (t.batches.length - 1) fun _ => 43) role))
  | .deletePod _, _ => ()
  | .ended, _ => false

def leaking : Role → ℤ := fun _ => 0

def blocking : Role → ℤ
  | .control => 0
  | _ => 42

def probed (script : List (Role → ℤ)) : Option (Except String Result × Trace) :=
  recorder.simulate (scriptPick script) (probeNetworkPolicy deployedProbe) .empty

def summary (script : List (Role → ℤ)) : Option (Option Status × List Bool) :=
  (probed script).map fun r => (r.1.toOption.map Result.status, r.2.batches.map Batch.leaked)

theorem summary_eq (script : List (Role → ℤ)) (status : Status) (leaks : List Bool)
    (h : summary script = some (some status, leaks)) : ∃ res t, res.status = status ∧
      t.batches.map Batch.leaked = leaks ∧
      Runs recorder.exec (probeNetworkPolicy deployedProbe) .empty (.ok res) t := by
  obtain ⟨⟨verdict, t⟩, hp, heq⟩ := Option.map_eq_some_iff.mp h
  obtain ⟨hs, hl⟩ := Prod.mk.inj heq
  cases verdict with
  | error e => cases hs
  | ok res => exact ⟨res, t, Option.some.inj hs, hl, recorder.runs_of_simulate hp⟩

theorem leakCount_eq {batches : List Batch} {leaks : List Bool}
    (h : batches.map Batch.leaked = leaks) : leakCount batches = leaks.countP id := by
  rw [← h, countP_map]
  rfl

/-- A cluster whose policies settle after one leak passes. -/
theorem settled_cluster_passes : ∃ res t,
    Runs recorder.exec (probeNetworkPolicy deployedProbe) .empty (.ok res) t ∧
      res.status = .pass ∧ t.batches.map Batch.leaked = [false, true] ∧
      ∃ b older, t.batches = b :: older ∧ b .control = some .connected ∧
        b .denyRegistry = some .blocked ∧ b .denyEgress = some .blocked := by
  obtain ⟨res, t, hstatus, hleaks, hruns⟩ :=
    summary_eq [leaking, blocking] .pass [false, true] (by decide +kernel)
  exact ⟨res, t, hruns, hstatus, hleaks, ((probe_verdict hruns).2 res rfl).2.1 hstatus⟩

end Orkano.Doctor
