import Orkano.Operator.Queue

/-!
How many Builds one tick of the dispatcher leaves under way. The budget counts deliveries, and
every delivery makes a Build for each App that it matches.
-/
namespace Orkano.Operator

open Interleave Program List

section Counting

def World.inflight (w : World) : ℕ := (w.builds.filter fun b => !buildTerminal b).length

/-- The deliveries that a tick has claimed, newest first, with the number of Apps that
each one matched. -/
abbrev Claimed := List (Delivery × ℕ)

def noteFanOut (d : Dispatcher) : (c : Call) → c.Reply → Claimed → Claimed
  | .claimNext, some (some claim), claimed => (claim.delivery, 0) :: claimed
  | .listApps _, some apps, (delivery, _) :: claimed =>
    (delivery, (selectApps d delivery apps).length) :: claimed
  | _, _, claimed => claimed

/-- The largest number of Apps that one delivery matched. -/
def fanOut (claimed : Claimed) : ℕ := (claimed.map Prod.snd).foldr max 0

def freshReply : (c : Call) → World → c.Reply → Bool
  | .listBuilds, w, some builds => builds = w.builds
  | .listApps _, w, some apps => apps = w.server.apps
  | _, _, _ => true

def freshMachine (d : Dispatcher) : Machine operator (World × Claimed) :=
  (machine.guard fun c w x _ => freshReply c w x).logging (noteFanOut d)

/-- A delivery is the first of the tick, or claimed while there is room for a Build. -/
def claimsWithRoom (d : Dispatcher) : (c : Call) → World × Claimed → c.Reply → Bool
  | .claimNext, s, some (some _) => s.2 = [] ∨ s.1.inflight < d.maxConcurrentBuilds
  | _, _, _ => true

def roomyMachine (d : Dispatcher) : Machine operator (World × Claimed) :=
  (freshMachine d).guard fun c s x _ => claimsWithRoom d c s x

/-- A call of the tick, after whatever others did; they may change everything but start
no Build of their own. -/
def tickExec (M : Machine operator (World × Claimed)) (c : Call) (s : World × Claimed)
    (x : c.Reply) (s' : World × Claimed) : Prop :=
  ∃ w : World, w.inflight ≤ s.1.inflight ∧ M.exec c (w, s.2) x s'

def Call.adds : Call → ℕ
  | .createBuild _ _ => 1
  | _ => 0

variable {d : Dispatcher} {w w' : World} {s s' : World × Claimed}

theorem inflight_create (now row : ℤ) (b : Build) :
    (w.create now row b).2.inflight ≤ w.inflight + 1 := by
  unfold World.create
  split
  · exact Nat.le_succ _
  split
  · exact Nat.le_succ _
  simp only [World.inflight, filter_append, length_append]
  have := length_filter_le (fun b => !buildTerminal b) [{ b with createdAt := now }]
  simp only [length_singleton] at this
  omega

/-- A call adds no more builds in flight than it creates. -/
theorem inflight_exec {c : Call} {x : c.Reply} (h : machine.exec c w x w') :
    w'.inflight ≤ w.inflight + c.adds := by
  obtain ⟨k, hk⟩ := h
  cases c with
  | listBuilds | resolve | nack =>
    cases hk
    exact le_rfl
  | claimNext =>
    simp only [machine, answer] at hk
    split at hk
    · cases hk
      exact le_rfl
    split at hk <;>
    · cases hk
      exact le_rfl
  | listApps row =>
    cases k with
    | none =>
      cases hk
      exact le_rfl
    | some lag =>
      obtain ⟨_, _, heq⟩ := Option.map_eq_some_iff.mp hk
      cases heq
      exact le_rfl
  | createBuild row b =>
    simp only [machine, answer] at hk
    split at hk
    · cases hk
    split at hk
    · have hw' : (w.create k.now row b).2 = w' := congrArg Prod.snd (Option.some.inj hk)
      exact hw' ▸ inflight_create k.now row b
    · cases hk
      exact Nat.le_succ _
    · cases hk
      exact inflight_create k.now row b
  | ack tx id =>
    have hc : (w.commit tx id).2.inflight = w.inflight := by
      unfold World.commit
      split <;> rfl
    obtain _ | _ | _ := k
    · have hw' : (w.commit tx id).2 = w' := congrArg Prod.snd (Option.some.inj hk)
      exact hw' ▸ hc.le
    · cases hk
      exact le_rfl
    · cases hk
      exact hc.le

theorem tickExec_adds {c : Call} {x : c.Reply} (h : tickExec (roomyMachine d) c s x s') :
    s'.1.inflight ≤ s.1.inflight + c.adds ∧ s'.2 = noteFanOut d c x s.2 := by
  obtain ⟨w, hw, hx⟩ := h
  obtain ⟨hx, hn⟩ := Machine.exec_logging _ ((Machine.exec_guard _).mp hx).1
  have ha : s'.1.inflight ≤ w.inflight + c.adds := inflight_exec ((Machine.exec_guard _).mp hx).1
  exact ⟨by omega, hn⟩

theorem tickExec_listBuilds {builds : List Build}
    (h : tickExec (roomyMachine d) .listBuilds s (some builds) s') :
    (builds.filter fun b => !buildTerminal b).length = s'.1.inflight := by
  obtain ⟨w, _, hx⟩ := h
  have hx := (Machine.exec_logging _ ((Machine.exec_guard _).mp hx).1).1
  obtain ⟨⟨_, hk⟩, hf⟩ := (Machine.exec_guard _).mp hx
  obtain ⟨rfl, rfl⟩ := Prod.mk.inj (Option.some.inj hk)
  rw [of_decide_eq_true hf]
  rfl

theorem tickExec_claimNext {claim : Claim}
    (h : tickExec (roomyMachine d) .claimNext s (some (some claim)) s') :
    s.2 = [] ∨ s'.1.inflight < d.maxConcurrentBuilds := by
  obtain ⟨w, _, hx⟩ := h
  obtain ⟨hx, hroom⟩ := (Machine.exec_guard _).mp hx
  have hx := ((Machine.exec_guard _).mp (Machine.exec_logging _ hx).1).1
  have hle : s'.1.inflight ≤ w.inflight := inflight_exec hx
  exact (of_decide_eq_true hroom).imp_right hle.trans_lt

end Counting

section Programs

variable {d : Dispatcher} {s : World × Claimed}

/-- At most `n` Builds more, and the same deliveries. -/
def Adds (s : World × Claimed) (n : ℕ) (s' : World × Claimed) : Prop :=
  s'.1.inflight ≤ s.1.inflight + n ∧ s'.2 = s.2

theorem Adds.trans {s1 s2 s3 : World × Claimed} {m n : ℕ} (h1 : Adds s1 m s2) (h2 : Adds s2 n s3) :
    Adds s1 (m + n) s3 := by
  obtain ⟨hc1, hn1⟩ := h1
  obtain ⟨hc2, hn2⟩ := h2
  exact ⟨by omega, hn2.trans hn1⟩

theorem Adds.mono {s' : World × Claimed} {m n : ℕ} (h : Adds s m s') (hmn : m ≤ n) : Adds s n s' :=
  ⟨h.1.trans (by omega), h.2⟩

theorem ensures_resolveCommit (app : App) :
    Ensures (tickExec (roomyMachine d)) (resolveCommit d app) s fun _ s' => Adds s 0 s' := by
  rcases resolveCommit_cases d app with h | ⟨origin, _, h⟩ | ⟨sha, _, h⟩ | ⟨_, h⟩ <;> rw [h]
  · exact ensures_done.mpr ⟨le_rfl, rfl⟩
  · refine ensures_call.mpr fun x s1 hx => ensures_done.mpr ?_
    exact tickExec_adds hx
  · exact ensures_done.mpr ⟨le_rfl, rfl⟩
  · exact ensures_done.mpr ⟨le_rfl, rfl⟩

theorem ensures_createBuild (app : App) (sha : String) (delivery : Delivery) :
    Ensures (tickExec (roomyMachine d)) (createBuild d app sha delivery) s fun _ s' => Adds s 1 s' := by
  simp only [createBuild, call, perform_bind, ensures_call]
  intro x s1 hx
  cases x <;> exact ensures_done.mpr (tickExec_adds hx)

/-- The loop over the matched Apps makes at most one Build for each of them. -/
theorem ensures_dispatchApps (delivery : Delivery) (apps : List App) (skipped : ℕ) :
    Ensures (tickExec (roomyMachine d)) (dispatchApps d delivery apps skipped) s
      fun _ s' => Adds s apps.length s' := by
  induction apps generalizing s skipped with
  | nil => exact ensures_done.mpr ⟨le_rfl, rfl⟩
  | cons app rest ih =>
    unfold dispatchApps
    split
    · exact (ih _).mono fun _ _ h => h.mono (Nat.le_succ _)
    refine (ensures_resolveCommit app).bind fun x s1 h1 => ?_
    rcases x with (_ | _) | sha
    · exact (ih _).mono fun _ _ h => (h1.trans h).mono (by simp)
    · exact ensures_done.mpr (h1.mono (Nat.zero_le _))
    refine (ensures_createBuild app sha delivery).bind fun y s2 h2 => ?_
    cases y
    · exact ensures_done.mpr ((h1.trans h2).mono (by simp))
    · exact (ih _).mono fun _ _ h => ((h1.trans h2).trans h).mono (by simp; omega)

/-- A delivery adds at most as many Builds as Apps were noted for it. -/
theorem ensures_handle {delivery : Delivery} {claimed : Claimed}
    (hs : s.2 = (delivery, 0) :: claimed) :
    Ensures (tickExec (roomyMachine d)) (handle d delivery) s fun _ s' =>
      ∃ n, s'.2 = (delivery, n) :: claimed ∧ s'.1.inflight ≤ s.1.inflight + n := by
  unfold handle
  split
  · exact ensures_done.mpr ⟨0, hs, le_rfl⟩
  simp only [appsForDelivery, call, perform_bind, call_bind, ensures_call]
  intro x s1 hx
  obtain ⟨hc, hn⟩ := tickExec_adds hx
  rw [hs] at hn
  cases x with
  | none => exact ensures_done.mpr ⟨0, hn, hc⟩
  | some apps =>
    simp only [Option.map_some, pure_eq, done_bind]
    cases hm : selectApps d delivery apps with
    | nil =>
      refine ensures_done.mpr ⟨0, ?_, hc⟩
      rw [hn, noteFanOut, hm]
      rfl
    | cons app rest =>
      refine (ensures_dispatchApps delivery (app :: rest) 0).bind fun y s2 h2 => ?_
      have hp : ∃ n, s2.2 = (delivery, n) :: claimed ∧ s2.1.inflight ≤ s.1.inflight + n := by
        refine ⟨(app :: rest).length, ?_, ?_⟩
        · rw [h2.2, hn, noteFanOut, hm]
        · exact h2.1.trans (by simpa [Call.adds] using hc)
      cases y with
      | error e => exact ensures_done.mpr hp
      | ok skipped =>
        dsimp only
        split <;> exact ensures_done.mpr hp

/-- There is room for the first delivery, and the count of `k` that the tick began with has
grown by no more than the fan-out of one delivery beyond the cap. -/
def Within (d : Dispatcher) (k : ℕ) (s : World × Claimed) : Prop :=
  (s.2 = [] → s.1.inflight < d.maxConcurrentBuilds) ∧
    s.1.inflight ≤ max k (d.maxConcurrentBuilds + fanOut s.2 - 1)

variable {k : ℕ}

theorem Within.of_adds {s' : World × Claimed} (h : Within d k s) (ha : Adds s 0 s') :
    Within d k s' := by
  obtain ⟨hc, hn⟩ := ha
  rw [Within, hn]
  exact ⟨fun he => hc.trans_lt (h.1 he), hc.trans h.2⟩

/-- A delivery is handled from a state with room for a Build. -/
theorem within_of_room {s' : World × Claimed} {delivery : Delivery} {n : ℕ} {claimed : Claimed}
    (hroom : s.1.inflight < d.maxConcurrentBuilds) (hn : s'.2 = (delivery, n) :: claimed)
    (hc : s'.1.inflight ≤ s.1.inflight + n) : Within d k s' := by
  have hf : n ≤ fanOut s'.2 := by simp [hn, fanOut]
  refine ⟨fun he => ?_, ?_⟩
  · simp [hn] at he
  · omega

/-- One row, claimed with room, stays within the cap. -/
theorem ensures_processOne (h : Within d k s) :
    Ensures (tickExec (roomyMachine d)) (processOne d) s fun _ s' => Within d k s' := by
  simp only [processOne, call, perform_bind, ensures_call]
  intro x s1 hx
  have h1 := tickExec_adds hx
  obtain _ | _ | claim := x
  · exact ensures_done.mpr (h.of_adds h1)
  · exact ensures_done.mpr (h.of_adds h1)
  have hroom : s1.1.inflight < d.maxConcurrentBuilds := by
    rcases tickExec_claimNext hx with he | hr
    · exact h1.1.trans_lt (h.1 he)
    · exact hr
  refine (ensures_handle h1.2).bind fun out s2 h2 => ?_
  obtain ⟨n, hn, hc⟩ := h2
  have hw : Within d k s2 := within_of_room hroom hn hc
  split
  · simp only [ensures_call]
    exact fun y s3 hy => ensures_done.mpr (hw.of_adds (tickExec_adds hy))
  simp only [ensures_call]
  intro y s3 hy
  have h3 : Within d k s3 := hw.of_adds (tickExec_adds hy)
  cases y <;> exact ensures_done.mpr h3

theorem ensures_drain (n : ℕ) (h : Within d k s) :
    Ensures (tickExec (roomyMachine d)) (drain d n) s fun _ s' => Within d k s' := by
  induction n generalizing s with
  | zero => exact ensures_done.mpr h
  | succ n ih =>
    unfold drain
    refine (ensures_processOne h).bind fun out s1 h1 => ?_
    rcases out with _ | _ | _
    · exact ensures_done.mpr h1
    · exact ensures_done.mpr h1
    · exact ih h1

/-- A whole tick. The first delivery needs no more than the budget: it is claimed only if fewer
Builds than the cap were listed. -/
theorem ensures_tick (w : World) :
    Ensures (tickExec (roomyMachine d)) (tick d) (w, []) fun _ s' =>
      s'.1.inflight ≤ max w.inflight (d.maxConcurrentBuilds + fanOut s'.2 - 1) := by
  simp only [tick, budget, call, perform_bind, call_bind, ensures_call]
  intro x s1 hx
  obtain ⟨hc, hn⟩ := tickExec_adds hx
  have hle : s1.1.inflight ≤ max w.inflight (d.maxConcurrentBuilds + fanOut s1.2 - 1) :=
    le_max_of_le_left hc
  cases x with
  | none => exact ensures_done.mpr hle
  | some builds =>
    simp only [pure_eq, done_bind, tickExec_listBuilds hx]
    by_cases hroom : s1.1.inflight < d.maxConcurrentBuilds
    · exact (ensures_drain _ ⟨fun _ => hroom, hle⟩).mono fun _ s2 h2 => h2.2
    · rw [Nat.sub_eq_zero_of_le (Nat.le_of_not_lt hroom)]
      exact ensures_done.mpr hle

end Programs

/-- Where every delivery of the tick after the first is claimed while fewer Builds than the cap
are under way, the cap is missed by no more than the fan-out of one delivery. -/
theorem tick_within_cap (d : Dispatcher) {w w' : World} {claimed : Claimed}
    (h : Runs (tickExec (roomyMachine d)) (tick d) (w, []) () (w', claimed)) :
    w'.inflight ≤ max w.inflight (d.maxConcurrentBuilds + fanOut claimed - 1) :=
  (ensures_tick w).post _ _ h

def monorepoApp (repo name : String) : App where
  ns := "orkano-apps"
  name := name
  source := ⟨some ⟨repo, "main"⟩, none, none, name⟩
  build := ⟨.dockerfile, none, none, none⟩

def monorepos : Snapshot where
  apps := [monorepoApp "acme/one" "one-a", monorepoApp "acme/one" "one-b",
    monorepoApp "acme/two" "two-a", monorepoApp "acme/two" "two-b"]
  head := fun _ => some (sampleCommit 'a')
  keyed := by decide

def pushedRepos : World where
  server := monorepos
  past := []
  rows := [⟨⟨1, "first", "acme/one", .push, ""⟩, 0⟩, ⟨⟨2, "second", "acme/two", .push, ""⟩, 0⟩]
  nextRow := 3
  claims := []
  nextTx := 0
  builds := []
  clock := 0
  outcomes := []

def cappedDispatcher (cap : ℕ) : Dispatcher := { sampleDispatcher with maxConcurrentBuilds := cap }

def freshTickPick : (c : Call) → World × Claimed → c.Choice
  | .listBuilds, s => some s.1.builds
  | c, s => samplePick 0 c s.1

theorem runs_tickExec {M : Machine operator (World × Claimed)} {d : Dispatcher}
    {s s' : World × Claimed} (h : Runs M.exec (tick d) s () s') :
    Runs (tickExec M) (tick d) s () s' :=
  h.mono fun _ s _ _ hx => ⟨s.1, le_rfl, hx⟩

def roomyTick : World × Claimed :=
  (roomyMachine (cappedDispatcher 3)).after freshTickPick (tick (cappedDispatcher 3))
    (pushedRepos, [])

/-- With a cap of three the second push is claimed beside the two Builds of the first, and the
two it adds are all that the bound has room for. -/
theorem second_push_within_cap :
    roomyTick.2.map Prod.snd = [2, 2] ∧ roomyTick.1.inflight = 4 ∧
      max pushedRepos.inflight (3 + fanOut roomyTick.2 - 1) = 4 ∧
      roomyTick.1.inflight ≤ max pushedRepos.inflight (3 + fanOut roomyTick.2 - 1) := by
  have hticked : roomyTick.2.map Prod.snd = [2, 2] ∧ roomyTick.1.inflight = 4 ∧
      max pushedRepos.inflight (3 + fanOut roomyTick.2 - 1) = 4 := by decide +kernel
  have hruns : Runs (tickExec (roomyMachine (cappedDispatcher 3))) (tick (cappedDispatcher 3))
      (pushedRepos, []) () roomyTick := runs_tickExec (Machine.runs_after _ (by decide +kernel))
  exact ⟨hticked.1, hticked.2.1, hticked.2.2, tick_within_cap (cappedDispatcher 3) hruns⟩

def crowdedTick : World × Claimed :=
  (freshMachine (cappedDispatcher 2)).after freshTickPick (tick (cappedDispatcher 2))
    (pushedRepos, [])

/-- With a cap of two, both pushes are processed and make two Builds each. -/
theorem two_fan_outs_exceed_cap :
    Runs (tickExec (freshMachine (cappedDispatcher 2))) (tick (cappedDispatcher 2))
        (pushedRepos, []) () crowdedTick ∧
      fanOut crowdedTick.2 = 2 ∧ crowdedTick.1.inflight = 4 ∧
      max pushedRepos.inflight (2 + fanOut crowdedTick.2 - 1) = 3 := by
  refine ⟨runs_tickExec (Machine.runs_after _ (by decide +kernel)), ?_⟩
  decide +kernel

end Orkano.Operator
