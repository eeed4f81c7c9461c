import Mathlib.Logic.Function.Basic
import Mathlib.Algebra.Order.Group.Int
import Orkano.RateLimit.FixedWindow

/-!
The rate limiter in front of the auth endpoints: a table with one fixed window per client
address, in which elapsed windows are dropped on every call.
-/
namespace Orkano.Dashboard.RateLimit

open List

open FixedWindow (Window Elapsed admittedFrom)

section Limiter

def minDuration : ℤ := -9223372036854775808
def maxDuration : ℤ := 9223372036854775807

/-- `Time.Sub`, in nanoseconds; a `Duration` stops at the ends of its range. -/
def timeSub (t u : ℤ) : ℤ := max minDuration (min maxDuration (t - u))

structure RateLimiter where
  max : ℕ
  window : ℤ
  le_window : minDuration ≤ window
  window_le : window ≤ maxDuration

abbrev Table := String → Option (Window ℤ)

variable (rl : RateLimiter)

def elapsed (now : ℤ) (w : Window ℤ) : Bool := rl.window ≤ timeSub now w.start

def evictLocked (now : ℤ) (counts : Table) : Table :=
  fun ip => (counts ip).filter fun w => !elapsed rl now w

/-- `allow` behind some way to clean the table up first. -/
def allowAfter (clean : ℤ → Table → Table) (now : ℤ) (ip : String) (counts : Table) :
    Bool × Table :=
  let counts := clean now counts
  match counts ip with
  | none => (true, Function.update counts ip (some ⟨1, now⟩))
  | some w =>
    if elapsed rl now w then (true, Function.update counts ip (some ⟨1, now⟩))
    else if rl.max ≤ w.count then (false, counts)
    else (true, Function.update counts ip (some ⟨w.count + 1, w.start⟩))

def allow : ℤ → String → Table → Bool × Table := allowAfter rl (evictLocked rl)

/-- The limiter without `evictLocked`. -/
def allowKeeping : ℤ → String → Table → Bool × Table := allowAfter rl fun _ counts => counts

end Limiter

section Runs

structure Request where
  ip : String
  now : ℤ
deriving DecidableEq, Repr

structure Entry extends Request where
  allowed : Bool
deriving DecidableEq, Repr

variable (allows : ℤ → String → Table → Bool × Table)

def log : Table → List Request → List Entry
  | _, [] => []
  | counts, r :: reqs =>
    let (allowed, counts') := allows r.now r.ip counts
    ⟨r, allowed⟩ :: log counts' reqs

def tableAfter (counts : Table) (reqs : List Request) : Table :=
  reqs.foldl (fun counts r => (allows r.now r.ip counts).2) counts

def decisions (ip : String) (entries : List Entry) : List (ℤ × Bool) :=
  (entries.filter fun e => e.ip = ip).map fun e => (e.now, e.allowed)

def emptyTable : Table := fun _ => none

def timesOf (ip : String) (reqs : List Request) : List ℤ :=
  (reqs.filter fun r => r.ip = ip).map (·.now)

@[simp] theorem log_cons (counts : Table) (r : Request) (reqs : List Request) :
    log allows counts (r :: reqs) =
      ⟨r, (allows r.now r.ip counts).1⟩ :: log allows (allows r.now r.ip counts).2 reqs := rfl

theorem decisions_cons_self (r : Request) (allowed : Bool) (entries : List Entry) :
    decisions r.ip (⟨r, allowed⟩ :: entries) = (r.now, allowed) :: decisions r.ip entries := by
  simp [decisions]

variable {ip : String} {r : Request}

theorem decisions_cons_of_ne (h : r.ip ≠ ip) (allowed : Bool) (entries : List Entry) :
    decisions ip (⟨r, allowed⟩ :: entries) = decisions ip entries := by
  simp [decisions, h]

theorem timesOf_cons_self (r : Request) (reqs : List Request) :
    timesOf r.ip (r :: reqs) = r.now :: timesOf r.ip reqs := by
  simp [timesOf]

theorem timesOf_cons_of_ne (h : r.ip ≠ ip) (reqs : List Request) :
    timesOf ip (r :: reqs) = timesOf ip reqs := by
  simp [timesOf, h]

end Runs

section Refinement

variable {rl : RateLimiter} {clean : ℤ → Table → Table} {last now : ℤ} {ip : String}
  {counts : Table} {s : Option (Window ℤ)}
variable {w : Window ℤ}

theorem elapsed_iff (h : w.start ≤ now) : elapsed rl now w = true ↔ Elapsed rl.window now w := by
  have hm := rl.le_window
  have hmx := rl.window_le
  rw [elapsed, decide_eq_true_iff]
  simp only [Elapsed, timeSub, minDuration, maxDuration] at hm hmx ⊢
  omega

/-- What is dropped when the table is cleaned up has elapsed. -/
def DropsElapsed (rl : RateLimiter) (clean : ℤ → Table → Table) : Prop :=
  ∀ now counts ip, clean now counts ip = counts ip ∨
    clean now counts ip = none ∧ ∀ w ∈ counts ip, elapsed rl now w = true

theorem dropsElapsed_evictLocked (rl : RateLimiter) : DropsElapsed rl (evictLocked rl) := by
  intro now counts ip
  cases h : counts ip with
  | none => simp [evictLocked, h]
  | some w =>
    cases he : elapsed rl now w <;> simp [evictLocked, h, he]

theorem dropsElapsed_id (rl : RateLimiter) : DropsElapsed rl fun _ counts => counts :=
  fun _ _ _ => .inl rfl

/-- The table's entry `t` of an address stands for the counter `s`: it is the same window, or
it was dropped after its time. -/
structure StandsFor (rl : RateLimiter) (last : ℤ) (t s : Option (Window ℤ)) : Prop where
  entry : t = s ∨ t = none ∧ ∀ w ∈ s, Elapsed rl.window last w
  started : ∀ w ∈ s, w.start ≤ last

theorem StandsFor.cleaned (hc : DropsElapsed rl clean) (hn : last ≤ now)
    (h : StandsFor rl last (counts ip) s) : StandsFor rl now (clean now counts ip) s := by
  have hs : ∀ w ∈ s, w.start ≤ now := fun w hw => (h.started w hw).trans hn
  refine ⟨?_, hs⟩
  rcases h.entry with hsm | ⟨hnn, he⟩
  · rcases hc now counts ip with hk | ⟨hd, hwh⟩
    · exact .inl (hk.trans hsm)
    · refine .inr ⟨hd, fun w hw => ?_⟩
      exact (elapsed_iff (hs w hw)).mp (hwh w (hsm ▸ hw))
  rcases hc now counts ip with hk | ⟨hd, -⟩
  · exact .inr ⟨hk.trans hnn, fun w hw => FixedWindow.elapsed_mono (he w hw) hn⟩
  · exact .inr ⟨hd, fun w hw => FixedWindow.elapsed_mono (he w hw) hn⟩

/-- An address's own call is decided by its counter, which the table then holds. -/
theorem allowAfter_own (hc : DropsElapsed rl clean) (hnw : last ≤ now)
    (h : StandsFor rl last (counts ip) s) :
    (allowAfter rl clean now ip counts).1 = (FixedWindow.step rl.max rl.window now s).1 ∧
      (allowAfter rl clean now ip counts).2 ip =
        some (FixedWindow.step rl.max rl.window now s).2 := by
  have ha := h.cleaned hc hnw
  unfold allowAfter
  dsimp only
  rcases ha.entry with hs | ⟨hn, he⟩
  · rw [hs]
    cases s with
    | none => simp [FixedWindow.step]
    | some w =>
      have hi : elapsed rl now w = true ↔ Elapsed rl.window now w :=
        elapsed_iff (ha.started w rfl)
      simp only [FixedWindow.step, hi]
      split
      · simp
      · split <;> simp [hs]
  · rw [hn]
    cases s with
    | none => simp [FixedWindow.step]
    | some w => simp [FixedWindow.step, he w rfl]

variable {ip' : String}

theorem allowAfter_other (hne : ip ≠ ip') (counts : Table) :
    (allowAfter rl clean now ip' counts).2 ip = clean now counts ip := by
  unfold allowAfter
  dsimp only
  split
  · simp [hne]
  split
  · simp [hne]
  · split <;> simp [hne]

theorem standsFor_step (hn : last ≤ now) (h : StandsFor rl last (counts ip) s)
    {t : Option (Window ℤ)} (ht : t = some (FixedWindow.step rl.max rl.window now s).2) :
    StandsFor rl now t (some (FixedWindow.step rl.max rl.window now s).2) := by
  refine ⟨.inl ht, fun w hw => ?_⟩
  obtain rfl := Option.mem_some_iff.mp hw
  cases s with
  | none => simp [FixedWindow.step]
  | some w =>
    have hs := (h.started w rfl).trans hn
    simp only [FixedWindow.step]
    split
    · simp
    · split <;> exact hs

variable {reqs : List Request}

/-- The calls of one address are decided by a counter of its own. -/
theorem decisions_log (hcl : DropsElapsed rl clean) (h : StandsFor rl last (counts ip) s)
    (hl : ∀ r ∈ reqs, last ≤ r.now)
    (hc : (reqs.map (·.now)).Pairwise (· ≤ ·)) :
    decisions ip (log (allowAfter rl clean) counts reqs) =
      FixedWindow.run rl.max rl.window s (timesOf ip reqs) := by
  induction reqs generalizing counts last s with
  | nil => rfl
  | cons r reqs ih =>
    have hn := hl r mem_cons_self
    rw [map_cons, pairwise_cons] at hc
    have hnx : ∀ r' ∈ reqs, r.now ≤ r'.now := fun r' hr' => hc.1 _ (mem_map_of_mem hr')
    by_cases hip : r.ip = ip
    · subst hip
      obtain ⟨hd, he⟩ := allowAfter_own hcl hn h
      have hr := ih (standsFor_step hn h he) hnx hc.2
      rw [log_cons, decisions_cons_self, hr, hd, timesOf_cons_self, FixedWindow.run]
    have ho : (allowAfter rl clean r.now r.ip counts).2 ip = clean r.now counts ip :=
      allowAfter_other (Ne.symm hip) counts
    have hk := h.cleaned hcl hn
    rw [← ho] at hk
    have hr := ih hk hnx hc.2
    rw [log_cons, decisions_cons_of_ne hip, hr, timesOf_cons_of_ne hip]

/-- What one address is told is what a counter of its own would say. -/
theorem decisions_run (hcl : DropsElapsed rl clean) (ip : String)
    (hc : (reqs.map (·.now)).Pairwise (· ≤ ·)) :
    decisions ip (log (allowAfter rl clean) emptyTable reqs) =
      FixedWindow.run rl.max rl.window none (timesOf ip reqs) := by
  cases reqs with
  | nil => rfl
  | cons r reqs =>
    have hs : StandsFor rl r.now (emptyTable ip) none := ⟨.inl rfl, nofun⟩
    apply decisions_log hcl hs _ hc
    rw [map_cons, pairwise_cons] at hc
    intro r' hr'
    rcases mem_cons.mp hr' with rfl | hr'
    · exact le_refl _
    · exact hc.1 _ (mem_map_of_mem hr')

theorem elapsed_self (hw : 0 < rl.window) (count : ℕ) : elapsed rl now ⟨count, now⟩ = false := by
  rw [elapsed, decide_eq_false_iff_not]
  simp only [timeSub, minDuration, maxDuration]
  omega

/-- After a call the table holds no window that has elapsed by then. -/
theorem not_elapsed_of_allow (hwn : 0 < rl.window) (h : (allow rl now ip' counts).2 ip = some w) :
    elapsed rl now w = false := by
  have he : ∀ {ip : String} {w : Window ℤ}, evictLocked rl now counts ip = some w →
      elapsed rl now w = false := by
    intro ip w hw
    simpa using (Option.filter_eq_some_iff.mp hw).2
  by_cases hip : ip = ip'
  · subst hip
    unfold allow allowAfter at h
    dsimp only at h
    split at h
    · simp only [Function.update_self, Option.some.injEq] at h
      exact h ▸ elapsed_self hwn 1
    rename_i w' hw'
    split at h
    · simp only [Function.update_self, Option.some.injEq] at h
      exact h ▸ elapsed_self hwn 1
    split at h
    · exact he h
    simp only [Function.update_self, Option.some.injEq] at h
    have hold := he hw'
    rw [← h]
    exact hold
  · rw [allow, allowAfter_other hip] at h
    exact he h

theorem tableAfter_append (allows : ℤ → String → Table → Bool × Table) (counts : Table)
    (reqs : List Request) (r : Request) :
    tableAfter allows counts (reqs ++ [r]) =
      (allows r.now r.ip (tableAfter allows counts reqs)).2 := by
  simp [tableAfter]

theorem timesOf_filter (ip : String) (reqs : List Request) :
    timesOf ip (reqs.filter fun r => r.ip = ip) = timesOf ip reqs := by
  simp [timesOf]

/-- Per address and interval as long as the window, at most `2 * max - 1` calls are
allowed; the decisions on an address depend on its own calls only and not on the eviction;
and the table holds no window that has elapsed. -/
theorem rate_limiter_bound (rl : RateLimiter) (hmax : 1 ≤ rl.max) (reqs : List Request)
    (hclock : (reqs.map (·.now)).Pairwise (· ≤ ·)) :
    (∀ ip a, (decisions ip (log (allow rl) emptyTable reqs)).countP
        (fun e => e.2 && a ≤ e.1 && e.1 < a + rl.window) ≤ 2 * rl.max - 1) ∧
      (∀ ip, decisions ip (log (allow rl) emptyTable reqs) =
        decisions ip (log (allow rl) emptyTable (reqs.filter fun r => r.ip = ip))) ∧
      (∀ ip, decisions ip (log (allow rl) emptyTable reqs) =
        decisions ip (log (allowKeeping rl) emptyTable reqs)) ∧
      (0 < rl.window → ∀ before r, before ++ [r] <+: reqs → ∀ ip w,
        tableAfter (allow rl) emptyTable (before ++ [r]) ip = some w →
          elapsed rl r.now w = false) := by
  have hevict := dropsElapsed_evictLocked rl
  refine ⟨fun ip a => ?_, fun ip => ?_, fun ip => ?_, ?_⟩
  · rw [allow, decisions_run hevict ip hclock]
    have htimes : (timesOf ip reqs).Pairwise (· ≤ ·) := hclock.sublist (filter_sublist.map _)
    exact FixedWindow.run_bound hmax rl.window a htimes
  · have hown : ((reqs.filter fun r => r.ip = ip).map (·.now)).Pairwise (· ≤ ·) :=
      hclock.sublist (filter_sublist.map _)
    rw [allow, decisions_run hevict ip hclock, decisions_run hevict ip hown, timesOf_filter]
  · rw [allow, allowKeeping, decisions_run hevict ip hclock,
      decisions_run (dropsElapsed_id rl) ip hclock]
  intro hwindow before r _ ip w hw
  rw [tableAfter_append] at hw
  exact not_elapsed_of_allow hwindow hw

def sampleLimiter : RateLimiter := ⟨2, 60000000000, by decide, by decide⟩

/-- Three calls around the end of a minute are allowed, a fourth is not. -/
theorem sampleLimiter_bound :
    let reqs : List Request :=
      [⟨"10.0.0.1", 0⟩, ⟨"10.0.0.1", 59000000000⟩, ⟨"10.0.0.2", 59500000000⟩,
        ⟨"10.0.0.1", 60000000000⟩, ⟨"10.0.0.1", 61000000000⟩, ⟨"10.0.0.1", 62000000000⟩]
    (reqs.map (·.now)).Pairwise (· ≤ ·) ∧
      (decisions "10.0.0.1" (log (allow sampleLimiter) emptyTable reqs)).countP
        (fun e => e.2 && 1 ≤ e.1 && e.1 < 1 + sampleLimiter.window) ≤ 3 ∧
      (log (allow sampleLimiter) emptyTable reqs).map (·.allowed) =
        [true, true, true, true, true, false] :=
  ⟨by decide, (rate_limiter_bound sampleLimiter (by decide) _ (by decide)).1 "10.0.0.1" 1,
    by decide⟩

/-- A window without a length has elapsed as soon as it is opened. -/
theorem zero_window_elapsed :
    let rl : RateLimiter := ⟨1, 0, by decide, by decide⟩
    ∃ w, tableAfter (allow rl) emptyTable [⟨"10.0.0.1", 5⟩] "10.0.0.1" = some w ∧
      elapsed rl 5 w = true :=
  ⟨⟨1, 5⟩, by decide, by decide⟩

end Refinement

end Orkano.Dashboard.RateLimit
