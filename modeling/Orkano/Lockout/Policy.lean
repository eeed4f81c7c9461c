import Mathlib.Algebra.Order.Group.Defs
import Mathlib.Algebra.Order.Monoid.Unbundled.Basic
import Mathlib.Logic.Relation

/-!
The lockout policy of one account. Between two passes it admits at most `limit` wrong guesses in
any half-open interval as long as the window (`Paced.wrong_le`).
-/
namespace Lockout

open Relation List

/-- `history` holds every evaluated guess, newest first, and whether it passed;
`locks` holds every time the account was ever locked until. -/
structure Account (T : Type) where
  failures : Nat
  lockedUntil : Option T
  clock : T
  history : List (T × Bool)
  locks : List T

variable {T : Type}

def pending : List (T × Bool) → List T
  | [] => []
  | (_, true) :: _ => []
  | (t, false) :: older => t :: pending older

private theorem pending_append {seg older : List (T × Bool)} (hs : ∀ e ∈ seg, e.2 = false) :
    pending (seg ++ older) = seg.map Prod.fst ++ pending older := by
  induction seg with
  | nil => rfl
  | cons e seg ih =>
    obtain ⟨t, ok⟩ := e
    obtain rfl : ok = false := hs _ (mem_cons_self ..)
    simp [pending, ih fun e he => hs e (mem_cons_of_mem _ he)]

section Policy

variable [AddCommGroup T] [LinearOrder T]

namespace Account

def Open (s : Account T) : Prop := ∀ expiry ∈ s.lockedUntil, expiry ≤ s.clock

/-- Count a failure at time `now`, and lock the account if it is one too many. -/
def bump (limit : Nat) (window now : T) (s : Account T) : Account T :=
  { s with
    failures := s.failures + 1
    lockedUntil := if limit ≤ s.failures + 1 then some (now + window) else s.lockedUntil
    clock := now
    locks := if limit ≤ s.failures + 1 then (now + window) :: s.locks else s.locks }

def guess (ok : Bool) (s : Account T) : Account T :=
  { s with history := (s.clock, ok) :: s.history }

def reset (s : Account T) : Account T := { s with failures := 0, lockedUntil := none }

end Account

variable (limit : Nat) (window : T)

inductive Step : Account T → Account T → Prop where
  | wait {s : Account T} {now : T} : s.clock ≤ now → Step s { s with clock := now }
  | pass {s : Account T} : s.Open → Step s (s.guess true).reset
  | fail {s : Account T} {now : T} : s.Open → s.clock ≤ now →
      Step s ((s.guess false).bump limit window now)
  | blank {s : Account T} {now : T} : s.Open → s.clock ≤ now → Step s (s.bump limit window now)

/-- Every guess beyond `limit` wrong ones since the last pass comes a window later
than each of them. -/
def Paced : List (T × Bool) → Prop
  | [] => True
  | (t, _) :: older =>
    Paced older ∧ (limit ≤ (pending older).length → ∀ y ∈ pending older, y + window ≤ t)

structure Invariant (s : Account T) : Prop where
  paced : Paced limit window s.history
  counted : (pending s.history).length ≤ s.failures
  held : limit ≤ (pending s.history).length →
    ∃ expiry ∈ s.lockedUntil, ∀ y ∈ pending s.history, y + window ≤ expiry
  past : ∀ y ∈ pending s.history, y ≤ s.clock
  locked : ∀ t ∈ s.locks, t ≤ s.clock ∨ ∃ expiry ∈ s.lockedUntil, t ≤ expiry

variable {limit window}

namespace Invariant

variable {s : Account T}

theorem locks_le (h : Invariant limit window s) (ho : s.Open) : ∀ t ∈ s.locks, t ≤ s.clock := by
  intro t ht
  rcases h.locked t ht with hle | ⟨expiry, hu, hle⟩
  · exact hle
  · exact hle.trans (ho expiry hu)

theorem paced_guess (h : Invariant limit window s) (ho : s.Open) (ok : Bool) :
    Paced limit window ((s.clock, ok) :: s.history) := by
  refine ⟨h.paced, fun hf y hy => ?_⟩
  obtain ⟨expiry, hu, hh⟩ := h.held hf
  exact (hh y hy).trans (ho expiry hu)

variable {now : T}

theorem wait (h : Invariant limit window s) (hn : s.clock ≤ now) :
    Invariant limit window { s with clock := now } where
  paced := h.paced
  counted := h.counted
  held := h.held
  past y hy := (h.past y hy).trans hn
  locked t ht := (h.locked t ht).imp_left fun hle => hle.trans hn

theorem pass (hl : 0 < limit) (h : Invariant limit window s) (ho : s.Open) :
    Invariant limit window (s.guess true).reset where
  paced := h.paced_guess ho true
  counted := by simp [Account.guess, Account.reset, pending]
  held hfull := by
    simp only [Account.guess, Account.reset, pending, length_nil] at hfull
    omega
  past := by simp [Account.guess, Account.reset, pending]
  locked t ht := .inl (h.locks_le ho t ht)

variable [IsOrderedAddMonoid T]

/-- A counted failure keeps the invariant. -/
theorem bump (h : Invariant limit window s) (ho : s.Open) (hn : s.clock ≤ now) :
    Invariant limit window (s.bump limit window now) where
  paced := h.paced
  counted := h.counted.trans (Nat.le_succ _)
  held hfull := by
    have hc : limit ≤ s.failures + 1 := (hfull.trans h.counted).trans (Nat.le_succ _)
    refine ⟨now + window, by simp [Account.bump, hc], fun y hy => ?_⟩
    exact add_le_add_left ((h.past y hy).trans hn) window
  past y hy := (h.past y hy).trans hn
  locked t ht := by
    by_cases hc : limit ≤ s.failures + 1
    · simp only [Account.bump, hc, if_true, mem_cons] at ht
      rcases ht with rfl | ht
      · exact .inr ⟨now + window, by simp [Account.bump, hc], le_refl _⟩
      · exact .inl ((h.locks_le ho t ht).trans hn)
    · simp only [Account.bump, hc, if_false] at ht
      exact .inl ((h.locks_le ho t ht).trans hn)

/-- So does a wrong guess with the failure counted for it. -/
theorem fail (h : Invariant limit window s) (ho : s.Open) (hn : s.clock ≤ now) :
    Invariant limit window ((s.guess false).bump limit window now) where
  paced := h.paced_guess ho false
  counted := Nat.succ_le_succ h.counted
  held hfull := by
    have hc : limit ≤ s.failures + 1 := hfull.trans (Nat.succ_le_succ h.counted)
    refine ⟨now + window, by simp [Account.guess, Account.bump, hc], fun y hy => ?_⟩
    rcases mem_cons.mp hy with rfl | hy
    · exact add_le_add_left hn window
    · exact add_le_add_left ((h.past y hy).trans hn) window
  past y hy := by
    rcases mem_cons.mp hy with rfl | hy
    · exact hn
    · exact (h.past y hy).trans hn
  locked := (h.bump ho hn).locked

variable {s' : Account T}

theorem step (hl : 0 < limit) (h : Invariant limit window s) (hs : Step limit window s s') :
    Invariant limit window s' := by
  cases hs with
  | wait hn => exact h.wait hn
  | pass ho => exact h.pass hl ho
  | fail ho hn => exact h.fail ho hn
  | blank ho hn => exact h.bump ho hn

theorem steps (hl : 0 < limit) (h : Invariant limit window s)
    (hs : ReflTransGen (Step limit window) s s') : Invariant limit window s' := by
  induction hs with
  | refl => exact h
  | tail _ hst ih => exact ih.step hl hst

end Invariant

section Window

theorem Paced.of_append {newer older : List (T × Bool)} (h : Paced limit window (newer ++ older)) :
    Paced limit window older := by
  induction newer with
  | nil => exact h
  | cons e newer ih => exact ih h.1

variable [IsOrderedAddMonoid T]

/-- Among wrong guesses with no pass between them, at most `limit` fall into one
window. -/
theorem Paced.wrong_le (hl : 0 < limit) {seg older : List (T × Bool)}
    (h : Paced limit window (seg ++ older)) (hs : ∀ e ∈ seg, e.2 = false) (a : T) :
    (seg.filter fun e => a ≤ e.1 ∧ e.1 < a + window).length ≤ limit := by
  induction seg with
  | nil => simp
  | cons e seg ih =>
    obtain ⟨hr, hla⟩ := h
    have hs' : ∀ e ∈ seg, e.2 = false := fun e he => hs e (mem_cons_of_mem _ he)
    by_cases hin : a ≤ e.1 ∧ e.1 < a + window
    · rw [filter_cons_of_pos (by simpa using hin), length_cons]
      by_cases hf : limit ≤ seg.length
      · -- every older guess of the segment lies a window back
        have hn : (seg.filter fun e => a ≤ e.1 ∧ e.1 < a + window) = [] := by
          refine filter_eq_nil_iff.mpr fun y hy => ?_
          have hy' : y.1 ∈ pending (seg ++ older) := by
            rw [pending_append hs']
            exact mem_append_left _ (mem_map_of_mem hy)
          have hln : limit ≤ (pending (seg ++ older)).length := by
            rw [pending_append hs', length_append, length_map]
            omega
          have hb : y.1 + window ≤ e.1 := hla hln y.1 hy'
          have hlt : y.1 + window < a + window := lt_of_le_of_lt hb hin.2
          simpa using fun hle : a ≤ y.1 => absurd hlt (not_lt.mpr (add_le_add_left hle window))
        rw [hn]
        exact hl
      · have := length_filter_le (fun e => decide (a ≤ e.1 ∧ e.1 < a + window)) seg
        omega
    · rw [filter_cons_of_neg (by simpa using hin)]
      exact ih hr hs'

end Window

end Policy

end Lockout
