import Mathlib.Algebra.Order.Group.Defs
import Mathlib.Algebra.Order.Monoid.Unbundled.Basic
import Mathlib.Data.Nat.Notation

/-!
A fixed-window counter for one caller. An interval as long as the window meets two windows at most,
and of the older one it misses the call that opened it (`run_bound`).
-/
namespace FixedWindow

structure Window (T : Type) where
  count : ℕ
  start : T
deriving DecidableEq, Repr

section Counter

variable {T : Type} [AddCommGroup T] [LinearOrder T]

def Elapsed (window now : T) (w : Window T) : Prop := window ≤ now - w.start

instance (window now : T) (w : Window T) : Decidable (Elapsed window now w) :=
  inferInstanceAs (Decidable (window ≤ now - w.start))

/-- Whether a call is admitted, and the window after it. -/
def step (limit : ℕ) (window now : T) : Option (Window T) → Bool × Window T
  | none => (true, ⟨1, now⟩)
  | some w =>
    if Elapsed window now w then (true, ⟨1, now⟩)
    else if limit ≤ w.count then (false, w)
    else (true, ⟨w.count + 1, w.start⟩)

def run (limit : ℕ) (window : T) : Option (Window T) → List T → List (T × Bool)
  | _, [] => []
  | w, now :: times =>
    let (admitted, w') := step limit window now w
    (now, admitted) :: run limit window (some w') times

/-- Whether a call was admitted in the interval of the window's length that starts at `a`. -/
def admittedFrom (window a : T) (e : T × Bool) : Bool := e.2 && a ≤ e.1 && e.1 < a + window

/-- What the calls up to `last` leave behind, `n` of them admitted in the interval. -/
structure Inv (limit : ℕ) (window a last : T) (n : ℕ) (w : Window T) : Prop where
  start_le : w.start ≤ last
  count_le : w.count ≤ limit
  count_pos : 0 < w.count
  early : last < a → n = 0
  old : w.start < a → n + 1 ≤ w.count
  fresh : a ≤ w.start → w.start < a + window → n + 1 ≤ limit + w.count
  all : n + 1 ≤ 2 * limit

variable {limit : ℕ} {window a last now : T} {n : ℕ} {w : Window T}

def weight (window a now : T) (admitted : Bool) : ℕ :=
  if admittedFrom window a (now, admitted) then 1 else 0

theorem weight_le (window a now : T) (admitted : Bool) : weight window a now admitted ≤ 1 := by
  unfold weight
  split <;> omega

theorem weight_eq_zero {admitted : Bool} (h : ¬(a ≤ now ∧ now < a + window)) :
    weight window a now admitted = 0 := by
  have ho : admittedFrom window a (now, admitted) = false := by
    rw [admittedFrom, Bool.and_assoc, ← Bool.decide_and, decide_eq_false h, Bool.and_false]
  simp [weight, ho]

theorem inv_open (window a now : T) (hl : 0 < limit) :
    Inv limit window a now (weight window a now true) ⟨1, now⟩ := by
  have hle := weight_le window a now true
  refine ⟨le_refl _, hl, one_pos, ?_, ?_, ?_, by omega⟩
  · intro he
    exact weight_eq_zero fun h => not_le.mpr he h.1
  · intro he
    rw [weight_eq_zero fun h => not_le.mpr he h.1]
  intro _ _
  dsimp only
  omega

/-- One more call in an open window. -/
theorem inv_admit (h : Inv limit window a last n w) (hn : last ≤ now) (hc : w.count < limit) :
    Inv limit window a now (n + weight window a now true) ⟨w.count + 1, w.start⟩ := by
  have hle := weight_le window a now true
  refine ⟨h.start_le.trans hn, hc, Nat.succ_pos _, fun he => ?_, fun hlt => ?_,
    fun hge hlt => ?_, ?_⟩
  · rw [h.early (hn.trans_lt he), weight_eq_zero fun hin => not_le.mpr he hin.1]
  · have := h.old hlt
    dsimp only
    omega
  · have := h.fresh hge hlt
    dsimp only
    omega
  by_cases hi : a ≤ now ∧ now < a + window
  · rcases lt_or_ge w.start a with hlt | hge
    · have := h.old hlt
      omega
    · have := h.fresh hge ((h.start_le.trans hn).trans_lt hi.2)
      omega
  · rw [weight_eq_zero hi]
    exact h.all

theorem inv_refuse (h : Inv limit window a last n w) (hn : last ≤ now) :
    Inv limit window a now n w :=
  ⟨h.start_le.trans hn, h.count_le, h.count_pos, fun he => h.early (hn.trans_lt he),
    h.old, h.fresh, h.all⟩

theorem countP_run_cons (w : Option (Window T)) (times : List T) :
    (run limit window w (now :: times)).countP (admittedFrom window a) =
      weight window a now (step limit window now w).1 +
        (run limit window (some (step limit window now w).2) times).countP
          (admittedFrom window a) := by
  rw [run, List.countP_cons, weight, Nat.add_comm]

variable [IsOrderedAddMonoid T]

theorem elapsed_mono (h : Elapsed window last w) (hn : last ≤ now) : Elapsed window now w :=
  h.trans (sub_le_sub_right hn _)

/-- A call that opens a new window. -/
theorem inv_reopen (h : Inv limit window a last n w) (hn : last ≤ now)
    (hel : Elapsed window now w) :
    Inv limit window a now (n + weight window a now true) ⟨1, now⟩ := by
  have hle := weight_le window a now true
  have hc := h.count_le
  have hp := h.count_pos
  have ha := h.all
  have he : now < a → n + weight window a now true = 0 := by
    intro he
    rw [h.early (hn.trans_lt he), weight_eq_zero fun hin => not_le.mpr he hin.1]
  -- a window that was opened in the interval has not elapsed before its end
  have hin : a ≤ now → now < a + window → w.start < a := by
    intro _ hlt
    by_contra hstart
    have hen : a + window ≤ now := by
      calc a + window ≤ w.start + window := by gcongr; exact not_lt.mp hstart
        _ ≤ now := by rw [add_comm]; exact le_sub_iff_add_le.mp hel
    exact absurd hlt (not_lt.mpr hen)
  refine ⟨le_refl _, hp.trans_le hc, one_pos, he, fun hlt => ?_, fun hge hlt => ?_, ?_⟩
  · rw [he hlt]
  · have := h.old (hin hge hlt)
    dsimp only
    omega
  by_cases hi : a ≤ now ∧ now < a + window
  · have := h.old (hin hi.1 hi.2)
    omega
  · rw [weight_eq_zero hi]
    omega

theorem inv_step (h : Inv limit window a last n w) (hn : last ≤ now) :
    Inv limit window a now (n + weight window a now (step limit window now (some w)).1)
      (step limit window now (some w)).2 := by
  simp only [step]
  split
  · rename_i he
    exact inv_reopen h hn he
  split
  · have hr : weight window a now false = 0 := rfl
    rw [hr]
    exact inv_refuse h hn
  · rename_i hc
    exact inv_admit h hn (not_le.mp hc)

/-- From any window on, a run admits less than twice the limit in the interval. -/
theorem run_inv (times : List T) (h : Inv limit window a last n w) (hl : ∀ t ∈ times, last ≤ t)
    (hc : times.Pairwise (· ≤ ·)) :
    n + (run limit window (some w) times).countP (admittedFrom window a) + 1 ≤ 2 * limit := by
  induction times generalizing last n w with
  | nil => exact h.all
  | cons now times ih =>
    obtain ⟨hn, hc⟩ := List.pairwise_cons.mp hc
    have hs := inv_step h (hl now List.mem_cons_self)
    rw [countP_run_cons, ← Nat.add_assoc]
    exact ih hs hn hc

/-- So does a run from the start. -/
theorem run_bound (hl : 0 < limit) (window a : T) {times : List T} (hc : times.Pairwise (· ≤ ·)) :
    (run limit window none times).countP (admittedFrom window a) ≤ 2 * limit - 1 := by
  cases times with
  | nil => simp [run]
  | cons now times =>
    obtain ⟨hn, hc⟩ := List.pairwise_cons.mp hc
    have hb := run_inv times (inv_open window a now hl) hn hc
    rw [countP_run_cons]
    simp only [step]
    omega

end Counter

end FixedWindow
