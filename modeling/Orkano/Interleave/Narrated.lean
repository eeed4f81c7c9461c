import Mathlib.Data.Nat.Notation
import Orkano.Interleave.Program

/-!
Programs that send commands and say what they are doing. Two programs are alike if they say the
same and end alike whenever their commands are answered alike.
-/
namespace Interleave

inductive Utterance (C L : Type) where
  | run (c : C)
  | say (line : L)

/-- Every command has an answer of the same type. -/
@[reducible] def narrated (C X L : Type) : Interface where
  Call := Utterance C L
  Reply
    | .run _ => X
    | .say _ => Unit

structure Played (C X L α : Type) where
  exchanges : List (C × X)
  lines : List L
  result : α
deriving Repr

namespace Program

variable {C X L α β γ δ : Type}

/-- The run in which the commands are answered one after the other as the sequence says. -/
def play : Program (narrated C X L) α → (ℕ → X) → Played C X L α
  | done a, _ => ⟨[], [], a⟩
  | call (.say line) next, answers =>
    let rest := (next ()).play answers
    { rest with lines := line :: rest.lines }
  | call (.run c) next, answers =>
    let rest := (next (answers 0)).play fun n => answers (n + 1)
    { rest with exchanges := (c, answers 0) :: rest.exchanges }

section Alike

/-- The same lines and commands for commands, as long as the answers are safe, and
related results. -/
inductive Alike (safe : C → X → Prop) (R : α → β → Prop) :
    Program (narrated C X L) α → Program (narrated C X L) β → Prop where
  | done {a : α} {b : β} : R a b → Alike safe R (.done a) (.done b)
  | say {line : L} {p : Unit → Program (narrated C X L) α} {q : Unit → Program (narrated C X L) β} :
      Alike safe R (p ()) (q ()) → Alike safe R (.call (.say line) p) (.call (.say line) q)
  | run {c c' : C} {p : X → Program (narrated C X L) α} {q : X → Program (narrated C X L) β} :
      (∀ x, safe c x → Alike safe R (p x) (q x)) →
      Alike safe R (.call (.run c) p) (.call (.run c') q)

variable {safe : C → X → Prop} {R : α → β → Prop} {Q : γ → δ → Prop}
variable {p : Program (narrated C X L) α} {q : Program (narrated C X L) β}

theorem Alike.play (h : Alike safe R p q) {answers : ℕ → X}
    (hs : ∀ e ∈ (p.play answers).exchanges, safe e.1 e.2) :
    (p.play answers).lines = (q.play answers).lines ∧
      R (p.play answers).result (q.play answers).result := by
  induction h generalizing answers with
  | done hR => exact ⟨rfl, hR⟩
  | say _ ih =>
    obtain ⟨hl, hr⟩ := ih hs
    exact ⟨congrArg _ hl, hr⟩
  | @run c c' p q _ ih =>
    have hf : safe c (answers 0) := hs _ List.mem_cons_self
    exact ih _ hf fun e he => hs e (List.mem_cons_of_mem _ he)

theorem Alike.refl {R : α → α → Prop} (hR : ∀ a, R a a) (p : Program (narrated C X L) α) :
    Alike safe R p p := by
  induction p with
  | done a => exact .done (hR a)
  | call c next ih =>
    cases c with
    | run c => exact .run fun x _ => ih x
    | say line => exact .say (ih ())

theorem Alike.bind {f : α → Program (narrated C X L) γ} {g : β → Program (narrated C X L) δ}
    (h : Alike safe R p q) (hfg : ∀ a b, R a b → Alike safe Q (f a) (g b)) :
    Alike safe Q (p >>= f) (q >>= g) := by
  induction h with
  | done hR => exact hfg _ _ hR
  | say _ ih => exact .say ih
  | run _ ih => exact .run ih

end Alike

section Erases

variable {J : Interface} {S : Type} (name : C → J.Call) (forget : (c : C) → X → J.Reply (name c))

/-- The second program is the first without its lines, with coarser commands and answers. -/
inductive Erases (R : α → β → Prop) : Program (narrated C X L) α → Program J β → Prop where
  | done {a : α} {b : β} : R a b → Erases R (.done a) (.done b)
  | say {line : L} {p : Unit → Program (narrated C X L) α} {q : Program J β} :
      Erases R (p ()) q → Erases R (.call (.say line) p) q
  | run {c : C} {p : X → Program (narrated C X L) α} {q : J.Reply (name c) → Program J β} :
      (∀ x, Erases R (p x) (q (forget c x))) → Erases R (.call (.run c) p) (.call (name c) q)

/-- The surroundings of the coarser program, as the first one meets them. -/
def refinedExec (exec : (c : J.Call) → S → J.Reply c → S → Prop) :
    (c : Utterance C L) → S → (narrated C X L).Reply c → S → Prop
  | .run c, s, x, s' => exec (name c) s (forget c x) s'
  | .say _, s, _, s' => s' = s

variable {name forget} {R : α → β → Prop} {Q : γ → δ → Prop}
variable {p : Program (narrated C X L) α} {q : Program J β}

theorem Erases.bind {f : α → Program (narrated C X L) γ} {g : β → Program J δ}
    (h : Erases name forget R p q) (hfg : ∀ a b, R a b → Erases name forget Q (f a) (g b)) :
    Erases name forget Q (p >>= f) (q >>= g) := by
  induction h with
  | done hR => exact hfg _ _ hR
  | say _ ih => exact .say ih
  | run _ ih => exact .run ih

/-- A run of the narrated program is one of the plain program. -/
theorem Erases.runs {exec : (c : J.Call) → S → J.Reply c → S → Prop}
    (h : Erases name forget R p q) {s s' : S} {a : α}
    (hrn : Runs (refinedExec name forget exec) p s a s') : ∃ b, R a b ∧ Runs exec q s b s' := by
  induction h generalizing s with
  | done hR =>
    obtain ⟨rfl, rfl⟩ := runs_done.mp hrn
    exact ⟨_, hR, .done⟩
  | say _ ih =>
    obtain ⟨_, _, hs, hr⟩ := runs_call.mp hrn
    cases hs
    exact ih hr
  | run _ ih =>
    obtain ⟨x, s1, hx, hr⟩ := runs_call.mp hrn
    obtain ⟨b, hb, hrs⟩ := ih x hr
    exact ⟨b, hb, .call hx hrs⟩

end Erases

end Program

end Interleave
