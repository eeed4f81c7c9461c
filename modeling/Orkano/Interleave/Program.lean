import Mathlib.Logic.Function.Basic

/-! Programs over a call interface. A program is a tree of calls to its
surroundings; everything between two calls is pure. The same program is run
alone (`Runs`) or interleaved with others at the granularity of single calls. -/
namespace Interleave

structure Interface where
  Call : Type
  Reply : Call → Type

inductive Program (I : Interface) (α : Type) where
  | done (a : α)
  | call (c : I.Call) (next : I.Reply c → Program I α)

namespace Program

variable {I : Interface} {S α β γ : Type}

protected def bind : Program I α → (α → Program I β) → Program I β
  | done a, f => f a
  | call c next, f => call c (fun x => (next x).bind f)

instance : Monad (Program I) where
  pure := done
  bind := Program.bind

/-- The one-call program that hands back the answer. -/
def perform (c : I.Call) : Program I (I.Reply c) := call c done

@[simp] theorem pure_eq (a : α) : (pure a : Program I α) = done a := rfl

@[simp] theorem done_bind (a : α) (f : α → Program I β) : done a >>= f = f a := rfl

@[simp] theorem call_bind (c : I.Call) (next : I.Reply c → Program I α)
    (f : α → Program I β) : call c next >>= f = call c (fun x => next x >>= f) := rfl

@[simp] theorem perform_bind (c : I.Call) (f : I.Reply c → Program I α) :
    @Bind.bind (Program I) _ (no_index (I.Reply c)) α (no_index (perform c)) f = call c f := rfl

section Alone

variable (exec : (c : I.Call) → S → I.Reply c → S → Prop)

/-- A complete run of one program: every call is answered as `exec` allows. -/
inductive Runs : Program I α → S → α → S → Prop where
  | done {a : α} {s : S} : Runs (.done a) s a s
  | call {c : I.Call} {next : I.Reply c → Program I α} {s s₁ s₂ : S} {x : I.Reply c} {a : α} :
      exec c s x s₁ → Runs (next x) s₁ a s₂ → Runs (.call c next) s a s₂

variable {exec}
variable {a : α} {s s' : S}

@[simp] theorem runs_done {b : α} : Runs exec (done a) s b s' ↔ b = a ∧ s' = s := by
  constructor
  · rintro ⟨⟩
    exact ⟨rfl, rfl⟩
  · rintro ⟨rfl, rfl⟩
    exact .done

variable {c : I.Call}

@[simp] theorem runs_call {next : I.Reply c → Program I α} :
    Runs exec (call c next) s a s' ↔ ∃ x s1, exec c s x s1 ∧ Runs exec (next x) s1 a s' := by
  constructor
  · rintro (_ | ⟨hx, hr⟩)
    exact ⟨_, _, hx, hr⟩
  · rintro ⟨x, s1, hx, hr⟩
    exact .call hx hr

variable {p : Program I α} {f : α → Program I β}

/-- A run of a sequence is a run of its first part and one of its second. -/
theorem runs_bind {b : β} :
    Runs exec (p >>= f) s b s' ↔ ∃ a s1, Runs exec p s a s1 ∧ Runs exec (f a) s1 b s' := by
  induction p generalizing s with
  | done a =>
    simp only [done_bind, runs_done]
    constructor
    · intro h
      exact ⟨a, s, ⟨rfl, rfl⟩, h⟩
    · rintro ⟨_, _, ⟨rfl, rfl⟩, h⟩
      exact h
  | call c next ih =>
    simp only [call_bind, runs_call, ih]
    constructor
    · rintro ⟨x, s1, hx, a, s2, hp, hf⟩
      exact ⟨a, s2, ⟨x, s1, hx, hp⟩, hf⟩
    · rintro ⟨a, s2, ⟨x, s1, hx, hp⟩, hf⟩
      exact ⟨x, s1, hx, a, s2, hp, hf⟩

theorem runs_perform {x : I.Reply c} : Runs exec (perform c) s x s' ↔ exec c s x s' := by
  constructor
  · intro h
    obtain ⟨y, s1, hy, hd⟩ := runs_call.mp h
    obtain ⟨rfl, rfl⟩ := runs_done.mp hd
    exact hy
  · intro h
    exact .call h .done

theorem Runs.mono {exec' : (c : I.Call) → S → I.Reply c → S → Prop}
    (he : ∀ c s x s', exec c s x s' → exec' c s x s') (h : Runs exec p s a s') :
    Runs exec' p s a s' := by
  induction h with
  | done => exact .done
  | call hx _ ih => exact .call (he _ _ _ _ hx) ih

/-- Whatever the answers, a complete run ends as `Q` says. -/
structure Ensures (exec : (c : I.Call) → S → I.Reply c → S → Prop) (p : Program I α) (s : S)
    (Q : α → S → Prop) : Prop where
  post : ∀ a s', Runs exec p s a s' → Q a s'

variable {Q : α → S → Prop}

@[simp] theorem ensures_done : Ensures exec (done a) s Q ↔ Q a s := by
  constructor
  · intro h
    exact h.post a s .done
  intro h
  constructor
  intro b s' hr
  obtain ⟨rfl, rfl⟩ := runs_done.mp hr
  exact h

@[simp] theorem ensures_call {next : I.Reply c → Program I α} :
    Ensures exec (call c next) s Q ↔ ∀ x s1, exec c s x s1 → Ensures exec (next x) s1 Q := by
  constructor
  · intro h x s1 hx
    constructor
    intro a s' hr
    exact h.post a s' (.call hx hr)
  intro h
  constructor
  intro a s' hr
  obtain ⟨x, s1, hx, hr⟩ := runs_call.mp hr
  exact (h x s1 hx).post a s' hr

variable {P : α → S → Prop}

theorem Ensures.bind {Q : β → S → Prop} (hp : Ensures exec p s P)
    (hf : ∀ a s', P a s' → Ensures exec (f a) s' Q) : Ensures exec (p >>= f) s Q := by
  constructor
  intro b s' hr
  obtain ⟨a, s1, ha, hb⟩ := runs_bind.mp hr
  exact (hf a s1 (hp.post a s1 ha)).post b s' hb

theorem Ensures.mono (hp : Ensures exec p s P) (hPQ : ∀ a s', P a s' → Q a s') :
    Ensures exec p s Q := by
  constructor
  intro a s' hr
  exact hPQ a s' (hp.post a s' hr)

end Alone

section Determined

variable (answer : (c : I.Call) → S → I.Reply c × S)

/-- The run of a program whose surroundings leave no choice. -/
def eval : Program I α → S → α × S
  | done a, s => (a, s)
  | call c next, s => (next (answer c s).1).eval (answer c s).2

@[simp] theorem eval_done (a : α) (s : S) : (done a).eval answer s = (a, s) := rfl

@[simp] theorem eval_call (c : I.Call) (next : I.Reply c → Program I α) (s : S) :
    (call c next).eval answer s = (next (answer c s).1).eval answer (answer c s).2 := rfl

theorem eval_bind (p : Program I α) (f : α → Program I β) (s : S) :
    (p >>= f).eval answer s = (f (p.eval answer s).1).eval answer (p.eval answer s).2 := by
  induction p generalizing s with
  | done a => rfl
  | call c next ih => exact ih _ _

theorem runs_eval {exec : (c : I.Call) → S → I.Reply c → S → Prop}
    (he : ∀ c s, exec c s (answer c s).1 (answer c s).2) (p : Program I α) (s : S) :
    Runs exec p s (p.eval answer s).1 (p.eval answer s).2 := by
  induction p generalizing s with
  | done a => exact .done
  | call c next ih => exact .call (he c s) (ih _ _)

end Determined

section Calls

/-- Every call the program may come to satisfies `P`. -/
def Only (P : I.Call → Prop) : Program I α → Prop
  | done _ => True
  | call c next => P c ∧ ∀ x, (next x).Only P

variable {P : I.Call → Prop}

@[simp] theorem only_done (a : α) : (done a : Program I α).Only P := trivial

@[simp] theorem only_call {c : I.Call} {next : I.Reply c → Program I α} :
    (call c next).Only P ↔ P c ∧ ∀ x, (next x).Only P := Iff.rfl

variable {p : Program I α}

theorem only_bind {f : α → Program I β} (hp : p.Only P) (hf : ∀ a, (f a).Only P) :
    (p >>= f).Only P := by
  induction p with
  | done a => exact hf a
  | call c next ih => exact ⟨hp.1, fun x => ih x (hp.2 x)⟩

theorem only_true (p : Program I α) : p.Only fun _ => True := by
  induction p with
  | done a => trivial
  | call c next ih => exact ⟨trivial, ih⟩

theorem Runs.of_only {exec : (c : I.Call) → S → I.Reply c → S → Prop} {R : S → S → Prop}
    (hr : ∀ s, R s s) (ht : ∀ {s1 s2 s3}, R s1 s2 → R s2 s3 → R s1 s3)
    (hP : ∀ c s x s', P c → exec c s x s' → R s s') {s s' : S} {a : α} (hp : p.Only P)
    (h : Runs exec p s a s') : R s s' := by
  induction h with
  | done => exact hr _
  | call hx _ ih => exact ht (hP _ _ _ _ hp.1 hx) (ih (hp.2 _))

end Calls
end Program

inductive Fault where
  | before
  | after
deriving DecidableEq, Repr

structure Machine (I : Interface) (S : Type) where
  Choice : I.Call → Type
  answer : (c : I.Call) → Choice c → S → Option (I.Reply c × S)

namespace Machine

variable {I : Interface} {S α : Type} (M : Machine I S)

def exec (c : I.Call) (s : S) (x : I.Reply c) (s' : S) : Prop :=
  ∃ k, M.answer c k s = some (x, s')

/-- The machine that makes only the steps that satisfy `ok`. -/
def guard (ok : (c : I.Call) → S → I.Reply c → S → Bool) : Machine I S where
  Choice := M.Choice
  answer c k s := (M.answer c k s).filter fun r => ok c s r.1 r.2

variable {s : S}

theorem exec_guard {ok : (c : I.Call) → S → I.Reply c → S → Bool} {c : I.Call} {s' : S}
    {x : I.Reply c} : (M.guard ok).exec c s x s' ↔ M.exec c s x s' ∧ ok c s x s' := by
  simp only [exec, guard, Option.filter_eq_some_iff]
  exact exists_and_right

/-- The machine that keeps a log of its answers beside the state. -/
def logging {H : Type} (log : (c : I.Call) → I.Reply c → H → H) : Machine I (S × H) where
  Choice := M.Choice
  answer c k s := (M.answer c k s.1).map fun r => (r.1, r.2, log c r.1 s.2)

theorem exec_logging {H : Type} {log : (c : I.Call) → I.Reply c → H → H} {c : I.Call}
    {s s' : S × H} {x : I.Reply c} (h : (M.logging log).exec c s x s') :
    M.exec c s.1 x s'.1 ∧ s'.2 = log c x s.2 := by
  obtain ⟨k, hk⟩ := h
  obtain ⟨⟨y, s1⟩, hr, heq⟩ := Option.map_eq_some_iff.mp hk
  cases heq
  exact ⟨⟨k, hr⟩, rfl⟩

/-- Run a program with every choice made by `pick`. -/
def simulate (pick : (c : I.Call) → S → M.Choice c) : Program I α → S → Option (α × S)
  | .done a, s => some (a, s)
  | .call c next, s => (M.answer c (pick c s) s).bind fun r => simulate pick (next r.1) r.2

variable {pick : (c : I.Call) → S → M.Choice c} {p : Program I α} {a : α}

theorem runs_of_simulate {s' : S} (h : M.simulate pick p s = some (a, s')) :
    Program.Runs M.exec p s a s' := by
  induction p generalizing s with
  | done b =>
    cases h
    exact .done
  | call c next ih =>
    obtain ⟨⟨x, s1⟩, hx, hr⟩ := Option.bind_eq_some_iff.mp h
    exact .call ⟨pick c s, hx⟩ (ih x hr)

theorem simulate_bind {β : Type} {s' : S} (h : M.simulate pick p s = some (a, s'))
    (f : α → Program I β) : M.simulate pick (p >>= f) s = M.simulate pick (f a) s' := by
  induction p generalizing s with
  | done b =>
    cases h
    rfl
  | call c next ih =>
    obtain ⟨⟨x, s1⟩, hx, hr⟩ := Option.bind_eq_some_iff.mp h
    simp only [Program.call_bind, simulate, hx, Option.bind_some]
    exact ih x hr

/-- The state after a simulated run, or the one before if the run got stuck. -/
def after (pick : (c : I.Call) → S → M.Choice c) (p : Program I α) (s : S) : S :=
  (M.simulate pick p s).elim s Prod.snd

theorem runs_after (h : (M.simulate pick p s).map Prod.fst = some a) :
    Program.Runs M.exec p s a (M.after pick p s) := by
  obtain ⟨⟨_, s'⟩, hr, rfl⟩ := Option.map_eq_some_iff.mp h
  simp only [after, hr, Option.elim_some]
  exact M.runs_of_simulate hr

end Machine
end Interleave
