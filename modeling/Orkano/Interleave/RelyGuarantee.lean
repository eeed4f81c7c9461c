import Mathlib.Logic.Relation
import Orkano.Interleave.Program

/-!
Interleavings of programs over one shared state, and a rely-guarantee rule for them. A thread
may be started, advanced by one call, or stopped at any moment. `Safe` is the weakest
precondition of a program under a `Discipline`; a system whose threads start safe keeps the
invariant in every interleaving (`System.reachable_good`).
-/
namespace Interleave

open Program Relation

/-- The calls a thread may see answered, the surroundings' own changes, what a
restart does to the state, and the programs a thread may be started with. -/
structure System (I : Interface) (S τ α : Type) where
  exec : τ → (c : I.Call) → S → I.Reply c → S → Prop
  env : S → S → Prop
  restart : S → S → Prop
  starts : τ → Program I α → Prop

structure Config (I : Interface) (S τ α : Type) where
  shared : S
  threads : τ → Option (Program I α)

def Config.idle {I : Interface} {S τ α : Type} (s : S) : Config I S τ α := ⟨s, fun _ => none⟩

def Config.result {I : Interface} {S τ α : Type} (c : Config I S τ α) (t : τ) : Option α :=
  match c.threads t with
  | some (.done a) => some a
  | _ => none

namespace System

variable {I : Interface} {S τ α : Type} [DecidableEq τ]

inductive Step (M : System I S τ α) : Config I S τ α → Config I S τ α → Prop where
  | start {s : S} {ts : τ → Option (Program I α)} {t : τ} {p : Program I α} :
      ts t = none → M.starts t p → Step M ⟨s, ts⟩ ⟨s, Function.update ts t (some p)⟩
  | run {s s' : S} {ts : τ → Option (Program I α)} {t : τ} {c : I.Call}
      {next : I.Reply c → Program I α} {x : I.Reply c} :
      ts t = some (.call c next) → M.exec t c s x s' →
        Step M ⟨s, ts⟩ ⟨s', Function.update ts t (some (next x))⟩
  | stop {s : S} {ts : τ → Option (Program I α)} (t : τ) :
      Step M ⟨s, ts⟩ ⟨s, Function.update ts t none⟩
  | env {s s' : S} {ts : τ → Option (Program I α)} : M.env s s' → Step M ⟨s, ts⟩ ⟨s', ts⟩
  | restart {s s' : S} {ts : τ → Option (Program I α)} :
      M.restart s s' → Step M ⟨s, ts⟩ ⟨s', fun _ => none⟩

abbrev Steps (M : System I S τ α) : Config I S τ α → Config I S τ α → Prop :=
  ReflTransGen M.Step

variable {M : System I S τ α} {t : τ} {p : Program I α} {a : α}

/-- A thread that runs undisturbed is a run of the system. -/
theorem steps_of_runs {s s' : S} (h : Runs (M.exec t) p s a s') (ts : τ → Option (Program I α)) :
    M.Steps ⟨s, Function.update ts t (some p)⟩ ⟨s', Function.update ts t (some (.done a))⟩ := by
  induction h with
  | done => exact .refl
  | @call c next s s1 s2 x a hx _ ih =>
    refine .head (.run (Function.update_self t _ ts) hx) ?_
    rw [Function.update_idem]
    exact ih

theorem steps_done_of_runs {c : Config I S τ α} {s' : S} (hf : c.threads t = none)
    (hp : M.starts t p) (h : Runs (M.exec t) p c.shared a s') :
    M.Steps c ⟨s', Function.update c.threads t (some (.done a))⟩ :=
  .head (.start hf hp) (steps_of_runs h c.threads)

theorem steps_idle_of_runs {s s' : S} (hp : M.starts t p) (h : Runs (M.exec t) p s a s') :
    M.Steps (Config.idle s) (Config.idle s') := by
  let ran : τ → Option (Program I α) := Function.update (fun _ => none) t (some (.done a))
  have hi : Function.update ran t none = fun _ => none := by
    rw [Function.update_idem]
    exact Function.update_eq_self t _
  have hs : M.Step ⟨s', ran⟩ ⟨s', Function.update ran t none⟩ := .stop t
  rw [hi] at hs
  exact .tail (steps_done_of_runs rfl hp h) hs

/-- Threads that run one after the other are a run of the system. -/
theorem steps_idle_after (machine : τ → Machine I S)
    (pick : (t : τ) → (c : I.Call) → S → (machine t).Choice c) (program : τ → Program I α)
    (he : ∀ t c s x s', (machine t).exec c s x s' → M.exec t c s x s')
    (hs : ∀ t, M.starts t (program t)) (ts : List τ) (s : S) :
    M.Steps (Config.idle s)
      (Config.idle (ts.foldl (fun s t => (machine t).after (pick t) (program t) s) s)) := by
  induction ts generalizing s with
  | nil => exact .refl
  | cons t ts ih =>
    have hf : M.Steps (Config.idle s)
        (Config.idle ((machine t).after (pick t) (program t) s)) := by
      unfold Machine.after
      cases hrn : (machine t).simulate (pick t) (program t) s with
      | none => exact .refl
      | some r =>
        have hr := (Machine.runs_of_simulate _ hrn).mono (he t)
        exact steps_idle_of_runs (hs t) hr
    exact hf.trans (ih _)

section Schedule

variable (machine : τ → Machine I S) (pick : (t : τ) → (c : I.Call) → S → (machine t).Choice c)
  (program : τ → Program I α)

/-- The next step of a thread: it is started, or its next call is answered. -/
def advance (c : Config I S τ α) (t : τ) : Config I S τ α :=
  match c.threads t with
  | none => ⟨c.shared, Function.update c.threads t (some (program t))⟩
  | some (.done _) => c
  | some (.call k next) =>
    match (machine t).answer k (pick t k c.shared) c.shared with
    | none => c
    | some (x, s') => ⟨s', Function.update c.threads t (some (next x))⟩

variable {M : System I S τ α}

theorem steps_advance (he : ∀ t c s x s', (machine t).exec c s x s' → M.exec t c s x s')
    (hs : ∀ t, M.starts t (program t)) (c : Config I S τ α) (t : τ) :
    M.Steps c (advance machine pick program c t) := by
  unfold advance
  split
  · rename_i hf
    exact .single (.start hf (hs t))
  · exact .refl
  rename_i k next hc
  split
  · exact .refl
  · rename_i x s' ha
    exact .single (.run hc (he t k c.shared x s' ⟨_, ha⟩))

/-- Any schedule of the threads' calls is one. -/
theorem steps_schedule (he : ∀ t c s x s', (machine t).exec c s x s' → M.exec t c s x s')
    (hs : ∀ t, M.starts t (program t)) (ts : List τ) (c : Config I S τ α) :
    M.Steps c (ts.foldl (advance machine pick program) c) := by
  induction ts generalizing c with
  | nil => exact .refl
  | cons t ts ih => exact (steps_advance machine pick program he hs c t).trans (ih _)

end Schedule

/-- The runs of `M` whose answered calls all satisfy `ok`. -/
def restrict (M : System I S τ α) (ok : τ → (c : I.Call) → S → I.Reply c → Prop) :
    System I S τ α where
  exec t c s x s' := ok t c s x ∧ M.exec t c s x s'
  env := M.env
  restart := M.restart
  starts := M.starts

end System

/-- An invariant, a preorder every step respects, and a preorder for each thread
that the steps of all the others respect. -/
structure Discipline (S τ : Type) where
  inv : S → Prop
  evolves : S → S → Prop
  rely : τ → S → S → Prop
  evolves_refl : ∀ s, evolves s s
  evolves_trans : ∀ {s₁ s₂ s₃}, evolves s₁ s₂ → evolves s₂ s₃ → evolves s₁ s₃
  rely_refl : ∀ t s, rely t s s
  rely_trans : ∀ t {s₁ s₂ s₃}, rely t s₁ s₂ → rely t s₂ s₃ → rely t s₁ s₃

def Discipline.invariant {S τ : Type} (inv : S → Prop) : Discipline S τ where
  inv := inv
  evolves _ _ := True
  rely _ _ _ := True
  evolves_refl _ := trivial
  evolves_trans := fun _ _ => trivial
  rely_refl _ _ := trivial
  rely_trans := fun _ _ _ _ _ _ => trivial

section Safe

variable {I : Interface} {S τ α β : Type}
variable (exec : τ → (c : I.Call) → S → I.Reply c → S → Prop) (D : Discipline S τ) (t : τ)

/-- A step taken by `t` from `s` to `s'` that the discipline allows. -/
structure Allowed (s s' : S) : Prop where
  inv : D.inv s'
  evolves : D.evolves s s'
  rely : ∀ t', t' ≠ t → D.rely t' s s'

/-- Weakest precondition of a thread's program: whatever the others do between
two of its calls, each call keeps the discipline, and `post` holds at the end. -/
def Safe (post : α → S → Prop) : Program I α → S → Prop
  | .done a, s => post a s
  | .call c next, s => ∀ s₁, D.rely t s s₁ → D.inv s₁ → ∀ x s₂, exec t c s₁ x s₂ →
      Allowed D t s₁ s₂ ∧ Safe post (next x) s₂

variable {exec D t}
variable {post : α → S → Prop} {s : S}

@[simp] theorem safe_done {a : α} :
    Safe exec D t post (.done a : Program I α) s ↔ post a s := Iff.rfl

theorem safe_call {c : I.Call} {next : I.Reply c → Program I α} :
    Safe exec D t post (.call c next) s ↔
      ∀ s1, D.rely t s s1 → D.inv s1 → ∀ x s2, exec t c s1 x s2 →
        Allowed D t s1 s2 ∧ Safe exec D t post (next x) s2 := Iff.rfl

theorem Safe.rely_call {c : I.Call} {next : I.Reply c → Program I α} {s' : S}
    (h : Safe exec D t post (.call c next) s) (hr : D.rely t s s') :
    Safe exec D t post (.call c next) s' :=
  fun s1 h1 => h s1 (D.rely_trans t hr h1)

variable {p : Program I α}

theorem Safe.rely (hp : ∀ a s s', post a s → D.rely t s s' → post a s') {s' : S}
    (h : Safe exec D t post p s) (hr : D.rely t s s') : Safe exec D t post p s' := by
  cases p with
  | done a => exact hp a s s' h hr
  | call c next => exact h.rely_call hr

theorem Safe.mono {post' : α → S → Prop} (hp : ∀ a s, post a s → post' a s)
    (h : Safe exec D t post p s) : Safe exec D t post' p s := by
  induction p generalizing s with
  | done a => exact hp a s h
  | call c next ih =>
    intro s1 hr hi x s2 hx
    obtain ⟨ha, hs⟩ := h s1 hr hi x s2 hx
    exact ⟨ha, ih x hs⟩

theorem Safe.bind {post : β → S → Prop} {f : α → Program I β}
    (h : Safe exec D t (fun a s' => Safe exec D t post (f a) s') p s) :
    Safe exec D t post (p >>= f) s := by
  induction p generalizing s with
  | done a => exact h
  | call c next ih =>
    intro s1 hr hi x s2 hx
    obtain ⟨ha, hs⟩ := h s1 hr hi x s2 hx
    exact ⟨ha, ih x hs⟩

variable {R : S → Prop}

theorem Safe.and_stable (ho : ∀ s s', R s → D.evolves s s' → R s')
    (hrl : ∀ s s', R s → D.rely t s s' → R s') (h : Safe exec D t post p s) (hs : R s) :
    Safe exec D t (fun a s' => post a s' ∧ R s') p s := by
  induction p generalizing s with
  | done a => exact ⟨h, hs⟩
  | call c next ih =>
    intro s1 hr hi x s2 hx
    obtain ⟨ha, hn⟩ := h s1 hr hi x s2 hx
    exact ⟨ha, ih x hn (ho s1 s2 (hrl s s1 hs hr) ha.evolves)⟩

variable {P : I.Call → Prop}

/-- A program is safe when each call it may make keeps the discipline and a fact that the
others respect; the fact holds still at its end. -/
theorem safe_of_only_keeping
    (hP : ∀ c s x s', P c → D.inv s → R s → exec t c s x s' → Allowed D t s s' ∧ R s')
    (hrl : ∀ s s', R s → D.rely t s s' → R s') (hp : p.Only P) (hs : R s) :
    Safe exec D t (fun _ => R) p s := by
  induction p generalizing s with
  | done a => exact hs
  | call c next ih =>
    intro s1 hr hi x s2 hx
    obtain ⟨ha, hs2⟩ := hP c s1 x s2 hp.1 hi (hrl s s1 hs hr) hx
    exact ⟨ha, ih x (hp.2 x) hs2⟩

/-- A program is safe when each call it may make keeps the discipline, given a fact that
every step respects; the fact holds still at its end. -/
theorem safe_of_only (hP : ∀ c s x s', P c → D.inv s → R s → exec t c s x s' → Allowed D t s s')
    (ho : ∀ s s', R s → D.evolves s s' → R s') (hr : ∀ s s', R s → D.rely t s s' → R s')
    (hp : p.Only P) (hs : R s) : Safe exec D t (fun _ => R) p s := by
  refine safe_of_only_keeping (fun c s x s' hc hi hR hx => ?_) hr hp hs
  have ha := hP c s x s' hc hi hR hx
  exact ⟨ha, ho s s' hR ha.evolves⟩

end Safe

namespace System

variable {I : Interface} {S τ α : Type} [DecidableEq τ]

/-- Every thread starts safe, the surroundings keep the discipline, and what threads
leave at their end stays true. -/
structure Respects (M : System I S τ α) (D : Discipline S τ) (post : τ → α → S → Prop) : Prop where
  starts : ∀ {t p s}, M.starts t p → D.inv s → Safe M.exec D t (post t) p s
  lasts : ∀ t a s s', post t a s → D.rely t s s' → post t a s'
  env : ∀ {s s'}, D.inv s → M.env s s' → D.inv s' ∧ D.evolves s s' ∧ ∀ t, D.rely t s s'
  restart : ∀ {s s'}, D.inv s → M.restart s s' → D.inv s' ∧ D.evolves s s'

structure Good (M : System I S τ α) (D : Discipline S τ) (post : τ → α → S → Prop)
    (c : Config I S τ α) : Prop where
  inv : D.inv c.shared
  safe : ∀ t p, c.threads t = some p → Safe M.exec D t (post t) p c.shared

variable {M : System I S τ α} {D : Discipline S τ} {post : τ → α → S → Prop}

omit [DecidableEq τ] in
theorem good_idle {s : S}
    (h : D.inv s) : M.Good D post (Config.idle s) := ⟨h, fun _ _ hp => nomatch hp⟩

private theorem forall_update {ts : τ → Option (Program I α)} {t : τ} {o : Option (Program I α)}
    {P : τ → Program I α → Prop} (ho : ∀ p, o = some p → P t p)
    (hts : ∀ u q, u ≠ t → ts u = some q → P u q) :
    ∀ u q, Function.update ts t o u = some q → P u q := by
  intro u q hq
  by_cases hu : u = t
  · subst hu
    rw [Function.update_self] at hq
    exact ho q hq
  · rw [Function.update_of_ne hu] at hq
    exact hts u q hu hq

/-- A step keeps every thread safe and the invariant true. -/
theorem step_good (hM : M.Respects D post) {c c' : Config I S τ α} (hc : M.Good D post c)
    (hs : M.Step c c') : M.Good D post c' ∧ D.evolves c.shared c'.shared := by
  obtain ⟨hin, hsf⟩ := hc
  cases hs with
  | @start s ts t p ht hp =>
    refine ⟨⟨hin, forall_update ?_ fun u q _ => hsf u q⟩, D.evolves_refl s⟩
    rintro _ ⟨⟩
    exact hM.starts hp hin
  | @run s s' ts t c next x ht hx =>
    obtain ⟨ha, hn⟩ := hsf t _ ht s (D.rely_refl t s) hin x s' hx
    refine ⟨⟨ha.inv, forall_update ?_ fun u q hu hq => ?_⟩, ha.evolves⟩
    · rintro _ ⟨⟩
      exact hn
    · exact (hsf u q hq).rely (hM.lasts u) (ha.rely u hu)
  | @stop s ts t =>
    exact ⟨⟨hin, forall_update (fun _ h => nomatch h) fun u q _ => hsf u q⟩, D.evolves_refl s⟩
  | @env s s' ts he =>
    obtain ⟨hi, hev, hr⟩ := hM.env hin he
    exact ⟨⟨hi, fun u q hq => (hsf u q hq).rely (hM.lasts u) (hr u)⟩, hev⟩
  | @restart s s' ts he =>
    obtain ⟨hi, hev⟩ := hM.restart hin he
    exact ⟨⟨hi, fun _ _ hq => nomatch hq⟩, hev⟩

/-- Every interleaving keeps the invariant, and its states evolve as the
discipline says. -/
theorem reachable_good (hM : M.Respects D post) {c c' : Config I S τ α} (hc : M.Good D post c)
    (hs : M.Steps c c') : M.Good D post c' ∧ D.evolves c.shared c'.shared := by
  induction hs with
  | refl => exact ⟨hc, D.evolves_refl _⟩
  | tail _ hst ih =>
    obtain ⟨hg, hev⟩ := step_good hM ih.1 hst
    exact ⟨hg, D.evolves_trans ih.2 hev⟩

end System
end Interleave
