import Orkano.Interleave.RelyGuarantee

/-!
History variables: a note beside the state of a system, or a log of the calls that were
answered. They change nothing that can happen.
-/
namespace Interleave

open Relation

variable {I : Interface} {S H τ α : Type}

def System.noting (M : System I S τ α) (note : S → H → H) : System I (S × H) τ α where
  exec t c s x s' := M.exec t c s.1 x s'.1 ∧ s'.2 = note s'.1 s.2
  env s s' := M.env s.1 s'.1 ∧ s'.2 = note s'.1 s.2
  restart s s' := M.restart s.1 s'.1 ∧ s'.2 = note s'.1 s.2
  starts := M.starts

/-- The system with a log of its answered calls beside its state. -/
def System.logging (M : System I S τ α) (log : τ → (c : I.Call) → I.Reply c → H → H) :
    System I (S × H) τ α where
  exec t c s x s' := M.exec t c s.1 x s'.1 ∧ s'.2 = log t c x s.2
  env s s' := M.env s.1 s'.1 ∧ s'.2 = s.2
  restart s s' := M.restart s.1 s'.1 ∧ s'.2 = s.2
  starts := M.starts

def Config.withNote (c : Config I S τ α) (h : H) : Config I (S × H) τ α :=
  ⟨(c.shared, h), c.threads⟩

variable [DecidableEq τ] {M : System I S τ α} {note : S → H → H} {c c' : Config I S τ α}

theorem System.Step.noted (hs : M.Step c c') (h : H) :
    ∃ h', (M.noting note).Step (c.withNote h) (c'.withNote h') := by
  cases hs with
  | start hf hp => exact ⟨h, .start hf hp⟩
  | @run _ s' _ _ _ _ _ hc hx => exact ⟨note s' h, .run hc ⟨hx, rfl⟩⟩
  | stop t => exact ⟨h, .stop t⟩
  | @env _ s' _ he => exact ⟨note s' h, .env ⟨he, rfl⟩⟩
  | @restart _ s' _ he => exact ⟨note s' h, .restart ⟨he, rfl⟩⟩

theorem System.Steps.noted (hs : M.Steps c c') (h : H) :
    ∃ h', (M.noting note).Steps (c.withNote h) (c'.withNote h') := by
  induction hs with
  | refl => exact ⟨h, .refl⟩
  | tail _ hsp ih =>
    obtain ⟨h1, hst⟩ := ih
    obtain ⟨h2, hl⟩ := hsp.noted h1
    exact ⟨h2, hst.tail hl⟩

end Interleave
