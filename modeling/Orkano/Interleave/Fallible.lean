import Orkano.Interleave.RelyGuarantee

/-!
Programs that may stop with an error, the runs in which they do not, and what such
programs keep among other threads.
-/

namespace Interleave.Program

variable {I : Interface} {S α β ε : Type} {exec : (c : I.Call) → S → I.Reply c → S → Prop}

/-- A complete run of a fallible program that ends without an error. -/
def Succeeds (exec : (c : I.Call) → S → I.Reply c → S → Prop) (p : ExceptT ε (Program I) α)
    (s : S) (a : α) (s' : S) : Prop :=
  Runs exec p.run s (.ok a) s'

@[simp] theorem succeeds_pure {a b : α} {s s' : S} :
    Succeeds exec (pure b : ExceptT ε (Program I) α) s a s' ↔ a = b ∧ s' = s := by
  simp only [Succeeds, ExceptT.run_pure]
  constructor
  · intro h
    obtain ⟨hab, hs⟩ := runs_done.mp h
    exact ⟨Except.ok.inj hab, hs⟩
  · rintro ⟨rfl, rfl⟩
    exact .done

@[simp] theorem succeeds_throw {e : ε} {a : α} {s s' : S} :
    ¬ Succeeds exec (throw e : ExceptT ε (Program I) α) s a s' := by
  intro h
  obtain ⟨hab, -⟩ := runs_done.mp h
  cases hab

@[simp] theorem succeeds_bind {p : ExceptT ε (Program I) α} {f : α → ExceptT ε (Program I) β}
    {b : β} {s s' : S} : Succeeds exec (p >>= f) s b s' ↔
      ∃ a s1, Succeeds exec p s a s1 ∧ Succeeds exec (f a) s1 b s' := by
  simp only [Succeeds, ExceptT.run_bind, runs_bind]
  constructor
  · rintro ⟨r, s1, hp, hf⟩
    cases r with
    | error e =>
      obtain ⟨hab, -⟩ := runs_done.mp hf
      cases hab
    | ok a => exact ⟨a, s1, hp, hf⟩
  · rintro ⟨a, s1, hp, hf⟩
    exact ⟨.ok a, s1, hp, hf⟩

@[simp] theorem succeeds_perform {c : I.Call} {x : I.Reply c} {s s' : S} :
    Succeeds exec (ExceptT.lift (perform c) : ExceptT ε (Program I) (I.Reply c)) s x s' ↔
      exec c s x s' := by
  simp only [Succeeds, ExceptT.run_lift]
  constructor
  · intro h
    obtain ⟨y, s1, hy, hd⟩ := runs_call.mp h
    obtain ⟨hab, rfl⟩ := runs_done.mp hd
    cases hab
    exact hy
  · intro h
    exact .call h .done

end Interleave.Program

namespace Interleave

open Program

variable {I : Interface} {S τ α β ε δ : Type}
variable {exec : τ → (c : I.Call) → S → I.Reply c → S → Prop} {D : Discipline S τ} {t : τ}

/-- A fallible program keeps the discipline, and `post` holds at its end unless it is an
error. -/
def SafeOk (exec : τ → (c : I.Call) → S → I.Reply c → S → Prop) (D : Discipline S τ) (t : τ)
    (post : α → S → Prop) (p : ExceptT ε (Program I) α) (s : S) : Prop :=
  Safe exec D t (fun r s' => ∀ a, r = .ok a → post a s') p.run s

namespace SafeOk

variable {post : β → S → Prop} {mid : α → S → Prop} {s : S}

protected theorem pure {b : β} (h : post b s) :
    SafeOk exec D t post (pure b : ExceptT ε (Program I) β) s := by
  intro b' heq
  cases heq
  exact h

protected theorem throw (e : ε) : SafeOk exec D t post (throw e : ExceptT ε (Program I) β) s := by
  intro b heq
  cases heq

protected theorem bind {p : ExceptT ε (Program I) α} {f : α → ExceptT ε (Program I) β}
    (hp : SafeOk exec D t mid p s) (hf : ∀ a s', mid a s' → SafeOk exec D t post (f a) s') :
    SafeOk exec D t post (p >>= f) s := by
  apply Safe.bind
  apply Safe.mono _ hp
  intro r s' hr
  cases r with
  | error e => exact SafeOk.throw e
  | ok a => exact hf a s' (hr a rfl)

protected theorem adapt {p : ExceptT ε (Program I) β} (f : ε → δ) (hp : SafeOk exec D t post p s) :
    SafeOk exec D t post (ExceptT.adapt f p) s := by
  apply Safe.bind
  apply Safe.mono _ hp
  intro r s' hr
  cases r with
  | error e => exact SafeOk.throw (f e)
  | ok b => exact SafeOk.pure (hr b rfl)

end SafeOk

end Interleave
