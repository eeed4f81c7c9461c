import Orkano.Interleave.RelyGuarantee

/-!
Contracts on calls. A program meets a contract when its calls satisfy their preconditions as
long as the answers so far satisfied theirs; a discipline that such calls keep is one under
which the program is safe.
-/
namespace Interleave

structure Contract (I : Interface) (H : Type) where
  pre : I.Call → H → Prop
  reply : (c : I.Call) → I.Reply c → Prop
  log : (c : I.Call) → I.Reply c → H → H

namespace Program

variable {I : Interface} {H α β : Type} {K : Contract I H} {h : H}

/-- Every call keeps the contract, and `post` holds of the result and the notes. -/
def Meets (K : Contract I H) (post : α → H → Prop) : Program I α → H → Prop
  | done a, h => post a h
  | call c next, h => K.pre c h ∧ ∀ x, K.reply c x → (next x).Meets K post (K.log c x h)

variable {post : α → H → Prop}

@[simp] theorem meets_done {a : α} :
    (done a : Program I α).Meets K post h ↔ post a h := Iff.rfl

@[simp] theorem meets_call {c : I.Call} {next : I.Reply c → Program I α} :
    (call c next).Meets K post h ↔
      K.pre c h ∧ ∀ x, K.reply c x → (next x).Meets K post (K.log c x h) := Iff.rfl

theorem Meets.bind {post' : β → H → Prop} {p : Program I α} {f : α → Program I β}
    (hp : p.Meets K post h) (hf : ∀ a h', post a h' → (f a).Meets K post' h') :
    (p >>= f).Meets K post' h := by
  induction p generalizing h with
  | done a => exact hf a h hp
  | call c next ih => exact ⟨hp.1, fun x hx => ih x (hp.2 x hx)⟩

end Program

/-- A program is safe when it meets a contract whose calls keep the discipline and a fact
about the notes that the others respect, and whose answers are as the contract has them. -/
theorem safe_of_meets {I : Interface} {S H τ α : Type}
    {exec : τ → (c : I.Call) → S → I.Reply c → S → Prop} {D : Discipline S τ} {t : τ}
    {K : Contract I H} {R : H → S → Prop}
    (hK : ∀ c h s x s', K.pre c h → D.inv s → R h s → exec t c s x s' →
      Allowed D t s s' ∧ R (K.log c x h) s' ∧ K.reply c x)
    (hrl : ∀ h s s', R h s → D.rely t s s' → R h s') {post : α → H → Prop} {p : Program I α}
    {h : H} (hp : p.Meets K post h) {s : S} (hs : R h s) :
    Safe exec D t (fun a s' => ∃ h', post a h' ∧ R h' s') p s := by
  induction p generalizing h s with
  | done a => exact ⟨h, hp, hs⟩
  | call c next ih =>
    intro s1 hr hi x s2 hx
    obtain ⟨ha, hs2, hrp⟩ := hK c h s1 x s2 hp.1 hi (hrl h s s1 hs hr) hx
    exact ⟨ha, ih x (hp.2 x hrp) hs2⟩

end Interleave
