import Orkano.Interleave.RelyGuarantee

/-!
Programs over two interfaces, run side by side. A program over one of them is a program
over both, and is safe there exactly if it is safe alone.
-/
namespace Interleave

@[reducible] def Interface.sum (I J : Interface) : Interface where
  Call := I.Call ⊕ J.Call
  Reply
    | .inl c => I.Reply c
    | .inr c => J.Reply c

variable {I J : Interface} {S τ α : Type}

namespace Program

def inl : Program I α → Program (I.sum J) α
  | done a => done a
  | call c next => @call (I.sum J) α (.inl c) fun x => (next x).inl

def inr : Program J α → Program (I.sum J) α
  | done a => done a
  | call c next => @call (I.sum J) α (.inr c) fun x => (next x).inr

def forget (p : Program I α) : Program I Unit := p >>= fun _ => done ()

end Program

open Program

variable {exec : τ → (c : (I.sum J).Call) → S → (I.sum J).Reply c → S → Prop}
variable {D : Discipline S τ} {t : τ} {post : α → S → Prop} {s s' : S}
variable {p : Program I α}

theorem safe_inl :
    Safe exec D t post (p.inl : Program (I.sum J) α) s ↔
      Safe (fun t c s x s' => exec t (.inl c) s x s') D t post p s := by
  induction p generalizing s with
  | done a => exact Iff.rfl
  | call c next ih =>
    constructor <;>
    · intro h s1 hr hi x s2 hx
      obtain ⟨ha, hn⟩ := h s1 hr hi x s2 hx
      exact ⟨ha, by simpa only [ih x] using hn⟩

theorem safe_inr {p : Program J α} :
    Safe exec D t post (p.inr : Program (I.sum J) α) s ↔
      Safe (fun t c s x s' => exec t (.inr c) s x s') D t post p s := by
  induction p generalizing s with
  | done a => exact Iff.rfl
  | call c next ih =>
    constructor <;>
    · intro h s1 hr hi x s2 hx
      obtain ⟨ha, hn⟩ := h s1 hr hi x s2 hx
      exact ⟨ha, by simpa only [ih x] using hn⟩

variable {step : (c : (I.sum J).Call) → S → (I.sum J).Reply c → S → Prop} {a : α}

theorem runs_inl (h : Runs (fun c s x s' => step (.inl c) s x s') p s a s') :
    Runs step (p.inl : Program (I.sum J) α) s a s' := by
  induction h with
  | done => exact .done
  | call hx _ ih => exact .call hx ih

theorem runs_inr {p : Program J α} (h : Runs (fun c s x s' => step (.inr c) s x s') p s a s') :
    Runs step (p.inr : Program (I.sum J) α) s a s' := by
  induction h with
  | done => exact .done
  | call hx _ ih => exact .call hx ih

theorem safe_forget {step : τ → (c : I.Call) → S → I.Reply c → S → Prop}
    (h : Safe step D t (fun _ _ => True) p s) : Safe step D t (fun _ _ => True) p.forget s :=
  Safe.bind (h.mono fun _ _ _ => trivial)

theorem runs_forget {step : (c : I.Call) → S → I.Reply c → S → Prop} (h : Runs step p s a s') :
    Runs step p.forget s () s' :=
  runs_bind.mpr ⟨a, s', h, .done⟩

end Interleave
