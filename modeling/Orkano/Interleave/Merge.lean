import Mathlib.Data.List.Basic
import Mathlib.Logic.Function.Basic
import Mathlib.Order.Monotone.Basic

/-!
Lists that are merged from several others, each of which keeps its order, and runs that come
to an end because a measure goes down again and again.
-/
namespace Interleave

section Merges

variable {ι α β : Type} [DecidableEq ι]

inductive Merges : (ι → List α) → List α → Prop
  | nil : Merges (fun _ => []) []
  | snoc {parts : ι → List α} {l : List α} (h : Merges parts l) (i : ι) (a : α) :
      Merges (Function.update parts i (parts i ++ [a])) (l ++ [a])

variable {parts : ι → List α} {l : List α}

theorem Merges.append (h : Merges parts l) (i : ι) (o : Option α) :
    Merges (Function.update parts i (parts i ++ o.toList)) (l ++ o.toList) := by
  cases o with
  | none => simpa using h
  | some a => exact h.snoc i a

/-- Where each element tells its part, the parts can be read off. -/
theorem Merges.filter_eq [DecidableEq β] (h : Merges parts l) (owner : α → β) {name : ι → β}
    (hn : Function.Injective name) (ho : ∀ i, ∀ a ∈ parts i, owner a = name i) (i : ι) :
    l.filter (fun a => owner a = name i) = parts i := by
  induction h with
  | nil => rfl
  | @snoc parts l h j a ih =>
    have hkp : ∀ k, ∀ b ∈ parts k, owner b = name k := by
      intro k b hb
      apply ho k b
      by_cases hk : k = j
      · subst hk
        rw [Function.update_self]
        exact List.mem_append_left [a] hb
      · rwa [Function.update_of_ne hk]
    have ha : owner a = name j := by
      apply ho j a
      rw [Function.update_self]
      exact List.mem_append_right _ (List.mem_singleton_self a)
    rw [List.filter_append, ih hkp]
    by_cases hi : i = j
    · subst hi
      simp [ha]
    · have hne : name j ≠ name i := fun heq => hi (hn heq).symm
      simp [Function.update_of_ne hi, ha, hne]

end Merges

section Measure

variable {S : Type} {path : ℕ → S} {rest : S → Prop}

/-- A path on which a measure never rises, and falls again and again until the path comes to
rest, does come to rest. -/
theorem exists_rest (measure : S → ℕ) (hle : ∀ k, measure (path (k + 1)) ≤ measure (path k))
    (hf : ∀ k, ∃ m ≥ k, rest (path m) ∨ measure (path (m + 1)) < measure (path m)) :
    ∃ k, rest (path k) := by
  have hmn : Antitone fun k => measure (path k) := antitone_nat_of_succ_le hle
  suffices h : ∀ n k, measure (path k) = n → ∃ k, rest (path k) from h _ 0 rfl
  intro n
  induction n using Nat.strongRecOn with
  | ind n ih =>
    intro k hk
    obtain ⟨m, hm, hr | hlt⟩ := hf k
    · exact ⟨m, hr⟩
    have hb : measure (path (m + 1)) < n := by
      rw [← hk]
      exact hlt.trans_le (hmn hm)
    exact ih _ hb (m + 1) rfl

end Measure

end Interleave
