import Mathlib.Data.List.Infix

/-!
One object of a server with optimistic concurrency. No version is made twice, so what was read
at the current version is what is there.
-/
namespace Interleave

/-- The states of the object, newest first; `none` where it did not exist. -/
structure Versioned (α : Type) where
  log : List (Option α)
deriving DecidableEq

namespace Versioned

variable {α : Type} {v v' v'' : Versioned α} {n : ℕ} {a : α}

def version (v : Versioned α) : ℕ := v.log.length

def current (v : Versioned α) : Option α := v.log.head?.join

def get (v : Versioned α) : Option (ℕ × α) := v.current.map fun a => (v.version, a)

def write (v : Versioned α) (o : Option α) : Versioned α := ⟨o :: v.log⟩

/-- Replace the object, if the version is the current one. -/
def update (v : Versioned α) (n : ℕ) (a : α) : Option (Versioned α) :=
  if v.current.isSome ∧ v.version = n then some (v.write (some a)) else none

theorem get_eq_some : v.get = some (n, a) ↔ v.current = some a ∧ v.version = n := by
  simp [get, and_comm]

theorem update_eq_some :
    v.update n a = some v' ↔ v.current.isSome ∧ v.version = n ∧ v' = v.write (some a) := by
  unfold update
  split
  · rename_i h
    simp [h, eq_comm]
  rename_i h
  constructor
  · exact nofun
  · exact fun h' => absurd ⟨h'.1, h'.2.1⟩ h

/-- The second state is the first with some writes on top. -/
def Later (v v' : Versioned α) : Prop := v.log <:+ v'.log

theorem Later.refl (v : Versioned α) : Later v v := List.suffix_refl _

theorem Later.trans (h : Later v v') (h' : Later v' v'') : Later v v'' := List.IsSuffix.trans h h'

theorem later_write (v : Versioned α) (o : Option α) : Later v (v.write o) := List.suffix_cons _ _

theorem Later.eq_of_version (h : Later v v') (hv : v'.version = v.version) : v = v' := by
  have hl : v.log = v'.log := List.IsSuffix.eq_of_length h hv.symm
  cases v
  cases v'
  exact congrArg Versioned.mk hl

theorem Later.eq_of_get (h : Later v v') (hg : v.get = some (n, a)) (hv : v'.version = n) :
    v = v' ∧ v'.current = some a := by
  obtain ⟨hc, hvr⟩ := get_eq_some.mp hg
  obtain rfl := h.eq_of_version (hv.trans hvr.symm)
  exact ⟨rfl, hc⟩

end Versioned

end Interleave
