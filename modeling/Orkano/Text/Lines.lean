import Mathlib.Data.List.DropRight
import Mathlib.Data.Nat.Notation

/-!
Lists that are cut into pieces: at every occurrence of a separator, as a text is cut
into its lines, or into groups of one length.
-/
namespace Text

open List

variable {α : Type}

section Separated

variable [DecidableEq α] {x : α} {xs l : List α}

theorem notMem_of_mem_splitOn (h : l ∈ xs.splitOn x) : x ∉ l := by
  induction xs generalizing l with
  | nil =>
    rw [splitOn_nil, mem_singleton] at h
    rw [h]
    exact not_mem_nil
  | cons a xs ih =>
    rw [splitOn_cons_eq_if_modifyHead] at h
    split at h
    · rcases mem_cons.mp h with rfl | h
      · exact not_mem_nil
      · exact ih h
    rename_i ha
    cases hs : xs.splitOn x with
    | nil => simp [hs] at h
    | cons s rest =>
      rw [hs] at h ih
      rcases mem_cons.mp h with rfl | h
      · rw [mem_cons, not_or]
        exact ⟨fun heq => ha (by simp [heq]), ih mem_cons_self⟩
      · exact ih (mem_cons_of_mem s h)

theorem append_cons_inj_of_notMem {ys zs : List α} (h : xs ++ x :: l = ys ++ x :: zs) (hl : x ∉ l)
    (hzs : x ∉ zs) : xs = ys ∧ l = zs := by
  have hp : xs.splitOn x ++ [l] = ys.splitOn x ++ [zs] := by
    rw [← splitOn_eq_singleton hl, ← splitOn_eq_singleton hzs, ← splitOn_append_cons_self,
      ← splitOn_append_cons_self, h]
  obtain ⟨hf, hls⟩ := append_inj' hp rfl
  constructor
  · rw [← @intercalate_splitOn _ xs _ _ x, hf, intercalate_splitOn]
  · simpa using hls

/-- The pieces put together with the separator are the pieces again, but no pieces
at all make one empty piece. -/
theorem mem_splitOn_intercalate {ls : List (List α)} (hls : ∀ m ∈ ls, x ∉ m)
    (h : l ∈ ([x].intercalate ls).splitOn x) : l ∈ ls ∨ l = [] := by
  cases ls with
  | nil => exact .inr (by simpa using h)
  | cons m ls =>
    rw [splitOn_intercalate x hls (by simp)] at h
    exact .inl h

theorem splitOn_eq_trimmed (x : α) (xs : List α) :
    ∃ k, xs.splitOn x = (xs.rdropWhile (· = x)).splitOn x ++ List.replicate k [] := by
  induction xs using List.reverseRecOn with
  | nil => exact ⟨0, by simp⟩
  | append_singleton xs a ih =>
    by_cases ha : a = x
    · obtain ⟨k, hk⟩ := ih
      refine ⟨k + 1, ?_⟩
      rw [rdropWhile_concat_pos _ _ _ (by simpa using ha), ha, splitOn_append_cons_self,
        splitOn_nil, hk, replicate_succ', append_assoc]
    refine ⟨0, ?_⟩
    rw [rdropWhile_concat_neg _ _ _ (by simpa using ha), replicate_zero,
      append_nil]

omit [DecidableEq α] in
theorem rdropWhile_append_replicate (ls : List (List α)) (k : ℕ) :
    (ls ++ List.replicate k []).rdropWhile (· = []) = ls.rdropWhile (· = []) := by
  induction k with
  | zero => simp
  | succ k ih =>
    rw [replicate_succ', ← append_assoc, rdropWhile_concat_pos _ _ _ (by simp), ih]

end Separated

section Search

variable [DecidableEq α] {needle text : List α} {n : ℕ}

def indexOf (needle : List α) : List α → Option ℕ
  | [] => if needle = [] then some 0 else none
  | c :: text => if needle <+: c :: text then some 0 else (indexOf needle text).map (· + 1)

theorem length_le_of_indexOf (h : indexOf needle text = some n) : n + needle.length ≤ text.length := by
  induction text generalizing n with
  | nil =>
    rw [indexOf] at h
    split at h
    · rename_i he
      cases h
      simp [he]
    · cases h
  | cons c text ih =>
    rw [indexOf] at h
    split at h
    · rename_i hp
      cases h
      simpa using hp.length_le
    obtain ⟨m, hm, rfl⟩ := Option.map_eq_some_iff.mp h
    have hle := ih hm
    rw [length_cons]
    omega

/-- The first occurrence stays where it is when text is appended. -/
theorem indexOf_append (h : indexOf needle text = some n) (more : List α) :
    indexOf needle (text ++ more) = some n := by
  induction text generalizing n with
  | nil =>
    rw [indexOf] at h
    split at h
    · rename_i he
      cases h
      subst he
      cases more <;> simp [indexOf]
    · cases h
  | cons c text ih =>
    have hlg := length_le_of_indexOf h
    rw [indexOf] at h
    rw [cons_append, indexOf]
    split at h
    · rename_i hp
      cases h
      exact if_pos (hp.trans (prefix_append (c :: text) more))
    rename_i hp
    obtain ⟨m, hm, rfl⟩ := Option.map_eq_some_iff.mp h
    have hl : ¬ needle <+: c :: (text ++ more) := by
      intro hln
      exact hp (prefix_of_prefix_length_le hln (prefix_append (c :: text) more)
        (by omega))
    rw [if_neg hl, ih hm]
    rfl

theorem indexOf_append_of_notMem {c : α} {front : List α} (h : c ∉ front) (rest : List α) :
    indexOf (c :: needle) (front ++ rest) =
      (indexOf (c :: needle) rest).map (· + front.length) := by
  induction front with
  | nil => simp
  | cons a front ih =>
    rw [mem_cons, not_or] at h
    have hh : ¬ c :: needle <+: a :: (front ++ rest) := by
      rw [cons_prefix_cons]
      exact fun heq => h.1 heq.1
    rw [cons_append, indexOf, if_neg hh, ih h.2, Option.map_map]
    congr 1

end Search

theorem flatten_groups (l : List α) (k n : ℕ) :
    ((List.range n).map fun g => (l.drop (g * k)).take k).flatten = l.take (n * k) := by
  induction n with
  | zero => simp
  | succ n ih =>
    rw [range_succ, map_append, flatten_append, ih, Nat.succ_mul, take_add]
    simp

end Text
