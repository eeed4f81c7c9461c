import Mathlib.Tactic.Common
import Orkano.Text.Lines
import Orkano.Text.Runes

/-!
Slash-separated paths as bytes, cleaned and joined by their text alone as `path` and, on Unix,
`path/filepath` do it.
-/
namespace Text

open List

section Cleaning

/-- The names that a path is made of, empty ones included. -/
def pathNames (path : Bytes) : List Bytes := path.splitOn 0x2f

def isRooted (path : Bytes) : Bool := path.head? = some 0x2f

/-- One more name, with the names that are kept so far, last one first. -/
def cleanName (rooted : Bool) (kept : List Bytes) (name : Bytes) : List Bytes :=
  if name = [] ∨ name = bytes "." then kept
  else if name = bytes ".." then
    match kept with
    | [] => if rooted then [] else [bytes ".."]
    | last :: rest => if last = bytes ".." then bytes ".." :: kept else rest
  else name :: kept

def cleanedNames (path : Bytes) : List Bytes :=
  ((pathNames path).foldl (cleanName (isRooted path)) []).reverse

def joinNames (names : List Bytes) : Bytes := [0x2f].intercalate names

/-- `path.Clean`. -/
def cleanPath (path : Bytes) : Bytes :=
  let out := (if isRooted path then bytes "/" else []) ++ joinNames (cleanedNames path)
  if out = [] then bytes "." else out

/-- `filepath.Join` of two paths; empty ones are left out. -/
def joinPath (front back : Bytes) : Bytes :=
  if front ≠ [] then cleanPath (front ++ 0x2f :: back)
  else if back ≠ [] then cleanPath back
  else []

structure ProperName (name : Bytes) : Prop where
  ne_nil : name ≠ []
  ne_dot : name ≠ bytes "."
  ne_dots : name ≠ bytes ".."
  slash : 0x2f ∉ name

variable {name : Bytes}

theorem cleanName_proper (rooted : Bool) (kept : List Bytes) (h : ProperName name) :
    cleanName rooted kept name = name :: kept := by
  unfold cleanName
  rw [if_neg (not_or.mpr ⟨h.ne_nil, h.ne_dot⟩), if_neg h.ne_dots]

variable {names : List Bytes}

theorem foldl_cleanName_proper (rooted : Bool) (kept : List Bytes) (h : ∀ n ∈ names, ProperName n) :
    names.foldl (cleanName rooted) kept = names.reverse ++ kept := by
  induction names generalizing kept with
  | nil => rfl
  | cons n names ih =>
    rw [foldl_cons, cleanName_proper rooted kept (h n mem_cons_self),
      ih _ fun m hm => h m (mem_cons_of_mem n hm)]
    simp

/-- Names that are clean: parents first, as many as could not be gone back from, and then
proper names. Names are kept last one first. -/
def Cleaned (rooted : Bool) (kept : List Bytes) : Prop :=
  ∃ proper k, kept = proper ++ List.replicate k (bytes "..") ∧ (∀ n ∈ proper, ProperName n) ∧
    (rooted = true → k = 0)

variable {rooted : Bool} {kept : List Bytes}

/-- Each name keeps the names clean: parents first, then proper ones. -/
theorem cleaned_cleanName (h : Cleaned rooted kept) (hnm : 0x2f ∉ name) :
    Cleaned rooted (cleanName rooted kept name) := by
  obtain ⟨proper, k, rfl, hp, hr⟩ := h
  unfold cleanName
  split
  · exact ⟨proper, k, rfl, hp, hr⟩
  rename_i hpl
  rw [not_or] at hpl
  split
  · cases proper with
    | nil =>
      cases k with
      | zero =>
        cases rooted with
        | true => exact ⟨[], 0, rfl, nofun, fun _ => rfl⟩
        | false => exact ⟨[], 1, rfl, nofun, nofun⟩
      | succ k =>
        cases rooted with
        | true => cases hr rfl
        | false => exact ⟨[], k + 2, by simp [replicate_succ], nofun, nofun⟩
    | cons n proper =>
      have hn := hp n mem_cons_self
      refine ⟨proper, k, by simp [hn.ne_dots], fun m hm => ?_, hr⟩
      exact hp m (mem_cons_of_mem n hm)
  · rename_i hd
    refine ⟨name :: proper, k, rfl, fun m hm => ?_, hr⟩
    rcases mem_cons.mp hm with rfl | hm
    · exact ⟨hpl.1, hpl.2, hd, hnm⟩
    · exact hp m hm

theorem cleaned_foldl (h : Cleaned rooted kept) (hn : ∀ n ∈ names, 0x2f ∉ n) :
    Cleaned rooted (names.foldl (cleanName rooted) kept) := by
  induction names generalizing kept with
  | nil => exact h
  | cons n names ih =>
    apply ih
    · exact cleaned_cleanName h (hn n mem_cons_self)
    · exact fun m hm => hn m (mem_cons_of_mem n hm)

theorem cleanedNames_eq (path : Bytes) : ∃ k proper,
    cleanedNames path = List.replicate k (bytes "..") ++ proper ∧ (∀ n ∈ proper, ProperName n) ∧
      (isRooted path = true → k = 0) := by
  have hc : Cleaned (isRooted path) ((pathNames path).foldl (cleanName (isRooted path)) []) :=
    cleaned_foldl ⟨[], 0, rfl, nofun, fun _ => rfl⟩ fun n => notMem_of_mem_splitOn
  obtain ⟨proper, k, hk, hp, hr⟩ := hc
  refine ⟨k, proper.reverse, ?_, by simpa using hp, hr⟩
  rw [cleanedNames, hk]
  simp

theorem name_of_mem_cleanedNames {path : Bytes} (h : name ∈ cleanedNames path) :
    name ≠ [] ∧ name ≠ bytes "." ∧ 0x2f ∉ name := by
  obtain ⟨k, proper, hnm, hp, -⟩ := cleanedNames_eq path
  rw [hnm, mem_append] at h
  rcases h with h | h
  · rw [eq_of_mem_replicate h]
    decide
  · have hn := hp name h
    exact ⟨hn.ne_nil, hn.ne_dot, hn.slash⟩

/-- Every name of a cleaned path but the parents is one of the path. -/
theorem mem_pathNames_of_mem_cleanedNames {path : Bytes} (h : name ∈ cleanedNames path) :
    name ∈ pathNames path ∨ name = bytes ".." := by
  have hf : ∀ {names kept : List Bytes}, name ∈ names.foldl (cleanName (isRooted path)) kept →
      name ∈ kept ∨ name ∈ names ∨ name = bytes ".." := by
    intro names
    induction names with
    | nil => exact .inl
    | cons n names ih =>
      intro kept hm
      rcases ih hm with hk | hn | hd
      · unfold cleanName at hk
        split at hk
        · exact .inl hk
        split at hk
        · split at hk
          · split at hk
            · cases hk
            · exact .inr (.inr (mem_singleton.mp hk))
          split at hk
          · rcases mem_cons.mp hk with hd | hk
            · exact .inr (.inr hd)
            · exact .inl hk
          · exact .inl (mem_cons_of_mem _ hk)
        · rcases mem_cons.mp hk with rfl | hk
          · exact .inr (.inl mem_cons_self)
          · exact .inl hk
      · exact .inr (.inl (mem_cons_of_mem n hn))
      · exact .inr (.inr hd)
  rcases hf (mem_reverse.mp h) with hnl | hr
  · cases hnl
  · exact hr

end Cleaning

section Joining

variable {names : List Bytes}

theorem pathNames_joinNames (h : ∀ n ∈ names, 0x2f ∉ n) (hne : names ≠ []) :
    pathNames (joinNames names) = names := splitOn_intercalate 0x2f h hne

theorem isRooted_joinNames (h : ∀ n ∈ names, n ≠ [] ∧ 0x2f ∉ n) :
    isRooted (joinNames names) = false := by
  cases names with
  | nil => rfl
  | cons n names =>
    obtain ⟨hne, hs⟩ := h n mem_cons_self
    obtain ⟨b, rest, rfl⟩ := exists_cons_of_ne_nil hne
    have hb : b ≠ 0x2f := fun heq => hs (heq ▸ mem_cons_self)
    cases names <;> simp [isRooted, joinNames, List.intercalate, hb]

theorem isRooted_cleanPath (path : Bytes) : isRooted (cleanPath path) = isRooted path := by
  have hj : isRooted (joinNames (cleanedNames path)) = false :=
    isRooted_joinNames fun n hn => (name_of_mem_cleanedNames hn).imp_right And.right
  unfold cleanPath
  dsimp only
  cases hr : isRooted path with
  | true => rfl
  | false =>
    simp only [Bool.false_eq_true, ↓reduceIte, nil_append]
    split
    · rfl
    · exact hj

/-- A cleaned path has the names that cleaning kept. -/
theorem pathNames_cleanPath (path : Bytes) :
    (pathNames (cleanPath path)).filter (fun n => n ≠ [] ∧ n ≠ bytes ".") = cleanedNames path := by
  have hk : (cleanedNames path).filter (fun n => n ≠ [] ∧ n ≠ bytes ".") = cleanedNames path := by
    rw [filter_eq_self]
    intro n hn
    obtain ⟨hne, hd, -⟩ := name_of_mem_cleanedNames hn
    exact decide_eq_true ⟨hne, hd⟩
  have hs : ∀ n ∈ cleanedNames path, 0x2f ∉ n := fun n hn => (name_of_mem_cleanedNames hn).2.2
  unfold cleanPath
  dsimp only
  by_cases hnl : cleanedNames path = []
  · rw [hnl]
    cases isRooted path <;> decide
  cases isRooted path with
  | true =>
    have hr : bytes "/" = [] ++ [0x2f] := by decide
    simp only [↓reduceIte, hr, singleton_append, nil_append,
      reduceCtorEq]
    rw [pathNames, ← nil_append (0x2f :: joinNames (cleanedNames path)),
      splitOn_append_cons_self, filter_append, ← pathNames, ← pathNames,
      pathNames_joinNames hs hnl, hk]
    rfl
  | false =>
    have hj : joinNames (cleanedNames path) ≠ [] := by
      intro he
      have hnm := pathNames_joinNames hs hnl
      rw [he] at hnm
      have hm : [] ∈ cleanedNames path := by
        rw [← hnm]
        decide
      exact (name_of_mem_cleanedNames hm).1 rfl
    simp only [Bool.false_eq_true, ↓reduceIte, nil_append, if_neg hj]
    rw [pathNames_joinNames hs hnl, hk]

theorem cleanedNames_append {front : Bytes} (hf : front ≠ []) (h : ∀ n ∈ names, ProperName n)
    (hne : names ≠ []) :
    isRooted (front ++ 0x2f :: joinNames names) = isRooted front ∧
      cleanedNames (front ++ 0x2f :: joinNames names) = cleanedNames front ++ names := by
  have hr : isRooted (front ++ 0x2f :: joinNames names) = isRooted front := by
    obtain ⟨b, rest, rfl⟩ := exists_cons_of_ne_nil hf
    rfl
  refine ⟨hr, ?_⟩
  rw [cleanedNames, hr, pathNames, splitOn_append_cons_self, foldl_append,
    ← pathNames, ← pathNames, pathNames_joinNames (fun n hn => (h n hn).slash) hne,
    foldl_cleanName_proper _ _ h]
  simp [cleanedNames]

theorem mem_joinNames {n : Bytes} {b : UInt8} (hn : n ∈ names) (hb : b ∈ n) :
    b ∈ joinNames names := by
  induction names with
  | nil => cases hn
  | cons m names ih =>
    cases names with
    | nil =>
      rw [mem_singleton] at hn
      simpa [joinNames, ← hn] using hb
    | cons m' names =>
      rw [joinNames, intercalate_cons_cons, append_assoc]
      rcases mem_cons.mp hn with rfl | hn
      · exact mem_append_left _ hb
      · exact mem_append_right _ (mem_cons_of_mem _ (ih hn))

theorem notMem_joinNames {b : UInt8} (hb : b ≠ 0x2f) (h : ∀ n ∈ names, b ∉ n) :
    b ∉ joinNames names := by
  induction names with
  | nil => exact not_mem_nil
  | cons n names ih =>
    have hn := h n mem_cons_self
    have hr := ih fun m hm => h m (mem_cons_of_mem n hm)
    cases names with
    | nil => simpa [joinNames] using hn
    | cons m names =>
      rw [joinNames, intercalate_cons_cons, append_assoc]
      simp only [mem_append, mem_singleton, not_or]
      exact ⟨hn, hb, hr⟩

theorem joinNames_pathNames (path : Bytes) : joinNames (pathNames path) = path :=
  intercalate_splitOn 0x2f

end Joining

section Parents

variable {rooted : Bool} {last : Bytes} {kept : List Bytes}

theorem Cleaned.tail (h : Cleaned rooted (last :: kept)) : Cleaned rooted kept := by
  obtain ⟨proper, k, heq, hp, hr⟩ := h
  cases proper with
  | nil =>
    cases k with
    | zero => cases heq
    | succ k =>
      rw [nil_append, replicate_succ] at heq
      refine ⟨[], k, (List.cons.inj heq).2, nofun, fun h => ?_⟩
      cases hr h
  | cons n proper =>
    refine ⟨proper, k, (List.cons.inj heq).2, fun m hm => ?_, hr⟩
    exact hp m (mem_cons_of_mem n hm)

/-- Cleaning what is clean changes nothing. -/
theorem foldl_cleanName_cleaned (h : Cleaned rooted kept) :
    kept.reverse.foldl (cleanName rooted) [] = kept := by
  induction kept with
  | nil => rfl
  | cons last kept ih =>
    rw [reverse_cons, foldl_append, ih h.tail, foldl_cons, foldl_nil]
    obtain ⟨proper, k, heq, hp, hr⟩ := h
    cases proper with
    | cons n proper =>
      rw [(List.cons.inj heq).1]
      exact cleanName_proper rooted kept (hp n mem_cons_self)
    | nil =>
      cases k with
      | zero => cases heq
      | succ k =>
        cases rooted with
        | true => cases hr rfl
        | false =>
          rw [nil_append, replicate_succ] at heq
          obtain ⟨rfl, rfl⟩ := List.cons.inj heq
          cases k with
          | zero | succ => rfl

theorem cleaned_reverse_cleanedNames (path : Bytes) :
    Cleaned (isRooted path) (cleanedNames path).reverse := by
  obtain ⟨k, proper, hn, hp, hr⟩ := cleanedNames_eq path
  refine ⟨proper.reverse, k, ?_, by simpa using hp, hr⟩
  rw [hn]
  simp

theorem foldl_cleanName_filter (rooted : Bool) (names kept : List Bytes) :
    names.foldl (cleanName rooted) kept =
      (names.filter fun n => n ≠ [] ∧ n ≠ bytes ".").foldl (cleanName rooted) kept := by
  induction names generalizing kept with
  | nil => rfl
  | cons n names ih =>
    by_cases hn : n ≠ [] ∧ n ≠ bytes "."
    · rw [foldl_cons, filter_cons_of_pos (by simpa using hn), foldl_cons, ih]
    have hk : cleanName rooted kept n = kept := by
      unfold cleanName
      rw [if_pos]
      by_contra hcontra
      exact hn (not_or.mp hcontra)
    rw [foldl_cons, hk, filter_cons_of_neg (by simpa using hn), ih]

theorem cleanedNames_cleanPath (path : Bytes) : cleanedNames (cleanPath path) = cleanedNames path := by
  rw [cleanedNames, foldl_cleanName_filter, pathNames_cleanPath, isRooted_cleanPath,
    ← reverse_reverse (cleanedNames path),
    foldl_cleanName_cleaned (cleaned_reverse_cleanedNames path)]

/-- A path that never goes up keeps its names. -/
theorem cleanedNames_of_down {path : Bytes} (h : bytes ".." ∉ pathNames path) :
    cleanedNames path = (pathNames path).filter fun n => n ≠ [] ∧ n ≠ bytes "." := by
  rw [cleanedNames, foldl_cleanName_filter, foldl_cleanName_proper, append_nil, reverse_reverse]
  intro n hn
  simp only [mem_filter, decide_eq_true_eq] at hn
  obtain ⟨hm, hne, hdot⟩ := hn
  refine ⟨hne, hdot, ?_, notMem_of_mem_splitOn hm⟩
  rintro rfl
  exact h hm

def slashedNames (names : List Bytes) : Bytes := names.flatMap (· ++ [0x2f])

theorem joinNames_concat (front : List Bytes) (last : Bytes) :
    joinNames (front ++ [last]) = slashedNames front ++ last := by
  induction front with
  | nil => simp [joinNames, slashedNames]
  | cons n front ih =>
    obtain ⟨m, rest, hr⟩ := exists_cons_of_ne_nil (show front ++ [last] ≠ [] by simp)
    rw [joinNames] at ih
    rw [cons_append, hr, joinNames, intercalate_cons_cons, ← hr, ih]
    simp [slashedNames]

variable {names : List Bytes}

theorem pathNames_slashedNames (h : ∀ n ∈ names, 0x2f ∉ n) :
    pathNames (slashedNames names) = names ++ [[]] := by
  induction names with
  | nil => rfl
  | cons n names ih =>
    rw [slashedNames, flatMap_cons, append_assoc, singleton_append, pathNames,
      splitOn_append_cons_self, splitOn_eq_singleton (h n mem_cons_self)]
    exact congrArg (n :: ·) (ih fun m hm => h m (mem_cons_of_mem n hm))

theorem rdropWhile_slashedNames {front : Bytes} (hf : front.rdropWhile (· ≠ 0x2f) = front)
    (hl : 0x2f ∉ last) :
    (front ++ (slashedNames names ++ last)).rdropWhile (· ≠ 0x2f) = front ++ slashedNames names :=
    by
  have ha : ∀ b ∈ last.reverse, decide (b ≠ 0x2f) = true := fun b hb =>
    decide_eq_true (ne_of_mem_of_not_mem (mem_reverse.mp hb) hl)
  rw [← append_assoc, List.rdropWhile, reverse_append, dropWhile_append_of_pos ha,
    ← List.rdropWhile]
  induction names using List.reverseRecOn with
  | nil => simpa [slashedNames] using hf
  | append_singleton names n _ =>
    have he : front ++ slashedNames (names ++ [n]) = (front ++ slashedNames names ++ n) ++ [0x2f]
      := by
      simp [slashedNames]
    rw [he, rdropWhile_concat_neg _ _ _ (by simp)]

/-- What stands before the last name of a clean path has the names before it. -/
theorem cleanedNames_before_last {path : Bytes} {front : List Bytes}
    (h : cleanedNames path = front ++ [last]) :
    isRooted ((cleanPath path).rdropWhile (· ≠ 0x2f)) = isRooted path ∧
      cleanedNames ((cleanPath path).rdropWhile (· ≠ 0x2f)) = front := by
  have hf : front.foldl (cleanName (isRooted path)) [] = front.reverse := by
    have hc := cleaned_reverse_cleanedNames path
    rw [h, reverse_append, reverse_singleton, singleton_append] at hc
    simpa using foldl_cleanName_cleaned hc.tail
  have hnm : ∀ n ∈ front ++ [last], n ≠ [] ∧ n ≠ bytes "." ∧ 0x2f ∉ n := fun n hn =>
    name_of_mem_cleanedNames (h ▸ hn)
  have hs : ∀ n ∈ front, 0x2f ∉ n := fun n hn => (hnm n (mem_append_left _ hn)).2.2
  have hl := hnm last (mem_append_right _ (mem_singleton_self last))
  have ho : slashedNames front ++ last ≠ [] := by simp [hl.1]
  have he : ∀ (rooted : Bool) kept, cleanName rooted kept [] = kept := fun _ _ => rfl
  unfold cleanPath
  simp only [h, joinNames_concat]
  cases hr : isRooted path with
  | true =>
    have hrt : bytes "/" = [0x2f] := by decide
    simp only [↓reduceIte, hrt]
    rw [if_neg (by simp), rdropWhile_slashedNames (by decide) hl.2.2]
    have hr' : isRooted ([0x2f] ++ slashedNames front) = true := rfl
    refine ⟨hr', ?_⟩
    rw [cleanedNames, hr', singleton_append, pathNames,
      ← nil_append (0x2f :: slashedNames front), splitOn_append_cons_self, ← pathNames,
      ← pathNames, pathNames_slashedNames hs, foldl_append, foldl_append]
    rw [hr] at hf
    simp [pathNames, he, hf]
  | false =>
    simp only [Bool.false_eq_true, ↓reduceIte]
    rw [nil_append, if_neg ho, ← nil_append (slashedNames front ++ last),
      rdropWhile_slashedNames (by decide) hl.2.2, nil_append]
    have hr' : isRooted (slashedNames front) = false := by
      cases front with
      | nil => rfl
      | cons n front =>
        obtain ⟨hne, -, hn⟩ := hnm n mem_cons_self
        obtain ⟨b, rest, rfl⟩ := exists_cons_of_ne_nil hne
        have hb : b ≠ 0x2f := fun heq => hn (heq ▸ mem_cons_self)
        simp [isRooted, slashedNames, hb]
    refine ⟨hr', ?_⟩
    rw [hr] at hf
    rw [cleanedNames, hr', pathNames_slashedNames hs, foldl_append]
    simp [he, hf]

end Parents
end Text
