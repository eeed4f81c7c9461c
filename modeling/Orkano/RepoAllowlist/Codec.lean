import Mathlib.Data.List.TakeWhile
import Mathlib.Logic.Relation
import Orkano.RepoAllowlist.Normalize

/-!
The allowlist as a codec. A policy counts by the set of its folded entries: the normal form is the
same for every way to write the policy down.
-/
namespace Orkano.RepoAllowlist

open Text List

section Folding

def foldCase (s : String) : String := String.ofList (s.toList.map Char.toLower)

def foldEntry (s : String) : String := foldCase (trimSpace s)

@[simp] theorem foldCase_toList (s : String) : (foldCase s).toList = s.toList.map Char.toLower := by
  simp [foldCase]

theorem foldCase_eq_empty {s : String} : foldCase s = "" ↔ s = "" := by
  rw [← String.toList_eq_nil_iff, foldCase_toList, map_eq_nil_iff, String.toList_eq_nil_iff]

theorem toLower_of_not_isASCII {c : Char} (h : isASCII c = false) : c.toLower = c := by
  have hb : 128 ≤ c.toNat := not_lt.mp (of_decide_eq_false h)
  unfold Char.toLower
  split
  · rename_i hu
    have hle : c.toNat ≤ 90 := UInt32.le_iff_toNat_le.mp hu.2
    omega
  · rfl

theorem toLower_congr {α : Type} (p : Char → α)
    (h : ∀ {c : Char}, isASCII c = true → p c.toLower = p c) (c : Char) : p c.toLower = p c := by
  cases hc : isASCII c with
  | true => exact h hc
  | false => rw [toLower_of_not_isASCII hc]

theorem isSpace_toLower (c : Char) : isSpace c.toLower = isSpace c := by
  apply toLower_congr
  apply forall_isASCII
  decide +kernel

theorem isRepositoryChar_toLower (c : Char) : isRepositoryChar c.toLower = isRepositoryChar c := by
  apply toLower_congr
  apply forall_isASCII
  decide +kernel

theorem toLower_eq_slash (c : Char) : c.toLower = '/' ↔ c = '/' := by
  have h := toLower_congr (fun c => decide (c = '/')) (by apply forall_isASCII; decide +kernel) c
  simpa using h

theorem dropWhile_isSpace_map (cs : List Char) :
    (cs.map Char.toLower).dropWhile isSpace = (cs.dropWhile isSpace).map Char.toLower := by
  rw [dropWhile_map]
  simp only [Function.comp_def, isSpace_toLower]

theorem foldEntry_eq (s : String) : foldEntry s = trimSpace (foldCase s) := by
  apply String.toList_injective
  simp only [foldEntry, trimSpace, foldCase_toList, String.toList_ofList, dropWhile_isSpace_map,
    ← map_reverse]

theorem trimSpace_pad {before after : List Char} (s : String)
    (hb : ∀ c ∈ before, isSpace c = true) (ha : ∀ c ∈ after, isSpace c = true) :
    trimSpace (String.ofList (before ++ s.toList ++ after)) = trimSpace s := by
  have he : ∀ cs : List Char, (∀ c ∈ cs, isSpace c = true) → cs.dropWhile isSpace = [] := by
    intro cs hcs
    exact dropWhile_eq_nil_iff.mpr hcs
  rw [trimSpace, trimSpace, String.toList_ofList, append_assoc,
    dropWhile_append_of_pos hb, dropWhile_append]
  split
  · rename_i hbl
    rw [isEmpty_iff.mp hbl, he after ha]
  · rw [reverse_append, dropWhile_append_of_pos (by simpa using ha)]

/-- Case does not decide what a repository is. -/
theorem isRepository_foldCase {s : String} :
    isRepository (foldCase s) = true ↔ isRepository s = true := by
  constructor
  · intro h
    obtain ⟨owner, name, hsd⟩ := isRepository_iff.mp h
    have heq := hsd.eq
    rw [foldCase_toList, map_eq_append_iff] at heq
    obtain ⟨owner', rest, hs, rfl, hr⟩ := heq
    obtain ⟨slash, name', rfl, hsl, rfl⟩ := map_eq_cons_iff.mp hr
    rw [isRepository_iff]
    refine ⟨owner', name', ?_, ?_, ?_, ?_, ?_⟩
    · rw [hs, (toLower_eq_slash slash).mp hsl]
    · simpa using hsd.owner_ne
    · simpa using hsd.name_ne
    · simpa [isRepositoryChar_toLower] using hsd.owner_all
    · simpa [isRepositoryChar_toLower] using hsd.name_all
  · intro h
    obtain ⟨owner, name, hsd⟩ := isRepository_iff.mp h
    rw [isRepository_iff]
    refine ⟨owner.map Char.toLower, name.map Char.toLower, ?_, ?_, ?_, ?_, ?_⟩
    · rw [foldCase_toList, hsd.eq, map_append, map_cons]
      rfl
    · simpa using hsd.owner_ne
    · simpa using hsd.name_ne
    · simpa [isRepositoryChar_toLower] using hsd.owner_all
    · simpa [isRepositoryChar_toLower] using hsd.name_all

variable {L : Lowering} {s : String}

theorem toLower_eq_foldCase (h : isRepository s = true) : L.toLower s = foldCase s := by
  apply String.toList_injective
  rw [toLower_toList (isASCII_repository h), foldCase_toList]

theorem byteLength_foldCase (h : isRepository s = true) :
    byteLength (foldCase s) = byteLength s := by
  rw [byteLength_of_isASCII (isASCII_repository (isRepository_foldCase.mpr h)), foldCase_toList,
    length_map, byteLength_of_isASCII (isASCII_repository h)]

theorem canonical_foldCase :
    Canonical (foldCase s) ↔ isRepository s = true ∧ byteLength s ≤ maxRepositoryLength := by
  constructor
  · intro h
    have hr := isRepository_foldCase.mp h.repository
    exact ⟨hr, byteLength_foldCase hr ▸ h.short⟩
  intro h
  refine ⟨isRepository_foldCase.mpr h.1, (byteLength_foldCase h.1).trans_le h.2, ?_⟩
  simp only [foldCase_toList, mem_map, forall_exists_index, and_imp,
    forall_apply_eq_imp_iff₂]
  intro c _
  exact toLower_congr Char.toLower (fun hc => (toLower_repositoryChar hc).2.1) c

end Folding

section Acceptance

variable {L : Lowering} {xs ys entries : List String}

def nonBlank (xs : List String) : ℕ := xs.countP fun x => foldEntry x ≠ ""

/-- Every entry that counts is one in its normal form when it is folded. -/
def Acceptable (xs : List String) : Prop := ∀ x ∈ xs, foldEntry x ≠ "" → Canonical (foldEntry x)

def gather (xs normalized : List String) : List String :=
  xs.foldl (fun acc x => if foldEntry x = "" then acc else acc.insert (foldEntry x)) normalized

@[simp] theorem gather_cons (x : String) (xs normalized : List String) :
    gather (x :: xs) normalized =
      gather xs (if foldEntry x = "" then normalized else normalized.insert (foldEntry x)) := by
  simp only [gather, foldl_cons]

variable {normalized : List String}

theorem mem_gather {e : String} :
    e ∈ gather xs normalized ↔ e ∈ normalized ∨ ∃ x ∈ xs, foldEntry x = e ∧ e ≠ "" := by
  induction xs generalizing normalized with
  | nil => simp [gather]
  | cons x xs ih =>
    rw [gather_cons, ih]
    split
    · rename_i hb
      simp only [mem_cons, exists_eq_or_imp, hb]
      grind
    rename_i hc
    simp only [mem_insert_iff, mem_cons, exists_eq_or_imp]
    grind

theorem nodup_gather (h : normalized.Nodup) : (gather xs normalized).Nodup := by
  induction xs generalizing normalized with
  | nil => exact h
  | cons x xs ih =>
    rw [gather_cons]
    split
    · exact ih h
    · exact ih h.insert

/-- The loop ends well just when the entries are few and acceptable. -/
theorem normalizeLoop_ok_iff {n : ℕ} {out : List String} (hn : n ≤ maxRepositories) :
    normalizeLoop L xs n normalized = .ok out ↔
      n + nonBlank xs ≤ maxRepositories ∧ Acceptable xs ∧ gather xs normalized = out := by
  induction xs generalizing n normalized with
  | nil => simp [normalizeLoop, nonBlank, Acceptable, gather, hn]
  | cons x xs ih =>
    rw [gather_cons]
    unfold normalizeLoop
    by_cases hb : trimSpace x = ""
    · have hf : foldEntry x = "" := foldCase_eq_empty.mpr hb
      simp only [hb, hf, ↓reduceIte, ih hn, nonBlank, Acceptable]
      simp [hf]
    have hf : foldEntry x ≠ "" := fun h => hb (foldCase_eq_empty.mp h)
    have hcn : nonBlank (x :: xs) = nonBlank xs + 1 := by simp [nonBlank, hf]
    have ha : Acceptable (x :: xs) ↔ Canonical (foldEntry x) ∧ Acceptable xs := by
      simp [Acceptable, hf]
    simp only [hb, hf, ↓reduceIte, hcn, ha]
    split
    · have hm : ¬ n + (nonBlank xs + 1) ≤ maxRepositories := by omega
      simp [hm]
    rename_i hfw
    have hc := canonical_foldCase (s := trimSpace x)
    change Canonical (foldEntry x) ↔ _ at hc
    split
    · rename_i hl
      simp [hc, not_le.mpr hl]
    rename_i hs
    split
    · rename_i hi
      simp only [Bool.not_eq_true', hc] at hi ⊢
      simp [hi]
    rename_i hv
    have hr : isRepository (trimSpace x) = true := by simpa using hv
    rw [toLower_eq_foldCase hr, ih (by omega), hc, Nat.add_assoc,
      Nat.add_comm 1]
    simp [hr, not_lt.mp hs, foldEntry]

/-- When a policy is accepted, and what becomes of it. -/
theorem normalize_ok_iff_gather :
    normalize L xs = .ok entries ↔
      nonBlank xs ≤ maxRepositories ∧ Acceptable xs ∧
        (gather xs []).insertionSort (· ≤ ·) = entries := by
  have hl : ∀ out, normalizeLoop L xs 0 [] = .ok out ↔
      0 + nonBlank xs ≤ maxRepositories ∧ Acceptable xs ∧ gather xs [] = out :=
    fun out => normalizeLoop_ok_iff (Nat.zero_le maxRepositories)
  rw [Nat.zero_add] at hl
  unfold normalize
  split
  · rename_i e he
    constructor
    · intro h
      cases h
    intro h
    have hok := (hl _).mpr ⟨h.1, h.2.1, rfl⟩
    rw [he] at hok
    cases hok
  · rename_i out ho
    obtain ⟨hf, ha, rfl⟩ := (hl out).mp ho
    simp [hf, ha]

/-- A policy is accepted by what its entries count as, and just that is left of it. -/
theorem normalize_ok_iff :
    normalize L xs = .ok entries ↔
      nonBlank xs ≤ maxRepositories ∧ Acceptable xs ∧ entries.Pairwise (· < ·) ∧
        ∀ e, e ∈ entries ↔ ∃ x ∈ xs, foldEntry x = e ∧ e ≠ "" := by
  have hn : (gather xs []).Nodup := nodup_gather nodup_nil
  have hm : ∀ e, e ∈ gather xs [] ↔ ∃ x ∈ xs, foldEntry x = e ∧ e ≠ "" := by
    intro e
    rw [mem_gather]
    simp
  rw [normalize_ok_iff_gather]
  refine and_congr_right fun _ => and_congr_right fun _ => ⟨?_, ?_⟩
  · rintro rfl
    have hp := perm_insertionSort (· ≤ ·) (gather xs [])
    have hsr := pairwise_insertionSort (· ≤ ·) (gather xs [])
    refine ⟨(hsr.and (hp.nodup_iff.mpr hn)).imp fun h => lt_of_le_of_ne h.1 h.2, ?_⟩
    intro e
    rw [mem_insertionSort, hm]
  rintro ⟨hs, he⟩
  have hp : (gather xs []).Perm entries := by
    rw [perm_ext_iff_of_nodup hn (hs.imp ne_of_lt)]
    intro e
    rw [hm, he]
  exact ((perm_insertionSort _ _).trans hp).eq_of_pairwise'
    (pairwise_insertionSort _ _) (hs.imp le_of_lt)

end Acceptance

section Spellings

/-- One way to write a policy down differently: in another order, with an entry once more,
with an entry in other case or with white space around it, or with a blank entry more. -/
inductive Rewritten : List String → List String → Prop where
  | permuted {xs ys : List String} (h : xs.Perm ys) : Rewritten xs ys
  | repeated {x : String} {xs : List String} (h : x ∈ xs) : Rewritten xs (x :: xs)
  | recased {x y : String} {before after : List String}
      (h : x.toList.map Char.toLower = y.toList.map Char.toLower) :
      Rewritten (before ++ x :: after) (before ++ y :: after)
  | padded {x : String} {before after : List String} {left right : List Char}
      (hleft : ∀ c ∈ left, isSpace c = true) (hright : ∀ c ∈ right, isSpace c = true) :
      Rewritten (before ++ x :: after)
        (before ++ String.ofList (left ++ x.toList ++ right) :: after)
  | blank {b : String} {xs : List String} (h : trimSpace b = "") : Rewritten xs (b :: xs)

variable {L : Lowering} {xs ys entries : List String}

/-- Both policies have the same entries that count. -/
def SameEntries (xs ys : List String) : Prop :=
  ∀ e, e ≠ "" → ((∃ x ∈ xs, foldEntry x = e) ↔ ∃ y ∈ ys, foldEntry y = e)

theorem sameEntries_replace {x y : String} (before after : List String)
    (h : foldEntry x = foldEntry y) :
    SameEntries (before ++ x :: after) (before ++ y :: after) := by
  intro e _
  simp [mem_append, or_and_right, exists_or, h]

/-- A policy written down differently has the same entries. -/
theorem Rewritten.sameEntries (h : Rewritten xs ys) : SameEntries xs ys := by
  cases h with
  | permuted h =>
    intro e _
    simp only [h.mem_iff]
  | repeated h =>
    intro e _
    simp only [mem_cons, exists_eq_or_imp]
    grind
  | recased h =>
    apply sameEntries_replace
    rw [foldEntry_eq, foldEntry_eq, foldCase, foldCase, h]
  | padded hl hr =>
    apply sameEntries_replace
    rw [foldEntry, foldEntry, trimSpace_pad _ hl hr]
  | blank h =>
    intro e he
    have hf : foldEntry _ = "" := foldCase_eq_empty.mpr h
    simp [hf, he.symm]

theorem sameEntries_of_rewritten (h : Relation.ReflTransGen Rewritten xs ys) :
    SameEntries xs ys := by
  induction h with
  | refl => exact fun e _ => Iff.rfl
  | tail _ hs ih => exact fun e he => (ih e he).trans (hs.sameEntries e he)

/-- Policies with the same entries have one normal form. -/
theorem SameEntries.normalize_ok (h : SameEntries xs ys) (hxs : normalize L xs = .ok entries)
    (hf : nonBlank ys ≤ maxRepositories) : normalize L ys = .ok entries := by
  rw [normalize_ok_iff] at hxs ⊢
  obtain ⟨_, ha, hs, hen⟩ := hxs
  refine ⟨hf, ?_, hs, ?_⟩
  · intro y hy hne
    obtain ⟨x, hx, heq⟩ := (h _ hne).mpr ⟨y, hy, rfl⟩
    rw [← heq] at hne ⊢
    exact ha x hx hne
  intro e
  rw [hen]
  constructor
  · rintro ⟨x, hx, heq, he⟩
    obtain ⟨y, hy, heq⟩ := (h e he).mp ⟨x, hx, heq⟩
    exact ⟨y, hy, heq, he⟩
  rintro ⟨y, hy, heq, he⟩
  obtain ⟨x, hx, heq⟩ := (h e he).mpr ⟨y, hy, heq⟩
  exact ⟨x, hx, heq, he⟩

theorem format_congr (h : normalize L xs = normalize L ys) : format L xs = format L ys := by
  simp only [format, h]

/-- The text of an accepted policy is read back as its normal form, and the normal form
and the text do not depend on how the policy is written down. -/
theorem allowlist_codec (h : normalize L xs = .ok entries) :
    (∃ text, format L xs = .ok text ∧ parse L text = .ok entries) ∧
      normalize L entries = .ok entries ∧ entries.Pairwise (· < ·) ∧ entries.Nodup ∧
      (∀ e ∈ entries, isRepository e = true ∧ ∀ c ∈ e.toList, c.toLower = c) ∧
      ∀ ys, Relation.ReflTransGen Rewritten xs ys → nonBlank ys ≤ maxRepositories →
        normalize L ys = .ok entries ∧ format L ys = format L xs := by
  have hform := normalForm_of_normalize h
  have hagain := hform.normalize_eq (L := L)
  have hstrict := (normalize_ok_iff.mp h).2.2.1
  refine ⟨?_, hagain, hstrict, hform.distinct, ?_, ?_⟩
  · rw [format_congr (h.trans hagain.symm)]
    exact hform.parse_format
  · intro e he
    exact ⟨(hform.canonical e he).repository, (hform.canonical e he).lower⟩
  intro ys hys hfew
  have hsame := (sameEntries_of_rewritten hys).normalize_ok h hfew
  exact ⟨hsame, format_congr (hsame.trans h.symm)⟩

/-- Two entries of a policy swapped. -/
theorem swapped_policy_normalizes :
    normalize asciiLowering ["Acme/Web", " acme/api"] = .ok ["acme/api", "acme/web"] ∧
      normalize asciiLowering [" acme/api", "Acme/Web"] = .ok ["acme/api", "acme/web"] := by
  have h : normalize asciiLowering ["Acme/Web", " acme/api"] = .ok ["acme/api", "acme/web"] := by
    decide +kernel
  exact ⟨h, ((allowlist_codec h).2.2.2.2.2 _ (.single (.permuted (.swap _ _ _)))
    (by decide +kernel)).1⟩

end Spellings

end Orkano.RepoAllowlist
