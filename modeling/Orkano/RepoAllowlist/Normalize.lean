import Mathlib.Data.List.Sort
import Mathlib.Data.String.Basic
import Orkano.Text.Runes

/-!
The repository allowlist: its normal form, and the newline-delimited text it is stored
as. A policy in normal form is left as it is, so normalizing twice is normalizing once.
-/
namespace Orkano.RepoAllowlist

open Text List

def maxRepositoryLength : ℕ := 140
def maxRepositories : ℕ := 400

inductive NormalizeError where
  | tooMany
  | tooLong (repository : String)
  | invalid (repository : String)
deriving DecidableEq, Repr

def isRepositoryChar (c : Char) : Bool := c.isAlphanum || c = '.' || c = '_' || c = '-'

/-- The repository pattern: one slash, with something on either side. The characters on
the sides are not slashes, so the first side ends at the first one. -/
def isRepository (repository : String) : Bool :=
  let owner := repository.toList.takeWhile isRepositoryChar
  match repository.toList.dropWhile isRepositoryChar with
  | '/' :: name => owner ≠ [] && name ≠ [] && name.all isRepositoryChar
  | _ => false

structure Sides (cs owner name : List Char) : Prop where
  eq : cs = owner ++ '/' :: name
  owner_ne : owner ≠ []
  name_ne : name ≠ []
  owner_all : ∀ c ∈ owner, isRepositoryChar c = true
  name_all : ∀ c ∈ name, isRepositoryChar c = true

/-- A repository is an owner and a name with a slash between them. -/
theorem isRepository_iff {s : String} :
    isRepository s = true ↔ ∃ owner name, Sides s.toList owner name := by
  constructor
  · intro h
    unfold isRepository at h
    split at h
    case h_1 name hrest =>
      simp only [Bool.and_eq_true, decide_eq_true_eq, all_eq_true] at h
      refine ⟨_, name, ?_, h.1.1, h.1.2, ?_, h.2⟩
      · rw [← hrest, takeWhile_append_dropWhile]
      · exact all_eq_true.mp (all_takeWhile ..)
    · cases h
  · rintro ⟨owner, name, h⟩
    have hs : isRepositoryChar '/' = false := by decide
    have ht : s.toList.takeWhile isRepositoryChar = owner := by
      rw [h.eq, takeWhile_append_of_pos h.owner_all]
      simp [hs]
    have hd : s.toList.dropWhile isRepositoryChar = '/' :: name := by
      rw [h.eq, dropWhile_append_of_pos h.owner_all]
      simp [hs]
    simp only [isRepository, hd, ht, Bool.and_eq_true, decide_eq_true_eq, all_eq_true]
    exact ⟨⟨h.owner_ne, h.name_ne⟩, h.name_all⟩

theorem mem_repository {s : String} (h : isRepository s = true) {c : Char} (hc : c ∈ s.toList) :
    isRepositoryChar c = true ∨ c = '/' := by
  obtain ⟨owner, name, hs⟩ := isRepository_iff.mp h
  rw [hs.eq, mem_append, mem_cons] at hc
  rcases hc with hc | hc | hc
  · exact .inl (hs.owner_all c hc)
  · exact .inr hc
  · exact .inl (hs.name_all c hc)

variable (L : Lowering)

/-- The loop over the entries, with the number of those that are not blank and the set of
their normal forms. -/
def normalizeLoop : List String → ℕ → List String → Except NormalizeError (List String)
  | [], _, normalized => .ok normalized
  | repository :: rest, nonEmpty, normalized =>
    let repository := trimSpace repository
    if repository = "" then normalizeLoop rest nonEmpty normalized
    else if nonEmpty + 1 > maxRepositories then .error .tooMany
    else if byteLength repository > maxRepositoryLength then .error (.tooLong repository)
    else if !isRepository repository then .error (.invalid repository)
    else normalizeLoop rest (nonEmpty + 1) (normalized.insert (L.toLower repository))

def normalize (repositories : List String) : Except NormalizeError (List String) :=
  match normalizeLoop L repositories 0 [] with
  | .error e => .error e
  | .ok normalized => .ok (normalized.insertionSort (· ≤ ·))

def parse (raw : String) : Except NormalizeError (List String) :=
  normalize L ((raw.toList.splitOn '\n').map String.ofList)

/-- The text of a policy: a line for each entry. -/
def format (repositories : List String) : Except NormalizeError String :=
  match normalize L repositories with
  | .error e => .error e
  | .ok normalized => .ok (if normalized = [] then "" else "\n".intercalate normalized ++ "\n")

section NormalForm

structure Canonical (s : String) : Prop where
  repository : isRepository s = true
  short : byteLength s ≤ maxRepositoryLength
  lower : ∀ c ∈ s.toList, c.toLower = c

variable {L} {s : String}
variable {c : Char}

theorem isASCII_of_isAlphanum (h : c.isAlphanum = true) : isASCII c = true := by
  change (decide (c.val ≥ 'A'.val ∧ c.val ≤ 'Z'.val) ||
    decide (c.val ≥ 'a'.val) && decide (c.val ≤ 'z'.val) ||
    decide (c.val ≥ '0'.val) && decide (c.val ≤ '9'.val)) = true at h
  simp only [Bool.or_eq_true, Bool.and_eq_true, decide_eq_true_eq, UInt32.le_iff_toNat_le,
    ge_iff_le] at h
  have hv : c.val.toNat = c.toNat := rfl
  have hz : 'z'.val.toNat = 122 := rfl
  have hZ : 'Z'.val.toNat = 90 := rfl
  have h9 : '9'.val.toNat = 57 := rfl
  have hlt : c.toNat < 128 := by omega
  exact decide_eq_true hlt

theorem isASCII_of_repositoryChar (h : isRepositoryChar c = true ∨ c = '/') : isASCII c = true := by
  rcases h with h | rfl
  · simp only [isRepositoryChar, Bool.or_eq_true, decide_eq_true_eq] at h
    rcases h with ((h | rfl) | rfl) | rfl
    · exact isASCII_of_isAlphanum h
    all_goals decide
  · decide

theorem isASCII_repository (h : isRepository s = true) : s.toList.all isASCII = true :=
  all_eq_true.mpr fun _ hc => isASCII_of_repositoryChar (mem_repository h hc)

theorem toLower_repositoryChar (hc : isASCII c = true) :
    (isRepositoryChar c = true → isRepositoryChar c.toLower = true) ∧
      c.toLower.toLower = c.toLower ∧ isASCII c.toLower = true := by
  revert hc
  apply forall_isASCII
  decide +kernel

theorem repositoryChar_not_space (h : isRepositoryChar c = true ∨ c = '/') : isSpace c = false := by
  have ha : ∀ {c : Char}, isASCII c = true →
      isRepositoryChar c = true ∨ c = '/' → isSpace c = false := by
    apply forall_isASCII
    decide +kernel
  exact ha (isASCII_of_repositoryChar h) h

/-- In lower case, a repository is in normal form. -/
theorem canonical_toLower (h : isRepository s = true) (hsh : byteLength s ≤ maxRepositoryLength) :
    Canonical (L.toLower s) := by
  have ha := isASCII_repository h
  have hl := toLower_toList (L := L) ha
  have hch : ∀ {c}, c ∈ s.toList → isASCII c = true := fun hc => all_eq_true.mp ha _ hc
  obtain ⟨owner, name, hs⟩ := isRepository_iff.mp h
  have ho : ∀ {c}, c ∈ owner → c ∈ s.toList := by
    intro c hc
    rw [hs.eq]
    exact mem_append_left _ hc
  have hn : ∀ {c}, c ∈ name → c ∈ s.toList := by
    intro c hc
    rw [hs.eq]
    exact mem_append_right _ (mem_cons_of_mem _ hc)
  constructor
  · rw [isRepository_iff]
    refine ⟨owner.map Char.toLower, name.map Char.toLower, ?_, ?_, ?_, ?_, ?_⟩
    · rw [hl, hs.eq, map_append, map_cons]
      rfl
    · simpa using hs.owner_ne
    · simpa using hs.name_ne
    · simp only [mem_map, forall_exists_index, and_imp, forall_apply_eq_imp_iff₂]
      intro c hc
      exact (toLower_repositoryChar (hch (ho hc))).1 (hs.owner_all c hc)
    simp only [mem_map, forall_exists_index, and_imp, forall_apply_eq_imp_iff₂]
    intro c hc
    exact (toLower_repositoryChar (hch (hn hc))).1 (hs.name_all c hc)
  · have ha' : (L.toLower s).toList.all isASCII = true := by
      rw [hl, all_map, all_eq_true]
      intro c hc
      exact (toLower_repositoryChar (hch hc)).2.2
    rw [byteLength_of_isASCII ha', hl, length_map, ← byteLength_of_isASCII ha]
    exact hsh
  rw [hl]
  simp only [mem_map, forall_exists_index, and_imp, forall_apply_eq_imp_iff₂]
  intro c hc
  exact (toLower_repositoryChar (hch hc)).2.1

theorem Canonical.toLower_eq (h : Canonical s) : L.toLower s = s :=
  toLower_eq_self (isASCII_repository h.repository) h.lower

theorem Canonical.trimSpace_eq (h : Canonical s) : trimSpace s = s :=
  trimSpace_of_no_space fun _ hc => repositoryChar_not_space (mem_repository h.repository hc)

theorem Canonical.ne_empty (h : Canonical s) : s ≠ "" := by
  rintro rfl
  exact absurd h.repository (by decide)

structure NormalForm (entries : List String) : Prop where
  canonical : ∀ e ∈ entries, Canonical e
  few : entries.length ≤ maxRepositories
  distinct : entries.Nodup
  sorted : entries.Pairwise (· ≤ ·)

variable {repositories : List String}

/-- What the loop gathers stays distinct, in normal form and below the limit. -/
theorem normalizeLoop_ok {normalized out : List String} {n : ℕ}
    (h : normalizeLoop L repositories n normalized = .ok out) (hc : ∀ e ∈ normalized, Canonical e)
    (hd : normalized.Nodup) (hcn : normalized.length ≤ n) (hn : n ≤ maxRepositories) :
    (∀ e ∈ out, Canonical e) ∧ out.Nodup ∧ out.length ≤ maxRepositories := by
  induction repositories generalizing n normalized with
  | nil =>
    cases h
    exact ⟨hc, hd, hcn.trans hn⟩
  | cons repository rest ih =>
    simp only [normalizeLoop] at h
    split at h
    · exact ih h hc hd hcn hn
    split at h
    · cases h
    case isFalse hfew =>
      split at h
      · cases h
      case isFalse hshort =>
        split at h
        · cases h
        case isFalse hrepository =>
          have hnw : Canonical (L.toLower (trimSpace repository)) :=
            canonical_toLower (by simpa using hrepository) (not_lt.mp hshort)
          have hl : (normalized.insert (L.toLower (trimSpace repository))).length ≤ n + 1 := by
            rw [List.insert]
            split
            · omega
            · rw [length_cons]
              omega
          apply ih h _ (hd.insert) hl (not_lt.mp hfew)
          intro e he
          rcases mem_insert_iff.mp he with rfl | he
          · exact hnw
          · exact hc e he

variable {entries : List String}

/-- What comes out is in normal form. -/
theorem normalForm_of_normalize (h : normalize L repositories = .ok entries) :
    NormalForm entries := by
  unfold normalize at h
  split at h
  · cases h
  case h_2 normalized hloop =>
    cases h
    obtain ⟨hc, hd, hf⟩ :=
      normalizeLoop_ok hloop nofun nodup_nil (Nat.zero_le _) (Nat.zero_le _)
    constructor
    · intro e he
      exact hc e ((mem_insertionSort _).mp he)
    · rw [length_insertionSort]
      exact hf
    · exact (perm_insertionSort _ normalized).nodup_iff.mpr hd
    · exact pairwise_insertionSort _ normalized

/-- Entries in normal form go through the loop as they are. -/
theorem normalizeLoop_canonical {normalized : List String} {n : ℕ}
    (hc : ∀ e ∈ entries, Canonical e) (hd : (entries.reverse ++ normalized).Nodup)
    (hn : n + entries.length ≤ maxRepositories) :
    normalizeLoop L entries n normalized = .ok (entries.reverse ++ normalized) := by
  induction entries generalizing n normalized with
  | nil => rfl
  | cons e rest ih =>
    have he : Canonical e := hc e mem_cons_self
    rw [reverse_cons, append_assoc, singleton_append] at hd ⊢
    have hf : e ∉ normalized := (nodup_cons.mp (List.Nodup.of_append_right hd)).1
    rw [length_cons] at hn
    have hfw : ¬ n + 1 > maxRepositories := by omega
    have hs : ¬ byteLength e > maxRepositoryLength := not_lt.mpr he.short
    simp only [normalizeLoop, he.trimSpace_eq, he.ne_empty, hfw, hs, he.repository,
      he.toLower_eq, insert_of_not_mem hf, Bool.not_true, Bool.false_eq_true, ↓reduceIte]
    apply ih
    · intro e' he'
      exact hc e' (mem_cons_of_mem _ he')
    · exact hd
    · omega

theorem NormalForm.normalize_eq (h : NormalForm entries) : normalize L entries = .ok entries := by
  have hd : (entries.reverse ++ []).Nodup := by
    rw [append_nil, nodup_reverse]
    exact h.distinct
  have hl := normalizeLoop_canonical (L := L) (n := 0) h.canonical hd
    (by simpa using h.few)
  rw [append_nil] at hl
  have hp : (entries.reverse.insertionSort (· ≤ ·)).Perm entries :=
    (perm_insertionSort _ _).trans (reverse_perm entries)
  have hs := hp.eq_of_pairwise' (pairwise_insertionSort _ _) h.sorted
  simp only [normalize, hl, hs]

theorem normalize_normalize (h : normalize L repositories = .ok entries) :
    normalize L entries = .ok entries :=
  (normalForm_of_normalize h).normalize_eq

end NormalForm

section Format

variable {L} {entries : List String}

theorem normalizeLoop_append_blank (repositories normalized : List String) (n : ℕ) :
    normalizeLoop L (repositories ++ [""]) n normalized = normalizeLoop L repositories n normalized := by
  induction repositories generalizing n normalized with
  | nil => rfl
  | cons repository rest ih => simp only [cons_append, normalizeLoop, ih]

theorem normalize_append_blank (repositories : List String) :
    normalize L (repositories ++ [""]) = normalize L repositories := by
  simp only [normalize, normalizeLoop_append_blank]

theorem Canonical.no_newline {s : String} (h : Canonical s) : '\n' ∉ s.toList := by
  intro hm
  rcases mem_repository h.repository hm with h | h
  · exact absurd h (by decide)
  · exact absurd h (by decide)

theorem intercalate_append_nil {α : Type} (sep : List α) {ls : List (List α)} (hne : ls ≠ []) :
    sep.intercalate (ls ++ [[]]) = sep.intercalate ls ++ sep := by
  induction ls with
  | nil => exact absurd rfl hne
  | cons l ls ih =>
    cases ls with
    | nil => simp [List.intercalate]
    | cons m ls =>
      have ih := ih (cons_ne_nil m ls)
      simp only [List.intercalate, cons_append, intersperse_cons_cons, flatten_cons,
        append_assoc] at ih ⊢
      rw [ih]

/-- The lines of a text, with the blank one behind the last newline. -/
theorem splitOn_lines (h : ∀ e ∈ entries, Canonical e) (hne : entries ≠ []) :
    (("\n".intercalate entries ++ "\n").toList.splitOn '\n').map String.ofList = entries ++ [""] := by
  have ht : ("\n".intercalate entries ++ "\n").toList =
      ['\n'].intercalate (entries.map String.toList ++ [[]]) := by
    rw [String.toList_append, String.toList_intercalate]
    change ['\n'].intercalate _ ++ ['\n'] = _
    rw [intercalate_append_nil _ (by simpa using hne)]
  have hln : ∀ l ∈ entries.map String.toList ++ [[]], '\n' ∉ l := by
    intro l hl
    rw [mem_append, mem_map, mem_singleton] at hl
    rcases hl with ⟨e, he, rfl⟩ | rfl
    · exact (h e he).no_newline
    · exact not_mem_nil
  rw [ht, splitOn_intercalate _ hln (by simp), map_append, map_map]
  simp [Function.comp_def]

theorem NormalForm.parse_format (h : NormalForm entries) :
    ∃ text, format L entries = .ok text ∧ parse L text = .ok entries := by
  unfold format
  rw [h.normalize_eq]
  refine ⟨_, rfl, ?_⟩
  unfold parse
  split
  · rename_i hn
    subst hn
    rfl
  · rename_i hne
    rw [splitOn_lines h.canonical hne, normalize_append_blank, h.normalize_eq]

end Format

end Orkano.RepoAllowlist
