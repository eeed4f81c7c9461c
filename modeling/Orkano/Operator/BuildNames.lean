import Mathlib.Data.List.Chain
import Mathlib.Data.List.Nodup
import Mathlib.Data.Set.Function
import Orkano.Operator.BuildController.Controller
import Orkano.Operator.Dispatcher
import Orkano.Text.Lines

/-!
The names derived for Builds and Jobs. A name that is too long is cut, trimmed and
extended by a hash, so both forms have to be valid names and have to stay apart.
-/
namespace Orkano.Operator

open List

section Dotted

/-- A dot stands between letters and digits only. -/
def DotApart (x y : Char) : Prop :=
  (x = '.' → isLowerAlphanum y = true) ∧ (y = '.' → isLowerAlphanum x = true)

structure Dotted (cs : List Char) : Prop where
  nonempty : cs ≠ []
  chars : ∀ c ∈ cs, isLowerAlphanum c = true ∨ c = '-' ∨ c = '.'
  head : ∀ c ∈ cs.head?, isLowerAlphanum c = true
  last : ∀ c ∈ cs.getLast?, isLowerAlphanum c = true
  apart : cs.IsChain DotApart

theorem not_isLowerAlphanum_dot : isLowerAlphanum '.' ≠ true := by decide

theorem not_isLowerAlphanum_dash : isLowerAlphanum '-' ≠ true := by decide

variable {cs : List Char}

theorem isChain_dotApart (h : '.' ∉ cs) : cs.IsChain DotApart := by
  induction cs with
  | nil => exact isChain_nil
  | cons c cs ih =>
    rw [mem_cons, not_or] at h
    refine isChain_cons.mpr ⟨fun y hy => ⟨fun hc => ?_, fun hd => ?_⟩, ih h.2⟩
    · exact absurd hc.symm h.1
    · exact absurd (hd ▸ mem_of_mem_head? hy) h.2

/-- A label is a name without dots. -/
theorem isLabel_iff_dotted (h : '.' ∉ cs) : isLabel cs = true ↔ Dotted cs := by
  simp only [isLabel, Bool.and_eq_true, Option.any_eq_true, all_eq_true, Bool.or_eq_true,
    decide_eq_true_eq]
  constructor
  · rintro ⟨⟨⟨c, hh, hc⟩, ⟨d, hl, hd⟩⟩, hch⟩
    exact {
      nonempty := by
        rintro rfl
        simp at hh
      chars := fun x hx => (hch x hx).imp_right .inl
      head := by simp [hh, hc]
      last := by simp [hl, hd]
      apart := isChain_dotApart h }
  · intro hdt
    obtain ⟨c, hh⟩ := Option.ne_none_iff_exists'.mp
      (mt head?_eq_none_iff.mp hdt.nonempty)
    obtain ⟨d, hl⟩ := Option.ne_none_iff_exists'.mp
      (mt getLast?_eq_none_iff.mp hdt.nonempty)
    refine ⟨⟨⟨c, hh, hdt.head c hh⟩, ⟨d, hl, hdt.last d hl⟩⟩, ?_⟩
    intro x hx
    rcases hdt.chars x hx with hx' | hx' | rfl
    · exact .inl hx'
    · exact .inr hx'
    · exact absurd hx h

/-- Two names with a dot between them are a name, and only those. -/
theorem dotted_append_dot {l m : List Char} : Dotted (l ++ '.' :: m) ↔ Dotted l ∧ Dotted m := by
  constructor
  · intro h
    obtain ⟨hl, hm, hj⟩ := isChain_append.mp h.apart
    obtain ⟨hn, hm⟩ := isChain_cons.mp hm
    have hln : l ≠ [] := by
      rintro rfl
      exact not_isLowerAlphanum_dot (h.head '.' rfl)
    have hmn : m ≠ [] := by
      rintro rfl
      exact not_isLowerAlphanum_dot (h.last '.' (by simp))
    constructor
    · exact {
        nonempty := hln
        chars := fun c hc => h.chars c (by simp [hc])
        head := fun c hc => h.head c (by rwa [head?_append_of_ne_nil _ hln])
        last := fun c hc => (hj c hc '.' rfl).2 rfl
        apart := hl }
    exact {
      nonempty := hmn
      chars := fun c hc => h.chars c (by simp [hc])
      head := fun c hc => (hn c hc).1 rfl
      last := fun c hc => h.last c (by
        rw [append_cons, getLast?_append_of_ne_nil _ hmn]
        exact hc)
      apart := hm }
  · rintro ⟨hl, hm⟩
    exact {
      nonempty := by simp
      chars := by
        intro c hc
        rcases mem_append.mp hc with hc | hc
        · exact hl.chars c hc
        rcases mem_cons.mp hc with rfl | hc
        · exact .inr (.inr rfl)
        · exact hm.chars c hc
      head := by
        rw [head?_append_of_ne_nil _ hl.nonempty]
        exact hl.head
      last := by
        rw [append_cons, getLast?_append_of_ne_nil _ hm.nonempty]
        exact hm.last
      apart := isChain_append.mpr ⟨hl.apart,
        isChain_cons.mpr ⟨fun y hy => ⟨fun _ => hm.head y hy, fun hd => by
          exact absurd (hm.head y hy) (hd ▸ not_isLowerAlphanum_dot)⟩, hm.apart⟩,
        fun x hx y hy => by
          obtain rfl : '.' = y := by simpa using hy
          exact ⟨fun hd => absurd (hl.last x hx) (hd ▸ not_isLowerAlphanum_dot),
            fun _ => hl.last x hx⟩⟩ }

theorem dotted_intercalate {ls : List (List Char)} (hne : ls ≠ []) :
    Dotted (['.'].intercalate ls) ↔ ∀ l ∈ ls, Dotted l := by
  induction ls with
  | nil => exact absurd rfl hne
  | cons l ls ih =>
    cases ls with
    | nil => simp
    | cons m ls =>
      rw [intercalate_cons_cons, append_assoc, singleton_append,
        dotted_append_dot, ih (by simp)]
      simp

theorem isSubdomain_iff (name : String) : isSubdomain name = true ↔ Dotted name.toList := by
  rw [← @intercalate_splitOn _ name.toList _ _ '.',
    dotted_intercalate (splitOn_ne_nil _ _), isSubdomain, all_eq_true]
  exact forall₂_congr fun l hl => isLabel_iff_dotted (Text.notMem_of_mem_splitOn hl)

end Dotted

section CutAndExtend

def isDashDot (c : Char) : Bool := c = '-' || c = '.'

theorem trimRightDashDot_eq (cs : List Char) : trimRightDashDot cs = cs.rdropWhile isDashDot :=
  rfl

variable {cs : List Char}

/-- What is left of a cut name is a name: trimming makes its end a letter or digit. -/
theorem Dotted.cut (h : Dotted cs) {k : ℕ} (hk : 0 < k) :
    Dotted ((cs.take k).rdropWhile isDashDot) := by
  obtain ⟨c, rest, rfl⟩ := exists_cons_of_ne_nil h.nonempty
  have hc : isLowerAlphanum c = true := h.head c rfl
  have hp : ((c :: rest).take k).rdropWhile isDashDot <+: c :: rest :=
    ( rdropWhile_prefix _ _).trans ( take_prefix _ _)
  have hne : ((c :: rest).take k).rdropWhile isDashDot ≠ [] := by
    intro hn
    have ha := rdropWhile_eq_nil_iff.mp hn c (by
      rw [take_cons hk]
      exact mem_cons_self)
    simp only [isDashDot, Bool.or_eq_true, decide_eq_true_eq] at ha
    rcases ha with rfl | rfl
    · exact not_isLowerAlphanum_dash hc
    · exact not_isLowerAlphanum_dot hc
  exact {
    nonempty := hne
    chars := fun x hx => h.chars x (hp.subset hx)
    head := by
      obtain ⟨d, kept, hkp⟩ := exists_cons_of_ne_nil hne
      rw [hkp] at hp ⊢
      obtain ⟨rfl, -⟩ := cons_prefix_cons.mp hp
      simpa using hc
    last := by
      intro x hx
      rw [getLast?_eq_some_getLast hne, Option.mem_some_iff] at hx
      have hnt : ¬ isDashDot x = true := hx ▸ rdropWhile_last_not isDashDot _ hne
      have hm := h.chars x (hp.subset (hx ▸ getLast_mem hne))
      simpa [isDashDot] using hm.resolve_right (by simpa [isDashDot] using hnt)
    apart := h.apart.prefix hp }

theorem dotted_of_all (hne : cs ≠ []) (h : cs.all isLowerAlphanum = true) : Dotted cs := by
  rw [all_eq_true] at h
  exact {
    nonempty := hne
    chars := fun c hc => .inl (h c hc)
    head := fun c hc => h c (mem_of_mem_head? hc)
    last := fun c hc => h c (mem_of_getLast? hc)
    apart := isChain_dotApart fun hm => not_isLowerAlphanum_dot (h _ hm) }

/-- A name stays one when a word is appended with a dash. -/
theorem Dotted.extend {word : List Char} (h : Dotted cs) (hne : word ≠ [])
    (hw : word.all isLowerAlphanum = true) : Dotted (cs ++ '-' :: word) := by
  rw [all_eq_true] at hw
  have hd : '.' ∉ '-' :: word := by
    rw [mem_cons, not_or]
    exact ⟨by decide, fun hm => not_isLowerAlphanum_dot (hw _ hm)⟩
  exact {
    nonempty := by simp
    chars := by
      intro c hc
      rcases mem_append.mp hc with hc | hc
      · exact h.chars c hc
      rcases mem_cons.mp hc with rfl | hc
      · exact .inr (.inl rfl)
      · exact .inl (hw c hc)
    head := by
      rw [head?_append_of_ne_nil _ h.nonempty]
      exact h.head
    last := by
      rw [append_cons, getLast?_append_of_ne_nil _ hne]
      exact fun c hc => hw c (mem_of_getLast? hc)
    apart := by
      refine isChain_append.mpr ⟨h.apart, isChain_dotApart hd, fun x hx y hy => ?_⟩
      obtain rfl : '-' = y := by simpa using hy
      exact ⟨fun hxd => absurd (h.last x hx) (hxd ▸ not_isLowerAlphanum_dot),
        fun hy => by simp at hy⟩ }

theorem isLowerAlphanum_of_isLowerHex {c : Char} (h : isLowerHex c = true) :
    isLowerAlphanum c = true := by
  have hl : c.isLower = (decide (c.val ≥ 'a'.val) && decide (c.val ≤ 'z'.val)) := rfl
  simp only [isLowerHex, isLowerAlphanum, Bool.or_eq_true, Bool.and_eq_true, decide_eq_true_eq,
    hl] at h ⊢
  refine h.imp_right fun h => ⟨h.1, ?_⟩
  exact h.2.trans (by decide)

theorem all_isLowerAlphanum (h : cs.all isLowerHex = true) : cs.all isLowerAlphanum = true :=
  all_eq_true.mpr fun c hc => isLowerAlphanum_of_isLowerHex (all_eq_true.mp h c hc)

theorem notMem_of_all_hex {c : Char} (h : cs.all isLowerHex = true) (hc : isLowerHex c = false) :
    c ∉ cs := by
  intro hm
  rw [all_eq_true.mp h c hm] at hc
  cases hc

end CutAndExtend

section Requests

variable (T : TextPrimitives)

/-- The first eight hex digits of a SHA-256 sum. -/
def shortHash (s : String) : String := String.ofList ((T.sha256Hex s).toList.take 8)

structure HexDigest : Prop where
  length : ∀ s, (T.sha256Hex s).length = 64
  hex : ∀ s, (T.sha256Hex s).toList.all isLowerHex = true

/-- An App's name, a resolved commit and a delivery, as the dispatcher has them when it
names a Build. -/
structure BuildRequest where
  appName : String
  commit : String
  delivery : Delivery
  app_subdomain : isSubdomain appName = true
  app_length : appName.length ≤ maxNameLen
  commit_hex : isCommit commit = true
  delivery_valid : validateDelivery delivery = none

variable {T} in
theorem HexDigest.shortHash_length (h : HexDigest T) (s : String) : (shortHash T s).length = 8 := by
  have h64 := h.length s
  simp only [shortHash, String.length_ofList, length_take, String.length_toList]
  omega

variable {T} in
theorem HexDigest.shortHash_hex (h : HexDigest T) (s : String) :
    (shortHash T s).toList.all isLowerHex = true := by
  have ha := h.hex s
  rw [all_eq_true] at ha
  rw [shortHash, String.toList_ofList, all_eq_true]
  exact fun c hc => ha c (mem_of_mem_take hc)

variable {T} in
theorem HexDigest.shortHash_ne_nil (h : HexDigest T) (s : String) : (shortHash T s).toList ≠ [] :=
  ne_nil_of_length_pos (by rw [String.length_toList, h.shortHash_length]; omega)

namespace BuildRequest

variable (r : BuildRequest)

def name : String := buildNameForDelivery T r.appName r.commit r.delivery

def short : String := String.ofList (r.commit.toList.take buildNameSHALen)

def tail : String :=
  if r.delivery.eventType ≠ .manual then r.short
  else r.short ++ "-" ++ ("r" ++ shortHash T r.delivery.deliveryID)

/-- The App's part of a name that would be too long. -/
def shortened : String :=
  String.ofList (trimRightDashDot (r.appName.toList.take
    (maxNameLen - (r.tail T).length - (shortHash T r.appName).length - 2))) ++ "-" ++
    shortHash T r.appName

def fits : Bool := (r.appName ++ "-" ++ r.tail T).length ≤ maxNameLen

def stem : String := if r.fits T then r.appName else r.shortened T

theorem buildNameWithSuffix_eq {suffix : String}
    (h : (if suffix = "" then r.short else r.short ++ "-" ++ suffix) = r.tail T) :
    buildNameWithSuffix T r.appName r.commit suffix = r.stem T ++ "-" ++ r.tail T := by
  simp only [buildNameWithSuffix]
  rw [← short, h]
  by_cases hf : (r.appName ++ "-" ++ r.tail T).length ≤ maxNameLen
  · simp only [stem, fits, hf, if_true, decide_true]
  · simp only [stem, fits, hf, if_false, decide_false, Bool.false_eq_true, shortened, shortHash]

theorem name_eq : r.name T = r.stem T ++ "-" ++ r.tail T := by
  by_cases hm : r.delivery.eventType ≠ .manual
  · rw [name, buildNameForDelivery, if_pos hm]
    exact r.buildNameWithSuffix_eq T (by rw [if_pos rfl, tail, if_pos hm])
  have hs : "r" ++ shortHash T r.delivery.deliveryID ≠ "" := by
    intro h
    have := congrArg String.length h
    simp at this
  rw [name, buildNameForDelivery, if_neg hm]
  exact r.buildNameWithSuffix_eq T (by
    rw [show manualHashLen = 8 from rfl, ← shortHash, if_neg hs, tail, if_neg hm])

theorem eventType_push (h : r.delivery.eventType ≠ .manual) : r.delivery.eventType = .push := by
  have hv := r.delivery_valid
  rw [validateDelivery] at hv
  cases he : r.delivery.eventType with
  | push => rfl
  | manual => exact absurd he h
  | other text =>
    simp only [he] at hv
    split at hv <;> cases hv

theorem short_length : r.short.length = 12 := by
  have hl : r.commit.length = 40 ∨ r.commit.length = 64 := by
    have h := r.commit_hex
    simp only [isCommit, Bool.and_eq_true, Bool.or_eq_true, decide_eq_true_eq] at h
    exact h.1
  simp only [short, String.length_ofList, length_take, String.length_toList, buildNameSHALen]
  omega

theorem short_ne_nil : r.short.toList ≠ [] :=
  ne_nil_of_length_pos (by simp [String.length_toList, r.short_length])

theorem short_hex : r.short.toList.all isLowerHex = true := by
  have h := r.commit_hex
  simp only [isCommit, Bool.and_eq_true, all_eq_true] at h
  rw [short, String.toList_ofList, all_eq_true]
  exact fun c hc => h.2 c (mem_of_mem_take hc)

theorem tail_push (h : r.delivery.eventType ≠ .manual) : r.tail T = r.short := if_pos h

theorem tail_manual (h : r.delivery.eventType = .manual) :
    (r.tail T).toList =
      r.short.toList ++ '-' :: 'r' :: (shortHash T r.delivery.deliveryID).toList := by
  simp [tail, h]

theorem name_toList : (r.name T).toList = (r.stem T).toList ++ '-' :: (r.tail T).toList := by
  simp [name_eq]

def lastPart : List Char :=
  if r.delivery.eventType ≠ .manual then r.short.toList
  else 'r' :: (shortHash T r.delivery.deliveryID).toList

theorem exists_front : ∃ front, (r.name T).toList = front ++ '-' :: r.lastPart T := by
  rw [name_toList]
  by_cases h : r.delivery.eventType = .manual
  · exact ⟨(r.stem T).toList ++ '-' :: r.short.toList, by simp [r.tail_manual T h, lastPart, h]⟩
  · exact ⟨(r.stem T).toList, by simp [r.tail_push T h, lastPart, h]⟩

variable {T} (hT : HexDigest T)

include hT

theorem tail_length : 12 ≤ (r.tail T).length ∧ (r.tail T).length ≤ 22 := by
  by_cases h : r.delivery.eventType = .manual
  · have hl := congrArg List.length (r.tail_manual T h)
    simp only [String.length_toList, length_append, length_cons, r.short_length,
      hT.shortHash_length] at hl
    omega
  · rw [r.tail_push T h, r.short_length]
    omega

theorem shortened_dotted : Dotted (r.shortened T).toList := by
  have hk : 0 < maxNameLen - (r.tail T).length - (shortHash T r.appName).length - 2 := by
    have := r.tail_length hT
    have := hT.shortHash_length r.appName
    simp only [maxNameLen]
    omega
  have := (((isSubdomain_iff r.appName).mp r.app_subdomain).cut hk).extend
    (hT.shortHash_ne_nil r.appName) (all_isLowerAlphanum (hT.shortHash_hex r.appName))
  simpa [shortened, trimRightDashDot_eq] using this

theorem stem_dotted : Dotted (r.stem T).toList := by
  rw [stem]
  split
  · exact (isSubdomain_iff r.appName).mp r.app_subdomain
  · exact r.shortened_dotted hT

theorem name_dotted : Dotted (r.name T).toList := by
  have hp : Dotted ((r.stem T).toList ++ '-' :: r.short.toList) :=
    (r.stem_dotted hT).extend r.short_ne_nil (all_isLowerAlphanum r.short_hex)
  rw [name_toList]
  by_cases h : r.delivery.eventType = .manual
  · rw [r.tail_manual T h, ← cons_append, ← append_assoc]
    apply hp.extend (by simp)
    rw [all_cons, all_isLowerAlphanum (hT.shortHash_hex _)]
    decide
  · rwa [r.tail_push T h]

theorem shortened_length : (r.shortened T).length + 1 + (r.tail T).length ≤ maxNameLen := by
  have ht := r.tail_length hT
  have hh := hT.shortHash_length r.appName
  have hk := ( rdropWhile_prefix isDashDot (r.appName.toList.take
    (maxNameLen - (r.tail T).length - (shortHash T r.appName).length - 2))).length_le
  rw [length_take] at hk
  simp only [shortened, String.length_append, String.length_ofList, trimRightDashDot_eq]
  have hd : "-".length = 1 := rfl
  simp only [maxNameLen] at *
  omega

theorem name_length : (r.name T).length ≤ maxNameLen := by
  rw [name_eq, String.length_append, String.length_append, stem]
  split
  · rename_i h
    simpa [fits] using h
  · exact r.shortened_length hT

theorem dash_notMem_lastPart : '-' ∉ r.lastPart T := by
  rw [lastPart]
  split
  · exact notMem_of_all_hex r.short_hex (by decide)
  · rw [mem_cons, not_or]
    exact ⟨by decide, notMem_of_all_hex (hT.shortHash_hex _) (by decide)⟩

theorem lastPart_length :
    (r.lastPart T).length = if r.delivery.eventType = .manual then 9 else 12 := by
  by_cases h : r.delivery.eventType = .manual
  · rw [lastPart, if_neg (not_not.mpr h), if_pos h, length_cons, String.length_toList,
      hT.shortHash_length]
  · rw [lastPart, if_pos h, if_neg h, String.length_toList, r.short_length]

variable {r r' : BuildRequest}

theorem lastPart_eq_of_name_eq (h : r.name T = r'.name T) : r.lastPart T = r'.lastPart T := by
  obtain ⟨front, hf⟩ := r.exists_front T
  obtain ⟨front', hf'⟩ := r'.exists_front T
  have heq : front ++ '-' :: r.lastPart T = front' ++ '-' :: r'.lastPart T := by
    rw [← hf, ← hf', h]
  exact (Text.append_cons_inj_of_notMem heq (r.dash_notMem_lastPart hT)
    (r'.dash_notMem_lastPart hT)).2

/-- A commit's digits and a manual request's suffix differ in length. -/
theorem manual_iff_of_name_eq (h : r.name T = r'.name T) :
    r.delivery.eventType = .manual ↔ r'.delivery.eventType = .manual := by
  have hl := congrArg List.length (lastPart_eq_of_name_eq hT h)
  rw [r.lastPart_length hT, r'.lastPart_length hT] at hl
  constructor
  · intro hm
    by_contra hm'
    rw [if_pos hm, if_neg hm'] at hl
    omega
  intro hm'
  by_contra hm
  rw [if_neg hm, if_pos hm'] at hl
  omega

/-- A name is read back from its end: the request's suffix, the commit, the App's part. -/
theorem parts_of_name_eq (h : r.name T = r'.name T) :
    r.stem T = r'.stem T ∧ r.short = r'.short ∧
      (r.delivery.eventType = .manual →
        shortHash T r.delivery.deliveryID = shortHash T r'.delivery.deliveryID) := by
  have hk := manual_iff_of_name_eq hT h
  have hn : (r.stem T).toList ++ '-' :: (r.tail T).toList =
      (r'.stem T).toList ++ '-' :: (r'.tail T).toList := by
    rw [← name_toList, ← name_toList, h]
  have hsh : '-' ∉ r.short.toList := notMem_of_all_hex r.short_hex (by decide)
  have hs' : '-' ∉ r'.short.toList := notMem_of_all_hex r'.short_hex (by decide)
  by_cases hm : r.delivery.eventType = .manual
  · have hm' := hk.mp hm
    have hl := lastPart_eq_of_name_eq hT h
    simp only [lastPart, hm, hm', ne_eq, not_true_eq_false, if_false, List.cons.injEq,
      true_and, String.toList_inj] at hl
    rw [r.tail_manual T hm, r'.tail_manual T hm', hl, ← cons_append, ← cons_append,
      ← append_assoc, ← append_assoc] at hn
    obtain ⟨hs, heq⟩ :=
      Text.append_cons_inj_of_notMem (append_cancel_right hn) hsh hs'
    exact ⟨String.toList_inj.mp hs, String.toList_inj.mp heq, fun _ => hl⟩
  · rw [r.tail_push T hm, r'.tail_push T (mt hk.mpr hm)] at hn
    obtain ⟨hs, heq⟩ := Text.append_cons_inj_of_notMem hn hsh hs'
    exact ⟨String.toList_inj.mp hs, String.toList_inj.mp heq, fun hm' => absurd hm' hm⟩

end BuildRequest

section Jobs

open BuildController (jobName)

variable {T}
variable {buildName : String}

theorem jobName_of_long (h : ¬ buildName.length ≤ 63) :
    (jobName (shortHash T) buildName).toList =
      (buildName.toList.take 54).rdropWhile isDashDot ++
        '-' :: (shortHash T buildName).toList := by
  have hc : (fun c : Char => decide (c = '-') || decide (c = '.')) = isDashDot := rfl
  simp [jobName, h, hc]

variable (hT : HexDigest T)

include hT

theorem jobName_dotted (h : Dotted buildName.toList) :
    Dotted (jobName (shortHash T) buildName).toList := by
  by_cases hl : buildName.length ≤ 63
  · rwa [jobName, if_pos hl]
  rw [jobName_of_long hl]
  exact (h.cut (by omega)).extend (hT.shortHash_ne_nil buildName)
    (all_isLowerAlphanum (hT.shortHash_hex buildName))

theorem jobName_length (buildName : String) : (jobName (shortHash T) buildName).length ≤ 63 := by
  by_cases hl : buildName.length ≤ 63
  · rwa [jobName, if_pos hl]
  have hk := ( rdropWhile_prefix isDashDot (buildName.toList.take 54)).length_le
  rw [length_take] at hk
  rw [← String.length_toList, jobName_of_long hl, length_append, length_cons,
    String.length_toList, hT.shortHash_length]
  omega

/-- A Build's own name never looks like a Job's shortened name: eight digits follow the
last dash of the one, nine or twelve characters that of the other. -/
theorem BuildRequest.name_ne_cut (r : BuildRequest) (cs : List Char) (s : String) :
    (r.name T).toList ≠ cs ++ '-' :: (shortHash T s).toList := by
  intro h
  obtain ⟨front, hf⟩ := r.exists_front T
  have hls := (Text.append_cons_inj_of_notMem (hf.symm.trans h) (r.dash_notMem_lastPart hT)
    (notMem_of_all_hex (hT.shortHash_hex s) (by decide))).2
  have hl := congrArg List.length hls
  rw [r.lastPart_length hT, String.length_toList, hT.shortHash_length] at hl
  split at hl <;> omega

/-- Jobs have different names where the short hashes of their Builds differ. -/
theorem jobName_inj {S : Set String} (hS : Set.InjOn (shortHash T) S) {r r' : BuildRequest}
    (hr : r.name T ∈ S) (hr' : r'.name T ∈ S)
    (h : jobName (shortHash T) (r.name T) = jobName (shortHash T) (r'.name T)) :
    r.name T = r'.name T := by
  by_cases hl : (r.name T).length ≤ 63 <;> by_cases hl' : (r'.name T).length ≤ 63
  · rwa [jobName, jobName, if_pos hl, if_pos hl'] at h
  · have heq := jobName_of_long (T := T) hl'
    rw [← h, jobName, if_pos hl] at heq
    exact absurd heq (r.name_ne_cut hT _ _)
  · have heq := jobName_of_long (T := T) hl
    rw [h, jobName, if_pos hl'] at heq
    exact absurd heq (r'.name_ne_cut hT _ _)
  have heq := congrArg String.toList h
  rw [jobName_of_long hl, jobName_of_long hl'] at heq
  have hh := (Text.append_cons_inj_of_notMem heq
    (notMem_of_all_hex (hT.shortHash_hex _) (by decide))
    (notMem_of_all_hex (hT.shortHash_hex _) (by decide))).2
  exact hS hr hr' (String.toList_inj.mp hh)

end Jobs

section Separation

open BuildController (jobName)

variable {T}

/-- Every derived name is a valid name of a length its kind allows; a push and a manual
request never share a Build name; and Jobs of different Builds have different names as
long as the short hashes of the Builds' names are different. -/
theorem derived_names_valid_and_apart (hT : HexDigest T) :
    (∀ r : BuildRequest, isSubdomain (r.name T) = true ∧ (r.name T).length ≤ maxNameLen ∧
      isSubdomain (jobName (shortHash T) (r.name T)) = true ∧
      (jobName (shortHash T) (r.name T)).length ≤ 63) ∧
    (∀ r r' : BuildRequest, r.delivery.eventType = .push → r'.delivery.eventType = .manual →
      r.name T ≠ r'.name T) ∧
    (∀ S : Set String, Set.InjOn (shortHash T) S → ∀ r r' : BuildRequest,
      r.name T ∈ S → r'.name T ∈ S → r.name T ≠ r'.name T →
      jobName (shortHash T) (r.name T) ≠ jobName (shortHash T) (r'.name T)) := by
  refine ⟨fun r => ?_, fun r r' hpush hmanual h => ?_, fun S hS r r' hr hr' hne h => ?_⟩
  · rw [isSubdomain_iff, isSubdomain_iff]
    exact ⟨r.name_dotted hT, r.name_length hT, jobName_dotted hT (r.name_dotted hT),
      jobName_length hT _⟩
  · have := (BuildRequest.manual_iff_of_name_eq hT h).mpr hmanual
    rw [hpush] at this
    cases this
  · exact hne (jobName_inj hT hS hr hr' h)

variable (T) in
/-- The App's name is, letter for letter, what another App's over-long name is cut to for the
same commit digits and suffix. -/
def BuildRequest.Shadows (r r' : BuildRequest) : Prop :=
  r.tail T = r'.tail T ∧ r.fits T = true ∧ r'.fits T = false ∧ r.appName = r'.shortened T

/-- A shadow's Build has the name of the Build of the App it shadows. -/
theorem BuildRequest.Shadows.name_eq {r r' : BuildRequest} (h : r.Shadows T r') :
    r.name T = r'.name T := by
  obtain ⟨ht, hf, hf', ha⟩ := h
  rw [BuildRequest.name_eq, BuildRequest.name_eq, stem, stem, if_pos hf, hf', ht, ha]
  rfl

theorem BuildRequest.Shadows.appName_ne {r r' : BuildRequest} (h : r.Shadows T r') :
    r.appName ≠ r'.appName := by
  obtain ⟨ht, hf, hf', -⟩ := h
  intro ha
  rw [fits, ha, ht, ← fits, hf'] at hf
  cases hf

theorem BuildRequest.shortHash_of_shortened_eq (hT : HexDigest T) {r r' : BuildRequest}
    (h : r.shortened T = r'.shortened T) : shortHash T r.appName = shortHash T r'.appName := by
  have heq := congrArg String.toList h
  simp only [shortened, String.toList_append, append_assoc] at heq
  exact String.toList_inj.mp (Text.append_cons_inj_of_notMem heq
    (notMem_of_all_hex (hT.shortHash_hex _) (by decide))
    (notMem_of_all_hex (hT.shortHash_hex _) (by decide))).2

/-- Builds share a name only for one App, one short commit and pushes or one manual request,
exactly where neither App's name is the shortened form of the other's. -/
theorem build_names_separate_apps (hT : HexDigest T) {S : Set String}
    (hS : Set.InjOn (shortHash T) S) (r r' : BuildRequest)
    (happ : r.appName ∈ S) (happ' : r'.appName ∈ S)
    (hid : r.delivery.deliveryID ∈ S) (hid' : r'.delivery.deliveryID ∈ S) :
    (r.name T = r'.name T →
      r.appName = r'.appName ∧
        r.commit.toList.take buildNameSHALen = r'.commit.toList.take buildNameSHALen ∧
        (r.delivery.eventType = .push ∧ r'.delivery.eventType = .push ∨
          r.delivery.eventType = .manual ∧ r'.delivery.eventType = .manual ∧
            r.delivery.deliveryID = r'.delivery.deliveryID)) ↔
      ¬r.Shadows T r' ∧ ¬r'.Shadows T r := by
  constructor
  · intro h
    exact ⟨fun hs => hs.appName_ne (h hs.name_eq).1,
      fun hs => hs.appName_ne (h hs.name_eq.symm).1.symm⟩
  rintro ⟨hclear, hclear'⟩ h
  obtain ⟨hstem, hshort, hsuffix⟩ := BuildRequest.parts_of_name_eq hT h
  have hkind := BuildRequest.manual_iff_of_name_eq hT h
  have htail : r.tail T = r'.tail T := by
    have hn := h
    rw [BuildRequest.name_eq, BuildRequest.name_eq, hstem] at hn
    exact String.append_right_inj _ |>.mp hn
  refine ⟨?_, String.ofList_injective hshort, ?_⟩
  · rw [BuildRequest.stem, BuildRequest.stem] at hstem
    cases hfits : r.fits T <;> cases hfits' : r'.fits T <;>
      simp only [hfits, hfits', if_true, if_false, Bool.false_eq_true] at hstem
    · exact hS happ happ' (BuildRequest.shortHash_of_shortened_eq hT hstem)
    · exact absurd ⟨htail.symm, hfits', hfits, hstem.symm⟩ hclear'
    · exact absurd ⟨htail, hfits, hfits', hstem⟩ hclear
    · exact hstem
  · by_cases hm : r.delivery.eventType = .manual
    · exact .inr ⟨hm, hkind.mp hm, hS hid hid' (hsuffix hm)⟩
    · exact .inl ⟨r.eventType_push hm, r'.eventType_push (mt hkind.mpr hm)⟩

/-- The same request for an App that is named as the first App's name is cut. -/
def BuildRequest.shadow (r : BuildRequest) (hT : HexDigest T) : BuildRequest where
  appName := r.shortened T
  commit := r.commit
  delivery := r.delivery
  app_subdomain := (isSubdomain_iff _).mpr (r.shortened_dotted hT)
  app_length := by
    have := r.shortened_length hT
    omega
  commit_hex := r.commit_hex
  delivery_valid := r.delivery_valid

theorem BuildRequest.shadow_tail (r : BuildRequest) (hT : HexDigest T) :
    (r.shadow hT).tail T = r.tail T := by
  by_cases h : r.delivery.eventType = .manual
  · simp only [tail, short, shadow, h]
  · simp only [tail, short, shadow]
    rfl

theorem BuildRequest.shadow_fits (r : BuildRequest) (hT : HexDigest T) :
    (r.shadow hT).fits T = true := by
  have hl := r.shortened_length hT
  rw [fits, shadow_tail, String.length_append, String.length_append, decide_eq_true_eq]
  exact hl

/-- Every App name that is too long for a Build's name has a shadow, whatever the hash
function. -/
theorem BuildRequest.shadow_shadows (r : BuildRequest) (hT : HexDigest T) (h : r.fits T = false) :
    (r.shadow hT).Shadows T r :=
  ⟨r.shadow_tail hT, r.shadow_fits hT, h, rfl⟩

end Separation

section Samples

open BuildController (jobName)

def lengthDigest : TextPrimitives where
  sha256Hex s := String.ofList (List.replicate 64 (Nat.digitChar (s.length % 10)))
  toLower := id
  trimSpace := id

theorem hexDigest_lengthDigest : HexDigest lengthDigest := by
  constructor
  · simp [lengthDigest]
  intro s
  have hd : ∀ d : Fin 10, isLowerHex (Nat.digitChar d) = true := by decide
  have := hd ⟨s.length % 10, Nat.mod_lt _ (by omega)⟩
  simp [lengthDigest, this]

theorem shortHash_lengthDigest (s : String) :
    shortHash lengthDigest s = String.ofList (List.replicate 8 (Nat.digitChar (s.length % 10))) := by
  simp [shortHash, lengthDigest]

def pushOf (deliveryID : String) : Delivery := ⟨1, deliveryID, "acme/app", .push, ""⟩

def plainRequest : BuildRequest where
  appName := "web"
  commit := String.ofList (List.replicate 40 'c')
  delivery := pushOf "d"
  app_subdomain := by decide +kernel
  app_length := by decide
  commit_hex := by decide +kernel
  delivery_valid := by decide

/-- The App pushed again, with a commit that starts as the first one does. -/
def pushedAgain : BuildRequest where
  appName := "web"
  commit := String.ofList (List.replicate 12 'c' ++ List.replicate 28 'd')
  delivery := pushOf "dd"
  app_subdomain := plainRequest.app_subdomain
  app_length := plainRequest.app_length
  commit_hex := by decide +kernel
  delivery_valid := by decide

def dottedRequest : BuildRequest where
  appName := "a-long-name.with-a-dot.and-a-few-more-words.to-make-it-longer"
  commit := plainRequest.commit
  delivery := pushOf "d"
  app_subdomain := by decide +kernel
  app_length := by decide +kernel
  commit_hex := plainRequest.commit_hex
  delivery_valid := by decide

def longName : String := String.ofList (List.replicate maxNameLen 'a')

theorem longName_length : longName.length = maxNameLen := by
  rw [longName, String.length_ofList, length_replicate]

theorem dotted_replicate {n : ℕ} (hn : n ≠ 0) : Dotted (List.replicate n 'a') := by
  apply dotted_of_all
  · simpa using hn
  · rw [all_replicate, if_neg hn]
    decide

def longRequest : BuildRequest where
  appName := longName
  commit := plainRequest.commit
  delivery := pushOf "d"
  app_subdomain := by
    rw [isSubdomain_iff, longName, String.toList_ofList]
    exact dotted_replicate (by decide)
  app_length := longName_length.le
  commit_hex := plainRequest.commit_hex
  delivery_valid := by decide

/-- Two Apps whose names differ in a dot get Jobs of different names. -/
theorem plain_and_dotted_have_different_jobs :
    HexDigest lengthDigest ∧
      plainRequest.name lengthDigest ≠ dottedRequest.name lengthDigest ∧
      jobName (shortHash lengthDigest) (plainRequest.name lengthDigest) ≠
        jobName (shortHash lengthDigest) (dottedRequest.name lengthDigest) := by
  have hnames : ([plainRequest.name lengthDigest, dottedRequest.name lengthDigest].map
      (shortHash lengthDigest)).Nodup ∧
      plainRequest.name lengthDigest ≠ dottedRequest.name lengthDigest := by decide +kernel
  refine ⟨hexDigest_lengthDigest, hnames.2, ?_⟩
  exact (derived_names_valid_and_apart hexDigest_lengthDigest).2.2
    {s | s ∈ [plainRequest.name lengthDigest, dottedRequest.name lengthDigest]}
    (inj_on_of_nodup_map hnames.1) _ _ mem_cons_self (.tail _ mem_cons_self)
    hnames.2

/-- Two pushes of one App whose commits begin alike share a Build. -/
theorem pushed_again_converges :
    plainRequest.name lengthDigest = pushedAgain.name lengthDigest ∧
      plainRequest.appName = pushedAgain.appName ∧
      plainRequest.commit.toList.take buildNameSHALen =
        pushedAgain.commit.toList.take buildNameSHALen ∧
      (plainRequest.delivery.eventType = .push ∧ pushedAgain.delivery.eventType = .push ∨
        plainRequest.delivery.eventType = .manual ∧ pushedAgain.delivery.eventType = .manual ∧
          plainRequest.delivery.deliveryID = pushedAgain.delivery.deliveryID) := by
  have hfits : plainRequest.fits lengthDigest = true ∧ pushedAgain.fits lengthDigest = true ∧
      plainRequest.name lengthDigest = pushedAgain.name lengthDigest := by decide +kernel
  have hclear : ¬ plainRequest.Shadows lengthDigest pushedAgain :=
    fun h => absurd h.2.2.1 (by simp [hfits.2.1])
  have hclear' : ¬ pushedAgain.Shadows lengthDigest plainRequest :=
    fun h => absurd h.2.2.1 (by simp [hfits.1])
  exact ⟨hfits.2.2, (build_names_separate_apps hexDigest_lengthDigest
    (S := {s | s ∈ ["web", "d", "dd"]}) (inj_on_of_nodup_map (by decide +kernel))
    plainRequest pushedAgain mem_cons_self mem_cons_self
    (.tail _ mem_cons_self) (.tail _ (.tail _ mem_cons_self))).mpr ⟨hclear, hclear'⟩ hfits.2.2⟩

theorem longRequest_fits : longRequest.fits lengthDigest = false := by
  have hl : longRequest.appName.length = maxNameLen := longName_length
  rw [BuildRequest.fits, String.length_append, String.length_append, hl,
    decide_eq_false_iff_not, show "-".length = 1 from rfl]
  omega

theorem trimRightDashDot_replicate (n : ℕ) :
    trimRightDashDot (List.replicate n 'a') = List.replicate n 'a' := by
  rw [trimRightDashDot_eq, rdropWhile_eq_self_iff]
  intro hne
  rw [getLast_replicate]
  decide

theorem longRequest_shortened_length : (longRequest.shortened lengthDigest).length = 240 := by
  have ht : (longRequest.tail lengthDigest).length = 12 := longRequest.short_length
  have ha : longRequest.appName.toList = List.replicate maxNameLen 'a' := String.toList_ofList
  rw [BuildRequest.shortened, String.length_append, String.length_append,
    hexDigest_lengthDigest.shortHash_length, ht, ha, take_replicate,
    trimRightDashDot_replicate, String.length_ofList, length_replicate]
  rfl

/-- A hash that tells the two Apps and the delivery apart does not help. -/
theorem cut_name_is_taken :
    HexDigest lengthDigest ∧
      Set.InjOn (shortHash lengthDigest) {s | s ∈ [longRequest.appName,
        (longRequest.shadow hexDigest_lengthDigest).appName, "d"]} ∧
      (longRequest.shadow hexDigest_lengthDigest).appName ≠ longRequest.appName ∧
      (longRequest.shadow hexDigest_lengthDigest).name lengthDigest =
        longRequest.name lengthDigest := by
  have hshadow := longRequest.shadow_shadows hexDigest_lengthDigest longRequest_fits
  refine ⟨hexDigest_lengthDigest, inj_on_of_nodup_map ?_, hshadow.appName_ne, hshadow.name_eq⟩
  have hlen : (longRequest.shadow hexDigest_lengthDigest).appName.length = 240 :=
    longRequest_shortened_length
  have hlen' : longRequest.appName.length = 253 := longName_length
  simp only [map_cons, map_nil, shortHash_lengthDigest, hlen, hlen']
  decide +kernel

end Samples

end Requests

end Orkano.Operator
