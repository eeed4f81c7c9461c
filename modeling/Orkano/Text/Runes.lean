import Mathlib.Algebra.BigOperators.Group.List.Basic
import Mathlib.Algebra.GroupWithZero.Nat
import Mathlib.Data.List.Basic
import Mathlib.Data.Nat.Notation

/-!
Text as Go has it: bytes that are read as UTF-8 one rune after the other. Lowercasing works rune by
rune; its table is left open beyond ASCII.
-/
namespace Text

open List

abbrev Bytes := List UInt8

def replacement : Char := Char.ofNat 0xFFFD

/-- How many bytes follow a first byte, and the bounds of the one right after it. -/
def following (b : UInt8) : Option (ℕ × UInt8 × UInt8) :=
  if 0xc2 ≤ b && b ≤ 0xdf then some (1, 0x80, 0xbf)
  else if b = 0xe0 then some (2, 0xa0, 0xbf)
  else if b = 0xed then some (2, 0x80, 0x9f)
  else if 0xe1 ≤ b && b ≤ 0xef then some (2, 0x80, 0xbf)
  else if b = 0xf0 then some (3, 0x90, 0xbf)
  else if 0xf1 ≤ b && b ≤ 0xf3 then some (3, 0x80, 0xbf)
  else if b = 0xf4 then some (3, 0x80, 0x8f)
  else none

def isContinuation (b : UInt8) : Bool := 0x80 ≤ b && b ≤ 0xbf

/-- The rune that starts with `b`, and what is left behind it. -/
def decodeRune (b : UInt8) (rest : Bytes) : Option (Char × Bytes) :=
  if b < 0x80 then some (Char.ofNat b.toNat, rest)
  else match following b with
  | none => none
  | some (n, low, high) =>
    let more := rest.take n
    if more.length = n && more.all isContinuation && more.head?.any (fun c => low ≤ c && c ≤ high) then
      let first := b.toNat % 2 ^ (6 - n)
      some (Char.ofNat (more.foldl (fun v c => v * 64 + c.toNat % 64) first), rest.drop n)
    else none

/-- Each turn takes one byte at least, so as many turns as bytes are enough. -/
def decodeTurns : ℕ → Bytes → List Char
  | 0, _ => []
  | _ + 1, [] => []
  | n + 1, b :: rest =>
    match decodeRune b rest with
    | some (c, rest) => c :: decodeTurns n rest
    | none => replacement :: decodeTurns n rest

def decodeRunes (text : Bytes) : List Char := decodeTurns text.length text

def bytes (s : String) : Bytes := s.toList.flatMap String.utf8EncodeChar

/-- Go's `len`. -/
def byteLength (s : String) : ℕ := (s.toList.map Char.utf8Size).sum

theorem byteLength_pos {s : String} : 0 < byteLength s ↔ s ≠ "" := by
  constructor
  · rintro h rfl
    exact absurd h (by decide)
  intro hs
  rw [byteLength]
  cases hl : s.toList with
  | nil => exact absurd (String.toList_eq_nil_iff.mp hl) hs
  | cons c cs =>
    have := c.utf8Size_pos
    rw [map_cons, sum_cons]
    omega

def isASCII (c : Char) : Bool := c.toNat < 128

theorem forall_isASCII {P : Char → Prop} (h : ∀ n < 128, P (Char.ofNat n)) {c : Char}
    (hc : isASCII c = true) : P c := by
  have hP := h c.toNat (of_decide_eq_true hc)
  rwa [Char.ofNat_toNat] at hP

theorem utf8Size_of_isASCII {c : Char} (h : isASCII c = true) : c.utf8Size = 1 := by
  rw [Char.utf8Size_eq_one_iff]
  have hlt : c.toNat < 128 := of_decide_eq_true h
  exact Nat.le_of_lt_succ hlt

theorem byteLength_of_isASCII {s : String} (h : s.toList.all isASCII = true) :
    byteLength s = s.toList.length := by
  have ho : s.toList.map Char.utf8Size = List.replicate s.toList.length 1 := by
    rw [eq_replicate_iff]
    simp only [length_map, mem_map, true_and]
    rintro _ ⟨c, hc, rfl⟩
    exact utf8Size_of_isASCII (all_eq_true.mp h c hc)
  simp [byteLength, ho]

def isSpace (c : Char) : Bool :=
  let n := c.toNat
  (9 ≤ n && n ≤ 13) || n = 0x20 || n = 0x85 || n = 0xa0 || n = 0x1680 ||
    (0x2000 ≤ n && n ≤ 0x200a) || n = 0x2028 || n = 0x2029 || n = 0x202f || n = 0x205f ||
    n = 0x3000

/-- `strings.TrimSpace`. -/
def trimSpace (s : String) : String :=
  String.ofList ((s.toList.dropWhile isSpace).reverse.dropWhile isSpace).reverse

theorem trimSpace_eq_self {s : String} (hh : ∀ c ∈ s.toList.head?, isSpace c = false)
    (hl : ∀ c ∈ s.toList.getLast?, isSpace c = false) : trimSpace s = s := by
  have hd : ∀ {cs : List Char}, (∀ c ∈ cs.head?, isSpace c = false) →
      cs.dropWhile isSpace = cs := by
    intro cs hcs
    cases cs with
    | nil => rfl
    | cons c cs => simp [hcs c rfl]
  rw [trimSpace, hd hh, hd (by simpa using hl), reverse_reverse,
    String.ofList_toList]

theorem trimSpace_of_no_space {s : String} (h : ∀ c ∈ s.toList, isSpace c = false) :
    trimSpace s = s := by
  apply trimSpace_eq_self
  · intro c hc
    exact h c (mem_of_mem_head? hc)
  · intro c hc
    exact h c (mem_of_mem_getLast? hc)

section Lowercase

structure Lowering where
  rune : Char → Char
  ascii : ∀ c, isASCII c = true → rune c = c.toLower

def asciiLowering : Lowering := ⟨Char.toLower, fun _ _ => rfl⟩

variable (L : Lowering)

/-- `strings.ToLower`. -/
def Lowering.toLower (s : String) : String := String.ofList (s.toList.map L.rune)

variable {L}

theorem toLower_toList {s : String} (h : s.toList.all isASCII = true) :
    (L.toLower s).toList = s.toList.map Char.toLower := by
  rw [Lowering.toLower, String.toList_ofList, map_inj_left]
  intro c hc
  exact L.ascii c (all_eq_true.mp h c hc)

theorem toLower_eq_self {s : String} (h : s.toList.all isASCII = true)
    (hl : ∀ c ∈ s.toList, c.toLower = c) : L.toLower s = s := by
  apply String.toList_injective
  rw [toLower_toList h, map_congr_left hl, map_id']

end Lowercase
end Text
