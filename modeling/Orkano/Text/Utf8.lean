import Orkano.Text.Runes

/-!
What the bytes of a character look like, and two readers that give the character back: the one
of Go, and the decoder of browsers, which may stop behind any byte and go on later.
-/
namespace Text

open List

section Encoded

/-- The bytes of a character outside ASCII: a first byte that tells how many follow and between
which bounds the next one is. -/
structure Encodes (b : UInt8) (low high : UInt8) (more : Bytes) (c : Char) : Prop where
  lead : ¬ b < 0x80
  following : following b = some (more.length, low, high)
  tail : more.all isContinuation = true
  first : more.head?.any (fun m => low ≤ m && m ≤ high) = true
  value : more.foldl (fun v m => v * 64 + m.toNat % 64) (b.toNat % 2 ^ (6 - more.length)) = c.toNat

theorem following_two :
    ∀ n < 32, 2 ≤ n → following (UInt8.ofNat (n + 192)) = some (1, 0x80, 0xbf) := by
  decide

theorem following_three : ∀ n < 16, following (UInt8.ofNat (n + 224)) =
    some (2, if n = 0 then 0xa0 else 0x80, if n = 13 then 0x9f else 0xbf) := by
  decide

theorem following_four : ∀ n < 5, following (UInt8.ofNat (n + 240)) =
    some (3, if n = 0 then 0x90 else 0x80, if n = 4 then 0x8f else 0xbf) := by
  decide

theorem isContinuation_ofNat : ∀ n < 64, isContinuation (UInt8.ofNat (n + 128)) = true := by
  decide

variable {n : ℕ}

theorem toNat_ofNat_of_lt (h : n < 256) : (UInt8.ofNat n).toNat = n := by
  rw [UInt8.toNat_ofNat']
  exact Nat.mod_eq_of_lt h

theorem le_ofNat {b : UInt8} (hn : n < 256) (h : b.toNat ≤ n) : b ≤ UInt8.ofNat n := by
  rwa [UInt8.le_iff_toNat_le, toNat_ofNat_of_lt hn]

theorem ofNat_le {b : UInt8} (h : n ≤ b.toNat) : UInt8.ofNat n ≤ b := by
  rwa [UInt8.le_iff_toNat_le, toNat_ofNat_of_lt (Nat.lt_of_le_of_lt h b.toNat_lt)]

theorem not_lt_ofNat (hn : n < 256) (h : 128 ≤ n) : ¬ UInt8.ofNat n < 0x80 := by
  rw [UInt8.not_lt]
  exact le_ofNat hn h

theorem toNat_valid (c : Char) : c.toNat < 0xd800 ∨ 0xdfff < c.toNat ∧ c.toNat < 0x110000 := c.valid

variable {c : Char}

theorem encodes_two (hl : 0x80 ≤ c.toNat) (hh : c.toNat < 0x800) :
    Encodes (UInt8.ofNat (c.toNat / 64 % 32 + 192)) 0x80 0xbf [UInt8.ofNat (c.toNat % 64 + 128)] c where
  lead := not_lt_ofNat (by omega) (by omega)
  following := following_two _ (by omega) (by omega)
  tail := by
    simp only [all_cons, all_nil, isContinuation_ofNat (c.toNat % 64) (by omega),
      Bool.and_true]
  first := by
    simp only [head?_cons, Option.any_some, Bool.and_eq_true, decide_eq_true_eq]
    exact ⟨le_ofNat (by omega) (by omega : 0x80 ≤ _), ofNat_le (by omega : _ ≤ 0xbf)⟩
  value := by
    simp only [length_singleton, foldl_cons, foldl_nil]
    rw [toNat_ofNat_of_lt (by omega), toNat_ofNat_of_lt (by omega)]
    omega

theorem encodes_three (hl : 0x800 ≤ c.toNat) (hh : c.toNat < 0x10000) :
    Encodes (UInt8.ofNat (c.toNat / 4096 % 16 + 224))
      (if c.toNat / 4096 % 16 = 0 then 0xa0 else 0x80) (if c.toNat / 4096 % 16 = 13 then 0x9f else 0xbf)
      [UInt8.ofNat (c.toNat / 64 % 64 + 128), UInt8.ofNat (c.toNat % 64 + 128)] c where
  lead := not_lt_ofNat (by omega) (by omega)
  following := following_three _ (by omega)
  tail := by
    simp only [all_cons, all_nil, isContinuation_ofNat (c.toNat % 64) (by omega),
      isContinuation_ofNat (c.toNat / 64 % 64) (by omega), Bool.and_true]
  first := by
    have hv := toNat_valid c
    simp only [head?_cons, Option.any_some, Bool.and_eq_true, decide_eq_true_eq]
    constructor
    · split
      · exact le_ofNat (by omega) (by omega : 0xa0 ≤ _)
      · exact le_ofNat (by omega) (by omega : 0x80 ≤ _)
    split
    · exact ofNat_le (by omega : _ ≤ 0x9f)
    · exact ofNat_le (by omega : _ ≤ 0xbf)
  value := by
    simp only [length_cons, length_nil, foldl_cons, foldl_nil]
    rw [toNat_ofNat_of_lt (by omega), toNat_ofNat_of_lt (by omega), toNat_ofNat_of_lt (by omega)]
    omega

theorem encodes_four (hl : 0x10000 ≤ c.toNat) :
    Encodes (UInt8.ofNat (c.toNat / 262144 % 8 + 240))
      (if c.toNat / 262144 % 8 = 0 then 0x90 else 0x80) (if c.toNat / 262144 % 8 = 4 then 0x8f else 0xbf)
      [UInt8.ofNat (c.toNat / 4096 % 64 + 128), UInt8.ofNat (c.toNat / 64 % 64 + 128),
        UInt8.ofNat (c.toNat % 64 + 128)] c where
  lead := not_lt_ofNat (by omega) (by omega)
  following := by
    have hv := toNat_valid c
    exact following_four _ (by omega)
  tail := by
    simp only [all_cons, all_nil, isContinuation_ofNat (c.toNat % 64) (by omega),
      isContinuation_ofNat (c.toNat / 64 % 64) (by omega),
      isContinuation_ofNat (c.toNat / 4096 % 64) (by omega), Bool.and_true]
  first := by
    have hv := toNat_valid c
    simp only [head?_cons, Option.any_some, Bool.and_eq_true, decide_eq_true_eq]
    constructor
    · split
      · exact le_ofNat (by omega) (by omega : 0x90 ≤ _)
      · exact le_ofNat (by omega) (by omega : 0x80 ≤ _)
    split
    · exact ofNat_le (by omega : _ ≤ 0x8f)
    · exact ofNat_le (by omega : _ ≤ 0xbf)
  value := by
    have hv := toNat_valid c
    simp only [length_cons, length_nil, foldl_cons, foldl_nil]
    rw [toNat_ofNat_of_lt (by omega), toNat_ofNat_of_lt (by omega), toNat_ofNat_of_lt (by omega),
      toNat_ofNat_of_lt (by omega)]
    omega

theorem utf8EncodeChar_cases (c : Char) :
    c.toNat < 128 ∧ String.utf8EncodeChar c = [UInt8.ofNat c.toNat] ∨
      ∃ b low hi more, String.utf8EncodeChar c = b :: more ∧ Encodes b low hi more c := by
  unfold String.utf8EncodeChar
  simp only [Char.toNat_val]
  split
  · exact .inl ⟨by omega, rfl⟩
  split
  · exact .inr ⟨_, _, _, _, rfl, encodes_two (by omega) (by omega)⟩
  split
  · exact .inr ⟨_, _, _, _, rfl, encodes_three (by omega) (by omega)⟩
  · exact .inr ⟨_, _, _, _, rfl, encodes_four (by omega)⟩

end Encoded

/-- An encoded character is decoded, whatever follows. -/
theorem decodeRune_utf8EncodeChar (c : Char) (rest : Bytes) :
    ∃ b more, String.utf8EncodeChar c = b :: more ∧ decodeRune b (more ++ rest) = some (c, rest) := by
  rcases utf8EncodeChar_cases c with ⟨ha, he⟩ | ⟨b, low, hi, more, he, h⟩
  · refine ⟨_, [], he, ?_⟩
    have hlt : UInt8.ofNat c.toNat < 0x80 := by
      rw [UInt8.lt_iff_toNat_lt, toNat_ofNat_of_lt (by omega)]
      exact ha
    rw [decodeRune, if_pos hlt, toNat_ofNat_of_lt (by omega), Char.ofNat_toNat]
    rfl
  refine ⟨b, more, he, ?_⟩
  have ht := h.tail
  have hf := h.first
  rw [decodeRune, if_neg h.lead, h.following]
  simp only [take_left, drop_left]
  rw [h.value, Char.ofNat_toNat, if_pos]
  simp [ht, hf]

theorem decodeTurns_utf8 {cs : List Char} {n : ℕ}
    (h : (cs.flatMap String.utf8EncodeChar).length ≤ n) :
    decodeTurns n (cs.flatMap String.utf8EncodeChar) = cs := by
  induction cs generalizing n with
  | nil => cases n <;> rfl
  | cons c cs ih =>
    obtain ⟨b, more, he, hr⟩ := decodeRune_utf8EncodeChar c (cs.flatMap String.utf8EncodeChar)
    rw [flatMap_cons, he, cons_append] at h ⊢
    rw [length_cons, length_append] at h
    cases n with
    | zero => omega
    | succ n =>
      rw [decodeTurns, hr]
      dsimp only
      rw [ih (by omega)]

theorem decodeRunes_bytes (s : String) : decodeRunes (bytes s) = s.toList :=
  decodeTurns_utf8 (Nat.le_refl _)

/-- A character of which some bytes are still to come, the next one between the bounds. -/
structure Begun where
  point : ℕ
  needed : ℕ
  lower : UInt8
  upper : UInt8
deriving DecidableEq, Repr

/-- A `TextDecoder` for UTF-8 that replaces what is malformed and drops a byte order mark in
front. -/
structure TextDecoder where
  begun : Option Begun
  bomSeen : Bool
deriving DecidableEq, Repr

namespace TextDecoder

def new : TextDecoder := ⟨none, false⟩

def byteOrderMark : Char := Char.ofNat 0xFEFF

/-- The decoder between two characters, with the character that it gives out. -/
def emit (d : TextDecoder) (c : Char) : TextDecoder × List Char :=
  (⟨none, true⟩, if !d.bomSeen && c = byteOrderMark then [] else [c])

def first (d : TextDecoder) (b : UInt8) : TextDecoder × List Char :=
  if b < 0x80 then d.emit (Char.ofNat b.toNat)
  else match following b with
  | none => d.emit replacement
  | some (needed, lower, upper) =>
    (⟨some ⟨b.toNat % 2 ^ (6 - needed), needed, lower, upper⟩, d.bomSeen⟩, [])

def step (d : TextDecoder) (b : UInt8) : TextDecoder × List Char :=
  match d.begun with
  | none => d.first b
  | some ⟨point, needed, lower, upper⟩ =>
    if lower ≤ b && b ≤ upper then
      let point := point * 64 + b.toNat % 64
      if needed = 1 then d.emit (Char.ofNat point)
      else (⟨some ⟨point, needed - 1, 0x80, 0xbf⟩, d.bomSeen⟩, [])
    else
      -- The byte is read again, as the first one of a character.
      let (d, replaced) := d.emit replacement
      let (d, text) := d.first b
      (d, replaced ++ text)

/-- `decode(chunk, { stream: true })`. -/
def decode (d : TextDecoder) : Bytes → TextDecoder × List Char
  | [] => (d, [])
  | b :: chunk =>
    let (d, text) := d.step b
    let (d, more) := d.decode chunk
    (d, text ++ more)

theorem decode_append (d : TextDecoder) (chunk more : Bytes) :
    d.decode (chunk ++ more) = (((d.decode chunk).1.decode more).1,
      (d.decode chunk).2 ++ ((d.decode chunk).1.decode more).2) := by
  induction chunk generalizing d with
  | nil => rfl
  | cons b chunk ih => simp [decode, ih]

variable {seen : Bool}

/-- A sequence that was begun is finished by its continuation bytes. -/
theorem decode_begun {lower upper : UInt8} {more : Bytes} (point : ℕ)
    (ht : more.all isContinuation = true)
    (hf : more.head?.any (fun m => lower ≤ m && m ≤ upper) = true) :
    decode ⟨some ⟨point, more.length, lower, upper⟩, seen⟩ more =
      emit ⟨none, seen⟩ (Char.ofNat (more.foldl (fun v m => v * 64 + m.toNat % 64) point)) := by
  induction more generalizing point lower upper with
  | nil => cases hf
  | cons m more ih =>
    rw [all_cons, Bool.and_eq_true] at ht
    rw [head?_cons, Option.any_some] at hf
    cases more with
    | nil =>
      have hs : step ⟨some ⟨point, 1, lower, upper⟩, seen⟩ m =
          emit ⟨none, seen⟩ (Char.ofNat (point * 64 + m.toNat % 64)) := by
        simp only [step, hf, if_true]
        rfl
      simp only [length_singleton, decode, hs, append_nil]
      rfl
    | cons n more =>
      have hn : ((n :: more).head?.any fun m => 0x80 ≤ m && m ≤ 0xbf) = true := by
        rw [all_cons, Bool.and_eq_true] at ht
        exact ht.2.1
      have hr := ih (point * 64 + m.toNat % 64) ht.2 hn
      rw [decode, step]
      simp only [hf, if_true, length_cons, Nat.add_eq_right, Nat.add_sub_cancel]
      rw [if_neg (by omega)]
      rw [length_cons] at hr
      rw [hr]
      rfl

/-- Whatever comes in between two characters is read as it was written; only in front of the
text may a character be taken for a byte order mark. -/
theorem decode_utf8EncodeChar {c : Char} (h : seen = true ∨ c ≠ byteOrderMark) :
    decode ⟨none, seen⟩ (String.utf8EncodeChar c) = (⟨none, true⟩, [c]) := by
  have hem : emit ⟨none, seen⟩ c = (⟨none, true⟩, [c]) := by
    rcases h with rfl | h
    · rfl
    · simp [emit, h]
  rcases utf8EncodeChar_cases c with ⟨ha, he⟩ | ⟨b, low, hi, more, he, h⟩
  · have hlt : UInt8.ofNat c.toNat < 0x80 := by
      rw [UInt8.lt_iff_toNat_lt, toNat_ofNat_of_lt (by omega)]
      exact ha
    rw [he, decode, step, first, if_pos hlt, toNat_ofNat_of_lt (by omega), Char.ofNat_toNat,
      hem]
    rfl
  rw [he, decode, step, first, if_neg h.lead, h.following]
  simp only
  rw [decode_begun _ h.tail h.first, h.value, Char.ofNat_toNat, hem]
  rfl

theorem decode_utf8 {cs : List Char} (h : seen = true ∨ cs.head? ≠ some byteOrderMark) :
    (decode ⟨none, seen⟩ (cs.flatMap String.utf8EncodeChar)).2 = cs := by
  induction cs generalizing seen with
  | nil => rfl
  | cons c cs ih =>
    have hc : seen = true ∨ c ≠ byteOrderMark := by simpa using h
    rw [flatMap_cons, decode_append, decode_utf8EncodeChar hc, ih (.inl rfl)]
    rfl

end TextDecoder

end Text
