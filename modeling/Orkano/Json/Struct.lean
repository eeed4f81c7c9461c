import Mathlib.Algebra.Group.Int.Defs
import Orkano.Json.Render

/-!
Go's decoding of an object into a struct: member names match fields up to case, unknown members
are ignored, and a member of the wrong type makes the whole decoding fail.
-/
namespace Json

def parseNat (ds : List Char) : Option Nat :=
  if ds ≠ [] ∧ ds.all Char.isDigit then some (Nat.ofDigitChars 10 ds 0) else none

def parseInt : List Char → Option Int
  | '-' :: ds => (parseNat ds).map fun n : Nat => -(n : Int)
  | ds => (parseNat ds).map fun n : Nat => (n : Int)

def parseInt64 (literal : List Char) : Option Int64 :=
  (parseInt literal).bind fun n =>
    if -2 ^ 63 ≤ n ∧ n < 2 ^ 63 then some (Int64.ofInt n) else none

theorem parseNat_toDigits (n : Nat) : parseNat (Nat.toDigits 10 n) = some n := by
  have hd : (Nat.toDigits 10 n).all Char.isDigit := List.all_eq_true.mpr fun c hc =>
    Nat.isDigit_of_mem_toDigits (by decide) (by decide) hc
  rw [parseNat, if_pos ⟨Nat.toDigits_ne_nil, hd⟩, Nat.ofDigitChars_ten_toDigits]

theorem parseInt_intLiteral (n : Int) : parseInt (intLiteral n) = some n := by
  have hp := parseNat_toDigits n.natAbs
  unfold intLiteral
  split
  · simp only [parseInt, hp, Option.map_some, Option.some.injEq]
    omega
  have hne : ∀ ds, Nat.toDigits 10 n.natAbs ≠ '-' :: ds := by
    intro ds h
    have := Nat.isDigit_of_mem_toDigits (c := '-') (b := 10) (n := n.natAbs) (by decide)
      (by decide) (h ▸ List.mem_cons_self)
    exact absurd this (by decide)
  rw [parseInt.eq_2 _ fun ds h => hne ds h, hp, Option.map_some, Option.some.injEq]
  omega

theorem parseInt64_intLiteral (n : Int64) : parseInt64 (intLiteral n.toInt) = some n := by
  have hle := n.le_toInt
  have hlt := n.toInt_lt
  rw [parseInt64, parseInt_intLiteral, Option.bind_some, if_pos ⟨hle, hlt⟩, Int64.ofInt_toInt]

structure Field (α : Type) where
  name : String
  assign : Value → α → Option α

namespace Field

variable {α : Type}

def string (name : String) (set : String → α → α) : Field α where
  name := name
  assign
    | .string s, a => some (set s a)
    | .null, a => some a
    | _, _ => none

def int64 (name : String) (set : Int64 → α → α) : Field α where
  name := name
  assign
    | .number literal, a => (parseInt64 literal).map fun n => set n a
    | .null, a => some a
    | _, _ => none

def bool (name : String) (set : Bool → α → α) : Field α where
  name := name
  assign
    | .bool b, a => some (set b a)
    | .null, a => some a
    | _, _ => none

@[simp] theorem assign_int64 (name : String) (set : Int64 → α → α) (n : Int64) (a : α) :
    (int64 name set).assign (.number (intLiteral n.toInt)) a = some (set n a) := by
  simp [int64, parseInt64_intLiteral]

end Field

/-- Case folding, exact for names in ASCII: besides the two cases of a letter,
the long s folds to S and the Kelvin sign to K. -/
def foldRune (c : Char) : Char :=
  if c.isLower then c.toUpper
  else if c = '\u017f' then 'S'
  else if c = '\u212a' then 'K'
  else c

def foldName (s : String) : List Char := s.toList.map foldRune

section Decode

variable {α : Type}

def findField (fields : List (Field α)) (key : String) : Option (Field α) :=
  match fields.find? fun f => f.name == key with
  | some f => some f
  | none => fields.find? fun f => foldName f.name == foldName key

def assignMember (fields : List (Field α)) (a : α) (m : String × Value) : Option α :=
  match findField fields m.1 with
  | some f => f.assign m.2 a
  | none => some a

theorem assignMember_unknown {fields : List (Field α)} {key : String}
    (h : fields.all fun f => f.name != key && foldName f.name != foldName key) (a : α) (v : Value) :
    assignMember fields a (key, v) = some a := by
  simp only [List.all_eq_true, Bool.and_eq_true, bne_iff_ne] at h
  have hn : fields.find? (fun f => f.name == key) = none := by
    simpa using fun f hf => (h f hf).1
  have hfl : fields.find? (fun f => foldName f.name == foldName key) = none := by
    simpa using fun f hf => (h f hf).2
  simp [assignMember, findField, hn, hfl]

def decode (fields : List (Field α)) (zero : α) : Value → Option α
  | .object ms => ms.foldlM (assignMember fields) zero
  | .null => some zero
  | _ => none

/-- A field that is itself a struct: a later member of its name adds to what it holds. -/
def Field.nested {β : Type} (name : String) (fields : List (Field β)) (get : α → β)
    (set : β → α → α) : Field α where
  name := name
  assign v a := (decode fields (get a) v).map fun b => set b a

def unmarshal (fields : List (Field α)) (zero : α) (text : String) : Option α :=
  (parse text.toList).bind (decode fields zero)

def marshal (ms : List (String × Scalar)) : String := String.ofList (renderObject ms)

theorem unmarshal_marshal (fields : List (Field α)) (zero : α) (ms : List (String × Scalar)) :
    unmarshal fields zero (marshal ms) = (values ms).foldlM (assignMember fields) zero := by
  rw [unmarshal, marshal, String.toList_ofList, parse_renderObject]
  rfl

theorem unmarshal_upper_or_digit (fields : List (Field α)) (zero : α) {text : String}
    (h : ∀ c ∈ text.toList, c.isUpper ∨ c.isDigit) : unmarshal fields zero text = none := by
  cases hp : parse text.toList with
  | none => simp [unmarshal, hp]
  | some v =>
    obtain ⟨literal, rfl⟩ := parse_upper_or_digit h hp
    simp [unmarshal, hp, decode]

end Decode

end Json
