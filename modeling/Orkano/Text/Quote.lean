import Mathlib.Data.Nat.Notation
import Mathlib.Data.String.Basic

/-!
Text in double quotes, as `fmt` prints it with `%q`. Characters beyond ASCII are taken to be
printable, and stand for themselves.
-/
namespace Text

def hexDigit (n : ℕ) : Char := "0123456789abcdef".toList.getD n '0'

def escaped (c : Char) : List Char :=
  match c.toNat with
  | 7 => ['\\', 'a']
  | 8 => ['\\', 'b']
  | 9 => ['\\', 't']
  | 10 => ['\\', 'n']
  | 11 => ['\\', 'v']
  | 12 => ['\\', 'f']
  | 13 => ['\\', 'r']
  | 34 => ['\\', '"']
  | 92 => ['\\', '\\']
  | n => if n < 32 ∨ n = 127 then ['\\', 'x', hexDigit (n / 16), hexDigit (n % 16)] else [c]

/-- `%q` of a string. -/
def quoted (s : String) : String := String.ofList ('"' :: (s.toList.flatMap escaped ++ ['"']))

/-- `%q` of a character. -/
def quotedChar (c : Char) : String :=
  String.ofList ('\'' :: ((if c = '\'' then ['\\', '\''] else if c = '"' then ['"'] else escaped c) ++
    ['\'']))

example : quoted "printf %s \"a\\b\"\n" = "\"printf %s \\\"a\\\\b\\\"\\n\"" := by decide +kernel

theorem quoted_append_ne {x y : List Char} (h : x.flatMap escaped ≠ y.flatMap escaped)
    (front back : String) :
    quoted (front ++ (String.ofList x ++ back)) ≠ quoted (front ++ (String.ofList y ++ back)) := by
  intro heq
  have hl := congrArg String.toList heq
  simp only [quoted, String.toList_append, String.toList_ofList, List.flatMap_append,
    List.append_assoc, List.cons.injEq, true_and, List.append_cancel_left_eq] at hl
  exact h (List.append_cancel_right hl)

end Text
