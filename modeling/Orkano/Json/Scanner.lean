import Mathlib.Data.List.Basic

/-!
The JSON scanner of Go's `encoding/json`, as a pushdown machine that reads one character at a
time. Number literals are kept as text.
-/
namespace Json

inductive Value where
  | null
  | bool (b : Bool)
  | number (literal : List Char)
  | string (s : String)
  | array (elements : List Value)
  | object (members : List (String × Value))

/-- A decoded part of a string: a character, or the number of a `\u` escape. -/
inductive Piece where
  | char (c : Char)
  | code (n : Nat)
deriving DecidableEq, Repr

def isHighSurrogate (n : Nat) : Bool := 0xD800 ≤ n && n < 0xDC00

def isLowSurrogate (n : Nat) : Bool := 0xDC00 ≤ n && n < 0xE000

/-- The character of a lone escape; half a surrogate pair is replaced. -/
def scalar (n : Nat) : Char :=
  if isHighSurrogate n || isLowSurrogate n then Char.ofNat 0xFFFD else Char.ofNat n

def joinPieces : List Piece → List Char
  | [] => []
  | .char c :: ps => c :: joinPieces ps
  | .code hi :: .code lo :: ps =>
    if isHighSurrogate hi && isLowSurrogate lo then
      Char.ofNat (0x10000 + (hi - 0xD800) * 0x400 + (lo - 0xDC00)) :: joinPieces ps
    else scalar hi :: joinPieces (.code lo :: ps)
  | .code n :: ps => scalar n :: joinPieces ps

inductive NumberState where
  | neg | zero | int | dot | frac | exp | expSign | expDigits
deriving DecidableEq, Repr

namespace NumberState

def accepting : NumberState → Bool
  | zero | int | frac | expDigits => true
  | neg | dot | exp | expSign => false

def next : NumberState → Char → Option NumberState
  | neg, c => if c = '0' then some zero else if c.isDigit then some int else none
  | zero, c => point c
  | int, c => if c.isDigit then some int else point c
  | dot, c => if c.isDigit then some frac else none
  | frac, c => if c.isDigit then some frac else exponent c
  | exp, c => if c = '+' || c = '-' then some expSign else if c.isDigit then some expDigits else none
  | expSign, c => if c.isDigit then some expDigits else none
  | expDigits, c => if c.isDigit then some expDigits else none
where
  exponent (c : Char) : Option NumberState := if c = 'e' || c = 'E' then some exp else none
  point (c : Char) : Option NumberState := if c = '.' then some dot else exponent c

end NumberState

inductive Frame where
  | array (rev : List Value)
  | object (rev : List (String × Value)) (key : String)

inductive Mode where
  | value
  | valueOrEnd
  | key
  | keyOrEnd
  | colon
  | string (isKey : Bool) (rev : List Piece)
  | escape (isKey : Bool) (rev : List Piece)
  | hex (isKey : Bool) (more : Nat) (code : Nat) (rev : List Piece)
  | number (st : NumberState) (rev : List Char)
  | word (rest : List Char) (v : Value)
  | afterValue
  | top (v : Value)

structure State where
  stack : List Frame
  mode : Mode

def maxNestingDepth : Nat := 10000

def isSpace (c : Char) : Bool := c = ' ' || c = '\t' || c = '\r' || c = '\n'

/-- Hand a finished value to the innermost open container. -/
def deliver : List Frame → Value → State
  | [], v => ⟨[], .top v⟩
  | .array rev :: fs, v => ⟨.array (v :: rev) :: fs, .afterValue⟩
  | .object rev k :: fs, v => ⟨.object ((k, v) :: rev) k :: fs, .afterValue⟩

def openFrame (fs : List Frame) (f : Frame) (m : Mode) : Option State :=
  if fs.length < maxNestingDepth then some ⟨f :: fs, m⟩ else none

/-- Close the innermost container with its own bracket. -/
def closeFrame : List Frame → Char → Option State
  | .array rev :: fs, ']' => some (deliver fs (.array rev.reverse))
  | .object rev _ :: fs, '}' => some (deliver fs (.object rev.reverse))
  | _, _ => none

def beginValue (fs : List Frame) (c : Char) : Option State :=
  if c = '{' then openFrame fs (.object [] "") .keyOrEnd
  else if c = '[' then openFrame fs (.array []) .valueOrEnd
  else if c = '"' then some ⟨fs, .string false []⟩
  else if c = '-' then some ⟨fs, .number .neg [c]⟩
  else if c = '0' then some ⟨fs, .number .zero [c]⟩
  else if c.isDigit then some ⟨fs, .number .int [c]⟩
  else if c = 't' then some ⟨fs, .word ['r', 'u', 'e'] (.bool true)⟩
  else if c = 'f' then some ⟨fs, .word ['a', 'l', 's', 'e'] (.bool false)⟩
  else if c = 'n' then some ⟨fs, .word ['u', 'l', 'l'] .null⟩
  else none

def endValue (s : State) (c : Char) : Option State :=
  if isSpace c then some s
  else match s.stack with
    | [] => none
    | .array _ :: _ => if c = ',' then some ⟨s.stack, .value⟩ else closeFrame s.stack c
    | .object _ _ :: _ => if c = ',' then some ⟨s.stack, .key⟩ else closeFrame s.stack c

def finishString (fs : List Frame) (isKey : Bool) (rev : List Piece) : Option State :=
  let s := String.ofList (joinPieces rev.reverse)
  if isKey then
    match fs with
    | .object ms _ :: fs => some ⟨.object ms s :: fs, .colon⟩
    | _ => none
  else some (deliver fs (.string s))

/-- The character a one-letter escape stands for. -/
def unescape : Char → Option Char
  | '"' => some '"'
  | '\\' => some '\\'
  | '/' => some '/'
  | 'b' => some '\x08'
  | 'f' => some '\x0c'
  | 'n' => some '\n'
  | 'r' => some '\r'
  | 't' => some '\t'
  | _ => none

def hexValue (c : Char) : Option Nat :=
  if c.isDigit then some (c.toNat - '0'.toNat)
  else if 'a' ≤ c ∧ c ≤ 'f' then some (c.toNat - 'a'.toNat + 10)
  else if 'A' ≤ c ∧ c ≤ 'F' then some (c.toNat - 'A'.toNat + 10)
  else none

def step (s : State) (c : Char) : Option State :=
  match s.mode with
  | .value => if isSpace c then some s else beginValue s.stack c
  | .valueOrEnd =>
    if isSpace c then some s else if c = ']' then closeFrame s.stack c else beginValue s.stack c
  | .key =>
    if isSpace c then some s else if c = '"' then some ⟨s.stack, .string true []⟩ else none
  | .keyOrEnd =>
    if isSpace c then some s
    else if c = '}' then closeFrame s.stack c
    else if c = '"' then some ⟨s.stack, .string true []⟩
    else none
  | .colon => if isSpace c then some s else if c = ':' then some ⟨s.stack, .value⟩ else none
  | .string k rev =>
    if c = '"' then finishString s.stack k rev
    else if c = '\\' then some ⟨s.stack, .escape k rev⟩
    else if c.toNat < 0x20 then none
    else some ⟨s.stack, .string k (.char c :: rev)⟩
  | .escape k rev =>
    if c = 'u' then some ⟨s.stack, .hex k 3 0 rev⟩
    else (unescape c).map fun e => ⟨s.stack, .string k (.char e :: rev)⟩
  | .hex k more code rev =>
    (hexValue c).map fun d =>
      match more with
      | 0 => ⟨s.stack, .string k (.code (16 * code + d) :: rev)⟩
      | more + 1 => ⟨s.stack, .hex k more (16 * code + d) rev⟩
  | .number st rev =>
    match st.next c with
    | some st' => some ⟨s.stack, .number st' (c :: rev)⟩
    -- the literal is over, and `c` belongs to what follows it
    | none => if st.accepting then endValue (deliver s.stack (.number rev.reverse)) c else none
  | .word rest v =>
    match rest with
    | [] => none
    | [d] => if c = d then some (deliver s.stack v) else none
    | d :: ds => if c = d then some ⟨s.stack, .word ds v⟩ else none
  | .afterValue | .top _ => endValue s c

/-- The whole text is one value: the end of input counts as a space. -/
def parse (text : List Char) : Option Value :=
  match (text ++ [' ']).foldlM step ⟨[], .value⟩ with
  | some ⟨_, .top v⟩ => some v
  | _ => none

end Json
