import Orkano.Json.Render
import Orkano.Text.Utf8

/-!
Go's `json.Marshal` of a map from strings to strings. A Go string is a sequence of bytes, and a
byte of it that starts no character is written as the escape of the replacement character.
-/
namespace Json

open Text List

/-- Each turn takes one byte at least, so as many turns as bytes are enough. -/
def escapeTurns : ℕ → Bytes → List Char
  | 0, _ => []
  | _ + 1, [] => []
  | n + 1, b :: rest =>
    match decodeRune b rest with
    | some (c, rest) => escapeChar c ++ escapeTurns n rest
    | none => ['\\', 'u', 'f', 'f', 'f', 'd'] ++ escapeTurns n rest

def quoteBytes (text : Bytes) : List Char := '"' :: (escapeTurns text.length text ++ ['"'])

/-- The members are given in the order of their keys. -/
def marshalMap (ms : List (String × Bytes)) : List Char :=
  '{' :: ([','].intercalate (ms.map fun m => quote m.1 ++ ':' :: quoteBytes m.2) ++ ['}'])

theorem joinPieces_replacement (ps : List Piece) :
    joinPieces (.code 0xFFFD :: ps) = replacement :: joinPieces ps := by
  cases ps with
  | nil => rfl
  | cons p ps => cases p <;> rfl

/-- The scanner reads escaped bytes as the characters that Go reads off them. -/
theorem foldlM_escapeTurns (fs : List Frame) (k : Bool) (rev : List Piece) (n : ℕ) (text : Bytes) :
    ∃ ps, (escapeTurns n text).foldlM step ⟨fs, .string k rev⟩ =
        some ⟨fs, .string k (ps.reverse ++ rev)⟩ ∧ joinPieces ps = decodeTurns n text := by
  induction n generalizing rev text with
  | zero => exact ⟨[], rfl, rfl⟩
  | succ n ih =>
    cases text with
    | nil => exact ⟨[], rfl, rfl⟩
    | cons b rest =>
      rw [escapeTurns, decodeTurns]
      cases hr : decodeRune b rest with
      | some found =>
        obtain ⟨c, rest⟩ := found
        obtain ⟨ps, hps, hj⟩ := ih (pieceOf c :: rev) rest
        refine ⟨pieceOf c :: ps, ?_, ?_⟩
        · simp [foldlM_append, foldlM_escapeChar, hps]
        · rw [joinPieces_pieceOf, hj]
      | none =>
        obtain ⟨ps, hps, hj⟩ := ih (.code 0xFFFD :: rev) rest
        have he : ['\\', 'u', 'f', 'f', 'f', 'd'].foldlM step ⟨fs, .string k rev⟩ =
            some ⟨fs, .string k (.code 0xFFFD :: rev)⟩ := rfl
        refine ⟨.code 0xFFFD :: ps, ?_, ?_⟩
        · rw [foldlM_append, he]
          simpa using hps
        · rw [joinPieces_replacement, hj]

theorem reads_quoteBytes (text : Bytes) :
    Reads (quoteBytes text) (.string (String.ofList (decodeRunes text))) := by
  refine reads_of_foldlM fun fs => ?_
  obtain ⟨ps, hps, hj⟩ := foldlM_escapeTurns fs false [] text.length text
  have hq : step ⟨fs, .value⟩ '"' = some ⟨fs, .string false []⟩ := rfl
  rw [quoteBytes, foldlM_cons, hq, Option.bind_eq_bind, Option.bind_some,
    foldlM_append, hps]
  simp [step, finishString, hj, decodeRunes]

/-- A map of two texts is read back, invalid bytes as the replacement character. -/
theorem parse_marshalMap (k1 k2 : String) (t1 t2 : Bytes) :
    parse (marshalMap [(k1, t1), (k2, t2)]) =
      some (.object [(k1, .string (String.ofList (decodeRunes t1))),
        (k2, .string (String.ofList (decodeRunes t2)))]) := by
  have ho : step ⟨[], .value⟩ '{' = some ⟨[.object [] ""], .keyOrEnd⟩ := by
    simp [step, isSpace, beginValue, openFrame, maxNestingDepth]
  have ht : marshalMap [(k1, t1), (k2, t2)] ++ [' '] =
      '{' :: (quote k1 ++ ':' :: (quoteBytes t1 ++ ',' :: (quote k2 ++ ':' ::
        (quoteBytes t2 ++ '}' :: [' '])))) := by
    simp [marshalMap, List.intercalate]
  have hc : ∀ rev k, step ⟨[.object rev k], .afterValue⟩ ',' = some ⟨[.object rev k], .key⟩ :=
    fun _ _ => rfl
  rw [parse, ht, foldlM_cons, ho, Option.bind_eq_bind, Option.bind_some,
    foldlM_member (.inr rfl) (.inl rfl) (reads_quoteBytes t1), foldlM_cons, hc,
    Option.bind_eq_bind, Option.bind_some,
    foldlM_member (.inl rfl) (.inr (.inl rfl)) (reads_quoteBytes t2)]
  rfl

theorem newline_notMem_hexCode {n : ℕ} (h : n < 0x10000) : '\n' ∉ hexCode n := by
  have hd : ∀ d < 16, '\n' ≠ d.digitChar := by decide
  simp only [hexCode, mem_cons, not_mem_nil, not_or, or_false]
  exact ⟨hd _ (by omega), hd _ (by omega), hd _ (by omega), hd _ (by omega)⟩

theorem newline_notMem_escapeChar (c : Char) : '\n' ∉ escapeChar c := by
  unfold escapeChar
  cases hs : shortEscape c with
  | some e =>
    have he : '\n' ≠ e := by
      rintro rfl
      unfold shortEscape at hs
      split at hs <;> simp at hs
    simp [he]
  | none =>
    have hc : '\n' ≠ c := by
      rintro rfl
      simp [shortEscape] at hs
    dsimp only
    split
    · rename_i hcd
      have hlt := toNat_lt_of_needsCode hcd
      simp [newline_notMem_hexCode (show c.toNat < 0x10000 by omega)]
    · simp [hc]

/-- A string literal stays on one line. -/
theorem newline_notMem_escapeTurns (n : ℕ) (text : Bytes) : '\n' ∉ escapeTurns n text := by
  induction n generalizing text with
  | zero => exact not_mem_nil
  | succ n ih =>
    cases text with
    | nil => exact not_mem_nil
    | cons b rest =>
      rw [escapeTurns]
      cases decodeRune b rest with
      | some found =>
        rw [mem_append, not_or]
        exact ⟨newline_notMem_escapeChar found.1, ih found.2⟩
      | none =>
        rw [mem_append, not_or]
        exact ⟨by decide, ih rest⟩

theorem newline_notMem_quoteBytes (text : Bytes) : '\n' ∉ quoteBytes text := by
  simp [quoteBytes, newline_notMem_escapeTurns]

theorem newline_notMem_quote (s : String) : '\n' ∉ quote s := by
  simp [quote, newline_notMem_escapeChar]

theorem newline_notMem_marshalMap (k1 k2 : String) (t1 t2 : Bytes) :
    '\n' ∉ marshalMap [(k1, t1), (k2, t2)] := by
  simp [marshalMap, List.intercalate, newline_notMem_quote, newline_notMem_quoteBytes]

end Json
