import Orkano.Json.Scanner

/-!
Rendering of flat objects as Go's `json.Marshal` writes them, and the scanner's reading of the
result (`Reads`).
-/
namespace Json

open List

inductive Scalar where
  | string (s : String)
  | int (n : Int)
  | bool (b : Bool)

def intLiteral (n : Int) : List Char :=
  if n < 0 then '-' :: Nat.toDigits 10 n.natAbs else Nat.toDigits 10 n.natAbs

def Scalar.value : Scalar → Value
  | string s => .string s
  | int n => .number (intLiteral n)
  | bool b => .bool b

def shortEscape : Char → Option Char
  | '"' => some '"'
  | '\\' => some '\\'
  | '\x08' => some 'b'
  | '\x0c' => some 'f'
  | '\n' => some 'n'
  | '\r' => some 'r'
  | '\t' => some 't'
  | _ => none

/-- Written as a `\u` escape: the other control characters, the three characters
that are special in HTML, and the two line separators of JavaScript. -/
def needsCode (c : Char) : Bool :=
  c.toNat < 0x20 || c = '<' || c = '>' || c = '&' || c.toNat = 0x2028 || c.toNat = 0x2029

def hexCode (n : Nat) : List Char :=
  [(n / 4096).digitChar, (n / 256 % 16).digitChar, (n / 16 % 16).digitChar, (n % 16).digitChar]

def escapeChar (c : Char) : List Char :=
  match shortEscape c with
  | some e => ['\\', e]
  | none => if needsCode c then '\\' :: 'u' :: hexCode c.toNat else [c]

def quote (s : String) : List Char := '"' :: (s.toList.flatMap escapeChar ++ ['"'])

def Scalar.render : Scalar → List Char
  | string s => quote s
  | int n => intLiteral n
  | bool true => ['t', 'r', 'u', 'e']
  | bool false => ['f', 'a', 'l', 's', 'e']

def renderMember (m : String × Scalar) : List Char := quote m.1 ++ ':' :: m.2.render

def renderMembers : List (String × Scalar) → List Char
  | [] => ['}']
  | [m] => renderMember m ++ ['}']
  | m :: ms => renderMember m ++ ',' :: renderMembers ms

def renderObject (ms : List (String × Scalar)) : List Char := '{' :: renderMembers ms

/-- The piece the scanner records for an escaped character. -/
def pieceOf (c : Char) : Piece :=
  if shortEscape c = none ∧ needsCode c then .code c.toNat else .char c

private theorem unescape_shortEscape {c e : Char} (h : shortEscape c = some e) :
    e ≠ 'u' ∧ unescape e = some c := by
  unfold shortEscape at h
  split at h <;> first | (cases h; decide) | cases h

theorem toNat_lt_of_needsCode {c : Char} (h : needsCode c) : c.toNat < 0xD800 := by
  simp only [needsCode, Bool.or_eq_true, decide_eq_true_eq] at h
  rcases h with ((((h | rfl) | rfl) | rfl) | h) | h
  all_goals first | omega | decide

private theorem hexValue_digitChar : ∀ d < 16, hexValue d.digitChar = some d := by decide

private theorem foldlM_hexCode {fs : List Frame} {k : Bool} {rev : List Piece} {n : Nat}
    (hn : n < 0x10000) :
    (hexCode n).foldlM step ⟨fs, .hex k 3 0 rev⟩ = some ⟨fs, .string k (.code n :: rev)⟩ := by
  have h3 := hexValue_digitChar (n / 4096) (by omega)
  have h2 := hexValue_digitChar (n / 256 % 16) (by omega)
  have h1 := hexValue_digitChar (n / 16 % 16) (by omega)
  have h0 := hexValue_digitChar (n % 16) (by omega)
  have hs : 16 * (16 * (16 * (n / 4096) + n / 256 % 16) + n / 16 % 16) + n % 16 = n := by omega
  simp [hexCode, step, h0, h1, h2, h3, hs]

/-- An escaped character is scanned as its own piece. -/
theorem foldlM_escapeChar (fs : List Frame) (k : Bool) (rev : List Piece) (c : Char) :
    (escapeChar c).foldlM step ⟨fs, .string k rev⟩ = some ⟨fs, .string k (pieceOf c :: rev)⟩ := by
  unfold escapeChar pieceOf
  cases he : shortEscape c with
  | some e =>
    obtain ⟨hu, hc⟩ := unescape_shortEscape he
    simp [step, hu, hc]
  | none =>
    by_cases hn : needsCode c
    · have hlt := toNat_lt_of_needsCode hn
      simp [hn, step, foldlM_hexCode (n := c.toNat) (by omega)]
    have hq : c ≠ '"' := by rintro rfl; simp [shortEscape] at he
    have hb : c ≠ '\\' := by rintro rfl; simp [shortEscape] at he
    have hc : ¬ c.toNat < 0x20 := fun h => hn (by simp [needsCode, h])
    simp [hn, step, hq, hb, hc]

theorem foldlM_escape (fs : List Frame) (k : Bool) (rev : List Piece) (cs : List Char) :
    (cs.flatMap escapeChar).foldlM step ⟨fs, .string k rev⟩ =
      some ⟨fs, .string k ((cs.map pieceOf).reverse ++ rev)⟩ := by
  induction cs generalizing rev with
  | nil => rfl
  | cons c cs ih => simp [foldlM_append, foldlM_escapeChar, ih]

theorem joinPieces_pieceOf (c : Char) (ps : List Piece) :
    joinPieces (pieceOf c :: ps) = c :: joinPieces ps := by
  unfold pieceOf
  split
  · rename_i h
    have hlt := toNat_lt_of_needsCode h.2
    have hhi : isHighSurrogate c.toNat = false := by simp [isHighSurrogate]; omega
    have hlo : isLowSurrogate c.toNat = false := by simp [isLowSurrogate]; omega
    have hs : scalar c.toNat = c := by simp [scalar, hhi, hlo]
    cases ps with
    | nil => simp [joinPieces, hs]
    | cons p ps => cases p <;> simp [joinPieces, hhi, hs]
  · rfl

theorem joinPieces_map_pieceOf (cs : List Char) : joinPieces (cs.map pieceOf) = cs := by
  induction cs with
  | nil => rfl
  | cons c cs ih => rw [map_cons, joinPieces_pieceOf, ih]

theorem foldlM_quote_tail (fs : List Frame) (k : Bool) (s : String) :
    (s.toList.flatMap escapeChar ++ ['"']).foldlM step ⟨fs, .string k []⟩ =
      match k, fs with
      | true, .object ms _ :: fs => some ⟨.object ms s :: fs, .colon⟩
      | true, _ => none
      | false, fs => some (deliver fs (.string s)) := by
  have hs : String.ofList (joinPieces (s.toList.map pieceOf)) = s := by
    rw [joinPieces_map_pieceOf, String.ofList_toList]
  simp only [foldlM_append, foldlM_escape, append_nil]
  cases k with
  | false => simp [step, finishString, hs]
  | true =>
    cases fs with
    | nil => simp [step, finishString]
    | cons f fs => cases f <;> simp [step, finishString, hs]

theorem foldlM_number {fs : List Frame} {st st' : NumberState} {rev ds : List Char}
    (h : ds.foldlM NumberState.next st = some st') :
    ds.foldlM step ⟨fs, .number st rev⟩ = some ⟨fs, .number st' (ds.reverse ++ rev)⟩ := by
  induction ds generalizing st rev with
  | nil =>
    cases h
    rfl
  | cons c ds ih =>
    cases hn : st.next c with
    | none => simp [hn] at h
    | some st1 =>
      have ht : ds.foldlM NumberState.next st1 = some st' := by simpa [hn] using h
      simp [step, hn, ih ht]

private theorem foldlM_next_digits {ds : List Char} (h : ∀ c ∈ ds, c.isDigit) :
    ds.foldlM NumberState.next .int = some .int := by
  induction ds with
  | nil => rfl
  | cons c ds ih =>
    have hc := h c mem_cons_self
    simp [NumberState.next, hc, ih fun d hd => h d (mem_cons_of_mem c hd)]

private theorem toDigits_head {n : Nat} (h : 0 < n) :
    ∃ d ds, Nat.toDigits 10 n = d :: ds ∧ d ≠ '0' := by
  induction n using Nat.strongRecOn with
  | ind n ih =>
    by_cases hn : n < 10
    · exact ⟨n.digitChar, [], Nat.toDigits_of_lt_base hn, by simp; omega⟩
    obtain ⟨d, ds, hd, h0⟩ := ih (n / 10) (by omega) (by omega)
    refine ⟨d, ds ++ [(n % 10).digitChar], ?_, h0⟩
    rw [Nat.toDigits_of_base_le (by decide) (by omega), hd, cons_append]

/-- The digits of a natural number, wherever a number may start. -/
private theorem foldlM_toDigits (f : Char → Option State) (fs : List Frame) (rev : List Char)
    (h0 : f '0' = some ⟨fs, .number .zero ('0' :: rev)⟩)
    (hd : ∀ d, d ≠ '0' → d.isDigit → f d = some ⟨fs, .number .int (d :: rev)⟩) (n : Nat) :
    ∃ st d ds, Nat.toDigits 10 n = d :: ds ∧ (st = .zero ∨ st = .int) ∧
      (f d).bind (ds.foldlM step) =
        some ⟨fs, .number st ((Nat.toDigits 10 n).reverse ++ rev)⟩ := by
  rcases Nat.eq_zero_or_pos n with rfl | hn
  · exact ⟨.zero, '0', [], rfl, .inl rfl, by simp [h0]⟩
  obtain ⟨d, ds, hds, hne⟩ := toDigits_head hn
  have hdg : ∀ c ∈ d :: ds, c.isDigit := fun c hc =>
    Nat.isDigit_of_mem_toDigits (by decide) (by decide) (hds ▸ hc)
  have hr := foldlM_next_digits fun c hc => hdg c (mem_cons_of_mem d hc)
  refine ⟨.int, d, ds, hds, .inr rfl, ?_⟩
  rw [hd d hne (hdg d mem_cons_self), Option.bind_some, foldlM_number hr, hds]
  simp

/-- A character that may follow a value inside a container. -/
def Delimiter (c : Char) : Prop := c = ',' ∨ c = '}' ∨ c = ']'

/-- Waiting for a value, the scanner reads `text` as `v`. -/
def Reads (text : List Char) (v : Value) : Prop :=
  ∀ fs d rest, Delimiter d →
    (text ++ d :: rest).foldlM step ⟨fs, .value⟩ = (d :: rest).foldlM step (deliver fs v)

@[simp] theorem step_deliver (fs : List Frame) (v : Value) (c : Char) :
    step (deliver fs v) c = endValue (deliver fs v) c := by
  unfold deliver
  split <;> rfl

variable {text : List Char}

theorem reads_of_foldlM {v : Value}
    (h : ∀ fs, text.foldlM step ⟨fs, .value⟩ = some (deliver fs v)) : Reads text v := by
  intro fs d rest _
  rw [foldlM_append, h]
  rfl

theorem reads_of_number (h : ∀ fs, ∃ st, (st = .zero ∨ st = .int) ∧
      text.foldlM step ⟨fs, .value⟩ = some ⟨fs, .number st text.reverse⟩) :
    Reads text (.number text) := by
  intro fs d rest hd
  obtain ⟨st, hst, ht⟩ := h fs
  -- neither state reads a delimiter, so the literal ends in front of it
  have he : step ⟨fs, .number st text.reverse⟩ d = step (deliver fs (.number text)) d := by
    rw [step_deliver]
    rcases hst with rfl | rfl <;> rcases hd with rfl | rfl | rfl <;>
      simp [step, NumberState.next, NumberState.next.point, NumberState.next.exponent,
        NumberState.accepting]
  simp [foldlM_append, ht, he]

/-- A decimal literal is read as one number. -/
theorem reads_intLiteral (n : Int) : Reads (intLiteral n) (.number (intLiteral n)) := by
  refine reads_of_number fun fs => ?_
  unfold intLiteral
  split
  · obtain ⟨st, d, ds, hds, hst, hf⟩ :=
      foldlM_toDigits (step ⟨fs, .number .neg ['-']⟩) fs ['-']
        (by simp [step, NumberState.next])
        (fun d h0 hd => by simp [step, NumberState.next, h0, hd]) n.natAbs
    refine ⟨st, hst, ?_⟩
    rw [hds] at hf ⊢
    simpa [step, isSpace, beginValue] using hf
  · obtain ⟨st, d, ds, hds, hst, hf⟩ :=
      foldlM_toDigits (step ⟨fs, .value⟩) fs []
        (by simp [step, isSpace, beginValue])
        (fun d h0 hd => by
          have hs : ∀ c, c.isDigit = false → d ≠ c := by
            rintro c hc rfl
            simp [hc] at hd
          simp [step, isSpace, beginValue, h0, hd, hs]) n.natAbs
    refine ⟨st, hst, ?_⟩
    rw [hds] at hf ⊢
    simpa using hf

theorem reads_render (v : Scalar) : Reads v.render v.value := by
  cases v with
  | string s =>
    refine reads_of_foldlM fun fs => ?_
    simp only [Scalar.render, quote, foldlM_cons]
    exact foldlM_quote_tail fs false s
  | int n => exact reads_intLiteral n
  | bool b =>
    refine reads_of_foldlM fun fs => ?_
    cases b <;> simp [Scalar.render, Scalar.value, step, isSpace, beginValue]

section Objects

/-- The members of a flat object as the scanner records them. -/
def values (ms : List (String × Scalar)) : List (String × Value) :=
  ms.map fun m => (m.1, m.2.value)

variable {fs : List Frame} {rev : List (String × Value)}

/-- A member of an object is read up to its delimiter. -/
theorem foldlM_member {k : String} {d : Char}
    {m : Mode} {text : List Char} {v : Value} (hm : m = .key ∨ m = .keyOrEnd) (hd : Delimiter d)
    (hr : Reads text v) (name : String) (rest : List Char) :
    (quote name ++ ':' :: (text ++ d :: rest)).foldlM step ⟨.object rev k :: fs, m⟩ =
      (d :: rest).foldlM step ⟨.object ((name, v) :: rev) name :: fs, .afterValue⟩ := by
  have hk : (quote name).foldlM step ⟨.object rev k :: fs, m⟩ =
      some ⟨.object rev name :: fs, .colon⟩ := by
    have := foldlM_quote_tail (.object rev k :: fs) true name
    rcases hm with rfl | rfl <;> simpa [quote, step, isSpace] using this
  have hc : step ⟨.object rev name :: fs, .colon⟩ ':' =
      some ⟨.object rev name :: fs, .value⟩ := rfl
  have hv := hr (.object rev name :: fs) d rest hd
  rw [foldlM_append, hk]
  simp only [Option.bind_eq_bind, Option.bind_some, foldlM_cons, hc]
  simpa only [foldlM_cons, Option.bind_eq_bind, deliver] using hv

private theorem foldlM_renderMember {k : String}
    {d : Char} {m : Mode} (hm : m = .key ∨ m = .keyOrEnd) (hd : Delimiter d)
    (x : String × Scalar) (rest : List Char) :
    (renderMember x ++ d :: rest).foldlM step ⟨.object rev k :: fs, m⟩ =
      (d :: rest).foldlM step ⟨.object ((x.1, x.2.value) :: rev) x.1 :: fs, .afterValue⟩ := by
  rw [renderMember, append_assoc, cons_append]
  exact foldlM_member hm hd (reads_render x.2) x.1 rest

/-- The rest of an object, from behind its opening brace or a comma. -/
theorem foldlM_renderMembers (fs : List Frame) (rest : List Char)
    (ms : List (String × Scalar)) (rev : List (String × Value)) (k : String) (m : Mode)
    (hm : m = .keyOrEnd ∨ m = .key ∧ ms ≠ []) :
    (renderMembers ms ++ rest).foldlM step ⟨.object rev k :: fs, m⟩ =
      rest.foldlM step (deliver fs (.object (rev.reverse ++ values ms))) := by
  induction ms generalizing rev k m with
  | nil =>
    obtain rfl : m = .keyOrEnd := hm.resolve_right fun h => h.2 rfl
    simp [renderMembers, values, step, isSpace, closeFrame]
  | cons x ms ih =>
    have hm' : m = .key ∨ m = .keyOrEnd := hm.elim .inr fun h => .inl h.1
    cases ms with
    | nil =>
      rw [renderMembers, append_assoc, singleton_append,
        foldlM_renderMember hm' (.inr (.inl rfl))]
      simp [values, step, endValue, isSpace, closeFrame]
    | cons y ms =>
      have hr := ih ((x.1, x.2.value) :: rev) x.1 .key (.inr ⟨rfl, cons_ne_nil y ms⟩)
      have hc : step ⟨.object ((x.1, x.2.value) :: rev) x.1 :: fs, .afterValue⟩ ',' =
          some ⟨.object ((x.1, x.2.value) :: rev) x.1 :: fs, .key⟩ := rfl
      rw [renderMembers, append_assoc, cons_append,
        foldlM_renderMember hm' (.inl rfl), foldlM_cons, hc, Option.bind_eq_bind,
        Option.bind_some, hr]
      · simp [values]
      · exact cons_ne_nil y ms

theorem parse_renderObject (ms : List (String × Scalar)) :
    parse (renderObject ms) = some (.object (values ms)) := by
  have ho : step ⟨[], .value⟩ '{' = some ⟨[.object [] ""], .keyOrEnd⟩ := by
    simp [step, isSpace, beginValue, openFrame, maxNestingDepth]
  have h := foldlM_renderMembers [] [' '] ms [] "" .keyOrEnd (.inl rfl)
  have ht : (renderObject ms ++ [' ']).foldlM step ⟨[], .value⟩ =
      some ⟨[], .top (.object (values ms))⟩ := by
    rw [renderObject, cons_append, foldlM_cons, ho]
    exact h
  rw [parse, ht]

end Objects

section Words

variable {c : Char}

private theorem ne_of_upper_or_digit {d : Char} (h : c.isUpper ∨ c.isDigit)
    (hd : d.isUpper = false ∧ d.isDigit = false) : c ≠ d := by
  rintro rfl
  simp [hd.1, hd.2] at h

private theorem isSpace_upper_or_digit (h : c.isUpper ∨ c.isDigit) : isSpace c = false := by
  have hne := fun d hd => ne_of_upper_or_digit (d := d) h hd
  simp [isSpace, hne]

variable {s : State}

private theorem beginValue_word {fs : List Frame} (h : c.isUpper ∨ c.isDigit)
    (hs : beginValue fs c = some s) : ∃ st rev, s = ⟨fs, .number st rev⟩ := by
  have hne := fun d hd => ne_of_upper_or_digit (d := d) h hd
  simp only [beginValue, hne '{' (by decide), hne '[' (by decide), hne '"' (by decide),
    hne '-' (by decide), hne 't' (by decide), hne 'f' (by decide), hne 'n' (by decide),
    if_false] at hs
  split at hs
  · cases hs
    exact ⟨_, _, rfl⟩
  · split at hs <;> cases hs
    exact ⟨_, _, rfl⟩

private theorem step_word {s' : State} (h : c.isUpper ∨ c.isDigit)
    (hs : s = ⟨[], .value⟩ ∨ ∃ st rev, s = ⟨[], .number st rev⟩) (hst : step s c = some s') :
    ∃ st rev, s' = ⟨[], .number st rev⟩ := by
  have hsp := isSpace_upper_or_digit h
  rcases hs with rfl | ⟨st, rev, rfl⟩
  · simp only [step, hsp, Bool.false_eq_true, if_false] at hst
    exact beginValue_word h hst
  simp only [step] at hst
  split at hst
  · cases hst
    exact ⟨_, _, rfl⟩
  split at hst
  · simp [endValue, hsp, deliver] at hst
  · cases hst

variable {text : List Char}

private theorem foldlM_word {s' : State} (h : ∀ c ∈ text, c.isUpper ∨ c.isDigit)
    (hs : s = ⟨[], .value⟩ ∨ ∃ st rev, s = ⟨[], .number st rev⟩)
    (hf : text.foldlM step s = some s') :
    s' = ⟨[], .value⟩ ∨ ∃ st rev, s' = ⟨[], .number st rev⟩ := by
  induction text generalizing s with
  | nil =>
    cases hf
    exact hs
  | cons c text ih =>
    rw [foldlM_cons, Option.bind_eq_bind, Option.bind_eq_some_iff] at hf
    obtain ⟨s1, hst, hf⟩ := hf
    have hn := step_word (h c mem_cons_self) hs hst
    exact ih (fun d hd => h d (mem_cons_of_mem c hd)) (.inr hn) hf

/-- Capital letters and digits alone form no JSON value but a number. -/
theorem parse_upper_or_digit {v : Value} (h : ∀ c ∈ text, c.isUpper ∨ c.isDigit)
    (hp : parse text = some v) : ∃ literal, v = .number literal := by
  cases hf : text.foldlM step ⟨[], .value⟩ with
  | none => simp [parse, foldlM_append, hf] at hp
  | some s =>
    rcases foldlM_word h (.inl rfl) hf with rfl | ⟨st, rev, rfl⟩
    · simp [parse, foldlM_append, hf, step, isSpace] at hp
    have hen : step ⟨[], .number st rev⟩ ' ' = some ⟨[], .top (.number rev.reverse)⟩ ∨
        step ⟨[], .number st rev⟩ ' ' = none := by
      cases st <;> simp [step, NumberState.next, NumberState.next.point,
        NumberState.next.exponent, NumberState.accepting, endValue, isSpace, deliver]
    rcases hen with he | he
    · have hv : Value.number rev.reverse = v := by simpa [parse, foldlM_append, hf, he]
        using hp
      exact ⟨rev.reverse, hv.symm⟩
    · simp [parse, foldlM_append, hf, he] at hp

end Words

end Json
