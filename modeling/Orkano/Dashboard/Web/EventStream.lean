import Orkano.Dashboard.Logs.Wire
import Orkano.Text.Lines

/-!
The web client's end of a log stream: it decodes the chunks of the body one by one and hands on
each block in front of an empty line. `JSON.parse` differs from the scanner only on what the
server never writes.
-/
namespace Orkano.Dashboard.Web

open Text List

inductive Call where
  | onLine (pod line : String)
  | onStreamError (pod : String)
  | onEof
deriving DecidableEq, Repr

def stripFieldValue (v : List Char) : List Char := if [' '] <+: v then v.drop 1 else v

structure Fields where
  event : List Char
  data : List Char

def readLine (fields : Fields) (raw : List Char) : Fields :=
  let line := if ['\r'] <:+ raw then raw.dropLast else raw
  if ":".toList <+: line then fields
  else if "event:".toList <+: line then
    { fields with event := stripFieldValue (line.drop "event:".length) }
  else if "data:".toList <+: line then
    { fields with data := stripFieldValue (line.drop "data:".length) }
  else fields

/-- The properties of a value whose type is an object; those of an array have numbers for
names. -/
def properties : Json.Value → Option (List (String × Json.Value))
  | .object members => some members
  | .array _ => some []
  | _ => none

/-- A property that is a string; of members with one name the last counts. -/
def stringProperty (members : List (String × Json.Value)) (name : String) : Option String :=
  match members.reverse.lookup name with
  | some (.string s) => some s
  | _ => none

def dispatchEvent (block : List Char) : Option Call :=
  let fields := (block.splitOn '\n').foldl readLine ⟨[], []⟩
  if fields.data = [] then none
  else match (Json.parse fields.data).bind properties with
  | none => none
  | some payload =>
    let pod := (stringProperty payload "pod").getD ""
    if fields.event = [] then (stringProperty payload "line").map (.onLine pod)
    else if fields.event = "error".toList then some (.onStreamError pod)
    else if fields.event = "eof".toList then some .onEof
    else none

/-- The inner loop: the blocks that are complete, and what is left in the buffer. -/
def takeBlocks (buffer : List Char) : List (List Char) × List Char :=
  match h : indexOf ['\n', '\n'] buffer with
  | some boundary =>
    have : boundary + 2 ≤ buffer.length := length_le_of_indexOf h
    let (blocks, left) := takeBlocks (buffer.drop (boundary + 2))
    (buffer.take boundary :: blocks, left)
  | none => ([], buffer)
termination_by buffer.length
decreasing_by
  rw [List.length_drop]
  omega

/-- The outer loop, over the chunks that the body still gives. -/
def consume (decoder : TextDecoder) (buffer : List Char) : List Bytes → List Call
  | [] => []
  | value :: chunks =>
    let (decoder, text) := decoder.decode value
    let (blocks, buffer) := takeBlocks (buffer ++ text)
    blocks.filterMap dispatchEvent ++ consume decoder buffer chunks

inductive Settled where
  | resolved
  | rejected
deriving DecidableEq, Repr

def settle (aborted : Bool) : Settled := if aborted then .resolved else .rejected

/-- What `fetch` gives. A body ends, or fails behind the chunks that were read. -/
inductive Fetched where
  | failed (aborted : Bool)
  | notOk
  | noBody
  | body (chunks : List Bytes) (failure : Option Bool)

def streamLogs : Fetched → List Call × Settled
  | .failed aborted => ([], settle aborted)
  | .notOk => ([], .rejected)
  | .noBody => ([], .resolved)
  | .body chunks failure => (consume .new [] chunks, failure.elim .resolved settle)

section Chunks

variable {buffer : List Char}

theorem takeBlocks_of_some {boundary : ℕ}
    (h : indexOf ['\n', '\n'] buffer = some boundary) :
    takeBlocks buffer = (buffer.take boundary :: (takeBlocks (buffer.drop (boundary + 2))).1,
      (takeBlocks (buffer.drop (boundary + 2))).2) := by
  rw [takeBlocks]
  split
  · rename_i n hn
    cases h.symm.trans hn
    rfl
  · rename_i hnn
    cases h.symm.trans hnn

theorem takeBlocks_of_none (h : indexOf ['\n', '\n'] buffer = none) :
    takeBlocks buffer = ([], buffer) := by
  rw [takeBlocks]
  split
  · rename_i n hn
    cases h.symm.trans hn
  · rfl

theorem takeBlocks_append (buffer more : List Char) :
    takeBlocks (buffer ++ more) =
      ((takeBlocks buffer).1 ++ (takeBlocks ((takeBlocks buffer).2 ++ more)).1,
        (takeBlocks ((takeBlocks buffer).2 ++ more)).2) := by
  induction hl : buffer.length using Nat.strongRecOn generalizing buffer with
  | ind n ih =>
    cases hi : indexOf ['\n', '\n'] buffer with
    | none => simp [takeBlocks_of_none hi]
    | some boundary =>
      have hle : boundary + 2 ≤ buffer.length := length_le_of_indexOf hi
      have hr := ih (buffer.drop (boundary + 2)).length (by rw [length_drop]; omega) _ rfl
      rw [takeBlocks_of_some (indexOf_append hi more), take_append_of_le_length (by omega),
        drop_append_of_le_length (by omega), hr, takeBlocks_of_some hi]
      rfl

theorem takeBlocks_left (buffer : List Char) :
    takeBlocks (takeBlocks buffer).2 = ([], (takeBlocks buffer).2) := by
  induction hl : buffer.length using Nat.strongRecOn generalizing buffer with
  | ind n ih =>
    cases hi : indexOf ['\n', '\n'] buffer with
    | none => simp [takeBlocks_of_none hi]
    | some boundary =>
      have hle : boundary + 2 ≤ buffer.length := length_le_of_indexOf hi
      have hr := ih (buffer.drop (boundary + 2)).length (by rw [length_drop]; omega) _ rfl
      rw [takeBlocks_of_some hi]
      exact hr

theorem consume_eq (h : takeBlocks buffer = ([], buffer)) (decoder : TextDecoder)
    (chunks : List Bytes) : consume decoder buffer chunks =
      (takeBlocks (buffer ++ (decoder.decode chunks.flatten).2)).1.filterMap dispatchEvent := by
  induction chunks generalizing decoder buffer with
  | nil => simp [consume, TextDecoder.decode, h]
  | cons value chunks ih =>
    rw [consume, flatten_cons, TextDecoder.decode_append]
    dsimp only
    rw [ih (takeBlocks_left _), ← filterMap_append, ← append_assoc,
      takeBlocks_append (buffer ++ _)]

end Chunks

section Frames

open Logs

variable {lines : List (List Char)}

/-- The first empty line is the one behind the lines of a block. -/
theorem indexOf_lines (h : ∀ l ∈ lines, l ≠ [] ∧ '\n' ∉ l) (hne : lines ≠ []) (rest : List Char) :
    indexOf ['\n', '\n'] (['\n'].intercalate lines ++ '\n' :: '\n' :: rest) =
      some (['\n'].intercalate lines).length := by
  induction lines with
  | nil => exact absurd rfl hne
  | cons l lines ih =>
    obtain ⟨-, hl⟩ := h l mem_cons_self
    cases lines with
    | nil =>
      rw [intercalate_singleton, indexOf_append_of_notMem hl, indexOf, if_pos]
      · simp
      · exact ⟨rest, rfl⟩
    | cons m lines =>
      have hr := ih (fun l hl => h l (mem_cons_of_mem _ hl)) (cons_ne_nil m lines)
      -- The newline between two lines is followed by the first character of the second.
      have hs : ¬ ['\n', '\n'] <+:
          '\n' :: (['\n'].intercalate (m :: lines) ++ '\n' :: '\n' :: rest) := by
        obtain ⟨hm, hn⟩ := h m (mem_cons_of_mem _ mem_cons_self)
        obtain ⟨c, m, rfl⟩ := exists_cons_of_ne_nil hm
        have hc : '\n' ≠ c := fun heq => hn (heq ▸ mem_cons_self)
        have hh : ∃ text, ['\n'].intercalate ((c :: m) :: lines) = c :: text := by
          cases lines <;> simp [List.intercalate]
        obtain ⟨text, ht⟩ := hh
        rw [ht]
        simp [hc]
      rw [intercalate_cons_cons, append_assoc, append_assoc,
        indexOf_append_of_notMem hl, singleton_append, indexOf, if_neg hs, hr]
      simp
      omega

theorem takeBlocks_text (frame : Frame) (rest : List Char) :
    takeBlocks (frame.text ++ rest) =
      (['\n'].intercalate frame.lines :: (takeBlocks rest).1, (takeBlocks rest).2) := by
  have hi := indexOf_lines (fun l hl => line_of_mem_lines hl) (lines_ne_nil frame) rest
  rw [text_eq_lines, append_assoc, cons_append, cons_append, nil_append,
    takeBlocks_of_some hi, take_left, ← drop_drop, drop_left]
  rfl

theorem takeBlocks_texts (frames : List Frame) :
    (takeBlocks (frames.flatMap Frame.text)).1 = frames.map fun f => ['\n'].intercalate f.lines := by
  induction frames with
  | nil => rw [flatMap_nil, takeBlocks_of_none (by rfl)]; rfl
  | cons f frames ih => rw [flatMap_cons, takeBlocks_text, ih, map_cons]

/-- A data line gives its document back. -/
theorem readLine_data (fields : Fields) (front : List Char) :
    readLine fields ("data: ".toList ++ (front ++ ['}'])) = { fields with data := front ++ ['}'] } := by
  have he : ¬ ['\r'] <:+ "data: ".toList ++ (front ++ ['}']) := by
    rintro ⟨text, ht⟩
    rw [← append_assoc] at ht
    exact absurd (append_inj' ht rfl).2 (by decide)
  have hh : ∀ {field : List Char} {c : Char}, field.head? = some c → c ≠ 'd' →
      ¬ field <+: "data: ".toList ++ (front ++ ['}']) := by
    rintro field c hc hne ⟨text, ht⟩
    have hf : (field ++ text).head? = some 'd' := congrArg List.head? ht
    rw [head?_append, hc] at hf
    exact hne (Option.some.inj hf)
  rw [readLine, if_neg he, if_neg (hh (c := ':') rfl (by decide)),
    if_neg (hh (c := 'e') rfl (by decide)), if_pos ⟨' ' :: (front ++ ['}']), rfl⟩]
  rfl

def callOf : Frame → Option Call
  | .heartbeat => none
  | .event ⟨pod, line, none⟩ => some (.onLine pod (String.ofList (decodeRunes line)))
  | .event ⟨pod, _, some _⟩ => some (.onStreamError pod)
  | .eof => some .onEof

theorem splitOn_lines (frame : Frame) :
    (['\n'].intercalate frame.lines).splitOn '\n' = frame.lines :=
  splitOn_intercalate '\n' (fun _ hl => (line_of_mem_lines hl).2) (lines_ne_nil frame)

theorem parse_pod (key pod : String) (text : Bytes) :
    (Json.parse (Json.marshalMap [(key, text), ("pod", bytes pod)])).bind properties =
      some [(key, .string (String.ofList (decodeRunes text))), ("pod", .string pod)] := by
  rw [Json.parse_marshalMap, decodeRunes_bytes, String.ofList_toList]
  rfl

/-- The client makes of a frame's lines the call that the frame stands for. -/
theorem dispatchEvent_lines (frame : Frame) :
    dispatchEvent (['\n'].intercalate frame.lines) = callOf frame := by
  have hd : ∀ fields k1 k2 t1 t2,
      readLine fields ("data: ".toList ++ Json.marshalMap [(k1, t1), (k2, t2)]) =
        { fields with data := Json.marshalMap [(k1, t1), (k2, t2)] } :=
    fun fields _ _ _ _ => readLine_data fields (_ :: _)
  have hne : ∀ ms, Json.marshalMap ms ≠ [] := fun _ => cons_ne_nil _ _
  rw [dispatchEvent, splitOn_lines]
  rcases frame with _ | ⟨pod, line, _ | err⟩ | _
  · rfl
  · simp only [Frame.lines, foldl_cons, foldl_nil, hd, if_neg (hne _), parse_pod]
    simp [stringProperty, callOf, lookup_cons]
  · have he : readLine ⟨[], []⟩ "event: error".toList = ⟨"error".toList, []⟩ := by rfl
    simp only [Frame.lines, foldl_cons, foldl_nil, he, hd, if_neg (hne _), parse_pod]
    simp [stringProperty, callOf]
  · decide

theorem head_text (frame : Frame) : ∃ c rest, frame.text = c :: rest ∧ c ≠ TextDecoder.byteOrderMark := by
  rcases frame with _ | ⟨pod, line, _ | err⟩ | _
  · exact ⟨_, _, rfl, by decide⟩
  · exact ⟨_, _, rfl, by decide⟩
  · exact ⟨_, _, rfl, by decide⟩
  · exact ⟨_, _, rfl, by decide⟩

theorem decode_frames (frames : List Frame) :
    (TextDecoder.new.decode (frames.flatMap Frame.bytes)).2 = frames.flatMap Frame.text := by
  have hb : frames.flatMap Frame.bytes =
      (frames.flatMap Frame.text).flatMap String.utf8EncodeChar := flatMap_assoc.symm
  rw [hb]
  apply TextDecoder.decode_utf8
  right
  cases frames with
  | nil => simp
  | cons f frames =>
    obtain ⟨c, rest, ht, hc⟩ := head_text f
    rw [flatMap_cons, ht]
    simpa using hc

theorem streamLogs_frames {frames : List Frame} {chunks : List Bytes}
    (h : chunks.flatten = frames.flatMap Frame.bytes) :
    streamLogs (.body chunks none) = (frames.filterMap callOf, .resolved) := by
  have he : takeBlocks [] = ([], []) := takeBlocks_of_none rfl
  rw [streamLogs, consume_eq he, nil_append, h, decode_frames, takeBlocks_texts,
    filterMap_map]
  simp only [Function.comp_def, dispatchEvent_lines]
  rfl

inductive Sent where
  | heartbeat
  | line (pod text : String)
  | error (pod err : String)
  | eof
deriving DecidableEq, Repr

def Sent.frame : Sent → Frame
  | heartbeat => .heartbeat
  | line pod text => .event ⟨pod, bytes text, none⟩
  | error pod err => .event ⟨pod, [], some err⟩
  | eof => .eof

def Sent.call : Sent → Option Call
  | heartbeat => none
  | line pod text => some (.onLine pod text)
  | error pod _ => some (.onStreamError pod)
  | eof => some .onEof

theorem callOf_frame (sent : Sent) : callOf sent.frame = sent.call := by
  cases sent with
  | line pod text => rw [Sent.frame, callOf, decodeRunes_bytes, String.ofList_toList, Sent.call]
  | heartbeat | error pod err | eof => rfl

/-- However the bytes of the stream are cut into chunks, the client makes the calls for what was
sent, one each and in order, and no other. -/
theorem log_events_delivered (sent : List Sent) (chunks : List Bytes)
    (h : chunks.flatten = sent.flatMap fun e => e.frame.bytes) :
    streamLogs (.body chunks none) = (sent.filterMap Sent.call, .resolved) := by
  have hframes : chunks.flatten = (sent.map Sent.frame).flatMap Frame.bytes := by
    rw [h, flatMap_map]
  rw [streamLogs_frames hframes, filterMap_map]
  simp only [Function.comp_def, callOf_frame]

def awkwardSent : List Sent :=
  [.heartbeat, .line "web-1" "é\n\n\r\x00\u2028data: x", .error "web-2" "gone", .eof]

/-- The stream arrives byte by byte. -/
theorem awkwardSent_delivered :
    streamLogs (.body ((awkwardSent.flatMap fun e => e.frame.bytes).map fun b => [b]) none) =
      ([.onLine "web-1" "é\n\n\r\x00\u2028data: x", .onStreamError "web-2", .onEof], .resolved) := by
  apply log_events_delivered awkwardSent
  rw [← flatMap_def, flatMap_singleton']

end Frames

end Orkano.Dashboard.Web
