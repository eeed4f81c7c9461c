import Orkano.Dashboard.Logs.Stream
import Orkano.Json.Marshal

/-!
The frames of a log stream as they are written: server-sent events with one line of JSON each.
-/
namespace Orkano.Dashboard.Logs

open Text Json List

def writeSSE (event : String) (data : List Char) : List Char :=
  (if event ≠ "" then "event: ".toList ++ event.toList ++ ['\n'] else []) ++
    "data: ".toList ++ data ++ ['\n', '\n']

def writeLogEvent (ev : LogEvent) : List Char :=
  match ev.err with
  | some _ => writeSSE "error" (marshalMap [("error", bytes "stream_error"), ("pod", bytes ev.pod)])
  | none => writeSSE "" (marshalMap [("line", ev.line), ("pod", bytes ev.pod)])

def Frame.text : Frame → List Char
  | heartbeat => ":\n\n".toList
  | event ev => writeLogEvent ev
  | eof => writeSSE "eof" "\x7b\"reason\":\"streams ended\"\x7d".toList

def Frame.bytes (frame : Frame) : Bytes := frame.text.flatMap String.utf8EncodeChar

/-- The lines of a frame, without the empty one that ends it. -/
def Frame.lines : Frame → List (List Char)
  | heartbeat => [[':']]
  | event ⟨pod, _, some _⟩ => ["event: error".toList, "data: ".toList ++
      marshalMap [("error", Text.bytes "stream_error"), ("pod", Text.bytes pod)]]
  | event ⟨pod, line, none⟩ => ["data: ".toList ++ marshalMap [("line", line), ("pod", Text.bytes pod)]]
  | eof => ["event: eof".toList, "data: \x7b\"reason\":\"streams ended\"\x7d".toList]

theorem text_eq_lines (frame : Frame) :
    frame.text = ['\n'].intercalate frame.lines ++ ['\n', '\n'] := by
  rcases frame with _ | ⟨pod, line, _ | err⟩ | _
  · rfl
  · simp [Frame.text, Frame.lines, writeLogEvent, writeSSE, List.intercalate]
  · simp [Frame.text, Frame.lines, writeLogEvent, writeSSE, List.intercalate]
  · rfl

theorem lines_ne_nil (frame : Frame) : frame.lines ≠ [] := by
  rcases frame with _ | ⟨pod, line, _ | err⟩ | _ <;> exact cons_ne_nil _ _

/-- No line is empty or holds a newline, so that nothing but the end of a frame looks like it. -/
theorem line_of_mem_lines {frame : Frame} {line : List Char} (h : line ∈ frame.lines) :
    line ≠ [] ∧ '\n' ∉ line := by
  have hd : ∀ k1 k2 t1 t2, "data: ".toList ++ marshalMap [(k1, t1), (k2, t2)] ≠ [] ∧
      '\n' ∉ "data: ".toList ++ marshalMap [(k1, t1), (k2, t2)] := by
    intro k1 k2 t1 t2
    simp [newline_notMem_marshalMap]
  rcases frame with _ | ⟨pod, text, _ | err⟩ | _
  · rw [mem_singleton.mp h]
    decide
  · rw [mem_singleton.mp h]
    exact hd _ _ _ _
  · rcases mem_cons.mp h with rfl | h
    · decide
    · rw [mem_singleton.mp h]
      exact hd _ _ _ _
  rcases mem_cons.mp h with rfl | h
  · decide
  · rw [mem_singleton.mp h]
    decide

end Orkano.Dashboard.Logs
