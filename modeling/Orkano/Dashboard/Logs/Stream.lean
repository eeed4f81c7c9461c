import Mathlib.Data.List.DropRight
import Mathlib.Logic.Function.Basic
import Mathlib.Logic.Relation
import Orkano.Text.Runes

/-!
The log stream of a resource: one reader per pod puts lines into a channel, a goroutine waits
for all readers, and the handler writes to the client. Every interleaving is a run of `Step`.
-/
namespace Orkano.Dashboard.Logs

open Text

structure LogEvent where
  pod : String
  line : Bytes
  err : Option String
deriving DecidableEq, Repr

inductive Frame where
  | heartbeat
  | event (ev : LogEvent)
  | eof
deriving DecidableEq, Repr

def logEventBuffer : ℕ := 64

/-- A log that ends: its bytes, and the failure behind them if it is not simply over. -/
structure Stream where
  content : Bytes
  failure : Option String
deriving DecidableEq, Repr

/-- What `StreamPodLog` returns. -/
abbrev Source := Except String Stream

/-- `ReadString('\n')`: the line with its delimiter, what follows it, and whether there was a
delimiter at all. -/
def readString (content : Bytes) : Bytes × Bytes × Bool :=
  match content.dropWhile (· ≠ 0x0a) with
  | [] => (content, [], false)
  | delimiter :: rest => (content.takeWhile (· ≠ 0x0a) ++ [delimiter], rest, true)

/-- `strings.TrimRight(line, "\r\n")`. -/
def trimRight (line : Bytes) : Bytes := line.rdropWhile (· ∈ [0x0d, 0x0a])

inductive Reader where
  | opening (source : Source)
  | reading (stream : Stream)
  | sending (line : Bytes) (after : Reader)
  | ended (readErr : Option String)
  | failing (err : String)
  | finished

def Stream.read (stream : Stream) : Reader :=
  let (line, rest, found) := readString stream.content
  let after : Reader := if found then .reading ⟨rest, stream.failure⟩ else .ended stream.failure
  if line ≠ [] then .sending (trimRight line) after else after

def Reader.offers (pod : String) : Reader → Option LogEvent
  | sending line _ => some ⟨pod, line, none⟩
  | failing err => some ⟨pod, [], some err⟩
  | _ => none

/-- The reader after its next move; an event on offer has been sent. -/
def Reader.next (cancelled : Bool) : Reader → Reader
  | opening (.error err) => failing err
  | opening (.ok stream) => reading stream
  | reading stream => stream.read
  | sending _ after => after
  | ended none => finished
  | ended (some err) => if cancelled then finished else failing err
  | failing _ => finished
  | finished => finished

section Handler

inductive Phase where
  | selecting
  | writing (ev : LogEvent) (all : Bool)
  | draining
  | closing
  | returned
deriving DecidableEq

def Phase.back (all : Bool) : Phase := if all then draining else selecting

structure State (pods : List String) where
  readers : Fin pods.length → Reader
  events : List LogEvent
  /-- Closed once all readers have finished. -/
  done : Bool
  phase : Phase
  /-- Neither has the request ended nor would a write fail. -/
  connected : Bool
  written : List Frame

variable {pods : List String}

/-- The context of the readers ends with the request, and when the handler returns. -/
def State.cancelled (s : State pods) : Bool := s.phase = .returned || !s.connected

def State.setReader (s : State pods) (i : Fin pods.length) (r : Reader) : State pods :=
  { s with readers := Function.update s.readers i r }

def State.write (s : State pods) (frame : Frame) (phase : Phase) : State pods :=
  { s with written := s.written ++ [frame], phase }

inductive Move : State pods → State pods → Prop
  -- A reader goes on; to send it needs room in the channel.
  | advance {s : State pods} (i : Fin pods.length) (hlive : s.readers i ≠ .finished)
      (hroom : (s.readers i).offers (pods.get i) ≠ none → s.events.length < logEventBuffer) :
      Move s { s.setReader i ((s.readers i).next s.cancelled) with
        events := s.events ++ ((s.readers i).offers (pods.get i)).toList }
  -- Once its context is over, a reader may be refused a stream, lose it, or give up a send.
  | refuse {s : State pods} (i : Fin pods.length) {source : Source} (hcancelled : s.cancelled = true)
      (hreader : s.readers i = .opening source) (err : String) : Move s (s.setReader i (.failing err))
  | cut {s : State pods} (i : Fin pods.length) {stream : Stream} (hcancelled : s.cancelled = true)
      (hreader : s.readers i = .reading stream) {front : Bytes} (hfront : front <+: stream.content)
      (err : String) : Move s (s.setReader i (Stream.read ⟨front, some err⟩))
  | giveUp {s : State pods} (i : Fin pods.length) (hcancelled : s.cancelled = true)
      (hoffers : (s.readers i).offers (pods.get i) ≠ none) : Move s (s.setReader i .finished)
  -- `wg.Wait(); close(done)`
  | close {s : State pods} (hreaders : ∀ i, s.readers i = .finished) (hdone : s.done = false) :
      Move s { s with done := true }
  -- The cases of the select.
  | receive {s : State pods} {ev : LogEvent} {rest : List LogEvent} (hphase : s.phase = .selecting)
      (hevents : s.events = ev :: rest) :
      Move s { s with phase := .writing ev false, events := rest }
  | complete {s : State pods} (hphase : s.phase = .selecting) (hdone : s.done = true) :
      Move s { s with phase := .draining }
  -- The inner loop, whose default is taken only where nothing is buffered.
  | drain {s : State pods} {ev : LogEvent} {rest : List LogEvent} (hphase : s.phase = .draining)
      (hevents : s.events = ev :: rest) :
      Move s { s with phase := .writing ev true, events := rest }
  | drained {s : State pods} (hphase : s.phase = .draining) (hevents : s.events = []) :
      Move s { s with phase := .closing }
  | write {s : State pods} {ev : LogEvent} {all : Bool} (hphase : s.phase = .writing ev all) :
      Move s (s.write (.event ev) (.back all))
  | eof {s : State pods} (hphase : s.phase = .closing) : Move s (s.write .eof .returned)
  -- Once the client has gone, the select may see it, and any write may fail.
  | leave {s : State pods} (hphase : s.phase ≠ .returned) (hdraining : s.phase ≠ .draining)
      (hgone : s.connected = false) : Move s { s with phase := .returned }
  | disconnect {s : State pods} (hconnected : s.connected = true) : Move s { s with connected := false }

inductive Step : State pods → State pods → Prop
  | move {s s' : State pods} (h : Move s s') : Step s s'
  | heartbeat {s : State pods} (hphase : s.phase = .selecting) :
      Step s (s.write .heartbeat .selecting)

def start (sources : Fin pods.length → Source) : State pods where
  readers i := .opening (sources i)
  events := []
  done := false
  phase := .selecting
  connected := true
  written := []

def Reachable (sources : Fin pods.length → Source) : State pods → Prop :=
  Relation.ReflTransGen Step (start sources)

end Handler

end Orkano.Dashboard.Logs
