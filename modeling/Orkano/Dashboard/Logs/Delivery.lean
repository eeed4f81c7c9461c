import Mathlib.Algebra.BigOperators.Fin
import Mathlib.Algebra.Order.BigOperators.Group.Finset
import Orkano.Dashboard.Logs.Stream
import Orkano.Interleave.Merge
import Orkano.Text.Lines

/-!
A log stream loses nothing: every event that a reader has sent is written, being written or in
the channel, and the readers have finished before the handler drains it.
-/
namespace Orkano.Dashboard.Logs

open Interleave Text List

/-- The lines of a log, the last one also where it is not ended. -/
def lines (content : Bytes) : List Bytes :=
  let pieces := content.splitOn 0x0a
  (if pieces.getLast? = some [] then pieces.dropLast else pieces).map trimRight

def podLines : Source → List Bytes
  | .error _ => []
  | .ok stream => lines stream.content

def podFailure : Source → Option String
  | .error err => some err
  | .ok stream => stream.failure

/-- What the log of a pod should become: its lines in order, then at most one error. -/
def podEvents (pod : String) (source : Source) : List LogEvent :=
  (podLines source).map (⟨pod, ·, none⟩) ++ (podFailure source).toList.map (⟨pod, [], some ·⟩)

def Reader.pending (pod : String) : Reader → List LogEvent
  | opening source => podEvents pod source
  | reading stream => podEvents pod (.ok stream)
  | sending line after => ⟨pod, line, none⟩ :: after.pending pod
  | ended readErr => readErr.toList.map (⟨pod, [], some ·⟩)
  | failing err => [⟨pod, [], some err⟩]
  | finished => []

theorem lines_of_notMem {content : Bytes} (h : 0x0a ∉ content) :
    lines content = if content = [] then [] else [trimRight content] := by
  rw [lines, splitOn_eq_singleton h]
  by_cases he : content = [] <;> simp [he]

theorem trimRight_append_newline (line : Bytes) : trimRight (line ++ [0x0a]) = trimRight line := by
  rw [trimRight, rdropWhile_concat_pos _ _ _ (by decide), trimRight]

theorem lines_cons {line rest : Bytes} (h : 0x0a ∉ line) :
    lines (line ++ 0x0a :: rest) = trimRight line :: lines rest := by
  have hs : (line ++ 0x0a :: rest).splitOn 0x0a = line :: rest.splitOn 0x0a := by
    rw [splitOn_append_cons_self, splitOn_eq_singleton h, singleton_append]
  have hne : rest.splitOn 0x0a ≠ [] := by simp
  simp only [lines, hs, getLast?_cons_of_ne_nil hne, dropLast_cons_of_ne_nil hne]
  split <;> rfl

/-- Reading a line moves it from the stream to what is to be sent. -/
theorem pending_read (pod : String) (stream : Stream) :
    stream.read.pending pod = podEvents pod (.ok stream) := by
  obtain ⟨content, failure⟩ := stream
  have hf : 0x0a ∉ content.takeWhile (· ≠ 0x0a) := by
    intro hm
    simpa using mem_takeWhile_imp hm
  have hc : content.takeWhile (· ≠ 0x0a) ++ content.dropWhile (· ≠ 0x0a) = content :=
    takeWhile_append_dropWhile
  unfold Stream.read readString
  cases hr : content.dropWhile (· ≠ 0x0a) with
  | nil =>
    rw [hr, append_nil] at hc
    rw [hc] at hf
    by_cases he : content = []
    · simp [he, Reader.pending, podEvents, podLines, podFailure, lines_of_notMem]
    · simp [he, Reader.pending, podEvents, podLines, podFailure, lines_of_notMem hf]
  | cons b rest =>
    have hb : b = 0x0a := by
      have hne : content.dropWhile (· ≠ 0x0a) ≠ [] := by
        rw [hr]
        exact cons_ne_nil b rest
      have hh := head_dropWhile_not _ hne
      simp only [hr, head_cons] at hh
      simpa using hh
    subst hb
    rw [hr] at hc
    have hl := @lines_cons _ rest hf
    rw [hc] at hl
    simp [Reader.pending, podEvents, podLines, podFailure, hl, trimRight_append_newline]

theorem pending_eq (pod : String) (r : Reader) :
    r.pending pod = (r.offers pod).toList ++ (r.next false).pending pod := by
  cases r with
  | opening source => cases source <;> rfl
  | reading stream => exact (pending_read pod stream).symm
  | sending | failing | finished => rfl
  | ended readErr => cases readErr <;> rfl

section Invariant

variable {pods : List String} {sources : Fin pods.length → Source} {s s' : State pods}

def eventsOf (frames : List Frame) : List LogEvent :=
  frames.filterMap fun
    | .event ev => some ev
    | _ => none

/-- The event that the handler is about to write. -/
def Phase.held : Phase → List LogEvent
  | writing ev _ => [ev]
  | _ => []

@[simp] theorem held_writing (ev : LogEvent) (all : Bool) : (Phase.writing ev all).held = [ev] := rfl

@[simp] theorem held_back (all : Bool) : (Phase.back all).held = [] := by
  cases all <;> rfl

/-- The handler has seen `done`. -/
def Phase.after : Phase → Bool
  | selecting => false
  | writing _ all => all
  | draining | closing | returned => true

def Phase.over : Phase → Bool
  | closing | returned => true
  | _ => false

def State.sent (s : State pods) : List LogEvent := eventsOf s.written ++ s.phase.held ++ s.events

structure Accounted (sources : Fin pods.length → Source) (s : State pods) : Prop where
  sent : ∃ parts, Merges parts s.sent ∧
    ∀ i, parts i ++ (s.readers i).pending (pods.get i) = podEvents (pods.get i) (sources i)
  finished : s.done = true → ∀ i, s.readers i = .finished
  after : s.phase.after = true → s.done = true
  drained : s.phase.over = true → s.events = []
  open_ : s.phase ≠ .returned → .eof ∉ s.written
  closed : s.phase = .returned → ∃ front, s.written = front ++ [.eof] ∧ .eof ∉ front

@[simp] theorem eventsOf_append (frames more : List Frame) :
    eventsOf (frames ++ more) = eventsOf frames ++ eventsOf more :=
  filterMap_append

@[simp] theorem eventsOf_event (ev : LogEvent) : eventsOf [.event ev] = [ev] := rfl

@[simp] theorem eventsOf_heartbeat : eventsOf [.heartbeat] = [] := rfl

@[simp] theorem eventsOf_eof : eventsOf [.eof] = [] := rfl

theorem accounted_start (sources : Fin pods.length → Source) : Accounted sources (start sources) where
  sent := ⟨fun _ => [], .nil, fun _ => rfl⟩
  finished := nofun
  after := nofun
  drained := nofun
  open_ _ := not_mem_nil
  closed := nofun

namespace Accounted

variable {i : Fin pods.length}

theorem not_done (h : Accounted sources s) (hl : s.readers i ≠ .finished) : s.done = false := by
  by_contra hdone
  exact hl (h.finished (by simpa using hdone) i)

theorem finished_of_cancelled (h : Accounted sources s) (hc : s.connected = true)
    (hcn : s.cancelled = true) (i : Fin pods.length) : s.readers i = .finished := by
  have hp : s.phase = .returned := by simpa [State.cancelled, hc] using hcn
  exact h.finished (h.after (by rw [hp]; rfl)) i

/-- A move of a reader loses no event. -/
theorem advance (h : Accounted sources s) (hcn : s.connected = true)
    (hl : s.readers i ≠ .finished) :
    Accounted sources { s.setReader i ((s.readers i).next s.cancelled) with
      events := s.events ++ ((s.readers i).offers (pods.get i)).toList } := by
  have hd := h.not_done hl
  obtain ⟨parts, hpr, hp⟩ := h.sent
  have hc : s.cancelled = false := by
    by_contra hc
    exact hl (h.finished_of_cancelled hcn (by simpa using hc) i)
  rw [hc]
  refine ⟨?_, ?_, h.after, ?_, h.open_, h.closed⟩
  · have hr := pending_eq (pods.get i) (s.readers i)
    have hs := hpr.append i ((s.readers i).offers (pods.get i))
    refine ⟨_, by simpa [State.sent, State.setReader] using hs, fun j => ?_⟩
    rw [← hp j]
    by_cases hj : j = i
    · subst hj
      simp only [State.setReader, Function.update_self, hr, append_assoc]
      rfl
    · simp [State.setReader, Function.update_of_ne hj]
  · intro hcl
    exact absurd (hd.symm.trans hcl) (by decide)
  intro ho
  have ha : s.phase.after = true := by
    revert ho
    simp only [State.setReader]
    cases s.phase <;> simp [Phase.over, Phase.after]
  exact absurd (hd.symm.trans (h.after ha)) (by decide)

variable {ev : LogEvent}

theorem take (h : Accounted sources s) {rest : List LogEvent} {all : Bool}
    (hp : s.phase = .back all) (he : s.events = ev :: rest) :
    Accounted sources { s with phase := .writing ev all, events := rest } := by
  obtain ⟨parts, hpr, hpn⟩ := h.sent
  refine ⟨⟨parts, ?_, hpn⟩, h.finished, ?_, nofun, fun _ => h.open_ ?_, nofun⟩
  · simpa [State.sent, hp, he] using hpr
  · intro ha
    apply h.after
    rw [hp, show all = true from ha]
    rfl
  · rw [hp, Phase.back]
    cases all <;> simp

/-- Nor does a write to the client. -/
theorem write (h : Accounted sources s) {all : Bool} (hp : s.phase = .writing ev all) :
    Accounted sources (s.write (.event ev) (.back all)) := by
  obtain ⟨parts, hpr, hpn⟩ := h.sent
  have hop : .eof ∉ s.written := h.open_ (by simp [hp])
  obtain ⟨ha, hov, ho⟩ : (Phase.back all).after = all ∧
      (Phase.back all).over = false ∧ Phase.back all ≠ .returned := by
    cases all <;> simp [Phase.back, Phase.after, Phase.over]
  refine ⟨⟨parts, ?_, hpn⟩, h.finished, ?_, ?_, fun _ => ?_, ?_⟩
  · simpa [State.sent, State.write, hp] using hpr
  · intro hal
    apply h.after
    rw [hp]
    exact ha.symm.trans hal
  · intro ht
    exact absurd (hov.symm.trans ht) (by decide)
  · simpa [State.write] using hop
  · intro hr
    exact absurd hr ho

theorem heartbeat (h : Accounted sources s) (hp : s.phase = .selecting) :
    Accounted sources (s.write .heartbeat .selecting) := by
  obtain ⟨parts, hpr, hpn⟩ := h.sent
  have ho : .eof ∉ s.written := h.open_ (by simp [hp])
  refine ⟨⟨parts, ?_, hpn⟩, h.finished, nofun, nofun, fun _ => ?_, nofun⟩
  · simpa [State.sent, State.write, hp, Phase.held] using hpr
  · simpa [State.write] using ho

theorem enter (h : Accounted sources s) {phase : Phase} (hh : s.phase.held = [])
    (hph : phase.held = []) (hr : s.phase ≠ .returned ∧ phase ≠ .returned)
    (ha : phase.after = true → s.done = true) (ho : phase.over = true → s.events = []) :
    Accounted sources { s with phase } := by
  obtain ⟨parts, hpr, hp⟩ := h.sent
  refine ⟨⟨parts, ?_, hp⟩, h.finished, ha, ho, fun _ => h.open_ hr.1, ?_⟩
  · simpa [State.sent, hh, hph] using hpr
  · intro heq
    exact absurd heq hr.2

theorem eof (h : Accounted sources s) (hp : s.phase = .closing) :
    Accounted sources (s.write .eof .returned) := by
  obtain ⟨parts, hpr, hpn⟩ := h.sent
  have hd : s.done = true := h.after (by rw [hp]; rfl)
  refine ⟨⟨parts, ?_, hpn⟩, h.finished, fun _ => hd, fun _ => h.drained (by rw [hp]; rfl),
    fun ho => absurd rfl ho, fun _ => ⟨s.written, rfl, h.open_ (by simp [hp])⟩⟩
  simpa [State.sent, State.write, hp, Phase.held] using hpr

/-- No move loses or duplicates an event while the client is there. -/
theorem move (h : s.connected = true → Accounted sources s) (hm : Move s s')
    (hc : s'.connected = true) : Accounted sources s' := by
  cases hm with
  | advance i hl hrm => exact (h hc).advance hc hl
  | refuse i hcn hr err | cut i hcn hr hf err =>
    rw [(h hc).finished_of_cancelled hc hcn i] at hr
    cases hr
  | giveUp i hcn ho =>
    rw [(h hc).finished_of_cancelled hc hcn i] at ho
    exact absurd rfl ho
  | close hrd hd =>
    have hs := h hc
    exact ⟨hs.sent, fun _ => hrd, fun _ => rfl, hs.drained, hs.open_, hs.closed⟩
  | receive hp he => exact (h hc).take hp he
  | complete hp hd =>
    exact (h hc).enter (by rw [hp]; rfl) rfl (by simp [hp]) (fun _ => hd) nofun
  | drain hp he => exact (h hc).take hp he
  | drained hp he =>
    have hd := (h hc).after (by rw [hp]; rfl)
    exact (h hc).enter (by rw [hp]; rfl) rfl (by simp [hp]) (fun _ => hd)
      fun _ => he
  | write hp => exact (h hc).write hp
  | eof hp => exact (h hc).eof hp
  | leave hp hdr hg => exact absurd (hg.symm.trans hc) (by decide)
  | disconnect hw => cases hc

theorem of_reachable (h : Reachable sources s) (hc : s.connected = true) : Accounted sources s := by
  induction h with
  | refl => exact accounted_start sources
  | tail _ hs ih =>
    cases hs with
    | move hm => exact move ih hm hc
    | heartbeat hp => exact (ih hc).heartbeat hp

end Accounted

/-- All that a client should be sent, and the end of it. -/
def Complete (sources : Fin pods.length → Source) (written : List Frame) : Prop :=
  ∃ front, written = front ++ [.eof] ∧ .eof ∉ front ∧
    Merges (fun i => podEvents (pods.get i) (sources i)) (eventsOf front) ∧
    (pods.Nodup → ∀ i, (eventsOf front).filter (fun ev => ev.pod = pods.get i) =
      podEvents (pods.get i) (sources i))

theorem pod_of_mem_podEvents {pod : String} {source : Source} {ev : LogEvent}
    (h : ev ∈ podEvents pod source) : ev.pod = pod := by
  simp only [podEvents, mem_append, mem_map] at h
  rcases h with ⟨line, -, rfl⟩ | ⟨err, -, rfl⟩
  · rfl
  · rfl

/-- A handler that returns has sent everything. -/
theorem complete_of_returned (h : Accounted sources s) (hp : s.phase = .returned) :
    Complete sources s.written := by
  obtain ⟨front, hw, ho⟩ := h.closed hp
  obtain ⟨parts, hpr, hpn⟩ := h.sent
  have hd := h.after (by rw [hp]; rfl)
  have he := h.drained (by rw [hp]; rfl)
  have ha : parts = fun i => podEvents (pods.get i) (sources i) := by
    funext i
    have hi := hpn i
    rwa [h.finished hd i, Reader.pending, append_nil] at hi
  have hm : Merges (fun i => podEvents (pods.get i) (sources i)) (eventsOf front) := by
    rw [← ha]
    simpa [State.sent, hw, hp, he, Phase.held] using hpr
  refine ⟨front, hw, ho, hm, fun hpd => ?_⟩
  exact hm.filter_eq LogEvent.pod (nodup_iff_injective_get.mp hpd)
    fun i ev => pod_of_mem_podEvents

end Invariant

section Termination

variable {pods : List String} {sources : Fin pods.length → Source} {s s' : State pods}

/-- Until the handler has returned, something other than a heartbeat can happen. -/
theorem exists_move (s : State pods) (h : s.phase ≠ .returned) : ∃ s', Move s s' := by
  cases hp : s.phase with
  | selecting =>
    cases he : s.events with
    | cons ev rest => exact ⟨_, .receive hp he⟩
    | nil =>
      by_cases hr : ∀ i, s.readers i = .finished
      · cases hd : s.done with
        | false => exact ⟨_, .close hr hd⟩
        | true => exact ⟨_, .complete hp hd⟩
      obtain ⟨i, hl⟩ := not_forall.mp hr
      refine ⟨_, .advance i hl fun _ => ?_⟩
      rw [he]
      decide
  | writing ev all => exact ⟨_, .write hp⟩
  | draining =>
    cases he : s.events with
    | cons ev rest => exact ⟨_, .drain hp he⟩
    | nil => exact ⟨_, .drained hp he⟩
  | closing => exact ⟨_, .eof hp⟩
  | returned => exact absurd hp h

/-- A bound on the moves that a reader has left. -/
def Reader.work : Reader → ℕ
  | opening (.error _) => 2
  | opening (.ok stream) => 2 * stream.content.length + 5
  | reading stream => 2 * stream.content.length + 4
  | sending _ after => after.work + 1
  | ended _ => 2
  | failing _ => 1
  | finished => 0

def Phase.work : Phase → ℕ
  | selecting => 4
  | writing _ all => if all then 3 else 5
  | draining => 2
  | closing => 1
  | returned => 0

def State.readersWork (s : State pods) : ℕ := ∑ i, (s.readers i).work

def State.handlerWork (s : State pods) : ℕ :=
  2 * s.events.length + s.phase.work + (!s.done).toNat + s.connected.toNat

/-- A move of a reader counts for three, because the event that it may send has still to be
taken and to be written. -/
def State.work (s : State pods) : ℕ := 3 * s.readersWork + s.handlerWork

theorem work_read (stream : Stream) : stream.read.work < 2 * stream.content.length + 4 := by
  obtain ⟨content, failure⟩ := stream
  unfold Stream.read readString
  cases hr : content.dropWhile (· ≠ 0x0a) with
  | nil => by_cases he : content = [] <;> simp [he, Reader.work]
  | cons b rest =>
    have hl : (content.dropWhile (· ≠ 0x0a)).length ≤ content.length :=
      (dropWhile_suffix _).length_le
    rw [hr, length_cons] at hl
    have hw : (Reader.reading ⟨rest, failure⟩).work + 1 < 2 * content.length + 4 := by
      simp only [Reader.work]
      omega
    simpa [Reader.work] using hw

variable {r : Reader}

theorem work_next (h : r ≠ .finished) (cancelled : Bool) : (r.next cancelled).work < r.work := by
  cases r with
  | opening source => cases source <;> simp [Reader.next, Reader.work]
  | reading stream => exact work_read stream
  | sending line after => exact Nat.lt_succ_self _
  | ended readErr => cases readErr <;> cases cancelled <;> simp [Reader.next, Reader.work]
  | failing err => simp [Reader.next, Reader.work]
  | finished => exact absurd rfl h

variable {i : Fin pods.length}

theorem readersWork_setReader (h : r.work < (s.readers i).work) :
    (s.setReader i r).readersWork < s.readersWork := by
  apply Finset.sum_lt_sum
  · intro j _
    by_cases hj : j = i
    · subst hj
      simpa [State.setReader] using h.le
    · simp [State.setReader, Function.update_of_ne hj]
  · exact ⟨i, Finset.mem_univ i, by simpa [State.setReader] using h⟩

theorem work_of_readers (hr : s'.readersWork < s.readersWork)
    (hh : s'.handlerWork ≤ s.handlerWork + 2) : s'.work < s.work := by
  rw [State.work, State.work]
  omega

theorem work_of_handler (hr : s'.readers = s.readers) (hh : s'.handlerWork < s.handlerWork) :
    s'.work < s.work := by
  rw [State.work, State.work, State.readersWork, State.readersWork, hr]
  omega

theorem work_setReader (h : r.work < (s.readers i).work) : (s.setReader i r).work < s.work :=
  work_of_readers (readersWork_setReader h) (Nat.le_add_right s.handlerWork 2)

theorem phase_work_pos {phase : Phase} (h : phase ≠ .returned) : 0 < phase.work := by
  cases phase with
  | writing ev all => cases all <;> simp [Phase.work]
  | returned => exact absurd rfl h
  | selecting | draining | closing => simp [Phase.work]

/-- Every move leaves less to do, so the handler returns. -/
theorem work_move (h : Move s s') : s'.work < s.work := by
  cases h with
  | advance i hl hrm =>
    refine work_of_readers (readersWork_setReader (work_next hl s.cancelled)) ?_
    cases (s.readers i).offers (pods.get i) <;> simp +arith [State.handlerWork, State.setReader]
  | @refuse i source hc hr err =>
    apply work_setReader
    rw [hr]
    cases source <;> simp [Reader.work]
  | @cut i stream hc hr front hf err =>
    have hre : (Stream.read ⟨front, some err⟩).work < 2 * front.length + 4 := work_read _
    have hln := hf.length_le
    apply work_setReader
    rw [hr, Reader.work]
    omega
  | giveUp i hc ho =>
    apply work_setReader
    cases hr : s.readers i <;> simp_all [Reader.offers, Reader.work]
  | close hrd hd => exact work_of_handler rfl (by simp [State.handlerWork, hd])
  | receive hp he =>
    exact work_of_handler rfl (by simp +arith [State.handlerWork, hp, he, Phase.work])
  | complete hp hd =>
    exact work_of_handler rfl (by simp [State.handlerWork, hp, Phase.work])
  | drain hp he =>
    exact work_of_handler rfl (by simp +arith [State.handlerWork, hp, he, Phase.work])
  | drained hp he =>
    exact work_of_handler rfl (by simp [State.handlerWork, hp, Phase.work])
  | @write _ all hp =>
    refine work_of_handler rfl ?_
    cases all <;> simp [State.handlerWork, State.write, hp, Phase.back, Phase.work]
  | eof hp =>
    exact work_of_handler rfl (by simp [State.handlerWork, State.write, hp, Phase.work])
  | leave hp hdr hg =>
    refine work_of_handler rfl ?_
    have hps : Phase.returned.work < s.phase.work := phase_work_pos hp
    simp only [State.handlerWork]
    omega
  | disconnect hw => exact work_of_handler rfl (by simp [State.handlerWork, hw])

theorem work_step (h : Step s s') : s'.work ≤ s.work := by
  cases h with
  | move h => exact (work_move h).le
  | heartbeat hp =>
    have hw : (s.write .heartbeat .selecting).handlerWork = s.handlerWork := by
      simp [State.handlerWork, State.write, hp]
    rw [State.work, State.work, hw]
    exact le_rfl

/-- A run without an end, in which nothing may happen for a while; but heartbeats are not all
that happens. -/
structure FairRun (sources : Fin pods.length → Source) (path : ℕ → State pods) : Prop where
  start : path 0 = start sources
  step : ∀ k, Step (path k) (path (k + 1)) ∨ path (k + 1) = path k
  fair : ∀ k, (path k).phase ≠ .returned → ∃ m ≥ k, Move (path m) (path (m + 1))

namespace FairRun

variable {path : ℕ → State pods}

theorem reachable (h : FairRun sources path) (k : ℕ) : Reachable sources (path k) := by
  induction k with
  | zero =>
    rw [h.start]
    exact .refl
  | succ k ih =>
    rcases h.step k with hs | hi
    · exact ih.tail hs
    · rwa [hi]

theorem returns (h : FairRun sources path) : ∃ k, (path k).phase = .returned := by
  refine @exists_rest _ path (fun s => s.phase = .returned) State.work (fun k => ?_) fun k => ?_
  · rcases h.step k with hs | hi
    · exact work_step hs
    · rw [hi]
  by_cases hp : (path k).phase = .returned
  · exact ⟨k, le_rfl, .inl hp⟩
  · obtain ⟨m, hm, hmv⟩ := h.fair k hp
    exact ⟨m, hm, .inr (work_move hmv)⟩

end FairRun

/-- For all pods and logs and in every interleaving: a handler that returns while its client is
connected has written every pod's lines in order, then its error if there is one, and one `eof`
behind all of them; until it returns, something other than a heartbeat can happen; and unless
heartbeats are all that happens, it does return. -/
theorem log_stream_complete (pods : List String) (sources : Fin pods.length → Source) :
    (∀ s, Reachable sources s → s.connected = true → s.phase = .returned →
      Complete sources s.written) ∧
    (∀ s, Reachable sources s → s.phase ≠ .returned → ∃ s', Move s s') ∧
    ∀ path, FairRun sources path → ∃ k, (path k).phase = .returned ∧
      ((path k).connected = true → Complete sources (path k).written) := by
  have hcomplete : ∀ s, Reachable sources s → s.connected = true → s.phase = .returned →
      Complete sources s.written := by
    intro s hs hconnected hphase
    exact complete_of_returned (.of_reachable hs hconnected) hphase
  refine ⟨hcomplete, fun s _ => exists_move s, ?_⟩
  intro path hpath
  obtain ⟨k, hphase⟩ := hpath.returns
  exact ⟨k, hphase, fun hconnected => hcomplete _ (hpath.reachable k) hconnected hphase⟩

end Termination

end Orkano.Dashboard.Logs
