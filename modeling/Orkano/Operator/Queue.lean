import Orkano.Operator.Dispatcher

/-!
What surrounds the dispatcher: the delivery table with its row locks, the API server, and an
informer cache that may lag it. The server states since a row was enqueued, and what each create
asked for and found, are recorded for statements only.
-/
namespace Orkano.Operator

open Interleave List

/-- A state of the API server's Apps and of the remote branches. All watched Apps
live in one namespace, so names are unique. -/
structure Snapshot where
  apps : List App
  head : Origin → Option String
  keyed : (apps.map App.name).Nodup

def App.origin (app : App) : Option Origin :=
  match app.source.github, app.source.git with
  | some github, _ => some (.github github.repo github.ref)
  | none, some git => some (.git git.url git.ref)
  | none, none => none

/-- The commit that an App's ref stands for, if it resolves. -/
def Snapshot.commitOf (s : Snapshot) (app : App) : Option String :=
  match app.origin with
  | some origin => s.head origin
  | none => app.source.upload.map fun upload => uploadCommit upload.digest

/-- A delivery in the table; `since` counts the server states before its own. -/
structure Row where
  delivery : Delivery
  since : Nat
deriving DecidableEq, Repr

/-- A create for a row at time `now`: the Build it asked for, all Builds before it, and
the Build that has the name afterwards. -/
structure Outcome where
  row : Int
  now : Int
  wanted : Build
  before : List Build
  found : Build
deriving DecidableEq, Repr

/-- `past` holds the earlier server states, newest first; `claims` holds the open
transactions with the row each has locked. -/
structure World where
  server : Snapshot
  past : List Snapshot
  rows : List Row
  nextRow : Int
  claims : List (Nat × Int)
  nextTx : Nat
  builds : List Build
  clock : Int
  outcomes : List Outcome

namespace World

def states (w : World) : List Snapshot := w.server :: w.past

/-- The server states from the `n`-th on. -/
def statesSince (w : World) (n : Nat) : List Snapshot := w.states.take (w.past.length + 1 - n)

def release (w : World) (tx : Nat) : World := { w with claims := w.claims.filter fun c => c.1 ≠ tx }

def findBuild (w : World) (ns name : String) : Option Build :=
  w.builds.find? fun b => b.ns = ns ∧ b.name = name

/-- Store a Build unless its name is taken, after the schema's checks. -/
def create (w : World) (now row : Int) (b : Build) : CreateReply × World :=
  if !b.admissible then (.error, w)
  else match w.findBuild b.ns b.name with
  | some found =>
    (.alreadyExists, { w with outcomes := ⟨row, now, b, w.builds, found⟩ :: w.outcomes })
  | none =>
    let stored := { b with createdAt := now }
    (.created, { w with
      builds := w.builds ++ [stored]
      clock := now
      outcomes := ⟨row, now, b, w.builds, stored⟩ :: w.outcomes })

def oldestFree (w : World) : Option Row :=
  w.rows.find? fun r => w.claims.all fun c => c.2 ≠ r.delivery.id

/-- Delete the row and commit, if the transaction is still open. -/
def commit (w : World) (tx : Nat) (id : Int) : Bool × World :=
  if w.claims.any fun c => c.1 = tx then
    (true, { w.release tx with rows := w.rows.filter fun r => r.delivery.id ≠ id })
  else (false, w)

end World

structure CreateChoice where
  now : Int
  fault : Option Fault

/-- What is left open at each call: how far the cache lags, failures, and time. -/
@[reducible] def Call.Choice : Call → Type
  | listBuilds => Option (List Build)
  | claimNext | resolve _ _ | nack _ => Bool
  | listApps _ => Option Nat
  | createBuild _ _ => CreateChoice
  | ack _ _ => Option Fault

def resolve (w : World) (fails : Bool) (origin : Origin) : Except ResolveError String :=
  if fails then .error .other
  else match w.server.head origin with
  | some sha => .ok sha
  | none => .error .unresolvable

def answer : (c : Call) → c.Choice → World → Option (c.Reply × World)
  | .listBuilds, builds, w => some (builds, w)
  | .claimNext, fails, w =>
    if fails then some (none, w)
    else match w.oldestFree with
    | none => some (some none, w)
    | some row =>
      some (some (some ⟨w.nextTx, row.delivery⟩), { w with
        claims := (w.nextTx, row.delivery.id) :: w.claims, nextTx := w.nextTx + 1 })
  | .listApps _, lag, w =>
    match lag with
    | none => some (none, w)
    | some k => (w.states[k]?).map fun s => (some s.apps, w)
  | .resolve _ origin, fails, w => some (resolve w fails origin, w)
  | .createBuild row b, choice, w =>
    -- creation timestamps do not decrease
    if choice.now < w.clock then none
    else match choice.fault with
    | none => some (w.create choice.now row b)
    | some .before => some (.error, w)
    | some .after => some (.error, (w.create choice.now row b).2)
  | .ack tx id, fault, w =>
    match fault with
    | none => some (w.commit tx id)
    | some .before => some (false, w.release tx)
    | some .after => some (false, (w.commit tx id).2)
  | .nack tx, fails, w => some (!fails, w.release tx)

def machine : Machine operator World where
  Choice := Call.Choice
  answer := answer

inductive EnvStep : World → World → Prop where
  | change {w : World} (s : Snapshot) : EnvStep w { w with server := s, past := w.server :: w.past }
  | enqueue {w : World} (delivery : Delivery) :
      (∀ r ∈ w.rows, r.delivery.deliveryID ≠ delivery.deliveryID) →
      EnvStep w { w with
        rows := w.rows ++ [⟨{ delivery with id := w.nextRow }, w.past.length⟩]
        nextRow := w.nextRow + 1 }
  | abort {w : World} (tx : Nat) : EnvStep w (w.release tx)
  | builds {w : World} (builds : List Build) (clock : Int) : EnvStep w { w with builds, clock }

/-- Any number of operator processes that poll the queue; a crash loses what they
were doing and nothing else. -/
def dispatchers (d : Dispatcher) : System operator World ℕ Unit where
  exec _ := machine.exec
  env := EnvStep
  restart w w' := w' = w
  starts _ p := p = tick d

section History

variable {w w' : World} {n : Nat}

theorem past_length_le (h : w.states <:+ w'.states) : w.past.length ≤ w'.past.length := by
  simpa [World.states] using h.length_le

theorem server_mem_statesSince (hn : n ≤ w.past.length) : w.server ∈ w.statesSince n := by
  obtain ⟨k, hk⟩ := Nat.exists_eq_add_of_le hn
  have hl : w.past.length + 1 - n = k + 1 := by omega
  simp [World.statesSince, World.states, hl]

/-- Later states keep the earlier ones in view. -/
theorem statesSince_mono (h : w.states <:+ w'.states) {s : Snapshot} (hs : s ∈ w.statesSince n) :
    s ∈ w'.statesSince n := by
  obtain ⟨recent, hr⟩ := h
  have hl : w'.past.length = recent.length + w.past.length := by
    have := congrArg List.length hr
    simp only [World.states, length_append, length_cons] at this
    omega
  unfold World.statesSince at hs ⊢
  have hp : n ≤ w.past.length := by
    by_contra hlt
    have : w.past.length + 1 - n = 0 := by omega
    simp [this] at hs
  have hc : w'.past.length + 1 - n = recent.length + (w.past.length + 1 - n) := by omega
  rw [← hr, hc, take_length_add_append]
  exact mem_append_right _ hs

end History

section Exec

variable {w w' : World}

theorem exec_listApps {row : Int} {x : Option (List App)}
    (h : machine.exec (.listApps row) w x w') :
    w' = w ∧ ∀ apps, x = some apps → ∃ s ∈ w.states, apps = s.apps := by
  obtain ⟨_ | k, hk⟩ := h
  · cases hk
    exact ⟨rfl, nofun⟩
  obtain ⟨s, hs, heq⟩ := Option.map_eq_some_iff.mp hk
  cases heq
  refine ⟨rfl, ?_⟩
  rintro _ ⟨⟩
  exact ⟨s, mem_of_getElem? hs, rfl⟩

/-- What resolving comes to, before anything is asked. -/
theorem resolveCommit_cases (d : Dispatcher) (app : App) :
    resolveCommit d app = .done (.error .other) ∨
    (∃ origin, app.origin = some origin ∧ resolveCommit d app = call (.resolve app.name origin)) ∨
    (∃ sha, (∀ s : Snapshot, s.commitOf app = some sha) ∧ resolveCommit d app = .done (.ok sha)) ∨
    ((∀ s : Snapshot, s.commitOf app = none) ∧
      resolveCommit d app = .done (.error .unresolvable)) := by
  obtain ⟨ns, name, ⟨github, git, upload, subPath⟩, build⟩ := app
  unfold resolveCommit
  rcases github with _ | github
  · rcases git with _ | git
    · rcases upload with _ | upload
      · exact .inr (.inr (.inr ⟨fun _ => rfl, rfl⟩))
      · exact .inr (.inr (.inl ⟨_, fun _ => rfl, rfl⟩))
    cases d.hasGit
    · exact .inl rfl
    · exact .inr (.inl ⟨_, rfl, rfl⟩)
  · cases d.hasGitHub
    · exact .inl rfl
    · exact .inr (.inl ⟨_, rfl, rfl⟩)

/-- A resolved ref is the head at the time of the answer. -/
theorem exec_resolve {app : String} {origin : Origin} {x : Except ResolveError String}
    (h : machine.exec (.resolve app origin) w x w') :
    w' = w ∧ (∀ sha, x = .ok sha → w.server.head origin = some sha) ∧
      (x = .error .unresolvable → w.server.head origin = none) := by
  obtain ⟨fails, hk⟩ := h
  cases hk
  refine ⟨rfl, ?_⟩
  unfold resolve
  split
  · exact ⟨nofun, nofun⟩
  split
  · rename_i sha hs
    refine ⟨?_, nofun⟩
    rintro _ ⟨⟩
    exact hs
  · rename_i hn
    exact ⟨nofun, fun _ => hn⟩

/-- A create that the caller takes for success: the name was free, or it was taken. -/
theorem exec_createBuild {row : Int} {b : Build} {x : CreateReply}
    (h : machine.exec (.createBuild row b) w x w') (hx : x ≠ .error) :
    ∃ now, w.clock ≤ now ∧
      ((x = .created ∧ w.findBuild b.ns b.name = none ∧
          w' = { w with
            builds := w.builds ++ [{ b with createdAt := now }]
            clock := now
            outcomes := ⟨row, now, b, w.builds, { b with createdAt := now }⟩ :: w.outcomes }) ∨
        ∃ found, x = .alreadyExists ∧ w.findBuild b.ns b.name = some found ∧
          w' = { w with outcomes := ⟨row, now, b, w.builds, found⟩ :: w.outcomes }) := by
  obtain ⟨⟨now, fault⟩, hk⟩ := h
  simp only [machine, answer] at hk
  split at hk
  · cases hk
  rename_i hn
  rcases fault with _ | _ | _
  · refine ⟨now, not_lt.mp hn, ?_⟩
    simp only [Option.some.injEq, World.create] at hk
    split at hk
    · cases hk
      exact absurd rfl hx
    split at hk
    · rename_i found hf
      cases hk
      exact .inr ⟨found, rfl, hf, rfl⟩
    rename_i hfr
    cases hk
    exact .inl ⟨rfl, hfr, rfl⟩
  · cases hk
    exact absurd rfl hx
  · cases hk
    exact absurd rfl hx

end Exec

section Loop

variable {S τ : Type} {exec : τ → (c : Call) → S → c.Reply → S → Prop} {D : Discipline S τ}
  {t : τ} {d : Dispatcher}

theorem safe_drain_of
    (ho : ∀ s, Safe (I := operator) exec D t (fun _ _ => True) (processOne d) s) (n : Nat)
    (s : S) : Safe (I := operator) exec D t (fun _ _ => True) (drain d n) s := by
  induction n generalizing s with
  | zero => trivial
  | succ n ih =>
    unfold drain
    apply Safe.bind
    apply Safe.mono _ (ho s)
    rintro (_ | _ | _) s1 _
    · trivial
    · trivial
    · exact ih s1

theorem safe_tick_of
    (hl : ∀ s, Safe (I := operator) exec D t (fun _ _ => True) (call .listBuilds) s)
    (ho : ∀ s, Safe (I := operator) exec D t (fun _ _ => True) (processOne d) s) (s : S) :
    Safe (I := operator) exec D t (fun _ _ => True) (tick d) s := by
  unfold tick budget
  apply Safe.bind
  apply Safe.bind
  apply Safe.mono _ (hl s)
  rintro (_ | builds) s1 _
  · trivial
  · exact safe_drain_of ho _ s1

end Loop

def sampleCommit (digit : Char) : String := String.ofList (List.replicate 40 digit)

def sampleDispatcher : Dispatcher where
  text := ⟨id, id, id⟩
  features := []
  hasGitHub := true
  hasGit := false
  maxConcurrentBuilds := 3

def sampleApp : App where
  ns := "orkano-apps"
  name := "web"
  source := ⟨some ⟨"acme/web", "main"⟩, none, none, ""⟩
  build := ⟨.dockerfile, none, none, none⟩

def sampleServer (digit : Char) : Snapshot where
  apps := [sampleApp]
  head := fun _ => some (sampleCommit digit)
  keyed := by decide

/-- A cache that lags by so many states, no failures, and one second for each create. -/
def samplePick (lag : Nat) : (c : Call) → World → c.Choice
  | .listBuilds, _ => some []
  | .claimNext, _ | .resolve _ _, _ | .nack _, _ => false
  | .listApps _, _ => some lag
  | .createBuild _ _, w => ⟨w.clock + 1, none⟩
  | .ack _ _, _ => none

end Orkano.Operator
