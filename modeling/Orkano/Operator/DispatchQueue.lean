import Mathlib.Data.List.Nodup
import Orkano.Operator.Queue

/-!
Whether a delivery that leaves the table was served. The dispatcher removes a row when a cached
list of Apps has no match, and the dashboard enqueues a row right after it creates an App: so a
row has to be processed with a list no older than itself.
-/
namespace Orkano.Operator

open Interleave Program List

section Served

variable (d : Dispatcher)

/-- A manual delivery concerns the App it names, a push every App of its repository. -/
def Concerns (delivery : Delivery) (app : App) : Prop :=
  match delivery.eventType with
  | .manual => app.name = delivery.appName
  | _ => matchesRepo d delivery.repo app

/-- In every state since the row was enqueued there is an App of this name that the row
concerns, the gates permit, and whose ref resolves. -/
def Row.Due (row : Row) (w : World) (name : String) : Prop :=
  ∀ s ∈ w.statesSince row.since, ∃ app ∈ s.apps, app.name = name ∧
    Concerns d row.delivery app ∧ validateApp d.features app = none ∧ (s.commitOf app).isSome

/-- A create for the row left a Build of the App, at a commit that the App's ref stood
for since the row was enqueued. -/
def Row.Built (row : Row) (w : World) (name : String) : Prop :=
  ∃ o ∈ w.outcomes, o.row = row.delivery.id ∧ o.found.spec.appName = name ∧
    ∃ s ∈ w.statesSince row.since, ∃ app ∈ s.apps, app.name = name ∧ app.ns = o.found.ns ∧
      ∃ s' ∈ w.statesSince row.since, s'.commitOf app = some o.found.spec.commit

def Row.Served (row : Row) (w : World) : Prop :=
  validateDelivery row.delivery = none → ∀ name, row.Due d w name → row.Built w name

variable {d} {w w' : World} {row : Row} {name : String}

theorem Row.Due.earlier (h : row.Due d w' name) (hst : w.states <:+ w'.states) :
    row.Due d w name := fun s hs => h s (statesSince_mono hst hs)

theorem Row.Built.later (h : row.Built w name) (hst : w.states <:+ w'.states)
    (hot : w.outcomes ⊆ w'.outcomes) : row.Built w' name := by
  obtain ⟨o, ho, hr, hn, s, hs, app, ha, hn', hns, s', hs', hc⟩ := h
  exact ⟨o, hot ho, hr, hn, s, statesSince_mono hst hs, app, ha, hn', hns,
    s', statesSince_mono hst hs', hc⟩

theorem Row.Served.later (h : row.Served d w) (hs : w.states <:+ w'.states)
    (ho : w.outcomes ⊆ w'.outcomes) : row.Served d w' :=
  fun hv name hd => (h hv name (hd.earlier hs)).later hs ho

variable {s : Snapshot}

theorem Snapshot.app_eq {app app' : App} (ha : app ∈ s.apps) (ha' : app' ∈ s.apps)
    (hn : app.name = app'.name) : app = app' :=
  inj_on_of_nodup_map s.keyed ha ha' hn

/-- No App that a delivery concerns is passed over. -/
theorem mem_selectApps {delivery : Delivery} {app : App} (hv : validateDelivery delivery = none)
    (ha : app ∈ s.apps) (hc : Concerns d delivery app) : app ∈ selectApps d delivery s.apps := by
  unfold Concerns at hc
  unfold validateDelivery at hv
  split at hv
  · cases hv
  unfold selectApps
  cases ht : delivery.eventType with
  | push =>
    simp only [ht] at hv hc
    have hn : delivery.appName = "" := by
      by_contra hne
      simp [hne] at hv
    rw [if_pos hn]
    exact mem_filter.mpr ⟨ha, hc⟩
  | manual =>
    simp only [ht] at hv hc
    have hn : delivery.appName ≠ "" := by
      intro heq
      have he : isSubdomain "" = false := by decide
      simp [heq, he] at hv
    rw [if_neg hn, Option.mem_toList]
    have hf : (s.apps.find? fun app => app.name = delivery.appName).isSome :=
      find?_isSome.mpr ⟨app, ha, by simpa using hc⟩
    obtain ⟨app', ha'⟩ := Option.isSome_iff_exists.mp hf
    have hn' : app'.name = delivery.appName := by simpa using find?_some ha'
    have hm' := mem_of_find?_eq_some ha'
    rw [ha', Snapshot.app_eq hm' ha (hn'.trans hc.symm)]
  | other text => simp [ht] at hv

end Served

section Table

structure Table (w : World) : Prop where
  keyed : ∀ r ∈ w.rows, ∀ r' ∈ w.rows, r.delivery.id = r'.delivery.id → r = r'
  below : ∀ r ∈ w.rows, r.delivery.id < w.nextRow
  since : ∀ r ∈ w.rows, r.since ≤ w.past.length

structure Evolves (d : Dispatcher) (w w' : World) : Prop where
  states : w.states <:+ w'.states
  outcomes : w.outcomes ⊆ w'.outcomes
  nextRow : w.nextRow ≤ w'.nextRow
  rows : ∀ r ∈ w'.rows, r ∈ w.rows ∨ w.nextRow ≤ r.delivery.id
  removed : ∀ r ∈ w.rows, r ∈ w'.rows ∨ r.Served d w'

variable {d : Dispatcher} {w w' w₁ w₂ : World}

theorem Evolves.refl (w : World) : Evolves d w w where
  states := suffix_rfl
  outcomes := List.Subset.refl _
  nextRow := le_rfl
  rows := fun _ hr => .inl hr
  removed := fun _ hr => .inl hr

theorem Evolves.trans (h1 : Evolves d w w₁) (h2 : Evolves d w₁ w₂) : Evolves d w w₂ where
  states := h1.states.trans h2.states
  outcomes := fun _ ho => h2.outcomes (h1.outcomes ho)
  nextRow := h1.nextRow.trans h2.nextRow
  rows := by
    intro r hr
    rcases h2.rows r hr with hr | hr
    · exact h1.rows r hr
    · exact .inr (h1.nextRow.trans hr)
  removed := by
    intro r hr
    rcases h1.removed r hr with hr | hr
    · exact h2.removed r hr
    · exact .inr (hr.later h2.states h2.outcomes)

structure SameTable (w w' : World) : Prop where
  states : w'.states = w.states
  outcomes : w.outcomes ⊆ w'.outcomes
  nextRow : w'.nextRow = w.nextRow
  rows : w'.rows = w.rows

theorem SameTable.evolves (h : SameTable w w') : Evolves d w w' where
  states := h.states ▸ suffix_rfl
  outcomes := h.outcomes
  nextRow := h.nextRow.ge
  rows := fun _ hr => .inl (h.rows ▸ hr)
  removed := fun _ hr => .inl (h.rows ▸ hr)

theorem SameTable.table (h : SameTable w w') (hw : Table w) : Table w' := by
  have hp : w'.past = w.past := (List.cons.inj h.states).2
  constructor
  · rw [h.rows]
    exact hw.keyed
  · rw [h.rows, h.nextRow]
    exact hw.below
  · rw [h.rows, hp]
    exact hw.since

/-- What others do removes no row. -/
theorem EnvStep.evolves (h : EnvStep w w') (hw : Table w) : Table w' ∧ Evolves d w w' := by
  cases h with
  | change s =>
    refine ⟨⟨hw.keyed, hw.below, fun r hr => (hw.since r hr).trans (Nat.le_succ _)⟩, ?_⟩
    exact ⟨suffix_cons .., List.Subset.refl _, le_rfl, fun _ hr => .inl hr,
      fun _ hr => .inl hr⟩
  | enqueue delivery _ =>
    have hn : ∀ r ∈ w.rows, r.delivery.id ≠ w.nextRow := fun r hr => (hw.below r hr).ne
    refine ⟨⟨?_, ?_, ?_⟩, ⟨suffix_rfl, List.Subset.refl _, Int.le_add_one le_rfl, ?_, ?_⟩⟩
    · intro r hr r' hr' hid
      rcases mem_append.mp hr with hr | hr
      · rcases mem_append.mp hr' with hr' | hr'
        · exact hw.keyed r hr r' hr' hid
        · rw [mem_singleton.mp hr'] at hid
          exact absurd hid (hn r hr)
      rcases mem_append.mp hr' with hr' | hr'
      · rw [mem_singleton.mp hr] at hid
        exact absurd hid.symm (hn r' hr')
      · rw [mem_singleton.mp hr, mem_singleton.mp hr']
    · intro r hr
      rcases mem_append.mp hr with hr | hr
      · exact (hw.below r hr).trans (Int.lt_succ _)
      · rw [mem_singleton.mp hr]
        exact Int.lt_succ _
    · intro r hr
      rcases mem_append.mp hr with hr | hr
      · exact hw.since r hr
      · rw [mem_singleton.mp hr]
    · intro r hr
      rcases mem_append.mp hr with hr | hr
      · exact .inl hr
      · rw [mem_singleton.mp hr]
        exact .inr le_rfl
    · intro r hr
      exact .inl (mem_append_left _ hr)
  | abort tx =>
    have hs : SameTable w (w.release tx) := ⟨rfl, List.Subset.refl _, rfl, rfl⟩
    exact ⟨hs.table hw, hs.evolves⟩
  | builds builds clock =>
    have hs : SameTable w { w with builds, clock } := ⟨rfl, List.Subset.refl _, rfl, rfl⟩
    exact ⟨hs.table hw, hs.evolves⟩

/-- Every call but an acknowledgement leaves the table as it is. -/
theorem exec_sameTable {c : Call} {x : c.Reply} (hc : ∀ tx id, c ≠ .ack tx id)
    (h : machine.exec c w x w') : SameTable w w' := by
  have hr : SameTable w w := ⟨rfl, List.Subset.refl _, rfl, rfl⟩
  have hcr : ∀ now row b, SameTable w (w.create now row b).2 := by
    intro now row b
    unfold World.create
    split
    · exact hr
    split
    · exact ⟨rfl, subset_cons_self .., rfl, rfl⟩
    · exact ⟨rfl, subset_cons_self .., rfl, rfl⟩
  obtain ⟨k, hk⟩ := h
  cases c with
  | listBuilds =>
    cases hk
    exact hr
  | claimNext =>
    simp only [machine, answer] at hk
    split at hk
    · cases hk
      exact hr
    split at hk
    · cases hk
      exact hr
    · cases hk
      exact ⟨rfl, List.Subset.refl _, rfl, rfl⟩
  | listApps row =>
    obtain ⟨rfl, -⟩ := exec_listApps ⟨k, hk⟩
    exact hr
  | resolve app origin =>
    obtain ⟨rfl, -⟩ := exec_resolve ⟨k, hk⟩
    exact hr
  | createBuild row b =>
    simp only [machine, answer] at hk
    split at hk
    · cases hk
    split at hk
    · have hw' : (w.create k.now row b).2 = w' := congrArg Prod.snd (Option.some.inj hk)
      exact hw' ▸ hcr ..
    · cases hk
      exact hr
    · cases hk
      exact hcr ..
  | ack tx id => exact absurd rfl (hc tx id)
  | nack tx =>
    cases hk
    exact ⟨rfl, List.Subset.refl _, rfl, rfl⟩

theorem exec_claimNext {claim : Claim} (h : machine.exec .claimNext w (some (some claim)) w') :
    ∃ r ∈ w.rows, claim.delivery = r.delivery := by
  obtain ⟨k, hk⟩ := h
  simp only [machine, answer] at hk
  split at hk
  · cases hk
  split at hk
  · cases hk
  rename_i r hf
  cases hk
  exact ⟨r, mem_of_find?_eq_some hf, rfl⟩

/-- An acknowledgement removes the row with the key, or nothing. -/
theorem exec_ack {tx : Nat} {id : Int} {x : Bool} (h : machine.exec (.ack tx id) w x w') :
    w'.states = w.states ∧ w'.outcomes = w.outcomes ∧ w'.nextRow = w.nextRow ∧
      (w'.rows = w.rows ∨ w'.rows = w.rows.filter fun r => r.delivery.id ≠ id) := by
  have hc : (w.commit tx id).2.states = w.states ∧
      (w.commit tx id).2.outcomes = w.outcomes ∧ (w.commit tx id).2.nextRow = w.nextRow ∧
      ((w.commit tx id).2.rows = w.rows ∨
        (w.commit tx id).2.rows = w.rows.filter fun r => r.delivery.id ≠ id) := by
    unfold World.commit
    split
    · exact ⟨rfl, rfl, rfl, .inr rfl⟩
    · exact ⟨rfl, rfl, rfl, .inl rfl⟩
  obtain ⟨_ | _ | _, hk⟩ := h
  · have hw' : (w.commit tx id).2 = w' := congrArg Prod.snd (Option.some.inj hk)
    exact hw' ▸ hc
  · cases hk
    exact ⟨rfl, rfl, rfl, .inl rfl⟩
  · cases hk
    exact hc

end Table

section Rely

/-- A list of Apps for a row is no older than the row; a ref answered to be
unresolvable is the one its App has now; a Build found under the name of a new one is
of the same App and commit. -/
def Seen (w : World) : (c : Call) → c.Reply → Prop
  | .listApps id, x => ∀ r ∈ w.rows, r.delivery.id = id → ∀ apps ∈ x,
      ∃ s ∈ w.statesSince r.since, apps = s.apps
  | .resolve name origin, x => x = .error .unresolvable →
      ∀ app ∈ w.server.apps, app.name = name → app.origin = some origin
  | .createBuild _ b, x => x = .alreadyExists → ∀ found ∈ w.findBuild b.ns b.name,
      found.spec.appName = b.spec.appName ∧ found.spec.commit = b.spec.commit
  | _, _ => True

instance (w : World) : (c : Call) → (x : c.Reply) → Decidable (Seen w c x)
  | .listApps id, x => inferInstanceAs (Decidable (∀ r ∈ w.rows, r.delivery.id = id →
      ∀ apps ∈ x, ∃ s ∈ w.statesSince r.since, apps = s.apps))
  | .resolve name origin, x => inferInstanceAs (Decidable (x = .error .unresolvable →
      ∀ app ∈ w.server.apps, app.name = name → app.origin = some origin))
  | .createBuild _ b, x => inferInstanceAs (Decidable (x = .alreadyExists →
      ∀ found ∈ w.findBuild b.ns b.name,
        found.spec.appName = b.spec.appName ∧ found.spec.commit = b.spec.commit))
  | .listBuilds, _ | .claimNext, _ | .ack _ _, _ | .nack _, _ => inferInstanceAs (Decidable True)

/-- The operators, in the runs whose answers all are as `Seen` says. -/
def seeingDispatchers (d : Dispatcher) : System operator World ℕ Unit :=
  (dispatchers d).restrict fun _ c w x => Seen w c x

def queueDiscipline (d : Dispatcher) : Discipline World ℕ where
  inv := Table
  evolves := Evolves d
  rely _ := Evolves d
  evolves_refl := Evolves.refl
  evolves_trans := Evolves.trans
  rely_refl _ := Evolves.refl
  rely_trans _ := Evolves.trans

/-- What more states and more outcomes cannot take back. -/
def Lasting (P : World → Prop) : Prop :=
  ∀ {w w' : World}, w.states <:+ w'.states → w.outcomes ⊆ w'.outcomes → P w → P w'

/-- Facts about a claimed row: while it is in the table, `P` holds. -/
structure Tracked (r : Row) (P : World → Prop) (w : World) : Prop where
  known : r.delivery.id < w.nextRow
  only : ∀ r' ∈ w.rows, r'.delivery.id = r.delivery.id → r' = r
  holds : r ∈ w.rows → P w

variable {d : Dispatcher} {w w' : World} {r : Row} {P Q : World → Prop} {t : ℕ}

theorem Tracked.evolves (hP : Lasting P) (h : Tracked r P w) (he : Evolves d w w') :
    Tracked r P w' := by
  have hold : ∀ r' ∈ w'.rows, r'.delivery.id = r.delivery.id → r' ∈ w.rows := by
    intro r' hr' hid
    rcases he.rows r' hr' with hm | hn
    · exact hm
    · have := h.known
      omega
  constructor
  · exact h.known.trans_le he.nextRow
  · intro r' hr' hid
    exact h.only r' (hold r' hr' hid) hid
  · intro hr
    exact hP he.states he.outcomes (h.holds (hold r hr rfl))

theorem Tracked.imp (h : Tracked r P w) (hPQ : r ∈ w.rows → P w → Q w) : Tracked r Q w :=
  ⟨h.known, h.only, fun hr => hPQ hr (h.holds hr)⟩

theorem safe_quiet {c : Call} {post : c.Reply → World → Prop} (hc : ∀ tx id, c ≠ .ack tx id)
    (hp : ∀ w₁ x w₂, Evolves d w w₁ → Table w₁ → Seen w₁ c x → machine.exec c w₁ x w₂ →
      Evolves d w₁ w₂ → post x w₂) :
    Safe (seeingDispatchers d).exec (queueDiscipline d) t post (call c) w := by
  intro w₁ hr ht x w₂ hec
  have hs := exec_sameTable hc hec.2
  have he : Evolves d w₁ w₂ := hs.evolves
  exact ⟨⟨hs.table ht, he, fun _ _ => he⟩,
    hp w₁ x w₂ hr ht hec.1 hec.2 he⟩

theorem safe_tracked {c : Call} {post : c.Reply → World → Prop} (hc : ∀ tx id, c ≠ .ack tx id)
    (hP : Lasting P) (h : Tracked r P w)
    (hp : ∀ w₁ x w₂, Table w₁ → Seen w₁ c x → machine.exec c w₁ x w₂ → Tracked r P w₂ → post x w₂) :
    Safe (seeingDispatchers d).exec (queueDiscipline d) t post (call c) w := by
  apply safe_quiet hc
  intro w₁ x w₂ hr ht hs hec he
  exact hp w₁ x w₂ ht hs hec ((h.evolves hP hr).evolves hP he)

theorem safe_and_tracked {α : Type} {p : Prog α} {post : α → World → Prop} (hP : Lasting P)
    (h : Safe (seeingDispatchers d).exec (queueDiscipline d) t post p w) (hw : Tracked r P w) :
    Safe (seeingDispatchers d).exec (queueDiscipline d) t
      (fun a w' => post a w' ∧ Tracked r P w') p w := by
  have hs : ∀ w w', Tracked r P w → Evolves d w w' → Tracked r P w' :=
    fun _ _ ht he => ht.evolves hP he
  exact h.and_stable hs hs hw

end Rely

section Handle

variable {d : Dispatcher} {w : World} {r : Row} {s : Snapshot} {app : App} {t : ℕ}

/-- The list was that of a state since the row was enqueued. -/
def Listed (r : Row) (s : Snapshot) (w : World) : Prop := s ∈ w.statesSince r.since

theorem lasting_listed : Lasting (Listed r s) := fun hs _ h => statesSince_mono hs h

/-- What is known once the ref of a listed App was asked for. -/
def Asked (d : Dispatcher) (r : Row) (s : Snapshot) (app : App)
    (x : Except ResolveError String) (w : World) : Prop :=
  Listed r s w ∧ (x = .error .unresolvable → ¬ r.Due d w app.name) ∧
    ∀ sha, x = .ok sha → ∃ s' ∈ w.statesSince r.since, s'.commitOf app = some sha

theorem Row.Due.listed (h : r.Due d w app.name) (hs : Listed r s w) (ha : app ∈ s.apps) :
    Concerns d r.delivery app ∧ validateApp d.features app = none ∧ (s.commitOf app).isSome := by
  obtain ⟨app', ha', hn, hr⟩ := h s hs
  rw [Snapshot.app_eq ha ha' hn.symm]
  exact hr

/-- A ref that does not resolve was that of an App which is not due. -/
theorem safe_resolveCommit (ha : app ∈ s.apps) (h : Tracked r (Listed r s) w) :
    Safe (seeingDispatchers d).exec (queueDiscipline d) t
      (fun x => Tracked r (Asked d r s app x)) (resolveCommit d app) w := by
  rcases resolveCommit_cases d app with hp | ⟨origin, ho, hp⟩ | ⟨sha, hsh, hp⟩ | ⟨hnn, hp⟩
  · rw [hp, safe_done]
    exact h.imp fun _ hs => ⟨hs, nofun, nofun⟩
  · rw [hp]
    apply safe_tracked (by simp) lasting_listed h
    intro w₁ x w₂ htb hsn he ht
    obtain ⟨rfl, hok, hun⟩ := exec_resolve he
    apply ht.imp
    intro hr hs
    have hn : w₂.server ∈ w₂.statesSince r.since := server_mem_statesSince (htb.since r hr)
    refine ⟨hs, ?_, ?_⟩
    · intro hx hd
      -- the App as it is now has the ref that was asked for, and that does not resolve
      obtain ⟨app', ha', hnm, -, -, hrs⟩ := hd w₂.server hn
      simp [Snapshot.commitOf, hsn hx app' ha' hnm, hun hx] at hrs
    intro sha hx
    refine ⟨w₂.server, hn, ?_⟩
    simp [Snapshot.commitOf, ho, hok sha hx]
  · rw [hp, safe_done]
    refine h.imp fun _ hs => ⟨hs, nofun, ?_⟩
    rintro _ ⟨⟩
    exact ⟨s, hs, hsh s⟩
  rw [hp, safe_done]
  refine h.imp fun _ hs => ⟨hs, fun _ hd => ?_, nofun⟩
  have := (hd.listed hs ha).2.2
  simp [hnn s] at this

/-- The ref of a listed App stood for the commit. -/
def Resolved (r : Row) (s : Snapshot) (app : App) (sha : String) (w : World) : Prop :=
  Listed r s w ∧ ∃ s' ∈ w.statesSince r.since, s'.commitOf app = some sha

variable {sha : String}

theorem lasting_resolved : Lasting (Resolved r s app sha) := by
  intro w w' hst _ h
  obtain ⟨hs, s', hs', hsh⟩ := h
  exact ⟨statesSince_mono hst hs, s', statesSince_mono hst hs', hsh⟩

theorem lasting_built {name : String} : Lasting fun w => r.Built w name :=
  fun hs ho h => h.later hs ho

/-- A create that succeeds leaves a Build at a commit of the App's ref. -/
theorem safe_createBuild (ha : app ∈ s.apps)
    (h : Tracked r (Resolved r s app sha) w) :
    Safe (seeingDispatchers d).exec (queueDiscipline d) t
      (fun created w' => created = true → Tracked r (fun w => r.Built w app.name) w')
      (createBuild d app sha r.delivery) w := by
  unfold createBuild
  apply Safe.bind
  apply safe_tracked (by simp) lasting_resolved h
  intro w₁ x w₂ _ hsn he ht
  have hb : x ≠ .error → Tracked r (fun w => r.Built w app.name) w₂ := by
    intro hx
    apply ht.imp
    intro _ hr
    obtain ⟨hs, s', hs', hsh⟩ := hr
    obtain ⟨now, -, ⟨-, -, rfl⟩ | ⟨found, htk, hf, rfl⟩⟩ := exec_createBuild he hx
    · exact ⟨_, mem_cons_self .., rfl, rfl, s, hs, app, ha, rfl, rfl, s', hs', hsh⟩
    obtain ⟨hn, hc⟩ := hsn htk found hf
    have hns : found.ns = app.ns := by
      have := find?_some hf
      simp only [decide_eq_true_eq] at this
      exact this.1
    refine ⟨_, mem_cons_self .., rfl, hn, s, hs, app, ha, rfl, hns.symm, s', hs', ?_⟩
    rw [hc]
    exact hsh
  rcases x with _ | _ | _
  · exact fun _ => hb nofun
  · exact fun _ => hb nofun
  · exact nofun

/-- Every App of the list that is due has its Build. -/
def AllBuilt (d : Dispatcher) (r : Row) (apps : List App) (w : World) : Prop :=
  ∀ app ∈ apps, r.Due d w app.name → r.Built w app.name

/-- When the loop ends well, every App of the list that is due has its Build. -/
theorem safe_dispatchApps {apps : List App} {skipped : Nat} (has : apps ⊆ s.apps)
    (h : Tracked r (Listed r s) w) :
    Safe (seeingDispatchers d).exec (queueDiscipline d) t
      (fun x w' => ∀ total, x = .ok total → Tracked r (AllBuilt d r apps) w')
      (dispatchApps d r.delivery apps skipped) w := by
  induction apps generalizing w skipped with
  | nil =>
    intro _ _
    exact h.imp fun _ _ app hap => absurd hap not_mem_nil
  | cons app rest ih =>
    have hap : app ∈ s.apps := has (mem_cons_self ..)
    have hrt : rest ⊆ s.apps := fun _ h => has (mem_cons_of_mem _ h)
    -- what is known of the first App is kept while the others are processed
    have hlp : ∀ {P : World → Prop} {w : World} {skipped : Nat}, Lasting P →
        Tracked r (Listed r s) w → Tracked r P w →
        (∀ {w}, P w → r.Due d w app.name → r.Built w app.name) →
        Safe (seeingDispatchers d).exec (queueDiscipline d) t
          (fun x w' => ∀ total, x = .ok total → Tracked r (AllBuilt d r (app :: rest)) w')
          (dispatchApps d r.delivery rest skipped) w := by
      intro P w skipped hP hl hf hb
      apply Safe.mono _ (safe_and_tracked hP (ih hrt hl) hf)
      intro x w' hx total ht
      apply (hx.1 total ht).imp
      intro hr hal app' ha' hd
      rcases mem_cons.mp ha' with rfl | ha'
      · exact hb (hx.2.holds hr) hd
      · exact hal app' ha' hd
    unfold dispatchApps
    split
    · rename_i hg
      apply hlp lasting_listed h h
      intro w hs hd
      simp [(hd.listed hs hap).2.1] at hg
    apply Safe.bind
    apply Safe.mono _ (safe_resolveCommit hap h)
    intro x w₁ ha
    have hl : Tracked r (Listed r s) w₁ := ha.imp fun _ h => h.1
    match x, ha with
    | .error .unresolvable, ha =>
      have hn : Lasting fun w => ¬ r.Due d w app.name :=
        fun hst _ hno hd => hno (hd.earlier hst)
      apply hlp hn hl (ha.imp fun _ h => h.2.1 rfl)
      intro w hno hd
      exact absurd hd hno
    | .error .other, _ => exact nofun
    | .ok sha, ha =>
      have hrs : Tracked r (Resolved r s app sha) w₁ :=
        ha.imp fun _ h => ⟨h.1, h.2.2 sha rfl⟩
      apply Safe.bind
      apply Safe.mono _ (safe_and_tracked lasting_listed (safe_createBuild hap hrs) hl)
      intro created w₂ hc
      cases created with
      | false => exact nofun
      | true =>
        apply hlp lasting_built hc.2 (hc.1 rfl)
        intro w hb _
        exact hb

theorem lasting_served : Lasting (r.Served d) :=
  fun hs ho h => h.later hs ho

theorem selectApps_subset (d : Dispatcher) (delivery : Delivery) (apps : List App) :
    selectApps d delivery apps ⊆ apps := by
  intro app ha
  unfold selectApps at ha
  split at ha
  · exact mem_of_mem_filter ha
  · exact mem_of_find?_eq_some (Option.mem_toList.mp ha)

theorem served_of_allBuilt (hs : Listed r s w)
    (h : AllBuilt d r (selectApps d r.delivery s.apps) w) : r.Served d w := by
  intro hv name hd
  obtain ⟨app, ha, rfl, hc, -⟩ := hd s hs
  exact h app (mem_selectApps hv ha hc) hd

/-- A delivery is done with only when its row is served. -/
theorem safe_handle (h : Tracked r (fun _ => True) w) :
    Safe (seeingDispatchers d).exec (queueDiscipline d) t
      (fun x w' => x.1 = true → Tracked r (r.Served d) w') (handle d r.delivery) w := by
  unfold handle
  cases hv : validateDelivery r.delivery with
  | some e =>
    intro _
    exact h.imp fun _ _ hok => by simp [hv] at hok
  | none =>
    apply Safe.bind
    unfold appsForDelivery
    apply Safe.bind
    apply safe_tracked (by simp) (fun _ _ _ => trivial) h
    intro w₁ x w₂ _ hsn hec ht
    obtain ⟨rfl, hst⟩ := exec_listApps hec
    cases x with
    | none => exact nofun
    | some apps =>
      have hls : ∃ s : Snapshot, apps = s.apps ∧ (r ∈ w₂.rows → Listed r s w₂) := by
        by_cases hr : r ∈ w₂.rows
        · obtain ⟨s, hs, heq⟩ := hsn r hr rfl apps rfl
          exact ⟨s, heq, fun _ => hs⟩
        · obtain ⟨s, -, heq⟩ := hst apps rfl
          exact ⟨s, heq, fun hm => absurd hm hr⟩
      obtain ⟨s, rfl, hs⟩ := hls
      have hl : Tracked r (Listed r s) w₂ := ht.imp fun hr _ => hs hr
      rw [Option.map_some]
      cases hsl : selectApps d r.delivery s.apps with
      | nil =>
        intro _
        apply hl.imp
        intro _ hs
        apply served_of_allBuilt hs
        rw [hsl]
        exact fun _ ha => absurd ha not_mem_nil
      | cons app rest =>
        have hsb : app :: rest ⊆ s.apps := hsl ▸ selectApps_subset d r.delivery s.apps
        apply Safe.bind
        apply Safe.mono _ (safe_and_tracked lasting_listed (safe_dispatchApps hsb hl) hl)
        intro x w3 he
        cases x with
        | error e => exact nofun
        | ok total =>
          have hsr : Tracked r (r.Served d) w3 := by
            apply (he.1 total rfl).imp
            intro hr hal
            apply served_of_allBuilt (he.2.holds hr)
            rw [hsl]
            exact hal
          dsimp only
          split
          · exact fun _ => hsr
          · exact fun _ => hsr

end Handle

section Loop

variable {d : Dispatcher} {w : World} {t : ℕ}

/-- A row that is served may be removed. -/
theorem safe_ack {r : Row} {tx : Nat} (h : Tracked r (r.Served d) w) :
    Safe (seeingDispatchers d).exec (queueDiscipline d) t (fun _ _ => True)
      (call (.ack tx r.delivery.id)) w := by
  intro w₁ hrl ht x w₂ hec
  have htr := h.evolves lasting_served hrl
  obtain ⟨hs, ho, hn, hr⟩ := exec_ack hec.2
  have hsb : w₂.rows ⊆ w₁.rows := by
    rcases hr with hr | hr
    · exact hr ▸ List.Subset.refl _
    · exact hr ▸ filter_subset_self _
  have hp : w₂.past = w₁.past := (List.cons.inj hs).2
  have he : Evolves d w₁ w₂ := by
    refine ⟨hs ▸ suffix_rfl, ho ▸ List.Subset.refl _, hn.ge,
      fun r' hr' => .inl (hsb hr'), ?_⟩
    intro r' hr'
    by_cases hid : r'.delivery.id = r.delivery.id
    · obtain rfl := htr.only r' hr' hid
      exact .inr ((htr.holds hr').later (hs ▸ suffix_rfl)
        (ho ▸ List.Subset.refl _))
    left
    rcases hr with hr | hr
    · exact hr ▸ hr'
    · rw [hr]
      exact mem_filter.mpr ⟨hr', by simpa using hid⟩
  have ht' : Table w₂ := by
    refine ⟨fun r' hr' r'' hr'' => ht.keyed r' (hsb hr') r'' (hsb hr''), ?_, ?_⟩
    · intro r' hr'
      exact hn ▸ ht.below r' (hsb hr')
    · intro r' hr'
      exact hp ▸ ht.since r' (hsb hr')
  exact ⟨⟨ht', he, fun _ _ => he⟩, trivial⟩

/-- One row is claimed, handled and acknowledged in keeping with the queue. -/
theorem safe_processOne (w : World) :
    Safe (seeingDispatchers d).exec (queueDiscipline d) t (fun _ _ => True) (processOne d) w := by
  unfold processOne
  apply Safe.bind
  apply safe_quiet (by simp)
  intro w₁ x w₂ _ ht _ he hev
  match x, he with
  | none, _ => trivial
  | some none, _ => trivial
  | some (some claim), he =>
    obtain ⟨r, hr, hd⟩ := exec_claimNext he
    have hc : Tracked r (fun _ => True) w₁ :=
      ⟨ht.below r hr, fun r' hr' hid => ht.keyed r' hr' r hr hid, fun _ => trivial⟩
    have htr : Tracked r (fun _ => True) w₂ := hc.evolves (fun _ _ _ => trivial) hev
    dsimp only
    rw [hd]
    apply Safe.bind
    apply Safe.mono _ (safe_handle htr)
    rintro ⟨remove, e⟩ w3 hs
    cases remove with
    | false =>
      apply Safe.bind
      apply safe_quiet (by simp)
      intros
      trivial
    | true =>
      apply Safe.bind
      apply Safe.mono _ (safe_ack (hs rfl))
      rintro (_ | _) _ _
      · trivial
      · trivial

theorem safe_tick (w : World) :
    Safe (seeingDispatchers d).exec (queueDiscipline d) t (fun _ _ => True) (tick d) w := by
  apply safe_tick_of _ safe_processOne
  intro w
  apply safe_quiet (by simp)
  intros
  trivial

/-- Operators that see current state remove only rows that are served. -/
theorem seeingDispatchers_respects :
    (seeingDispatchers d).Respects (queueDiscipline d) (fun _ _ _ => True) where
  lasts := fun _ _ _ _ _ _ => trivial
  starts := by
    intro t p w hp _
    rw [show p = tick d from hp]
    exact safe_tick w
  env := by
    intro w w' hw he
    obtain ⟨ht, hev⟩ := EnvStep.evolves he hw
    exact ⟨ht, hev, fun _ => hev⟩
  restart := by
    intro w w' hw he
    rw [show w' = w from he]
    exact ⟨hw, Evolves.refl w⟩

/-- In every run whose answers are as `Seen` says, a row that leaves the table was
served: each App that was due all the while has its Build. -/
theorem removed_row_served {w : World} (hw : Table w) {c c' : Config operator World ℕ Unit}
    (hc : (seeingDispatchers d).Steps (Config.idle w) c) (hc' : (seeingDispatchers d).Steps c c')
    {r : Row} (hr : r ∈ c.shared.rows) (hgone : r ∉ c'.shared.rows) : r.Served d c'.shared := by
  have hgood := (System.reachable_good seeingDispatchers_respects (System.good_idle hw) hc).1
  have hevolves := (System.reachable_good seeingDispatchers_respects hgood hc').2
  exact (hevolves.removed r hr).resolve_left hgone

end Loop

def sampleManual : Delivery where
  id := 1
  deliveryID := "manual-" ++ String.ofList (List.replicate 32 '0')
  repo := "acme/web"
  eventType := .manual
  appName := "web"

/-- The row of the App's first build, enqueued in the state after the first. -/
def sampleRow : Row := ⟨sampleManual, 1⟩

def noAppServer : Snapshot := ⟨[], fun _ => some (sampleCommit '1'), by decide⟩

def noAppWorld : World where
  server := noAppServer
  past := []
  rows := []
  nextRow := 1
  claims := []
  nextTx := 0
  builds := []
  clock := 0
  outcomes := []

def createdWorld : World :=
  { noAppWorld with
    server := sampleServer '1'
    past := [noAppServer]
    rows := [sampleRow]
    nextRow := 2 }

theorem steps_createdWorld {M : System operator World ℕ Unit} (hM : M.env = EnvStep) :
    M.Steps (Config.idle noAppWorld) (Config.idle createdWorld) := by
  have hc : EnvStep noAppWorld
      { noAppWorld with server := sampleServer '1', past := [noAppServer] } := .change _
  have he : EnvStep { noAppWorld with server := sampleServer '1', past := [noAppServer] }
      createdWorld := .enqueue sampleManual nofun
  rw [← hM] at hc he
  exact .tail (.single (.env hc)) (.env he)

theorem table_noAppWorld : Table noAppWorld where
  keyed := fun _ hr => absurd hr not_mem_nil
  below := fun _ hr => absurd hr not_mem_nil
  since := fun _ hr => absurd hr not_mem_nil

def seenMachine : Machine operator World := machine.guard fun c w x _ => decide (Seen w c x)

def servedWorld : World := seenMachine.after (samplePick 0) (tick sampleDispatcher) createdWorld

/-- One tick of an operator that sees the current state. -/
theorem steps_servedWorld :
    (seeingDispatchers sampleDispatcher).Steps (Config.idle createdWorld)
      (Config.idle servedWorld) := by
  have hr : Runs seenMachine.exec (tick sampleDispatcher) createdWorld () servedWorld :=
    seenMachine.runs_after (by decide +kernel)
  apply System.steps_idle_of_runs (t := 0) rfl
  apply Runs.mono _ hr
  intro c w x w' hx
  rw [seenMachine, Machine.exec_guard, decide_eq_true_iff] at hx
  exact ⟨hx.2, hx.1⟩

/-- The App's first build, by an operator that sees the current list of Apps. -/
theorem first_build_served :
    sampleRow ∉ servedWorld.rows ∧ sampleRow.Served sampleDispatcher servedWorld :=
  ⟨by decide +kernel, removed_row_served table_noAppWorld (steps_createdWorld rfl)
    steps_servedWorld (List.mem_singleton.mpr rfl) (by decide +kernel)⟩

/-- The same row, processed by an operator whose cache is one state behind. -/
def lostWorld : World := machine.after (samplePick 1) (tick sampleDispatcher) createdWorld

theorem due_sampleRow : sampleRow.Due sampleDispatcher lostWorld "web" := by
  have hst : (lostWorld.statesSince 1).map (fun s => (s.apps, s.commitOf sampleApp)) =
      [([sampleApp], some (sampleCommit '1'))] := by decide +kernel
  intro s hs
  have hm := mem_map_of_mem (f := fun s => (s.apps, s.commitOf sampleApp)) hs
  rw [show sampleRow.since = 1 from rfl, hst, mem_singleton, Prod.mk.injEq] at hm
  refine ⟨sampleApp, hm.1 ▸ mem_singleton.mpr rfl, rfl, rfl, by decide, ?_⟩
  rw [hm.2]
  rfl

/-- The row is removed, and no Build was made for its App. -/
theorem stale_list_loses_first_build :
    (dispatchers sampleDispatcher).Steps (Config.idle noAppWorld) (Config.idle createdWorld) ∧
      (dispatchers sampleDispatcher).Steps (Config.idle createdWorld) (Config.idle lostWorld) ∧
      sampleRow ∈ createdWorld.rows ∧ sampleRow ∉ lostWorld.rows ∧
      ¬ sampleRow.Served sampleDispatcher lostWorld := by
  refine ⟨steps_createdWorld rfl, ?_, mem_singleton.mpr rfl, by decide +kernel, ?_⟩
  · have hrun : Runs machine.exec (tick sampleDispatcher) createdWorld () lostWorld :=
      machine.runs_after (by decide +kernel)
    exact System.steps_idle_of_runs (t := 0) rfl hrun
  intro hserved
  obtain ⟨o, ho, -⟩ := hserved (by decide +kernel) "web" due_sampleRow
  have hnone : lostWorld.outcomes = [] := by decide +kernel
  rw [hnone] at ho
  cases ho

end Orkano.Operator
