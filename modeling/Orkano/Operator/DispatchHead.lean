import Orkano.Operator.Queue

/-!
Whether a processed delivery makes the resolved commit the newest Build of each App it concerns.
A create under a taken name counts as success, so a branch that was moved back stays on the
later Build.
-/
namespace Orkano.Operator

open Interleave Program List

section Newest

/-- The App's newest Build is one of this commit. -/
def NewestIs (builds : List Build) (ns appName sha : String) : Prop :=
  ∃ b ∈ newestBuild builds ns appName, b.spec.commit = sha

def KeyedBuilds (builds : List Build) : Prop :=
  ∀ b ∈ builds, ∀ b' ∈ builds, b.ns = b'.ns → b.name = b'.name → b = b'

/-- Before the create, the App's newest Build was of the commit already; or the name
was free and the newest Build is not one of the same second with a greater name. -/
def Outcome.DeploysHead (o : Outcome) : Prop :=
  NewestIs o.before o.wanted.ns o.wanted.spec.appName o.wanted.spec.commit ∨
    ((∀ b ∈ o.before, b.ns = o.wanted.ns → b.name ≠ o.wanted.name) ∧
      ∀ b ∈ newestBuild o.before o.wanted.ns o.wanted.spec.appName,
        ¬ (b.createdAt = o.now ∧ o.wanted.name < b.name))

variable {builds : List Build} {ns appName : String} {b s : Build}

theorem mem_buildsOf :
    b ∈ buildsOf builds ns appName ↔ b ∈ builds ∧ b.ns = ns ∧ b.spec.appName = appName := by
  simp [buildsOf]

theorem not_newestIs {sha : String}
    (h : ∀ b ∈ buildsOf builds ns appName, b.spec.commit = sha →
      ∃ b' ∈ buildsOf builds ns appName, newerBuild b' b) : ¬ NewestIs builds ns appName sha := by
  rintro ⟨b, hb, hs⟩
  obtain ⟨hm, hmx⟩ := newestBuild_spec hb
  obtain ⟨b', hm', hn⟩ := h b hm hs
  rw [hmx b' hm'] at hn
  cases hn

theorem KeyedBuilds.eq_of_not_newer (hk : KeyedBuilds builds) {b' : Build}
    (hb : b ∈ buildsOf builds ns appName) (hb' : b' ∈ buildsOf builds ns appName)
    (h : newerBuild b b' = false) (h' : newerBuild b' b = false) : b = b' := by
  obtain ⟨hm, hns, -⟩ := mem_buildsOf.mp hb
  obtain ⟨hm', hns', -⟩ := mem_buildsOf.mp hb'
  simp only [← Bool.not_eq_true, newerBuild_iff, not_or, not_and, not_lt] at h h'
  have ht : b.createdAt = b'.createdAt := le_antisymm h.1 h'.1
  have hn : b.name = b'.name := le_antisymm (h.2 ht) (h'.2 ht.symm)
  exact hk b hm b' hm' (hns.trans hns'.symm) hn

/-- The newest Build after one more is stored: the new one, unless the newest so far
is still newer. -/
theorem newestBuild_append (hk : KeyedBuilds (builds ++ [s])) (hns : s.ns = ns)
    (ha : s.spec.appName = appName) :
    newestBuild (builds ++ [s]) ns appName =
      match newestBuild builds ns appName with
      | some b => if newerBuild b s then some b else some s
      | none => some s := by
  have hsm : s ∈ buildsOf (builds ++ [s]) ns appName :=
    mem_buildsOf.mpr ⟨by simp, hns, ha⟩
  have hold : ∀ b ∈ buildsOf builds ns appName, b ∈ buildsOf (builds ++ [s]) ns appName := by
    intro b hb
    obtain ⟨hmm, hr⟩ := mem_buildsOf.mp hb
    exact mem_buildsOf.mpr ⟨mem_append_left _ hmm, hr⟩
  have hs : ∀ b ∈ buildsOf (builds ++ [s]) ns appName,
      b ∈ buildsOf builds ns appName ∨ b = s := by
    intro b hb
    obtain ⟨hmm, hr⟩ := mem_buildsOf.mp hb
    rcases mem_append.mp hmm with hmm | hmm
    · exact .inl (mem_buildsOf.mpr ⟨hmm, hr⟩)
    · exact .inr (mem_singleton.mp hmm)
  obtain ⟨m, hm⟩ := Option.isSome_iff_exists.mp
    (newestBuild_isSome.mpr (ne_nil_of_mem hsm))
  obtain ⟨hme, hmx⟩ := newestBuild_spec hm
  rw [hm]
  cases hn : newestBuild builds ns appName with
  | none =>
    -- the App had no Build before
    have hnl : buildsOf builds ns appName = [] := by
      by_contra hne
      have := newestBuild_isSome.mpr hne
      rw [hn] at this
      cases this
    rcases hs m hme with hmm | rfl
    · rw [hnl] at hmm
      cases hmm
    · rfl
  | some b =>
    obtain ⟨hbm, hbx⟩ := newestBuild_spec hn
    dsimp only
    split
    · rename_i hnw
      rcases hs m hme with hmm | rfl
      · rw [hk.eq_of_not_newer hme (hold b hbm) (hbx m hmm) (hmx b (hold b hbm))]
      · rw [hmx b (hold b hbm)] at hnw
        cases hnw
    rename_i hnt
    have hle : newerBuild b s = false := by simpa using hnt
    have hms : newerBuild m s = false := by
      rcases hs m hme with hmm | rfl
      · exact newerBuild_trans hle (hbx m hmm)
      · simp [newerBuild]
    rw [hk.eq_of_not_newer hme hsm hms (hmx s hsm)]

end Newest

section Turns

variable {w w₁ w₂ w' : World} {d : Dispatcher} {delivery : Delivery}

structure Aside (w w' : World) : Prop where
  states : w.states <:+ w'.states
  apps : w'.server.apps = w.server.apps
  builds : w'.builds = w.builds
  clock : w'.clock = w.clock
  outcomes : w'.outcomes = w.outcomes

def Current (w : World) : (c : Call) → c.Reply → Prop
  | .listApps _, x => ∀ apps ∈ x, apps = w.server.apps
  | _, _ => True

instance (w : World) : (c : Call) → (x : c.Reply) → Decidable (Current w c x)
  | .listApps _, x => inferInstanceAs (Decidable (∀ apps ∈ x, apps = w.server.apps))
  | .listBuilds, _ | .claimNext, _ | .resolve _ _, _ | .createBuild _ _, _ | .ack _ _, _
  | .nack _, _ => inferInstanceAs (Decidable True)

/-- A call amid pushes, by a client that sees the current state. -/
def amidPushes (c : Call) (w : World) (x : c.Reply) (w' : World) : Prop :=
  ∃ w₁, Aside w w₁ ∧ Current w₁ c x ∧ machine.exec c w₁ x w'

structure Dated (w : World) : Prop where
  keyed : KeyedBuilds w.builds
  dated : ∀ b ∈ w.builds, b.createdAt ≤ w.clock

/-- From `w` to `w'` only Builds of the named Apps were created, by the creates in
`recent`, and each deployed its commit exactly when `DeploysHead` says so. -/
structure Turn (names : List String) (recent : List Outcome) (w w' : World) : Prop where
  states : w.states <:+ w'.states
  apps : w'.server.apps = w.server.apps
  dated : Dated w'
  others : ∀ ns name, name ∉ names → buildsOf w'.builds ns name = buildsOf w.builds ns name
  outcomes : w'.outcomes = recent ++ w.outcomes
  named : ∀ o ∈ recent, o.wanted.spec.appName ∈ names
  deploys : ∀ o ∈ recent,
    (NewestIs w'.builds o.wanted.ns o.wanted.spec.appName o.wanted.spec.commit ↔ o.DeploysHead)

theorem Aside.turn (h : Aside w w') (hw : Dated w) : Turn [] [] w w' where
  states := h.states
  apps := h.apps
  dated := by
    constructor
    · rw [h.builds]
      exact hw.keyed
    · rw [h.builds, h.clock]
      exact hw.dated
  others := fun _ _ _ => by rw [h.builds]
  outcomes := h.outcomes
  named := fun _ ho => absurd ho not_mem_nil
  deploys := fun _ ho => absurd ho not_mem_nil

variable {builds : List Build}

theorem newestIs_congr {builds' : List Build} {ns name sha : String}
    (h : buildsOf builds' ns name = buildsOf builds ns name) :
    NewestIs builds' ns name sha ↔ NewestIs builds ns name sha := by
  simp only [NewestIs, newestBuild, h]

/-- Creates for different Apps in a row. -/
theorem Turn.append {names1 names2 : List String} {recent1 recent2 : List Outcome}
    (h1 : Turn names1 recent1 w w₁) (h2 : Turn names2 recent2 w₁ w₂)
    (hd : ∀ name ∈ names1, name ∉ names2) :
    Turn (names1 ++ names2) (recent2 ++ recent1) w w₂ where
  states := h1.states.trans h2.states
  apps := h2.apps.trans h1.apps
  dated := h2.dated
  others := by
    intro ns name hn
    rw [mem_append, not_or] at hn
    exact (h2.others ns name hn.2).trans (h1.others ns name hn.1)
  outcomes := by rw [h2.outcomes, h1.outcomes, append_assoc]
  named := by
    intro o ho
    rcases mem_append.mp ho with ho | ho
    · exact mem_append_right _ (h2.named o ho)
    · exact mem_append_left _ (h1.named o ho)
  deploys := by
    intro o ho
    rcases mem_append.mp ho with ho | ho
    · exact h2.deploys o ho
    · rw [← h1.deploys o ho]
      exact newestIs_congr (h2.others _ _ (hd _ (h1.named o ho)))

theorem KeyedBuilds.append {b : Build} (h : KeyedBuilds builds)
    (hf : ∀ b' ∈ builds, b'.ns = b.ns → b'.name ≠ b.name) : KeyedBuilds (builds ++ [b]) := by
  intro b1 h1 b2 h2 hns hn
  rcases mem_append.mp h1 with h1 | h1
  · rcases mem_append.mp h2 with h2 | h2
    · exact h b1 h1 b2 h2 hns hn
    · rw [mem_singleton.mp h2] at hns hn
      exact absurd hn (hf b1 h1 hns)
  rw [mem_singleton.mp h1] at hns hn ⊢
  rcases mem_append.mp h2 with h2 | h2
  · exact absurd hn.symm (hf b2 h2 hns.symm)
  · exact (mem_singleton.mp h2).symm

/-- A Build stored last: its commit is the newest Build's, unless a Build of the same
second has a greater name and another commit. -/
theorem newestIs_append_iff {s : Build}
    (hk : KeyedBuilds (builds ++ [s])) (hd : ∀ b ∈ builds, b.createdAt ≤ s.createdAt) :
    NewestIs (builds ++ [s]) s.ns s.spec.appName s.spec.commit ↔
      NewestIs builds s.ns s.spec.appName s.spec.commit ∨
        ∀ b ∈ newestBuild builds s.ns s.spec.appName,
          ¬ (b.createdAt = s.createdAt ∧ s.name < b.name) := by
  unfold NewestIs
  rw [newestBuild_append hk rfl rfl]
  cases hnw : newestBuild builds s.ns s.spec.appName with
  | none => simp
  | some b =>
    have hle : b.createdAt ≤ s.createdAt :=
      hd b (mem_buildsOf.mp (newestBuild_spec hnw).1).1
    by_cases hn : newerBuild b s
    · have ht : b.createdAt = s.createdAt ∧ s.name < b.name := by
        rcases newerBuild_iff.mp hn with hlt | ht
        · exact absurd hlt (not_lt.mpr hle)
        · exact ht
      simp only [hn, if_true, Option.mem_def, Option.some.injEq, exists_eq_left', forall_eq']
      exact (or_iff_left (not_not_intro ht)).symm
    have hno : ¬ (b.createdAt = s.createdAt ∧ s.name < b.name) := by
      intro ht
      exact hn (newerBuild_iff.mpr (.inr ht))
    simp only [hn, Option.mem_def, Option.some.injEq, exists_eq_left', if_false,
      Bool.false_eq_true, true_iff, forall_eq']
    exact .inr hno

theorem buildsOf_append_of_ne {s : Build} {ns name : String} (h : s.spec.appName ≠ name) :
    buildsOf (builds ++ [s]) ns name = buildsOf builds ns name := by
  simp [buildsOf, h]

theorem findBuild_eq_none {ns name : String} :
    w.findBuild ns name = none ↔ ∀ b ∈ w.builds, b.ns = ns → b.name ≠ name := by
  simp [World.findBuild]

/-- One create, and whether its commit is deployed. -/
theorem turn_createBuild {row : Int} {b : Build} {x : CreateReply} (hw : Dated w)
    (h : machine.exec (.createBuild row b) w x w') (hx : x ≠ .error) :
    ∃ o, o.wanted = b ∧ Turn [b.spec.appName] [o] w w' := by
  obtain ⟨now, hnw, ⟨-, hn, rfl⟩ | ⟨found, -, hfn, rfl⟩⟩ := exec_createBuild h hx
  · have hf := findBuild_eq_none.mp hn
    let stored : Build := { b with createdAt := now }
    have hk : KeyedBuilds (w.builds ++ [stored]) := hw.keyed.append hf
    have hd : ∀ b' ∈ w.builds, b'.createdAt ≤ now := fun b' hb' => (hw.dated b' hb').trans hnw
    refine ⟨⟨row, now, b, w.builds, stored⟩, rfl, ?_⟩
    constructor
    case states => exact suffix_rfl
    case apps => rfl
    case dated =>
      refine ⟨hk, ?_⟩
      intro b' hb'
      rcases mem_append.mp hb' with hb' | hb'
      · exact hd b' hb'
      · rw [mem_singleton.mp hb']
    case others =>
      intro ns name hnm
      exact buildsOf_append_of_ne fun heq => hnm (mem_singleton.mpr heq.symm)
    case outcomes => rfl
    case named => simp
    case deploys =>
      intro o ho
      rw [mem_singleton.mp ho]
      refine (newestIs_append_iff hk hd).trans (or_congr_right ?_)
      exact (and_iff_right hf).symm
  · refine ⟨⟨row, now, b, w.builds, found⟩, rfl, ?_⟩
    constructor
    case states => exact suffix_rfl
    case apps => rfl
    case dated => exact ⟨hw.keyed, hw.dated⟩
    case others => exact fun _ _ _ => rfl
    case outcomes => rfl
    case named => simp
    case deploys =>
      intro o ho
      rw [mem_singleton.mp ho]
      -- a taken name rules out the second way
      have ht : ¬ ∀ b' ∈ w.builds, b'.ns = b.ns → b'.name ≠ b.name := by
        intro hf
        rw [findBuild_eq_none.mpr hf] at hfn
        cases hfn
      exact (or_iff_left fun hf => ht hf.1).symm

variable {recent : List Outcome}

theorem Turn.mono {names names' : List String} (h : Turn names recent w w') (hs : names ⊆ names') :
    Turn names' recent w w' :=
  { h with
    others := fun ns name hn => h.others ns name fun hm => hn (hs hm)
    named := fun o ho => hs (h.named o ho) }

variable {app : App}

/-- The commit is the one that the ref stands for when the answer comes. -/
theorem runs_resolveCommit {x : Except ResolveError String}
    (h : Runs amidPushes (resolveCommit d app) w x w') :
    Aside w w' ∧ (∀ sha, x = .ok sha → w'.server.commitOf app = some sha) ∧
      (x = .error .unresolvable → w'.server.commitOf app = none) := by
  have hr : Aside w w := ⟨suffix_rfl, rfl, rfl, rfl, rfl⟩
  rcases resolveCommit_cases d app with hp | ⟨origin, ho, hp⟩ | ⟨sha, hs, hp⟩ | ⟨hn, hp⟩
  · rw [hp, runs_done] at h
    obtain ⟨rfl, rfl⟩ := h
    exact ⟨hr, nofun, nofun⟩
  · rw [hp] at h
    obtain ⟨w₁, ha, -, he⟩ := runs_perform.mp h
    obtain ⟨rfl, hok, hun⟩ := exec_resolve he
    simp only [Snapshot.commitOf, ho]
    exact ⟨ha, hok, hun⟩
  · rw [hp, runs_done] at h
    obtain ⟨rfl, rfl⟩ := h
    refine ⟨hr, ?_, nofun⟩
    rintro _ ⟨⟩
    exact hs _
  rw [hp, runs_done] at h
  obtain ⟨rfl, rfl⟩ := h
  exact ⟨hr, nofun, fun _ => hn _⟩

theorem runs_createBuild {sha : String} (hw : Dated w)
    (h : Runs amidPushes (createBuild d app sha delivery) w true w') :
    ∃ o, o.wanted = buildFromApp app sha (buildNameForDelivery d.text app.name sha delivery) ∧
      Turn [app.name] [o] w w' := by
  unfold createBuild at h
  obtain ⟨x, w₁, hcl, hr⟩ := runs_bind.mp h
  obtain ⟨w0, ha, -, he⟩ := runs_perform.mp hcl
  have hs : x ≠ .error ∧ w' = w₁ := by
    rcases x with _ | _ | _
    · exact ⟨nofun, (runs_done.mp hr).2⟩
    · exact ⟨nofun, (runs_done.mp hr).2⟩
    · exact absurd (runs_done.mp hr).1 (by decide)
  obtain ⟨hx, rfl⟩ := hs
  have ht := ha.turn hw
  obtain ⟨o, hwn, hc⟩ := turn_createBuild ht.dated he hx
  exact ⟨o, hwn, ht.append hc fun _ hn => absurd hn not_mem_nil⟩

/-- No create was made for the App, whose ref did not resolve in one of the states
since the `n`-th; or one asked for a Build of the commit that it stood for in one. -/
def Covered (d : Dispatcher) (delivery : Delivery) (n : Nat) (recent : List Outcome) (w : World)
    (app : App) : Prop :=
  ((∃ s ∈ w.statesSince n, s.commitOf app = none) ∧
      ∀ o ∈ recent, o.wanted.spec.appName ≠ app.name) ∨
    ∃ sha, (∃ s ∈ w.statesSince n, s.commitOf app = some sha) ∧
      ∃ o ∈ recent,
        o.wanted = buildFromApp app sha (buildNameForDelivery d.text app.name sha delivery)

theorem Covered.append {n : Nat} {o : Outcome} (h : Covered d delivery n recent w app)
    (ho : o.wanted.spec.appName ≠ app.name) : Covered d delivery n (recent ++ [o]) w app := by
  rcases h with ⟨hn, hno⟩ | ⟨sha, hs, o', ho', hw⟩
  · refine .inl ⟨hn, ?_⟩
    intro o' ho'
    rcases mem_append.mp ho' with ho' | ho'
    · exact hno o' ho'
    · rw [mem_singleton.mp ho']
      exact ho
  · exact .inr ⟨sha, hs, o', mem_append_left _ ho', hw⟩

variable {apps : List App}

/-- The loop covers every App that it admits. -/
theorem runs_dispatchApps {n : Nat} {skipped total : Nat} (hw : Dated w)
    (hn : n ≤ w.past.length) (hk : (apps.map App.name).Nodup)
    (h : Runs amidPushes (dispatchApps d delivery apps skipped) w (.ok total) w') :
    ∃ recent, Turn (apps.map App.name) recent w w' ∧
      ∀ app ∈ apps, validateApp d.features app = none →
        Covered d delivery n recent w' app := by
  induction apps generalizing w skipped with
  | nil =>
    obtain ⟨-, rfl⟩ := runs_done.mp h
    have hrf : Aside w' w' := ⟨suffix_rfl, rfl, rfl, rfl, rfl⟩
    exact ⟨[], hrf.turn hw, fun _ hap => absurd hap not_mem_nil⟩
  | cons app rest ih =>
    obtain ⟨hf, hr⟩ := nodup_cons.mp hk
    unfold dispatchApps at h
    split at h
    · -- the gates refuse the App
      rename_i hg
      obtain ⟨recent, ht, hc⟩ := ih hw hn hr h
      refine ⟨recent, ht.mono (subset_cons_self ..), ?_⟩
      intro app' ha' hok
      rcases mem_cons.mp ha' with rfl | ha'
      · simp [hok] at hg
      · exact hc app' ha' hok
    · obtain ⟨x, w₁, hrs, hnx⟩ := runs_bind.mp h
      obtain ⟨has, hs, hun⟩ := runs_resolveCommit hrs
      have ht1 := has.turn hw
      have hn1 : n ≤ w₁.past.length := hn.trans (past_length_le has.states)
      match x, hs, hun, hnx with
      | .error .unresolvable, _, hun, hnx =>
        obtain ⟨recent, ht, hc⟩ := ih ht1.dated hn1 hr hnx
        have ha := ht1.append ht fun _ hnm => absurd hnm not_mem_nil
        rw [append_nil] at ha
        refine ⟨recent, ha.mono (subset_cons_self ..), ?_⟩
        intro app' ha' hok
        rcases mem_cons.mp ha' with rfl | ha'
        · refine .inl ⟨⟨w₁.server, ?_, hun rfl⟩, ?_⟩
          · exact statesSince_mono ht.states (server_mem_statesSince hn1)
          · intro o ho hnm
            exact hf (hnm ▸ ht.named o ho)
        · exact hc app' ha' hok
      | .error .other, _, _, hnx => cases (runs_done.mp hnx).1
      | .ok sha, hs, _, hnx =>
        obtain ⟨created, w₂, hcr, hnx⟩ := runs_bind.mp hnx
        cases created with
        | false => cases (runs_done.mp hnx).1
        | true =>
          obtain ⟨o, hwn, ht2⟩ := runs_createBuild ht1.dated hcr
          have hn2 : n ≤ w₂.past.length := hn1.trans (past_length_le ht2.states)
          obtain ⟨recent, ht, hc⟩ := ih ht2.dated hn2 hr hnx
          have ha := (ht1.append ht2 fun _ hnm => absurd hnm not_mem_nil).append
            ht fun name hnm => mem_singleton.mp hnm ▸ hf
          refine ⟨_, ha, ?_⟩
          intro app' ha' hok
          rcases mem_cons.mp ha' with rfl | ha'
          · refine .inr ⟨sha, ⟨w₁.server, ?_, hs sha rfl⟩, o, by simp, hwn⟩
            exact statesSince_mono (ht2.states.trans ht.states) (server_mem_statesSince hn1)
          apply (hc app' ha' hok).append
          intro hnm
          rw [hwn] at hnm
          exact hf (mem_map.mpr ⟨app', ha', hnm.symm⟩)

/-- A delivery handled without error was valid, and its loop came to its end. -/
theorem runs_handle_ok {exec : (c : Call) → World → c.Reply → World → Prop}
    (h : Runs exec (handle d delivery) w (true, none) w') :
    validateDelivery delivery = none ∧
      ∃ apps w₁ total, exec (.listApps delivery.id) w (some apps) w₁ ∧
        Runs exec (dispatchApps d delivery (selectApps d delivery apps) 0) w₁ (.ok total) w' := by
  unfold handle at h
  cases hv : validateDelivery delivery with
  | some e =>
    rw [hv] at h
    cases (runs_done.mp h).1
  | none =>
    rw [hv] at h
    obtain ⟨matched, w₁, hl, hn⟩ := runs_bind.mp h
    obtain ⟨x, w₂, hc, hs⟩ := runs_bind.mp hl
    obtain ⟨rfl, rfl⟩ := runs_done.mp hs
    have hec := runs_perform.mp hc
    cases x with
    | none => cases (runs_done.mp hn).1
    | some apps =>
      refine ⟨rfl, apps, w₁, ?_⟩
      dsimp only [Option.map_some] at hn
      generalize selectApps d delivery apps = matched at hn ⊢
      cases matched with
      | nil => cases (runs_done.mp hn).1
      | cons app rest =>
        obtain ⟨result, w₂, hlp, he⟩ := runs_bind.mp hn
        cases result with
        | error e => cases (runs_done.mp he).1
        | ok total =>
          dsimp only at he
          split at he
          · cases (runs_done.mp he).1
          · obtain ⟨-, rfl⟩ := runs_done.mp he
            exact ⟨total, hec, hlp⟩

theorem selectApps_push (hp : delivery.eventType = .push) (hv : validateDelivery delivery = none) :
    selectApps d delivery apps = apps.filter (matchesRepo d delivery.repo) := by
  have hn : delivery.appName = "" := by
    by_contra hne
    simp only [validateDelivery, hp, hne, ne_eq, not_false_iff, decide_true, Bool.or_true,
      if_true] at hv
    split at hv <;> cases hv
  simp [selectApps, hn]

/-- A push whose handling ends without error: every App it concerns is covered, and
each create deployed its commit exactly when the App was on that commit already, or
the name was free and no Build of the same second has a greater name. -/
theorem push_deploys_head_iff (hpush : delivery.eventType = .push) (hw : Dated w)
    (h : Runs amidPushes (handle d delivery) w (true, none) w') :
    ∃ recent, w'.outcomes = recent ++ w.outcomes ∧
      (∀ app ∈ w.server.apps, matchesRepo d delivery.repo app →
        validateApp d.features app = none → Covered d delivery w.past.length recent w' app) ∧
      ∀ o ∈ recent,
        (NewestIs w'.builds o.wanted.ns o.wanted.spec.appName o.wanted.spec.commit ↔
          o.DeploysHead) := by
  obtain ⟨hvalid, apps, w₁, total, ⟨w₀, haside, hcurrent, hexec⟩, hloop⟩ := runs_handle_ok h
  obtain ⟨rfl, -⟩ := exec_listApps hexec
  have happs : apps = w.server.apps := (hcurrent apps rfl).trans haside.apps
  have hturn₁ := haside.turn hw
  rw [selectApps_push hpush hvalid, happs] at hloop
  have hkeyed : ((w.server.apps.filter (matchesRepo d delivery.repo)).map App.name).Nodup :=
    w.server.keyed.sublist (filter_sublist.map _)
  obtain ⟨recent, hturn, hcover⟩ :=
    runs_dispatchApps hturn₁.dated (past_length_le haside.states) hkeyed hloop
  refine ⟨recent, hturn.outcomes.trans (by rw [haside.outcomes]), ?_, hturn.deploys⟩
  intro app happ hmatch hok
  exact hcover app (mem_filter.mpr ⟨happ, hmatch⟩) hok

end Turns

def samplePush : Delivery := ⟨1, "d-1", "acme/web", .push, ""⟩

def sampleWorld : World where
  server := sampleServer '1'
  past := []
  rows := []
  nextRow := 2
  claims := []
  nextTx := 0
  builds := []
  clock := 0
  outcomes := []

def World.pushed (w : World) (digit : Char) : World :=
  { w with server := sampleServer digit, past := w.server :: w.past }

def currentMachine : Machine operator World := machine.guard fun c w x _ => decide (Current w c x)

def sampleHandle (w : World) : Option ((Bool × Option HandleError) × World) :=
  currentMachine.simulate (samplePick 0) (handle sampleDispatcher samplePush) w

def sampleAfter (w : World) : World :=
  currentMachine.after (samplePick 0) (handle sampleDispatcher samplePush) w

theorem runs_sampleHandle {w : World} {x : Bool × Option HandleError}
    (h : (sampleHandle w).map Prod.fst = some x) :
    Runs amidPushes (handle sampleDispatcher samplePush) w x (sampleAfter w) := by
  apply Runs.mono _ (currentMachine.runs_after h)
  intro c s y s' hy
  rw [currentMachine, Machine.exec_guard, decide_eq_true_iff] at hy
  exact ⟨s, ⟨suffix_rfl, rfl, rfl, rfl, rfl⟩, hy.2, hy.1⟩

/-- Two pushes were handled, and the branch is then moved back to the first commit. -/
def sampleMovedBack : World := (sampleAfter ((sampleAfter sampleWorld).pushed '2')).pushed '1'

theorem dated_sampleWorld : Dated sampleWorld :=
  ⟨fun _ hb => absurd hb not_mem_nil, fun _ hb => absurd hb not_mem_nil⟩

/-- The first push deploys its commit. -/
theorem first_push_deployed :
    (sampleHandle sampleWorld).map Prod.fst = some (true, none) ∧
      ∃ recent, (sampleAfter sampleWorld).outcomes = recent ++ [] ∧
        (∀ app ∈ [sampleApp], matchesRepo sampleDispatcher "acme/web" app →
          validateApp [] app = none →
            Covered sampleDispatcher samplePush 0 recent (sampleAfter sampleWorld) app) ∧
        ∀ o ∈ recent, (NewestIs (sampleAfter sampleWorld).builds o.wanted.ns
          o.wanted.spec.appName o.wanted.spec.commit ↔ o.DeploysHead) :=
  ⟨by decide +kernel,
    push_deploys_head_iff rfl dated_sampleWorld (runs_sampleHandle (by decide +kernel))⟩

/-- The third push is handled without error while the branch is at the first commit,
and the App's newest Build stays the one of the second. -/
theorem moved_back_push_not_deployed :
    Runs amidPushes (handle sampleDispatcher samplePush) sampleMovedBack (true, none)
        (sampleAfter sampleMovedBack) ∧
      sampleMovedBack.server.commitOf sampleApp = some (sampleCommit '1') ∧
      (sampleAfter sampleMovedBack).outcomes.head?.map Outcome.wanted =
        some (buildFromApp sampleApp (sampleCommit '1') "web-111111111111") ∧
      ¬ NewestIs (sampleAfter sampleMovedBack).builds sampleApp.ns sampleApp.name
        (sampleCommit '1') :=
  ⟨runs_sampleHandle (by decide +kernel), rfl, by decide +kernel,
    not_newestIs (by decide +kernel)⟩

end Orkano.Operator
