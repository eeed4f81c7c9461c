import Orkano.Interleave.History
import Orkano.Operator.DispatchQueue

/-!
How many Builds are made for one manual request. The name of the Build has the resolved commit in
it, so when an acknowledgement fails and the branch moves before the next attempt, the row makes
a second Build.
-/
namespace Orkano.Operator

open Interleave Program List

/-- The create stored a Build: none had its name before. -/
def Outcome.created (o : Outcome) : Bool :=
  !o.before.any fun b => b.ns = o.wanted.ns ∧ b.name = o.wanted.name

def World.createdFor (w : World) (id : Int) : List Outcome :=
  w.outcomes.filter fun o => o.row = id && o.created

def KeepsBuilds (w w' : World) : Prop :=
  ∀ b ∈ w.builds, ∃ b' ∈ w'.builds, b'.ns = b.ns ∧ b'.name = b.name

/-- The operators, where others change anything but delete no Build. -/
def keepingDispatchers (d : Dispatcher) : System operator World ℕ Unit :=
  { dispatchers d with env := fun w w' => EnvStep w w' ∧ KeepsBuilds w w' }

def shortCommit (b : Build) : List Char := b.spec.commit.toList.take buildNameSHALen

/-- A create for the row asks for the commit, up to the digits in the name, and the
namespace of the creates before it. -/
def SameHead (id : Int) (w : World) : Call → Prop
  | .createBuild row b => row = id → ∀ o ∈ w.outcomes, o.row = id →
      o.wanted.ns = b.ns ∧ shortCommit o.wanted = shortCommit b
  | _ => True

instance (id : Int) (w : World) : (c : Call) → Decidable (SameHead id w c)
  | .createBuild row b => inferInstanceAs (Decidable (row = id → ∀ o ∈ w.outcomes, o.row = id →
      o.wanted.ns = b.ns ∧ shortCommit o.wanted = shortCommit b))
  | .listBuilds | .claimNext | .listApps _ | .resolve _ _ | .ack _ _ | .nack _ =>
    inferInstanceAs (Decidable True)

/-- The operators, in the runs where the head does not move between attempts at the row. -/
def steadyDispatchers (d : Dispatcher) (id : Int) : System operator World ℕ Unit :=
  (keepingDispatchers d).restrict fun _ c w _ => SameHead id w c

section Names

variable {T : TextPrimitives} {d : Dispatcher} {delivery : Delivery}

theorem buildNameForDelivery_short {appName sha sha' : String}
    (h : sha.toList.take buildNameSHALen = sha'.toList.take buildNameSHALen) :
    buildNameForDelivery T appName sha delivery = buildNameForDelivery T appName sha' delivery := by
  simp only [buildNameForDelivery, buildName, buildNameWithSuffix, h]

/-- The name of a Build made for a manual delivery. -/
def NamedFor (T : TextPrimitives) (delivery : Delivery) (b : Build) : Prop :=
  delivery.eventType = .manual →
    b.name = buildNameForDelivery T delivery.appName b.spec.commit delivery

/-- The creates that handling a delivery may come to. -/
def CreatesFor (T : TextPrimitives) (delivery : Delivery) : Call → Prop
  | .createBuild row b => row = delivery.id ∧ NamedFor T delivery b
  | _ => True

variable {app : App}

theorem only_resolveCommit : (resolveCommit d app).Only (CreatesFor T delivery) := by
  rcases resolveCommit_cases d app with hp | ⟨origin, -, hp⟩ | ⟨sha, -, hp⟩ | ⟨-, hp⟩ <;>
    simp [hp, call, perform, CreatesFor]

theorem only_createBuild {sha : String}
    (ha : delivery.eventType = .manual → app.name = delivery.appName) :
    (createBuild d app sha delivery).Only (CreatesFor d.text delivery) := by
  simp only [createBuild, call, perform_bind, only_call]
  constructor
  · refine ⟨rfl, ?_⟩
    intro hm
    rw [← ha hm]
    rfl
  · rintro (_ | _ | _) <;> exact only_done _

variable {apps : List App}

theorem only_dispatchApps {skipped : Nat}
    (hap : delivery.eventType = .manual → ∀ app ∈ apps, app.name = delivery.appName) :
    (dispatchApps d delivery apps skipped).Only (CreatesFor d.text delivery) := by
  induction apps generalizing skipped with
  | nil => exact only_done _
  | cons app rest ih =>
    have haa : delivery.eventType = .manual → app.name = delivery.appName :=
      fun hm => hap hm app mem_cons_self
    have hr : ∀ skipped, (dispatchApps d delivery rest skipped).Only _ :=
      fun _ => ih fun hm a ha => hap hm a (mem_cons_of_mem _ ha)
    unfold dispatchApps
    split
    · exact hr _
    apply only_bind only_resolveCommit
    rintro ((_ | _) | sha)
    · exact hr _
    · exact only_done _
    apply only_bind (only_createBuild haa)
    rintro (_ | _)
    · exact only_done _
    · exact hr _

theorem selectApps_manual (hv : validateDelivery delivery = none)
    (hm : delivery.eventType = .manual) (ha : app ∈ selectApps d delivery apps) :
    app.name = delivery.appName := by
  have hn : delivery.appName ≠ "" := by
    intro heq
    have he : isSubdomain "" = false := by decide
    simp only [validateDelivery, hm, heq, he] at hv
    split at hv <;> simp at hv
  rw [selectApps, if_neg hn, Option.mem_toList] at ha
  simpa using find?_some ha

/-- Handling a delivery creates Builds of its own naming only. -/
theorem only_handle : (handle d delivery).Only (CreatesFor d.text delivery) := by
  unfold handle
  split
  · exact only_done _
  case h_2 hvalid =>
    simp only [appsForDelivery, call, perform_bind, call_bind, pure_eq, done_bind, only_call]
    refine ⟨trivial, ?_⟩
    rintro (_ | apps)
    · exact only_done _
    rw [Option.map_some]
    cases hs : selectApps d delivery apps with
    | nil => exact only_done _
    | cons app rest =>
      apply only_bind
      · apply only_dispatchApps
        intro hm a ha
        exact selectApps_manual hvalid hm (hs ▸ ha)
      rintro (_ | _)
      · exact only_done _
      · dsimp only
        split <;> exact only_done _

end Names

section Steps

variable {w w' : World} {row now : Int} {b : Build} {id : Int}

structure Quiet (w w' : World) : Prop where
  table : Table w'
  outcomes : w'.outcomes = w.outcomes
  builds : KeepsBuilds w w'
  nextRow : w.nextRow ≤ w'.nextRow
  rows : ∀ r ∈ w'.rows, r ∈ w.rows ∨ w.nextRow ≤ r.delivery.id

theorem keepsBuilds_of_subset (h : w.builds ⊆ w'.builds) : KeepsBuilds w w' :=
  fun b hb => ⟨b, h hb, rfl, rfl⟩

theorem quiet_of_env (d : Dispatcher) (hw : Table w) (h : EnvStep w w') (hk : KeepsBuilds w w') :
    Quiet w w' := by
  obtain ⟨ht, he⟩ := EnvStep.evolves (d := d) h hw
  refine ⟨ht, ?_, hk, he.nextRow, he.rows⟩
  cases h <;> rfl

structure Logged (row : Int) (b : Build) (w w' : World) (o : Outcome) : Prop where
  row : o.row = row
  wanted : o.wanted = b
  before : o.before = w.builds
  outcomes : w'.outcomes = o :: w.outcomes
  builds : w.builds ⊆ w'.builds
  named : ∃ b' ∈ w'.builds, b'.ns = b.ns ∧ b'.name = b.name

theorem create_logged :
    (w.create now row b).2 = w ∨ ∃ o, Logged row b w (w.create now row b).2 o := by
  unfold World.create
  split
  · exact .inl rfl
  right
  split
  case h_1 found hfound =>
    have hn := find?_some hfound
    simp only [decide_eq_true_eq] at hn
    exact ⟨_, rfl, rfl, rfl, rfl, List.Subset.refl _, found, mem_of_find?_eq_some hfound,
      hn⟩
  · exact ⟨_, rfl, rfl, rfl, rfl, subset_append_left .., _,
      mem_append_right _ (mem_singleton.mpr rfl), rfl, rfl⟩

theorem exec_createBuild_logged {x : CreateReply} (h : machine.exec (.createBuild row b) w x w') :
    w' = w ∨ ∃ o, Logged row b w w' o := by
  obtain ⟨⟨now, fault⟩, hk⟩ := h
  simp only [machine, answer] at hk
  split at hk
  · cases hk
  rcases fault with _ | _ | _
  · obtain rfl : (w.create now row b).2 = w' := congrArg Prod.snd (Option.some.inj hk)
    exact create_logged
  · cases hk
    exact .inl rfl
  · cases hk
    exact create_logged

/-- Every other call leaves outcomes and Builds alone. -/
theorem exec_quiet {c : Call} {x : c.Reply} (hc : ∀ row b, c ≠ .createBuild row b) (hw : Table w)
    (h : machine.exec c w x w') : Quiet w w' := by
  have hs : w'.outcomes = w.outcomes ∧ w'.builds = w.builds ∧ w'.nextRow = w.nextRow ∧
      w'.past = w.past ∧ w'.rows ⊆ w.rows := by
    obtain ⟨k, hk⟩ := h
    cases c with
    | createBuild row b => exact absurd rfl (hc row b)
    | listApps row =>
      obtain ⟨rfl, -⟩ := exec_listApps ⟨k, hk⟩
      simp
    | claimNext =>
      simp only [machine, answer] at hk
      split at hk
      · cases hk
        simp
      · split at hk <;> cases hk <;> simp
    | ack tx id =>
      have hcm : (w.commit tx id).2.outcomes = w.outcomes ∧
          (w.commit tx id).2.builds = w.builds ∧ (w.commit tx id).2.nextRow = w.nextRow ∧
          (w.commit tx id).2.past = w.past ∧ (w.commit tx id).2.rows ⊆ w.rows := by
        unfold World.commit
        split <;> simp [World.release]
      rcases k with _ | _ | _
      · obtain rfl : (w.commit tx id).2 = w' := congrArg Prod.snd (Option.some.inj hk)
        exact hcm
      · cases hk
        simp [World.release]
      · cases hk
        exact hcm
    | listBuilds | resolve app origin | nack tx =>
      cases hk
      simp [World.release]
  obtain ⟨ho, hb, hn, hp, hrw⟩ := hs
  have ht : Table w' := by
    constructor
    · intro r hr r' hr'
      exact hw.keyed r (hrw hr) r' (hrw hr')
    · intro r hr
      rw [hn]
      exact hw.below r (hrw hr)
    intro r hr
    rw [hp]
    exact hw.since r (hrw hr)
  exact ⟨ht, ho, keepsBuilds_of_subset (hb ▸ List.Subset.refl _), hn.ge,
    fun r hr => .inl (hrw hr)⟩

end Steps

section Invariant

/-- The first delivery that the table had under the key. -/
def firstDelivery (id : Int) (w : World) (first : Option Delivery) : Option Delivery :=
  first.or ((w.rows.find? fun r => r.delivery.id = id).map Row.delivery)

/-- The key stands for one delivery; the creates for it all ask for Builds of its own
naming, which are there still, and at most one was made. -/
structure Once (T : TextPrimitives) (id : Int) (w : World) (first : Option Delivery) : Prop where
  table : Table w
  rows : ∀ r ∈ w.rows, r.delivery.id = id → first = some r.delivery
  known : first.isSome → id < w.nextRow
  wanted : ∀ o ∈ w.outcomes, o.row = id → ∃ a, first = some a ∧ NamedFor T a o.wanted
  taken : ∀ o ∈ w.outcomes, o.row = id →
    ∃ b ∈ w.builds, b.ns = o.wanted.ns ∧ b.name = o.wanted.name
  one : ∀ a, first = some a → a.eventType = .manual → (w.createdFor id).length ≤ 1

variable {T : TextPrimitives} {id : Int} {w w' : World} {first : Option Delivery}
variable {a : Delivery}

theorem firstDelivery_none (h : firstDelivery id w none = some a) :
    ∃ r ∈ w.rows, r.delivery.id = id ∧ r.delivery = a := by
  obtain ⟨r, hr, rfl⟩ := Option.map_eq_some_iff.mp h
  exact ⟨r, mem_of_find?_eq_some hr, by simpa using find?_some hr, rfl⟩

theorem firstDelivery_of_mem {r : Row} (hw : Table w) (hr : r ∈ w.rows) (hid : r.delivery.id = id) :
    firstDelivery id w none = some r.delivery := by
  have hf : (w.rows.find? fun r => r.delivery.id = id).isSome :=
    find?_isSome.mpr ⟨r, hr, by simpa using hid⟩
  obtain ⟨r', hr'⟩ := Option.isSome_iff_exists.mp hf
  have hid' : r'.delivery.id = id := by simpa using find?_some hr'
  rw [hw.keyed r hr r' (mem_of_find?_eq_some hr') (hid.trans hid'.symm)]
  simp [firstDelivery, hr']

theorem createdFor_eq_nil (h : ∀ o ∈ w.outcomes, o.row ≠ id) : w.createdFor id = [] := by
  simp only [World.createdFor, filter_eq_nil_iff, Bool.and_eq_true, decide_eq_true_eq]
  exact fun o ho hr => h o ho hr.1

theorem Once.no_outcome (h : Once T id w none) : ∀ o ∈ w.outcomes, o.row ≠ id := by
  intro o ho hr
  obtain ⟨a, ha, -⟩ := h.wanted o ho hr
  cases ha

theorem Once.start (hw : Table w) (hf : ∀ o ∈ w.outcomes, o.row ≠ id) :
    Once T id w (firstDelivery id w none) where
  table := hw
  rows := fun _ hr hid => firstDelivery_of_mem hw hr hid
  known := by
    intro hs
    obtain ⟨a, ha⟩ := Option.isSome_iff_exists.mp hs
    obtain ⟨r, hr, rfl, -⟩ := firstDelivery_none ha
    exact hw.below r hr
  wanted := fun o ho hrw => absurd hrw (hf o ho)
  taken := fun o ho hrw => absurd hrw (hf o ho)
  one := by
    intro _ _ _
    simp [createdFor_eq_nil hf]

/-- Quiet steps keep the one Build. -/
theorem Once.quiet (h : Once T id w first) (hs : Quiet w w') :
    Once T id w' (firstDelivery id w' first) := by
  cases first with
  | none =>
    apply Once.start hs.table
    rw [hs.outcomes]
    exact h.no_outcome
  | some a =>
    have hk : id < w.nextRow := h.known rfl
    have hc : w'.createdFor id = w.createdFor id := by
      simp only [World.createdFor, hs.outcomes]
    constructor
    · exact hs.table
    · intro r hr hid
      rcases hs.rows r hr with hold | hnw
      · exact h.rows r hold hid
      · omega
    · intro _
      exact hk.trans_le hs.nextRow
    · rw [hs.outcomes]
      exact h.wanted
    · rw [hs.outcomes]
      intro o ho hrw
      obtain ⟨b, hb, hns, hn⟩ := h.taken o ho hrw
      obtain ⟨b', hb', hns', hn'⟩ := hs.builds b hb
      exact ⟨b', hb', hns'.trans hns, hn'.trans hn⟩
    · rw [hc]
      exact h.one

theorem NamedFor.same {b b' : Build} (hm : a.eventType = .manual) (h : NamedFor T a b)
    (h' : NamedFor T a b') (hs : shortCommit b = shortCommit b') : b.name = b'.name := by
  rw [h hm, h' hm]
  exact buildNameForDelivery_short hs

/-- A second create finds the first one's Build under the same name. -/
theorem Once.logged {b : Build} {o : Outcome} (h : Once T id w first)
    (how : a.id = id → first = some a) (hn : NamedFor T a b)
    (hh : SameHead id w (.createBuild a.id b)) (hl : Logged a.id b w w' o) (ht : Table w')
    (hrw : w'.rows = w.rows) (hnx : w'.nextRow = w.nextRow) : Once T id w' first := by
  have hr : o.row = id → first = some a := fun hid => how (hl.row.symm.trans hid)
  constructor
  · exact ht
  · rw [hrw]
    exact h.rows
  · rw [hnx]
    exact h.known
  · rw [hl.outcomes]
    intro o' ho' hid
    rcases mem_cons.mp ho' with rfl | ho'
    · exact ⟨a, hr hid, hl.wanted ▸ hn⟩
    · exact h.wanted o' ho' hid
  · rw [hl.outcomes]
    intro o' ho' hid
    rcases mem_cons.mp ho' with rfl | ho'
    · exact hl.wanted ▸ hl.named
    · obtain ⟨b', hb', hnm⟩ := h.taken o' ho' hid
      exact ⟨b', hl.builds hb', hnm⟩
  intro a' ha' hm
  have ho := h.one a' ha' hm
  simp only [World.createdFor, hl.outcomes, filter_cons] at ho ⊢
  split
  case isFalse => exact ho
  case isTrue hnew =>
    simp only [Bool.and_eq_true, decide_eq_true_eq] at hnew
    obtain ⟨hid, hc⟩ := hnew
    obtain rfl : a = a' := Option.some.inj ((hr hid).symm.trans ha')
    -- an earlier create for the row would have left a Build of the very name
    have hnn : ∀ o' ∈ w.outcomes, o'.row ≠ id := by
      intro o' ho' hid'
      obtain ⟨hns, hs⟩ := hh (hl.row.symm.trans hid) o' ho' hid'
      obtain ⟨a', ha'', hn'⟩ := h.wanted o' ho' hid'
      obtain rfl : a = a' := Option.some.inj (ha'.symm.trans ha'')
      obtain ⟨b', hb', hns', hnm'⟩ := h.taken o' ho' hid'
      have hsm : b'.name = b.name := hnm'.trans (hn'.same hm hn hs)
      simp only [Outcome.created, hl.before, hl.wanted, Bool.not_eq_true',
        any_eq_false, decide_eq_true_eq] at hc
      exact hc b' hb' ⟨hns'.trans hns, hsm⟩
    have hnl := createdFor_eq_nil hnn
    rw [World.createdFor] at hnl
    simp [hnl]

end Invariant

section Runs

variable {d : Dispatcher} {id : Int} {t : ℕ} {s : World × Option Delivery}

/-- The operators with the first delivery under the key beside the state. -/
def notingDispatchers (d : Dispatcher) (id : Int) :
    System operator (World × Option Delivery) ℕ Unit :=
  (steadyDispatchers d id).noting (firstDelivery id)

def Noted (s s' : World × Option Delivery) : Prop := ∀ a, s.2 = some a → s'.2 = some a

def onceDiscipline (T : TextPrimitives) (id : Int) : Discipline (World × Option Delivery) ℕ where
  inv s := Once T id s.1 s.2
  evolves := Noted
  rely _ := Noted
  evolves_refl := fun _ _ h => h
  evolves_trans := fun h₁ h₂ a h => h₂ a (h₁ a h)
  rely_refl := fun _ _ _ h => h
  rely_trans := fun _ _ _ _ h₁ h₂ a h => h₂ a (h₁ a h)

theorem noted_firstDelivery {w' : World} : Noted s (w', firstDelivery id w' s.2) := by
  intro a ha
  rw [ha]
  rfl

/-- The delivery is the one of its key, if that is the key. -/
def Owns (id : Int) (a : Delivery) (s : World × Option Delivery) : Prop :=
  a.id = id → s.2 = some a

variable {a : Delivery} {s' : World × Option Delivery}

theorem Owns.noted (h : Owns id a s)
    (hn : Noted s s') : Owns id a s' := fun hid => hn a (h hid)

theorem firstDelivery_eq {T : TextPrimitives} {w' : World} (h : Once T id s.1 s.2)
    (hrw : w'.rows = s.1.rows) : firstDelivery id w' s.2 = s.2 := by
  cases hf : s.2 with
  | some a => rfl
  | none =>
    by_contra hne
    obtain ⟨a, ha⟩ := Option.ne_none_iff_exists'.mp hne
    obtain ⟨r, hr, hid, -⟩ := firstDelivery_none ha
    have := h.rows r (hrw ▸ hr) hid
    rw [hf] at this
    cases this

theorem allowed_handling {c : Call} {x : c.Reply} (hc : CreatesFor d.text a c)
    (hs : Once d.text id s.1 s.2) (ho : Owns id a s)
    (h : (notingDispatchers d id).exec t c s x s') : Allowed (onceDiscipline d.text id) t s s' := by
  obtain ⟨w', first'⟩ := s'
  obtain ⟨⟨hh, he⟩, hnt⟩ := h
  obtain rfl : first' = firstDelivery id w' s.2 := hnt
  refine ⟨?_, noted_firstDelivery, fun _ _ => noted_firstDelivery⟩
  by_cases hcr : ∃ row b, c = .createBuild row b
  · obtain ⟨row, b, rfl⟩ := hcr
    obtain ⟨rfl, hn⟩ := hc
    have hsm := exec_sameTable (by simp) he
    have hf := firstDelivery_eq hs hsm.rows
    show Once d.text id w' _
    rw [hf]
    rcases exec_createBuild_logged he with heq | ⟨o, hl⟩
    · rw [show w' = s.1 from heq]
      exact hs
    · exact hs.logged ho hn hh hl (hsm.table hs.table) hsm.rows hsm.nextRow
  · exact hs.quiet (exec_quiet (fun row b heq => hcr ⟨row, b, heq⟩) hs.table he)

theorem safe_other {c : Call} {post : c.Reply → World × Option Delivery → Prop}
    (hc : ∀ row b, c ≠ .createBuild row b)
    (hp : ∀ s1 x s2, Once d.text id s1.1 s1.2 →
      (notingDispatchers d id).exec t c s1 x s2 → Noted s1 s2 → post x s2) :
    Safe (notingDispatchers d id).exec (onceDiscipline d.text id) t post (call c) s := by
  intro s1 _ hs1 x s2 hec
  have he : Noted s1 s2 := by
    obtain ⟨w2, first2⟩ := s2
    obtain rfl : first2 = firstDelivery id w2 s1.2 := hec.2
    exact noted_firstDelivery
  have hi : Once d.text id s2.1 s2.2 := by
    rw [show s2.2 = firstDelivery id s2.1 s1.2 from hec.2]
    exact Once.quiet hs1 (exec_quiet hc (Once.table hs1) hec.1.2)
  exact ⟨⟨hi, he, fun _ _ => he⟩, hp s1 x s2 hs1 hec he⟩

/-- One row, processed again and again, makes one Build. -/
theorem safe_processOne_once (s : World × Option Delivery) :
    Safe (notingDispatchers d id).exec (onceDiscipline d.text id) t (fun _ _ => True)
      (processOne d) s := by
  unfold processOne
  apply Safe.bind
  apply safe_other (by simp)
  intro s1 x s2 hs1 he hnt
  match x, he with
  | none, _ => trivial
  | some none, _ => trivial
  | some (some claim), he =>
    obtain ⟨r, hr, hd⟩ := exec_claimNext he.1.2
    have ho : Owns id claim.delivery s2 := by
      intro hid
      rw [hd] at hid ⊢
      exact hnt _ (Once.rows hs1 r hr hid)
    have hh : Safe (notingDispatchers d id).exec (onceDiscipline d.text id) t
        (fun _ => Owns id claim.delivery) (handle d claim.delivery) s2 :=
      safe_of_only (fun _ _ _ _ hc hs ho hx => allowed_handling hc hs ho hx)
        (fun _ _ h hn => h.noted hn) (fun _ _ h hn => h.noted hn) only_handle ho
    dsimp only
    apply Safe.bind
    apply Safe.mono _ hh
    rintro ⟨remove, e⟩ s3 _
    cases remove with
    | false =>
      apply Safe.bind
      apply safe_other (by simp)
      intros
      trivial
    | true =>
      apply Safe.bind
      apply safe_other (by simp)
      rintro _ (_ | _) _ _ _ _
      · trivial
      · trivial

/-- So it does with any number of operators at once. -/
theorem notingDispatchers_respects :
    (notingDispatchers d id).Respects (onceDiscipline d.text id) (fun _ _ _ => True) where
  lasts := fun _ _ _ _ _ _ => trivial
  starts := by
    intro t p s hp _
    rw [show p = tick d from hp]
    apply safe_tick_of _ safe_processOne_once
    intro s
    apply safe_other (by simp)
    intros
    trivial
  env := by
    rintro s ⟨w', first'⟩ hs ⟨⟨he, hk⟩, hn⟩
    obtain rfl : first' = firstDelivery id w' s.2 := hn
    refine ⟨?_, noted_firstDelivery, fun _ => noted_firstDelivery⟩
    exact Once.quiet hs (quiet_of_env d (Once.table hs) he hk)
  restart := by
    rintro s ⟨w', first'⟩ hs ⟨hsm, hn⟩
    obtain rfl : first' = firstDelivery id w' s.2 := hn
    obtain rfl : w' = s.1 := hsm
    refine ⟨?_, noted_firstDelivery⟩
    show Once d.text id s.1 _
    rw [firstDelivery_eq hs rfl]
    exact hs

/-- In every run where the attempts at a manual row resolve to the same commit, the row
makes one Build at most, whatever crashes, fails or is retried. -/
theorem one_build_per_request {w : World} (hw : Table w) {r : Row}
    (hfresh : ∀ o ∈ w.outcomes, o.row ≠ r.delivery.id) {c c' : Config operator World ℕ Unit}
    (hc : (steadyDispatchers d r.delivery.id).Steps (Config.idle w) c) (hr : r ∈ c.shared.rows)
    (hmanual : r.delivery.eventType = .manual)
    (hc' : (steadyDispatchers d r.delivery.id).Steps c c') :
    (c'.shared.createdFor r.delivery.id).length ≤ 1 := by
  have hstart : (notingDispatchers d r.delivery.id).Good (onceDiscipline d.text r.delivery.id)
      (fun _ _ _ => True) (Config.withNote (Config.idle w) (firstDelivery r.delivery.id w none)) :=
    System.good_idle (Once.start hw hfresh)
  obtain ⟨first, hnoted⟩ : ∃ first, (notingDispatchers d r.delivery.id).Steps _
      (c.withNote first) := System.Steps.noted hc _
  have hgood := (System.reachable_good notingDispatchers_respects hstart hnoted).1
  obtain ⟨first', hnoted'⟩ : ∃ first', (notingDispatchers d r.delivery.id).Steps
      (c.withNote first) (c'.withNote first') := System.Steps.noted hc' first
  obtain ⟨hgood', hevolves⟩ := System.reachable_good notingDispatchers_respects hgood hnoted'
  have hfirst : first = some r.delivery := Once.rows hgood.inv r hr rfl
  exact Once.one hgood'.inv r.delivery (hevolves _ hfirst) hmanual

end Runs

def movedServer (w : World) : World :=
  { w with server := sampleServer '2', past := w.server :: w.past }

/-- As `samplePick`, but the connection is lost before the row is removed. -/
def lostAckPick : (c : Call) → World → c.Choice
  | .ack _ _, _ => some .before
  | .listBuilds, _ => some []
  | .claimNext, _ | .resolve _ _, _ | .nack _, _ => false
  | .listApps _, _ => some 0
  | .createBuild _ _, w => ⟨w.clock + 1, none⟩

def steadyMachine : Machine operator World :=
  machine.guard fun c w _ _ => decide (SameHead sampleManual.id w c)

def attemptedWorld : World :=
  steadyMachine.after lostAckPick (tick sampleDispatcher) createdWorld

def retriedWorld : World :=
  steadyMachine.after (samplePick 0) (tick sampleDispatcher) attemptedWorld

theorem runs_attempted :
    Runs steadyMachine.exec (tick sampleDispatcher) createdWorld () attemptedWorld :=
  steadyMachine.runs_after (by decide +kernel)

theorem runs_retried :
    Runs steadyMachine.exec (tick sampleDispatcher) attemptedWorld () retriedWorld :=
  steadyMachine.runs_after (by decide +kernel)

theorem exec_steadyMachine {c : Call} {w w' : World} {x : c.Reply}
    (h : steadyMachine.exec c w x w') : SameHead sampleManual.id w c ∧ machine.exec c w x w' := by
  rw [steadyMachine, Machine.exec_guard, decide_eq_true_iff] at h
  exact ⟨h.2, h.1⟩

theorem steps_steady {w w' : World} (h : Runs steadyMachine.exec (tick sampleDispatcher) w () w') :
    (steadyDispatchers sampleDispatcher sampleManual.id).Steps (Config.idle w) (Config.idle w') :=
  System.steps_idle_of_runs (t := 0) rfl (h.mono fun _ _ _ _ => exec_steadyMachine)

theorem table_createdWorld : Table createdWorld :=
  ⟨by decide +kernel, by decide +kernel, by decide +kernel⟩

theorem sampleRow_attempted : sampleRow ∈ attemptedWorld.rows := by decide +kernel

/-- The retry comes to the Build of the first attempt. -/
theorem retried_row_makes_one_build : sampleRow ∉ retriedWorld.rows ∧
    (retriedWorld.createdFor sampleManual.id).length ≤ 1 ∧
    retriedWorld.createdFor sampleManual.id ≠ [] := by
  have hfresh : ∀ o ∈ createdWorld.outcomes, o.row ≠ sampleRow.delivery.id :=
    fun _ ho => absurd ho not_mem_nil
  have hone := one_build_per_request table_createdWorld hfresh
    (steps_steady runs_attempted) sampleRow_attempted rfl (steps_steady runs_retried)
  dsimp only [Config.idle] at hone
  have hretried : sampleRow ∉ retriedWorld.rows ∧ retriedWorld.createdFor sampleManual.id ≠ [] := by
    decide +kernel
  exact ⟨hretried.1, hone, hretried.2⟩

def twiceBuiltWorld : World :=
  machine.after (samplePick 0) (tick sampleDispatcher) (movedServer attemptedWorld)

/-- The head moves between two attempts at a row. -/
theorem steps_twiceBuilt : (keepingDispatchers sampleDispatcher).Steps (Config.idle createdWorld)
    (Config.idle twiceBuiltWorld) := by
  have ha : (keepingDispatchers sampleDispatcher).Steps (Config.idle createdWorld)
      (Config.idle attemptedWorld) :=
    System.steps_idle_of_runs (t := 0) rfl
      (runs_attempted.mono fun _ _ _ _ h => (exec_steadyMachine h).2)
  have hm : (keepingDispatchers sampleDispatcher).env attemptedWorld
      (movedServer attemptedWorld) := ⟨.change _, keepsBuilds_of_subset (List.Subset.refl _)⟩
  have hr : Runs machine.exec (tick sampleDispatcher) (movedServer attemptedWorld) ()
      twiceBuiltWorld := machine.runs_after (by decide +kernel)
  have hag : (keepingDispatchers sampleDispatcher).Steps
      (Config.idle (movedServer attemptedWorld)) (Config.idle twiceBuiltWorld) :=
    System.steps_idle_of_runs (t := 0) rfl hr
  exact (ha.tail (.env hm)).trans hag

/-- The row makes a Build for each of the two commits. -/
theorem moved_head_makes_two_builds : Table createdWorld ∧ createdWorld.outcomes = [] ∧
    sampleRow ∈ createdWorld.rows ∧ sampleManual.eventType = .manual ∧
    (keepingDispatchers sampleDispatcher).Steps (Config.idle createdWorld)
      (Config.idle twiceBuiltWorld) ∧
    (twiceBuiltWorld.createdFor sampleManual.id).length = 2 :=
  ⟨table_createdWorld, rfl, List.mem_singleton.mpr rfl, rfl, steps_twiceBuilt, by decide +kernel⟩

end Orkano.Operator
