import Orkano.Operator.Catalog.ConnectionSecret

/-!
The connection Secret over whole runs: a stored password stays until somebody else touches the
Secret, and of the Secrets that were there before the database, `ensureSecret` takes over every
one that nothing protects.
-/
namespace Orkano.Operator.Catalog

open Interleave Program List

variable {o : Object} {w w' : World} {t : ℕ}

structure Newer (w w' : World) : Prop where
  clock : w.clock ≤ w'.clock
  foreign : w.foreignWrites ≤ w'.foreignWrites
  fresh : ∀ s, w'.secret = some s → w.secret = some s ∨ w.clock ≤ s.resourceVersion

theorem Newer.refl (w : World) : Newer w w := ⟨le_rfl, le_rfl, fun _ h => .inl h⟩

theorem Newer.trans {w1 w2 w3 : World} (h1 : Newer w1 w2) (h2 : Newer w2 w3) : Newer w1 w3 := by
  refine ⟨h1.clock.trans h2.clock, h1.foreign.trans h2.foreign, ?_⟩
  intro s hs
  rcases h2.fresh s hs with hold | hn
  · exact h1.fresh s hold
  · exact .inr (h1.clock.trans hn)

def PasswordKept (w w' : World) : Prop :=
  ∀ s, w.secret = some s → s.password ≠ "" →
    ∃ s', w'.secret = some s' ∧ s'.password = s.password

theorem PasswordKept.trans {w1 w2 w3 : World} (h1 : PasswordKept w1 w2) (h2 : PasswordKept w2 w3) :
    PasswordKept w1 w3 := by
  intro s hs hne
  obtain ⟨s2, hs2, hp2⟩ := h1 s hs hne
  obtain ⟨s3, hs3, hp3⟩ := h2 s2 hs2 (hp2 ▸ hne)
  exact ⟨s3, hs3, hp3.trans hp2⟩

structure Credentials (o : Object) (w : World) : Prop where
  version_lt : ∀ s, w.secret = some s → s.resourceVersion < w.clock
  consistent : ∀ s ∈ w.stores, s.Consistent o
  password : ∀ s ∈ w.stores, s.password ≠ ""

def passwordDiscipline (o : Object) : Discipline World ℕ where
  inv := Credentials o
  evolves w w' := Newer w w' ∧ (w'.foreignWrites = w.foreignWrites → PasswordKept w w')
  rely _ := Newer
  evolves_refl w := ⟨Newer.refl w, fun _ s hs _ => ⟨s, hs, rfl⟩⟩
  evolves_trans := by
    intro w₁ w₂ w₃ h₁ h₂
    refine ⟨h₁.1.trans h₂.1, fun heq => ?_⟩
    have h₁₂ := h₁.1.foreign
    have h₂₃ := h₂.1.foreign
    exact (h₁.2 (by omega)).trans (h₂.2 (by omega))
  rely_refl _ := Newer.refl
  rely_trans _ := fun h₁ h₂ => h₁.trans h₂

theorem allowed_same (hw : Credentials o w) : Allowed (passwordDiscipline o) t w w :=
  ⟨hw, (passwordDiscipline o).evolves_refl w, fun _ _ => Newer.refl w⟩

/-- Storing connection data with the password that is there, if one is. -/
theorem allowed_store {s : Secret} {password : String} (hw : Credentials o w)
    (hd : s.data = connectionData o password) (hne : password ≠ "")
    (hk : ∀ cur, w.secret = some cur → cur.password ≠ "" → cur.password = password) :
    Allowed (passwordDiscipline o) t w (w.store s) := by
  let s' : Secret := { s with resourceVersion := w.clock }
  have hp : s'.password = password := password_of_data hd
  have hn : Newer w (w.store s) := by
    refine ⟨Nat.le_succ _, le_rfl, ?_⟩
    intro s1 hs1
    cases hs1
    exact .inr le_rfl
  refine ⟨⟨?_, ?_, ?_⟩, ⟨hn, fun _ => ?_⟩, fun _ _ => hn⟩
  · intro s1 hs1
    cases hs1
    exact Nat.lt_succ_self _
  · intro s1 hs1
    rcases mem_cons.mp hs1 with rfl | hold
    · exact consistent_of_data hd
    · exact hw.consistent s1 hold
  · intro s1 hs1
    rcases mem_cons.mp hs1 with rfl | hold
    · exact hp ▸ hne
    · exact hw.password s1 hold
  · intro cur hcr hc
    exact ⟨s', rfl, hp.trans (hk cur hcr hc).symm⟩

/-- The version that was read is still the one that was read. -/
def Seen (e : Secret) (w : World) : Prop :=
  e.resourceVersion < w.clock ∧
    ∀ s, w.secret = some s → s.resourceVersion = e.resourceVersion → s = e

theorem Seen.newer {e : Secret} (h : Seen e w) (hn : Newer w w') : Seen e w' := by
  refine ⟨h.1.trans_le hn.clock, ?_⟩
  intro s hs hv
  rcases hn.fresh s hs with hold | hnw
  · exact h.2 s hold hv
  · have := h.1
    omega

theorem seen_of_secret {e : Secret} (hw : Credentials o w) (h : w.secret = some e) : Seen e w := by
  refine ⟨hw.version_lt e h, ?_⟩
  intro s hs _
  rw [h] at hs
  exact (Option.some.inj hs).symm

section Passwords

variable {existing : Option Secret}

/-- A Secret is written with the password that was read, if there was one. -/
theorem safe_writeSecret {password : String} (hne : password ≠ "")
    (hs : ∀ e, existing = some e → Seen e w)
    (hk : ∀ e, existing = some e → e.password ≠ "" → e.password = password) :
    Safe (fun _ : ℕ => machine.exec) (passwordDiscipline o) t (fun _ _ => True)
      (writeSecret o existing password) w := by
  unfold writeSecret
  split
  · trivial
  rename_i owners _
  split
  · intro w1 _ hw1 x w2 hx
    rcases exec_createSecret hx with rfl | ⟨hn, rfl⟩
    · exact ⟨allowed_same hw1, trivial⟩
    refine ⟨allowed_store hw1 rfl hne ?_, trivial⟩
    intro cur hc
    rw [hn] at hc
    cases hc
  · rename_i e _
    split
    · trivial
    intro w1 hr hw1 x w2 hx
    rcases exec_updateSecret hx with rfl | ⟨cur, hc, hv, _, _, rfl⟩
    · exact ⟨allowed_same hw1, trivial⟩
    -- the update hit the version that was read, so its password is the one kept
    have hce : cur = e := ((hs e rfl).newer hr).2 cur hc hv
    refine ⟨allowed_store hw1 rfl hne ?_, trivial⟩
    intro cur' hc'
    rw [hc, Option.some.injEq] at hc'
    rw [← hc', hce]
    exact hk e rfl

/-- A password is generated only where none was read. -/
theorem safe_fillSecret (hs : ∀ e, existing = some e → Seen e w) :
    Safe (fun _ : ℕ => machine.exec) (passwordDiscipline o) t (fun _ _ => True)
      (fillSecret o existing) w := by
  unfold fillSecret
  split
  · rename_i hem
    intro w1 hr hw1 x w2 hx
    obtain ⟨rfl, hg⟩ := exec_generatePassword hx
    refine ⟨allowed_same hw1, ?_⟩
    obtain _ | password := x
    · trivial
    apply safe_writeSecret (fun h => hg (congrArg some h)) fun e he =>
      (hs e he).newer hr
    intro e he hne
    rw [he] at hem
    exact absurd hem hne
  · rename_i hne
    apply safe_writeSecret hne hs
    intro e he _
    rw [he]
    rfl

theorem safe_ensureSecret : Safe (fun _ : ℕ => machine.exec) (passwordDiscipline o) t
    (fun _ _ => True) (ensureSecret o) w := by
  simp only [ensureSecret, call, perform_bind, safe_call]
  intro w1 _ hw1 x w2 hx
  obtain ⟨rfl, hf, _⟩ := exec_getSecret hx
  refine ⟨allowed_same hw1, ?_⟩
  cases x with
  | error => trivial
  | notFound =>
    apply safe_fillSecret
    intro e he
    cases he
  | found existing =>
    apply safe_fillSecret
    rintro _ ⟨⟩
    exact seen_of_secret hw1 (hf _ rfl)

theorem safe_provision : Safe (fun _ : ℕ => machine.exec) (passwordDiscipline o) t
    (fun _ _ => True) (provision o) w := by
  apply Safe.bind
  refine safe_ensureSecret.mono ?_
  intro e w' _
  cases e <;> trivial

theorem safe_reconcile : Safe (fun _ : ℕ => machine.exec) (passwordDiscipline o) t
    (fun _ _ => True) (reconcile o) w := by
  simp only [reconcile, call, perform_bind, safe_call]
  intro w1 _ hw1 x w2 hx
  obtain rfl := exec_getObject hx
  refine ⟨allowed_same hw1, ?_⟩
  cases x with
  | error | notFound => trivial
  | found v =>
    dsimp only
    split_ifs
    · trivial
    · trivial
    · trivial
    · intro w3 _ hw3 ok w4 hok
      obtain rfl := exec_disableAdmin hok
      refine ⟨allowed_same hw3, ?_⟩
      cases ok
      · trivial
      · exact safe_provision
    · exact safe_provision
    · trivial

/-- Any number of reconciles at once keep a password that nobody else changes. -/
theorem reconciles_respect :
    (reconciles o ForeignWrite).Respects (passwordDiscipline o) fun _ _ _ => True where
  starts := by
    rintro t p w rfl hw
    exact safe_reconcile
  lasts := fun _ _ _ _ _ _ => trivial
  env := by
    rintro w w' hw ⟨new, rfl⟩
    have hn : Newer w
        { w with
          secret := new.map ({ · with resourceVersion := w.clock })
          clock := w.clock + 1
          foreignWrites := w.foreignWrites + 1 } := by
      refine ⟨Nat.le_succ _, Nat.le_succ _, ?_⟩
      intro s hs
      obtain ⟨s0, _, rfl⟩ := Option.map_eq_some_iff.mp hs
      exact .inr le_rfl
    refine ⟨⟨?_, hw.consistent, hw.password⟩, ⟨hn, fun heq => ?_⟩, fun _ => hn⟩
    · intro s hs
      obtain ⟨s0, _, rfl⟩ := Option.map_eq_some_iff.mp hs
      exact Nat.lt_succ_self _
    · simp at heq
  restart := by
    rintro w _ hw rfl
    exact ⟨hw, (passwordDiscipline o).evolves_refl _⟩

theorem credentials_initial (secret : Option Secret) : Credentials o (World.initial secret) := by
  constructor
  · intro s hs
    obtain ⟨s0, _, rfl⟩ := Option.map_eq_some_iff.mp hs
    exact Nat.zero_lt_one
  · intro s hs
    cases hs
  · intro s hs
    cases hs

/-- Whatever reconciles and others do up to `c`: all that `ensureSecret` stored is
consistent, and a Secret it stored keeps its password for as long as nobody else touches
it. -/
theorem credentials_generated_once {secret : Option Secret} {c c' : Config cluster World ℕ Outcome}
    (hc : (reconciles o ForeignWrite).Steps (Config.idle (World.initial secret)) c)
    (hc' : (reconciles o ForeignWrite).Steps c c') :
    (∀ s ∈ c.shared.stores, s.get keyURI =
      o.engine.uri (s.get keyUsername) (s.get keyPassword) (s.get keyHost) (s.get keyPort)
        (s.get keyDatabase)) ∧
    ∀ s ∈ c.shared.stores, c.shared.secret = some s →
      c'.shared.foreignWrites = c.shared.foreignWrites →
        ∃ s', c'.shared.secret = some s' ∧ s'.get keyPassword = s.get keyPassword := by
  have hgood := (System.reachable_good reconciles_respect
    (System.good_idle (credentials_initial secret)) hc).1
  have hevolves := (System.reachable_good reconciles_respect hgood hc').2
  refine ⟨hgood.inv.consistent, ?_⟩
  intro s hs hcur hforeign
  exact hevolves.2 hforeign s hcur (hgood.inv.password s hs)

end Passwords

section Takeover

inductive Protected (o : Object) (s : Secret) : Prop where
  | name : o.nameValid = false → Protected o s
  | controller : Blocked o s.owners → Protected o s
  | type : s.type ≠ typeOpaque → Protected o s
  | immutable : s.immutable = true → Protected o s
  | same : s.password ≠ "" → s.data = connectionData o s.password → Protected o s

structure Unreplaced (o : Object) (s s' : Secret) : Prop where
  data : s'.data = s.data
  type : s'.type = s.type
  immutable : s'.immutable = s.immutable
  blocked : Blocked o s.owners → Blocked o s'.owners

def Standing (o : Object) (s : Secret) (w : World) : Prop :=
  ∃ s', w.secret = some s' ∧ Unreplaced o s s'

abbrev standingDiscipline (o : Object) (s : Secret) : Discipline World ℕ :=
  .invariant (Standing o s)

variable {s : Secret}

theorem allowed_standing (hw : Standing o s w) : Allowed (standingDiscipline o s) t w w :=
  ⟨hw, trivial, fun _ _ => trivial⟩

variable {e : Secret} {password : String}

/-- Of an update that was let through, with the password that was read. -/
theorem unreplaced_update {cur : Secret} (owners : List OwnerRef) (hs : Protected o s)
    (hn : o.nameValid = true) (hf : ¬ Blocked o e.owners) (he : Unreplaced o s e)
    (hc : Unreplaced o s cur) (hp : e.password ≠ "" → password = e.password)
    (ht : cur.type = typeOpaque) (hd : cur.immutable → cur.data = connectionData o password) :
    Unreplaced o s (renderSecret o (some e) owners password) := by
  have hsm : connectionData o password = s.data := by
    cases hs with
    | name h =>
      rw [hn] at h
      cases h
    | controller h => exact absurd (he.blocked h) hf
    | type h => exact absurd (hc.type.symm.trans ht) h
    | immutable h => exact (hd (hc.immutable.trans h)).symm.trans hc.data
    | same hne h =>
      have hr : e.password = s.password := by
        unfold Secret.password Secret.get
        rw [he.data]
      rw [hp (hr ▸ hne), hr]
      exact h.symm
  exact ⟨hsm, ht.symm.trans hc.type, he.immutable, fun h => absurd (he.blocked h) hf⟩

/-- Writing leaves the data of a protected Secret as it is. -/
theorem safe_writeSecret_standing (hs : Protected o s)
    (hnm : o.nameValid = true) (he : Unreplaced o s e)
    (hp : e.password ≠ "" → password = e.password) :
    Safe (fun _ : ℕ => machine.exec) (standingDiscipline o s) t (fun _ _ => True)
      (writeSecret o (some e) password) w := by
  by_cases hf : Blocked o e.owners
  · obtain ⟨ref, hr⟩ := setControllerReference_blocked hf
    simp [writeSecret, hr]
  simp only [writeSecret, Option.getD_some, setControllerReference_free hf]
  split
  · trivial
  intro w1 _ hw1 x w2 hx
  rcases exec_updateSecret hx with rfl | ⟨cur, hc, _, ht, hd, rfl⟩
  · exact ⟨allowed_standing hw1, trivial⟩
  obtain ⟨s', hs', hun⟩ := hw1
  rw [hc, Option.some.injEq] at hs'
  subst hs'
  have hn := unreplaced_update (upsertOwnerRef o e.owners) hs hnm hf he hun
    hp ht hd
  have hst : Standing o s (w1.store (renderSecret o (some e)
      (upsertOwnerRef o e.owners) password)) := by
    refine ⟨_, rfl, ⟨hn.data, hn.type, hn.immutable, hn.blocked⟩⟩
  exact ⟨⟨hst, trivial, fun _ _ => trivial⟩, trivial⟩

theorem safe_ensureSecret_standing (hs : Protected o s) (hn : o.nameValid = true) :
    Safe (fun _ : ℕ => machine.exec) (standingDiscipline o s) t (fun _ _ => True)
      (ensureSecret o) w := by
  simp only [ensureSecret, call, perform_bind, safe_call]
  intro w1 _ hw1 x w2 hx
  obtain ⟨rfl, hf, hnn⟩ := exec_getSecret hx
  refine ⟨allowed_standing hw1, ?_⟩
  obtain ⟨s', hs', he⟩ := hw1
  cases x with
  | error => trivial
  | notFound =>
    rw [hnn rfl] at hs'
    cases hs'
  | found e =>
    rw [hf e rfl, Option.some.injEq] at hs'
    subst hs'
    by_cases hem : storedPassword (some e) = ""
    · simp only [fillSecret, if_pos hem]
      intro w3 _ hw3 x w4 hx
      obtain ⟨rfl, _⟩ := exec_generatePassword hx
      refine ⟨allowed_standing hw3, ?_⟩
      obtain _ | password := x
      · trivial
      · exact safe_writeSecret_standing hs hn he fun hne => absurd hem hne
    · simp only [fillSecret, if_neg hem]
      exact safe_writeSecret_standing hs hn he fun _ => rfl

/-- So does a whole reconcile. -/
theorem safe_reconcile_standing (hs : Protected o s) :
    Safe (fun _ : ℕ => machine.exec) (standingDiscipline o s) t (fun _ _ => True)
      (reconcile o) w := by
  have hp : ∀ w, o.nameValid = true →
      Safe (fun _ : ℕ => machine.exec) (standingDiscipline o s) t (fun _ _ => True)
        (provision o) w := by
    intro w hn
    apply Safe.bind
    refine (safe_ensureSecret_standing hs hn).mono ?_
    intro e w' _
    cases e <;> trivial
  simp only [reconcile, call, perform_bind, safe_call]
  intro w1 _ hw1 x w2 hx
  obtain rfl := exec_getObject hx
  refine ⟨allowed_standing hw1, ?_⟩
  cases x with
  | error | notFound => trivial
  | found v =>
    dsimp only
    split_ifs with _ hn
    · trivial
    · trivial
    · trivial
    · intro w3 _ hw3 ok w4 hok
      obtain rfl := exec_disableAdmin hok
      refine ⟨allowed_standing hw3, ?_⟩
      cases ok
      · trivial
      · exact hp _ (by simpa using hn)
    · exact hp _ (by simpa using hn)
    · trivial

/-- So do any number of reconciles at once. -/
theorem reconciles_respect_standing (hs : Protected o s) :
    (reconciles o fun _ _ => False).Respects (standingDiscipline o s) fun _ _ _ => True where
  starts := by
    rintro t p w rfl _
    exact safe_reconcile_standing hs
  lasts := fun _ _ _ _ _ _ => trivial
  env := fun _ h => h.elim
  restart := by
    rintro w _ hw rfl
    exact ⟨hw, trivial⟩

def healthyView : View := ⟨false, "", none, true⟩

theorem healthyView_version (o : Object) : o.version healthyView ∈ o.engine.versions := by
  cases h : o.engine <;> simp [Object.version, healthyView, h, Engine.defaultVersion, Engine.versions]

theorem runs_reconcile (hn : o.nameValid = true)
    (h : Runs machine.exec (ensureSecret o) w none w') :
    Runs machine.exec (reconcile o) w .secretReady w' := by
  have hp : Runs machine.exec (provision o) w .secretReady w' :=
    runs_bind.mpr ⟨none, w', h, .done⟩
  have hs : ¬ healthyView.storageSize.getD defaultStorageSize < minStorageSize := by decide
  simp only [reconcile, call, perform_bind, runs_call]
  refine ⟨.found healthyView, w, ⟨.found healthyView, rfl⟩, ?_⟩
  simpa [hn, healthyView_version o, hs, show healthyView.deleting = false from rfl,
    show healthyView.adminEnabled = true from rfl] using hp

variable {r : Option EnsureError}

theorem runs_ensureSecret (hw : w.secret = some e)
    (h : Runs machine.exec (fillSecret o (some e)) w r w') :
    Runs machine.exec (ensureSecret o) w r w' := by
  have hr : answer .getSecret false w = some (.found e, w) := by simp [answer, hw]
  simp only [ensureSecret, call, perform_bind, runs_call]
  exact ⟨.found e, w, ⟨false, hr⟩, h⟩

/-- The password that a reconcile goes on with: the stored one, or a generated one. -/
def Settles (existing : Option Secret) (password : String) : Prop :=
  if storedPassword existing = "" then password = hexEncode (List.replicate 24 0)
  else password = storedPassword existing

theorem runs_fillSecret {existing : Option Secret} (hp : Settles existing password)
    (h : Runs machine.exec (writeSecret o existing password) w r w') :
    Runs machine.exec (fillSecret o existing) w r w' := by
  unfold Settles at hp
  unfold fillSecret
  split at hp
  · rename_i he
    subst hp
    rw [if_pos he]
    simp only [call, perform_bind, runs_call]
    exact ⟨some _, w, ⟨some ⟨_, length_replicate⟩, rfl⟩, h⟩
  rename_i hne
  rw [if_neg hne, ← hp]
  exact h

/-- An update of a Secret that nothing keeps from being updated. -/
theorem runs_writeSecret (hw : w.secret = some e)
    (hf : ¬ Blocked o e.owners) (ht : e.type = typeOpaque) (hm : e.immutable = false)
    (hd : e.data ≠ connectionData o password) :
    Runs machine.exec (writeSecret o (some e) password) w none
      (w.store (renderSecret o (some e) (upsertOwnerRef o e.owners) password)) := by
  have hs : upToDate o e password = false := by simp [upToDate, hd]
  have hu : w.update (renderSecret o (some e) (upsertOwnerRef o e.owners) password) =
      (none, w.store (renderSecret o (some e) (upsertOwnerRef o e.owners) password)) := by
    simp [World.update, hw, renderSecret, ht, hm]
  have ha : answer
    (.updateSecret (renderSecret o (some e) (upsertOwnerRef o e.owners) password))
      none w = some (none, w.store (renderSecret o (some e) (upsertOwnerRef o e.owners) password))
        :=
    congrArg some hu
  simp only [writeSecret, Option.getD_some, setControllerReference_free hf, hs,
    Bool.false_eq_true, if_false, call, perform_bind, runs_call]
  exact ⟨none, _, ⟨none, ha⟩, .done⟩

/-- A Secret that is not protected is replaced by one reconcile. -/
theorem runs_replaced (hs : ¬ Protected o s) :
    ∃ w', Runs machine.exec (reconcile o) (World.initial (some s)) .secretReady w' ∧
      w'.secret.map Secret.data ≠ some s.data := by
  have hn : o.nameValid = true := by
    by_contra h
    exact hs (.name (by simpa using h))
  have hf : ¬ Blocked o s.owners := fun h => hs (.controller h)
  have ht : s.type = typeOpaque := by
    by_contra h
    exact hs (.type h)
  have hm : s.immutable = false := by
    by_contra h
    exact hs (.immutable (by simpa using h))
  let e : Secret := { s with resourceVersion := 0 }
  obtain ⟨password, hp, hd⟩ : ∃ password,
      Settles (some e) password ∧ e.data ≠ connectionData o password := by
    by_cases he : storedPassword (some e) = ""
    · refine ⟨hexEncode (List.replicate 24 0), by simp [Settles, he], fun h => ?_⟩
      have hst : e.password = hexEncode (List.replicate 24 0) := password_of_data h
      exact hexEncode_ne_empty length_replicate (hst.symm.trans he)
    · exact ⟨storedPassword (some e), by simp [Settles, he], fun h => hs (.same he h)⟩
  have hr : (World.initial (some s)).secret = some e := rfl
  have hw := runs_writeSecret hr hf ht hm hd
  refine ⟨_, runs_reconcile hn (runs_ensureSecret hr (runs_fillSecret hp hw)), ?_⟩
  intro heq
  exact hd (Option.some.inj heq).symm

/-- The data of a Secret that was there before the first reconcile is left alone in
every run exactly if the Secret is protected. -/
theorem foreign_data_kept_iff (o : Object) (s : Secret) :
    (∀ c, (reconciles o fun _ _ => False).Steps (Config.idle (World.initial (some s))) c →
      c.shared.secret.map Secret.data = some s.data) ↔ Protected o s := by
  constructor
  · intro hkept
    by_contra hs
    obtain ⟨w', hrun, hdiffers⟩ := runs_replaced hs
    exact hdiffers (hkept _ (System.steps_idle_of_runs (t := 0) rfl hrun))
  intro hs c hc
  have hstart : Standing o s (World.initial (some s)) := ⟨_, rfl, rfl, rfl, rfl, id⟩
  obtain ⟨s', hs', hun⟩ := (System.reachable_good (reconciles_respect_standing hs)
    (System.good_idle hstart) hc).1.inv
  rw [hs', Option.map_some, hun.data]

end Takeover

def sampleObject : Object := ⟨.postgres, "orkano-apps", "api-db", "uid-1"⟩

def samplePick : (c : Call) → World → c.Choice
  | .getObject, _ => .found healthyView
  | .disableAdmin, _ => true
  | .getSecret, _ => false
  | .generatePassword, _ => some ⟨List.replicate 24 0, rfl⟩
  | .createSecret _, _ | .updateSecret _, _ => none

/-- The environment of the App api, with the plain owner reference that the dashboard sets. -/
def envSecret : Secret where
  owners := [⟨"orkano.io", "App", "api", "uid-2", false⟩]
  type := typeOpaque
  managedBy := ""
  immutable := false
  data := [⟨"TOKEN", "value"⟩].toFinmap
  resourceVersion := 0

/-- A database with the name of that Secret. -/
def envObject : Object := { sampleObject with name := "api-env" }

def overwritten : World := machine.after samplePick (reconcile envObject) (.initial (some envSecret))

/-- One reconcile of a database replaces the data of an App's Secret of its name. -/
theorem env_secret_overwritten :
    (reconciles envObject fun _ _ => False).Steps (Config.idle (World.initial (some envSecret)))
        (Config.idle overwritten) ∧
      overwritten.secret.map Secret.data ≠ some envSecret.data := by
  have hrun : Runs machine.exec (reconcile envObject) (World.initial (some envSecret))
      .secretReady overwritten := machine.runs_after (by decide +kernel)
  exact ⟨System.steps_idle_of_runs (t := 0) rfl hrun, by decide +kernel⟩

def generated : World := machine.after samplePick (reconcile sampleObject) (.initial none)

def kept : World := machine.after samplePick (reconcile sampleObject) generated

/-- A second reconcile keeps the password that the first one generated. -/
theorem first_password_kept :
    (∃ s, generated.secret = some s ∧ s.password = hexEncode (List.replicate 24 0)) ∧
      ∃ s', kept.secret = some s' ∧ s'.password = hexEncode (List.replicate 24 0) := by
  have hfirst : Runs machine.exec (reconcile sampleObject) (World.initial none) .secretReady
      generated := machine.runs_after (by decide +kernel)
  have hsecond : Runs machine.exec (reconcile sampleObject) generated .secretReady kept :=
    machine.runs_after (by decide +kernel)
  have hstored : generated.secret = generated.stores.head? := by decide +kernel
  obtain ⟨s, hs⟩ : ∃ s, generated.stores.head? = some s := Option.isSome_iff_exists.mp (by decide +kernel)
  have hpassword : (generated.stores.head?.map Secret.password) =
      some (hexEncode (List.replicate 24 0)) := by decide +kernel
  rw [hs, Option.map_some, Option.some.injEq] at hpassword
  have hkept := (credentials_generated_once (o := sampleObject)
    (System.steps_idle_of_runs (t := 0) rfl hfirst)
    (System.steps_idle_of_runs (t := 0) rfl hsecond)).2 s (mem_of_mem_head? hs)
    (hstored.trans hs) (by decide +kernel)
  obtain ⟨s', hs', hsame⟩ := hkept
  exact ⟨⟨s, hstored.trans hs, hpassword⟩, s', hs', hsame.trans hpassword⟩

end Orkano.Operator.Catalog
