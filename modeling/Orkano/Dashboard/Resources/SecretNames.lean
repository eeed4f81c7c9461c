import Orkano.Dashboard.Resources.Ownership

/-!
Whether each Secret name has one owner. Nobody compares the name of a database with the env
Secret of an App, and stores and syncs neither look for a Mongo nor take the lock. `Clear` says
what a step needs where the code does not look.
-/
namespace Orkano.Dashboard.Resources

open Interleave Program List

section Steps

def Stays (w w' : World) : Prop := ∀ o ∈ w.objects, o.kind ≠ .secretStore → o ∈ w'.objects

structure Rely (t : ℕ) (w w' : World) : Prop where
  stays : Stays w w'
  locked : w.nameMu = some t → w'.nameMu = some t ∧ ∀ o ∈ w'.objects, o ∈ w.objects

def nameDiscipline : Discipline World ℕ where
  inv := Owned
  evolves := Stays
  rely := Rely
  evolves_refl := fun _ _ ho _ => ho
  evolves_trans := fun h₁ h₂ o ho hkind => h₂ o (h₁ o ho hkind) hkind
  rely_refl := fun _ _ => ⟨fun _ ho _ => ho, fun h => ⟨h, fun _ ho => ho⟩⟩
  rely_trans := by
    intro t w₁ w₂ w₃ h₁ h₂
    refine ⟨fun o ho hkind => h₂.stays o (h₁.stays o ho hkind) hkind, ?_⟩
    intro hlock
    obtain ⟨hlock₂, hold₂⟩ := h₁.locked hlock
    obtain ⟨hlock₃, hold₃⟩ := h₂.locked hlock₂
    exact ⟨hlock₃, fun o ho => hold₂ o (hold₃ o ho)⟩

/-- What the creation of an object needs where its handler does not look: a database
is not named like an env Secret that is in use, or like one left by a removed store;
a store or a sync is created outside of every locked section, and no database has its
Secret's name. -/
def ClearCreate (w : World) (o : Object) : Prop :=
  match o.kind with
  | .app => True
  | .postgres | .mongo => (∀ a ∈ w.envSet, envSecretName a ≠ o.name) ∧
      ∀ old ∈ w.secrets o.name, old.owner ∈ w.objects
  | .secretStore => w.nameMu = none ∧ NoDatabase w (credentialsName o.name)
  | .externalSecret => w.nameMu = none ∧ NoDatabase w o.name

/-- What a write needs: no database is named like the env Secret, and a store whose
token is written still exists. -/
def ClearWrite (w : World) (name : String) (secret : Secret) : Prop :=
  match secret.owner.kind with
  | .app => NoDatabase w name
  | .secretStore => secret.owner ∈ w.objects
  | _ => True

def Clear (w : World) : (c : Call) → c.Reply → Prop
  | .create o, x => x = .ok () → ClearCreate w o
  | .createSecret name secret, x => x = .ok () → ClearWrite w name secret
  | .updateSecret name secret, x => x = .ok () → ClearWrite w name secret
  | _, _ => True

instance (w : World) : (o : Object) → Decidable (ClearCreate w o)
  | ⟨.app, _⟩ => inferInstanceAs (Decidable True)
  | ⟨.postgres, name⟩ | ⟨.mongo, name⟩ =>
    inferInstanceAs (Decidable ((∀ a ∈ w.envSet, envSecretName a ≠ name) ∧
      ∀ old ∈ w.secrets name, old.owner ∈ w.objects))
  | ⟨.secretStore, name⟩ =>
    inferInstanceAs (Decidable (w.nameMu = none ∧ NoDatabase w (credentialsName name)))
  | ⟨.externalSecret, name⟩ => inferInstanceAs (Decidable (w.nameMu = none ∧ NoDatabase w name))

instance (w : World) (name : String) : (secret : Secret) → Decidable (ClearWrite w name secret)
  | ⟨⟨.app, _⟩, _⟩ => inferInstanceAs (Decidable (NoDatabase w name))
  | ⟨⟨.secretStore, s⟩, _⟩ => inferInstanceAs (Decidable (⟨.secretStore, s⟩ ∈ w.objects))
  | ⟨⟨.postgres, _⟩, _⟩ | ⟨⟨.mongo, _⟩, _⟩ | ⟨⟨.externalSecret, _⟩, _⟩ =>
    inferInstanceAs (Decidable True)

instance (w : World) : (c : Call) → (x : c.Reply) → Decidable (Clear w c x)
  | .create o, x => inferInstanceAs (Decidable (x = .ok () → ClearCreate w o))
  | .createSecret name secret, x | .updateSecret name secret, x =>
    inferInstanceAs (Decidable (x = .ok () → ClearWrite w name secret))
  | .lock, _ | .unlock, _ | .get _, _ | .update _, _ | .delete _, _ | .getApp _, _
  | .updateApp _ _, _ => inferInstanceAs (Decidable True)

/-- The dashboard, in the runs whose steps are all as `Clear` says. -/
def clearDashboard (cfg : Config) : System apiServer World ℕ Response :=
  (dashboard cfg).restrict fun _ c w x => Clear w c x

abbrev Leads (cfg : Config) (t : ℕ) {α : Type} (post : α → World → Prop) (p : Prog α)
    (w : World) : Prop :=
  Safe (clearDashboard cfg).exec nameDiscipline t post p w

/-- A whole handler, of which only the discipline is asked. -/
abbrev Serves (cfg : Config) (t : ℕ) {α : Type} (p : Prog α) (w : World) : Prop :=
  Leads cfg t (fun _ _ => True) p w

/-- A part of a locked section. -/
abbrev ServesLocked (cfg : Config) (t : ℕ) (p : Prog Response) (w : World) : Prop :=
  Leads cfg t (fun _ w' => w'.nameMu = some t) p w

variable {t : ℕ} {w w' : World} {cfg : Config}

theorem rely_of_same (hob : w'.objects = w.objects) (hl : w'.nameMu = w.nameMu) : Rely t w w' := by
  refine ⟨fun _ ho _ => hob ▸ ho, ?_⟩
  intro h
  exact ⟨hl.trans h, fun _ ho => hob ▸ ho⟩

theorem allowed_of_same (hw' : Owned w') (hob : w'.objects = w.objects)
    (hl : w'.nameMu = w.nameMu) : Allowed nameDiscipline t w w' where
  inv := hw'
  evolves := fun _ ho _ => hob ▸ ho
  rely := fun _ _ => rely_of_same hob hl

end Steps

section Calls

variable {t : ℕ} {w : World} {cfg : Config}

theorem safe_read {c : Call} {post : c.Reply → World → Prop}
    (hr : ∀ w x w', (machine t).exec c w x w' → w' = w)
    (hp : ∀ w1 x, Rely t w w1 → (machine t).exec c w1 x w1 → post x w1) :
    Leads cfg t post (call c) w := by
  intro w1 hrl hw1 x w2 he
  obtain rfl := hr w1 x w2 he.2
  exact ⟨allowed_of_same hw1 rfl rfl, hp w2 x hrl he.2⟩

theorem safe_probe {o : Object} {tolerant : Bool} {post : Except ApiError Bool → World → Prop}
    (hp : ∀ w1 x, Rely t w w1 → (x = .ok false → o ∉ w1.objects) → post x w1) :
    Leads cfg t post (probe o tolerant) w := by
  unfold probe
  apply Safe.bind
  apply safe_read (fun _ _ _ hec => (exec_get hec).1)
  intro w1 x hr hec
  obtain ⟨-, hm, hu⟩ := exec_get hec
  cases x with
  | ok _ => exact hp w1 _ hr nofun
  | error e =>
    dsimp only
    split
    · rename_i he
      apply hp w1 _ hr
      intro _ hmm
      simp only [Bool.or_eq_true, Bool.and_eq_true, decide_eq_true_eq] at he
      rcases he with rfl | ⟨-, rfl⟩
      · exact hm rfl hmm
      · exact hu rfl o hmm rfl
    · exact hp w1 _ hr nofun

/-- Creating an object, by the holder of the lock or while it is free. -/
theorem safe_create {o : Object} {post : Except ApiError Unit → World → Prop}
    (ha : ∀ w1, Rely t w w1 → Owned w1 → o ∉ w1.objects → ClearCreate w1 o →
      Owned (w1.add o) ∧ (w1.nameMu = none ∨ w1.nameMu = some t))
    (hp : ∀ w1 x w2, Rely t w w1 → w2.nameMu = w1.nameMu → post x w2) :
    Leads cfg t post (call (.create o)) w := by
  intro w1 hr hw1 x w2 he
  rcases exec_create he.2 with rfl | ⟨rfl, hn, rfl⟩
  · exact ⟨allowed_of_same hw1 rfl rfl, hp w2 x w2 hr rfl⟩
  obtain ⟨how, hl⟩ := ha w1 hr hw1 hn (he.1 rfl)
  have hs : Stays w1 (w1.add o) := fun _ ho _ => mem_cons_of_mem _ ho
  refine ⟨⟨how, hs, ?_⟩, hp w1 _ _ hr rfl⟩
  intro t' ht'
  refine ⟨hs, ?_⟩
  intro hh
  rcases hl with hl | hl
  · rw [hl] at hh
    cases hh
  · rw [hl] at hh
    exact absurd (Option.some.inj hh).symm ht'

/-- A Secret is written only where its name is clear. -/
theorem safe_writeSecret {name : String} {secret : Secret} {allowExisting : Bool}
    (hp : ∀ w1, Rely t w w1 → Owned w1 → ClearWrite w1 name secret →
      Owned (w1.put name secret)) :
    Serves cfg t (writeSecret name secret allowExisting) w := by
  unfold writeSecret createOrUpdate
  apply Safe.bind
  intro w1 hr hw1 x w2 he
  rcases exec_createSecret he.2 with rfl | ⟨rfl, rfl⟩
  · refine ⟨allowed_of_same hw1 rfl rfl, ?_⟩
    cases x with
    | ok _ => trivial
    | error e =>
      simp only [safe_done]
      split
      · trivial
      intro w3 hr3 hw3 y w4 he3
      rcases exec_updateSecret he3.2 with rfl | ⟨rfl, rfl⟩
      · exact ⟨allowed_of_same hw3 rfl rfl, trivial⟩
      · have hr' := nameDiscipline.rely_trans t hr hr3
        exact ⟨allowed_of_same (hp w3 hr' hw3 (he3.1 rfl)) rfl rfl, trivial⟩
  · exact ⟨allowed_of_same (hp w1 hr hw1 (he.1 rfl)) rfl rfl, trivial⟩

end Calls

section Locked

variable {t : ℕ} {w w' : World} {cfg : Config} {name : String} {absent : Object → Prop}

structure Locked (t : ℕ) (absent : Object → Prop) (w : World) : Prop where
  holds : w.nameMu = some t
  absent : ∀ o ∈ w.objects, ¬ absent o

theorem Locked.or {more : Object → Prop} (h : Locked t absent w)
    (hn : ∀ o ∈ w.objects, ¬ more o) : Locked t (fun o => absent o ∨ more o) w := by
  refine ⟨h.holds, ?_⟩
  intro o ho hor
  rcases hor with hab | hm
  · exact h.absent o ho hab
  · exact hn o ho hm

theorem Locked.rely (h : Locked t absent w) (hr : Rely t w w') : Locked t absent w' := by
  obtain ⟨hl, hold⟩ := hr.locked h.holds
  exact ⟨hl, fun o ho => h.absent o (hold o ho)⟩

/-- The check for the other kinds: what it did not find stays absent. -/
theorem safe_conflictingAmong {requested : Kind} {kinds : List Kind} (h : Locked t absent w) :
    Leads cfg t
      (fun x => Locked t fun o => absent o ∨
        (x = .ok none ∧ o.name = name ∧ o.kind ∈ kinds ∧ o.kind ≠ requested))
      (conflictingAmong name requested kinds) w := by
  induction kinds generalizing w absent with
  | nil =>
    apply h.or
    rintro o _ ⟨-, -, hm, -⟩
    cases hm
  | cons kind kinds ih =>
    unfold conflictingAmong
    split
    · rename_i hsm
      apply Safe.mono _ (ih h)
      intro x w' hx
      refine ⟨hx.holds, ?_⟩
      intro o ho hor
      apply hx.absent o ho
      rcases hor with hab | ⟨hn, hnm, hm, hne⟩
      · exact .inl hab
      rcases mem_cons.mp hm with heq | hm
      · exact absurd (heq.trans hsm) hne
      · exact .inr ⟨hn, hnm, hm, hne⟩
    · apply Safe.bind
      apply safe_probe
      intro w1 x hr hms
      have h1 := h.rely hr
      have hs : ∀ {y : Except ApiError (Option Kind)}, y ≠ .ok none →
          Locked t (fun o => absent o ∨ (y = .ok none ∧ o.name = name ∧ o.kind ∈ kind :: kinds ∧
            o.kind ≠ requested)) w1 := by
        intro y hy
        apply h1.or
        rintro o _ ⟨hn, -⟩
        exact hy hn
      match x, hms with
      | .error e, _ => exact hs nofun
      | .ok true, _ => exact hs nofun
      | .ok false, hms =>
        -- this kind has no such object either
        have h2 : Locked t (fun o => absent o ∨ o = ⟨kind, name⟩) w1 := by
          apply h1.or
          rintro o ho rfl
          exact hms rfl ho
        apply Safe.mono _ (ih h2)
        intro x w' hx
        refine ⟨hx.holds, ?_⟩
        intro o ho hor
        apply hx.absent o ho
        rcases hor with hab | ⟨hn, hnm, hm, hne⟩
        · exact .inl (.inl hab)
        rcases mem_cons.mp hm with heq | hm
        · obtain ⟨k, n⟩ := o
          cases heq
          cases hnm
          exact .inl (.inr rfl)
        · exact .inr ⟨hn, hnm, hm, hne⟩

/-- A name said to be free of vault objects is free as long as the lock is held. -/
theorem safe_esoClaimsSecretName (hv : validResourceName name) (h : Locked t absent w) :
    Leads cfg t
      (fun x => Locked t fun o => absent o ∨ (x = .ok false ∧ EsoClaims name o))
      (esoClaimsSecretName name) w := by
  unfold esoClaimsSecretName
  apply Safe.bind
  apply safe_probe
  intro w1 x hr hm
  have h1 := h.rely hr
  have hs : x ≠ .ok false →
      Locked t (fun o => absent o ∨ (x = .ok false ∧ EsoClaims name o)) w1 := by
    intro hx
    apply h1.or
    rintro o _ ⟨hf, -⟩
    exact hx hf
  match x, hm, hs with
  | .error e, _, hs => exact hs nofun
  | .ok true, _, hs => exact hs nofun
  | .ok false, hm, _ =>
    have hsy : ∀ o ∈ w1.objects, ¬ (o.kind = .externalSecret ∧ o.name = name) := by
      rintro ⟨kind, n⟩ ho ⟨rfl, rfl⟩
      exact hm rfl ho
    have hct : ∀ o : Object, credentialsName o.name = name →
        cutSuffix name credentialsSuffix = some o.name := by
      rintro o rfl
      exact cutSuffix_credentialsName o.name
    -- no store to look for: none can have the name
    have hn : (∀ o ∈ w1.objects, o.kind = .secretStore → credentialsName o.name ≠ name) →
        Locked t (fun o => absent o ∨ (Except.ok (ε := ApiError) false = .ok false ∧
          EsoClaims name o)) w1 := by
      intro hnn
      apply h1.or
      rintro o ho ⟨-, hes | ⟨hk, hc⟩⟩
      · exact hsy o ho hes
      · exact hnn o ho hk hc
    dsimp only
    cases hb : cutSuffix name credentialsSuffix with
    | none =>
      apply hn
      intro o _ _ hc
      rw [hct o hc] at hb
      cases hb
    | some base =>
      dsimp only
      split
      · rename_i he
        apply hn
        intro o _ _ hc
        rw [hct o hc, Option.some.injEq] at hb
        rw [← hc, hb, he] at hv
        exact absurd hv (by decide)
      apply safe_probe
      intro w2 y hr2 hm2
      have hold := (hr2.locked h1.holds).2
      apply (h1.rely hr2).or
      rintro o ho ⟨hf, hes | ⟨hk, hc⟩⟩
      · exact hsy o (hold o ho) hes
      rw [hct o hc, Option.some.injEq] at hb
      obtain ⟨kind, n⟩ := o
      cases hk
      cases hb
      exact hm2 hf ho

/-- A handler that is safe while it holds the lock may take it. -/
theorem safe_locked {p : Prog Response}
    (hp : ∀ w, w.nameMu = some t → ServesLocked cfg t p w) :
    Serves cfg t (locked p) w := by
  unfold locked
  apply Safe.bind
  intro w1 _ hw1 x w2 he
  obtain ⟨hf, rfl⟩ := exec_lock he.2
  refine ⟨⟨hw1.nameMu _, fun _ ho _ => ho, ?_⟩, ?_⟩
  · intro t' _
    refine ⟨fun _ ho _ => ho, ?_⟩
    intro hh
    rw [hf] at hh
    cases hh
  apply Safe.bind
  apply Safe.mono _ (hp _ rfl)
  intro r w2 hh
  apply Safe.bind
  rintro w3 hr hw3 _ w4 ⟨-, _, hk⟩
  cases hk
  have hh3 := (hr.locked hh).1
  refine ⟨⟨hw3.nameMu _, fun _ ho _ => ho, ?_⟩, trivial⟩
  intro t' ht'
  refine ⟨fun _ ho _ => ho, ?_⟩
  intro hh'
  rw [hh3] at hh'
  exact absurd (Option.some.inj hh').symm ht'

variable {next : Prog Response}

theorem safe_refuseConflicting {kind : Kind} (hh : w.nameMu = some t)
    (hn : ∀ w, Locked t (OtherKind kind name) w → ServesLocked cfg t next w) :
    ServesLocked cfg t (refuseConflicting kind name next) w := by
  have hl : Locked t (fun _ => False) w := ⟨hh, fun _ _ h => h⟩
  apply Safe.bind
  apply Safe.mono _ (safe_conflictingAmong hl)
  intro x w1 hx
  match x, hx with
  | .error e, hx => exact hx.holds
  | .ok (some k), hx => exact hx.holds
  | .ok none, hx =>
    apply hn
    exact ⟨hx.holds, fun o ho hot => hx.absent o ho (.inr ⟨rfl, hot⟩)⟩

theorem safe_refuseClaimed (hv : validResourceName name)
    (h : Locked t absent w)
    (hn : ∀ w, Locked t (fun o => absent o ∨ EsoClaims name o) w → ServesLocked cfg t next w) :
    ServesLocked cfg t (refuseClaimed name next) w := by
  apply Safe.bind
  apply Safe.mono _ (safe_esoClaimsSecretName hv h)
  intro x w1 hx
  match x, hx with
  | .error e, hx => exact hx.holds
  | .ok true, hx => exact hx.holds
  | .ok false, hx =>
    apply hn
    refine ⟨hx.holds, fun o ho hor => hx.absent o ho ?_⟩
    exact hor.imp id fun hc => ⟨rfl, hc⟩

theorem safe_createObject {o : Object} (h : Locked t absent w)
    (ha : ∀ w1, Locked t absent w1 → Owned w1 → o ∉ w1.objects → ClearCreate w1 o →
      Owned (w1.add o)) :
    ServesLocked cfg t (createObject o) w := by
  unfold createObject
  apply Safe.bind
  apply safe_create
  · intro w1 hr hw1 hn hc
    have h1 := h.rely hr
    exact ⟨ha w1 h1 hw1 hn hc, .inr h1.holds⟩
  intro w1 x w2 hr hs
  have hh : w2.nameMu = some t := hs.trans (h.rely hr).holds
  cases x with
  | ok | error => exact hh

end Locked

section Handlers

variable {t : ℕ} {w : World} {cfg : Config}

/-- A database is created when no object has its Secret name. -/
theorem safe_createDatabase {o : Object} (hdb : isDatabase o) (hv : validResourceName o.name) :
    Serves cfg t (locked (refuseConflicting o.kind o.name (refuseClaimed o.name (createObject o)))) w := by
  apply safe_locked
  intro w1 hh
  apply safe_refuseConflicting hh
  intro w2 hl2
  apply safe_refuseClaimed hv hl2
  intro w3 hl3
  apply safe_createObject hl3
  intro w4 hl4 hw4 hn hc
  have hc' : (∀ a ∈ w4.envSet, envSecretName a ≠ o.name) ∧
      ∀ old ∈ w4.secrets o.name, old.owner ∈ w4.objects := by
    unfold isDatabase at hdb
    unfold ClearCreate at hc
    cases hk : o.kind with
    | postgres | mongo => simpa only [hk] using hc
    | _ => simp [hk] at hdb
  exact hw4.add_database hdb hn hl4.absent hc'.1 hc'.2

theorem safe_handleCreateApp (app : Operator.App) : Serves cfg t (handleCreateApp cfg app) w := by
  unfold handleCreateApp
  split
  · trivial
  split
  · trivial
  apply safe_locked
  intro w1 hh
  apply safe_refuseConflicting hh
  intro w2 hl2
  apply safe_createObject hl2
  intro w3 _ hw3 hn _
  exact hw3.add_app hn

theorem safe_handleCreatePostgres (name : String) (pgweb : Bool) :
    Serves cfg t (handleCreatePostgres name pgweb) w := by
  unfold handleCreatePostgres
  split
  · trivial
  rename_i hv
  split
  · trivial
  · exact safe_createDatabase (o := ⟨.postgres, name⟩) rfl (by simpa using hv)

theorem safe_handleCreateMongo (name : String) (mongoExpress : Bool) :
    Serves cfg t (handleCreateMongo name mongoExpress) w := by
  unfold handleCreateMongo
  split
  · trivial
  rename_i hv
  split
  · trivial
  · exact safe_createDatabase (o := ⟨.mongo, name⟩) rfl (by simpa using hv)

theorem safe_writeCredentialsSecret {store token : String} {allowExisting : Bool} :
    Serves cfg t (writeCredentialsSecret store token allowExisting) w := by
  apply safe_writeSecret
  intro w1 _ hw1 hl
  apply hw1.put hl rfl
  intro o' ho' hc
  exact hw1.distinct o' ho' _ hl _ hc rfl

theorem safe_deleteStore {s : String} : Serves cfg t (call (.delete ⟨.secretStore, s⟩)) w := by
  intro w1 _ hw1 x w2 he
  refine ⟨?_, trivial⟩
  rcases exec_delete he.2 with rfl | rfl
  · exact allowed_of_same hw1 rfl rfl
  have hs : Stays w1 (w1.remove ⟨.secretStore, s⟩) := by
    intro o ho hk
    refine mem_filter.mpr ⟨ho, ?_⟩
    simp only [decide_eq_true_eq]
    rintro rfl
    exact hk rfl
  refine ⟨hw1.remove_store, hs, fun _ _ => ⟨hs, ?_⟩⟩
  intro hh
  exact ⟨hh, fun o ho => mem_of_mem_filter ho⟩

/-- Creating a store and its token keeps every Secret with its object. -/
theorem safe_handleCreateSecretStore (req : StoreRequest) :
    Serves cfg t (handleCreateSecretStore cfg req) w := by
  unfold handleCreateSecretStore
  split
  · trivial
  split
  · trivial
  apply Safe.bind
  apply safe_probe
  intro w1 x _ _
  match x with
  | .error e => trivial
  | .ok true => trivial
  | .ok false =>
    apply Safe.bind
    apply safe_create
    · intro w2 _ hw2 hn hc
      exact ⟨hw2.add_store hn hc.2, .inl hc.1⟩
    intro w2 y w3 _ _
    cases y with
    | error e => trivial
    | ok _ =>
      apply Safe.bind
      apply Safe.mono _ safe_writeCredentialsSecret
      intro z w4 _
      cases z with
      | ok _ => trivial
      | error e =>
        apply Safe.bind
        apply Safe.mono _ safe_deleteStore
        intro _ _ _
        trivial

theorem safe_updateStore (req : StoreRequest) : Serves cfg t (updateStore req) w := by
  unfold updateStore
  apply Safe.bind
  apply safe_read (fun _ _ _ he => (exec_get he).1)
  intro w1 x _ _
  cases x with
  | error e => trivial
  | ok _ =>
    apply Safe.bind
    apply safe_read (fun _ _ _ he => exec_update he)
    intro w2 y _ _
    cases y with
    | error e => trivial
    | ok _ =>
      dsimp only
      split
      · trivial
      apply Safe.bind
      apply Safe.mono _ safe_writeCredentialsSecret
      intro z _ _
      cases z with
      | error | ok => trivial

theorem safe_handleUpdateSecretStore (req : StoreRequest) :
    Serves cfg t (handleUpdateSecretStore cfg req) w := by
  unfold handleUpdateSecretStore
  split
  · trivial
  split
  · exact safe_updateStore req
  apply Safe.bind
  apply safe_probe
  intro w1 x _ _
  match x with
  | .error e => trivial
  | .ok true => trivial
  | .ok false => exact safe_updateStore req

theorem reserved_of_valid {req : ExternalSecretRequest}
    (h : validateExternalSecretRequest cfg req = none) : reserved req.name = false := by
  unfold validateExternalSecretRequest at h
  split at h
  · cases h
  split at h
  · cases h
  · rename_i hp
    simpa using hp

/-- So does creating a vault Secret. -/
theorem safe_handleCreateExternalSecret (req : ExternalSecretRequest) :
    Serves cfg t (handleCreateExternalSecret cfg req) w := by
  unfold handleCreateExternalSecret
  split
  · trivial
  rename_i hv
  have hp := reserved_of_valid hv
  apply Safe.bind
  apply safe_probe
  intro w1 x _ _
  match x with
  | .error e => trivial
  | .ok true => trivial
  | .ok false =>
    apply Safe.bind
    apply safe_read (fun _ _ _ he => (exec_get he).1)
    intro w2 y _ _
    cases y with
    | error e => trivial
    | ok _ =>
      apply Safe.bind
      apply safe_create
      · intro w3 _ hw3 hn hc
        exact ⟨hw3.add_sync hn hp hc.2, .inl hc.1⟩
      intro w3 z w4 _ _
      cases z with
      | error | ok => trivial

/-- So does setting the env of an App. -/
theorem safe_handleSetEnv (name : String) (secrets : List (String × String)) :
    Serves cfg t (handleSetEnv name secrets) w := by
  unfold handleSetEnv EnvCalls.setEnv
  split
  · trivial
  split
  · trivial
  apply Safe.bind
  apply safe_read (fun _ _ _ he => (exec_getApp he).1)
  intro w1 x _ he
  cases x with
  | error e => trivial
  | ok env =>
    have ha := (exec_getApp he).2 env rfl
    dsimp only
    split
    · trivial
    apply Safe.bind
    have hw : Serves cfg t (writeEnvSecret name secrets) w1 := by
      apply safe_writeSecret
      intro w2 hr hw2 hc
      exact hw2.put_env (hr.stays _ ha nofun) hc
    apply Safe.mono _ hw
    intro y w2 _
    cases y with
    | error e => trivial
    | ok _ =>
      apply Safe.bind
      apply safe_read (fun _ _ _ he => exec_updateApp he)
      intro w3 z _ _
      cases z with
      | error | ok => trivial

theorem safe_handleRequest (req : Request) : Serves cfg t (handleRequest cfg req) w := by
  cases req with
  | createApp app => exact safe_handleCreateApp app
  | createPostgres name pgweb => exact safe_handleCreatePostgres name pgweb
  | createMongo name mongoExpress => exact safe_handleCreateMongo name mongoExpress
  | createSecretStore req => exact safe_handleCreateSecretStore req
  | updateSecretStore req => exact safe_handleUpdateSecretStore req
  | createExternalSecret req => exact safe_handleCreateExternalSecret req
  | setEnv app secrets => exact safe_handleSetEnv app secrets

/-- Any number of requests at once keep every Secret with its object. -/
theorem clearDashboard_respects :
    (clearDashboard cfg).Respects nameDiscipline (fun _ _ _ => True) where
  lasts := fun _ _ _ _ _ _ => trivial
  starts := by
    rintro t p w ⟨req, rfl⟩ _
    exact safe_handleRequest req
  env := by
    intro w w' hw he
    obtain ⟨how, hob, hl⟩ := EnvStep.owned he hw
    have hr : ∀ t, Rely t w w' := fun t => rely_of_same hob hl
    exact ⟨how, (hr 0).stays, hr⟩
  restart := by
    intro w w' hw he
    rw [show w' = { w with nameMu := none } from he]
    exact ⟨hw.nameMu none, fun _ ho _ => ho⟩

/-- In every run whose steps are as `Clear` says, the Secret names of distinct objects
differ, and no write replaced data of another object. -/
theorem secret_names_owned (hw : Owned w) {c : Interleave.Config apiServer World ℕ Response}
    (hc : (clearDashboard cfg).Steps (Interleave.Config.idle w) c) :
    (∀ o ∈ c.shared.objects, ∀ o' ∈ c.shared.objects, ∀ name,
      c.shared.claim o = some name → c.shared.claim o' = some name → o = o') ∧
      c.shared.clobbered = [] := by
  have hgood := (System.reachable_good clearDashboard_respects (System.good_idle hw) hc).1
  exact ⟨hgood.inv.distinct, hgood.inv.kept⟩

end Handlers

def sampleConfig : Config := ⟨[], fun _ => true, fun _ => true⟩

def emptyWorld : World := ⟨[], [], fun _ => none, none, []⟩

theorem owned_emptyWorld : Owned emptyWorld where
  distinct := fun _ ho => absurd ho not_mem_nil
  written := nofun
  fresh := fun _ ho => absurd ho not_mem_nil
  plain := fun _ ho => absurd ho not_mem_nil
  env := fun _ ha => absurd ha not_mem_nil
  kept := rfl

def samplePick : (c : Call) → World → c.Choice
  | .lock, _ | .unlock, _ => ()
  | .getApp _, _ => .ok []
  | .get _, _ | .create _, _ | .update _, _ | .delete _, _ | .updateApp _ _, _
  | .createSecret _ _, _ | .updateSecret _ _, _ => none

def sampleApp : Operator.App where
  ns := "orkano-apps"
  name := "web"
  source := ⟨some ⟨"acme/web", "main"⟩, none, none, ""⟩
  build := ⟨.dockerfile, none, none, none⟩

def sampleRequests (database : String) : List Request :=
  [.createApp sampleApp, .setEnv "web" [("KEY", "value")], .createPostgres database false]

def serveAll (M : Machine apiServer World) (pick : (c : Call) → World → M.Choice c) :
    List Request → World → Option World
  | [], w => some w
  | req :: reqs, w => (M.simulate pick (handleRequest sampleConfig req) w).bind fun r =>
      serveAll M pick reqs r.2

/-- Requests served one after the other are a run of the dashboard. -/
theorem steps_serveAll {S : System apiServer World ℕ Response} {M : Machine apiServer World}
    {pick : (c : Call) → World → M.Choice c}
    (hs : S.starts = fun _ p => ∃ req, p = handleRequest sampleConfig req)
    (hM : ∀ c w x w', M.exec c w x w' → S.exec 0 c w x w') {reqs : List Request} {w w' : World}
    (h : serveAll M pick reqs w = some w') :
    S.Steps (Interleave.Config.idle w) (Interleave.Config.idle w') := by
  induction reqs generalizing w with
  | nil =>
    cases h
    exact .refl
  | cons req reqs ih =>
    obtain ⟨⟨r, w1⟩, hrn, hr⟩ := Option.bind_eq_some_iff.mp h
    have hrq : S.starts 0 (handleRequest sampleConfig req) := by
      rw [hs]
      exact ⟨req, rfl⟩
    exact (System.steps_idle_of_runs hrq ((M.runs_of_simulate hrn).mono hM)).trans (ih hr)

def clearMachine : Machine apiServer World := (machine 0).guard fun c w x _ => decide (Clear w c x)

def clearWorld : World :=
  (serveAll clearMachine samplePick (sampleRequests "db") emptyWorld).getD emptyWorld

/-- A database with a name of its own. -/
theorem own_database_name :
    (∀ o ∈ clearWorld.objects, ∀ o' ∈ clearWorld.objects, ∀ name,
      clearWorld.claim o = some name → clearWorld.claim o' = some name → o = o') ∧
      clearWorld.clobbered = [] := by
  have hserved : (serveAll clearMachine samplePick (sampleRequests "db") emptyWorld).isSome := by
    decide +kernel
  obtain ⟨w, hw⟩ := Option.isSome_iff_exists.mp hserved
  have hclear : clearWorld = w := by rw [clearWorld, hw, Option.getD_some]
  have hsteps : (clearDashboard sampleConfig).Steps (Interleave.Config.idle emptyWorld)
      (Interleave.Config.idle w) := by
    apply steps_serveAll rfl _ hw
    intro c w x w' hx
    rw [clearMachine, Machine.exec_guard, decide_eq_true_iff] at hx
    exact ⟨hx.2, hx.1⟩
  rw [hclear]
  exact secret_names_owned owned_emptyWorld hsteps

def clashWorld : World :=
  (serveAll (machine 0) samplePick (sampleRequests "web-env") emptyWorld).getD emptyWorld

theorem steps_clashWorld : (dashboard sampleConfig).Steps (Interleave.Config.idle emptyWorld)
    (Interleave.Config.idle clashWorld) := by
  have hs : (serveAll (machine 0) samplePick (sampleRequests "web-env") emptyWorld).isSome := by
    decide +kernel
  obtain ⟨w, hw⟩ := Option.isSome_iff_exists.mp hs
  have hc : clashWorld = w := by rw [clashWorld, hw, Option.getD_some]
  rw [hc]
  exact steps_serveAll rfl (fun _ _ _ _ hx => hx) hw

/-- A database named like an App's env Secret: both are live and claim the name, and the
database's first reconcile replaces the App's values. -/
theorem database_replaces_env_secret :
    let app : Object := ⟨.app, "web"⟩
    let database : Object := ⟨.postgres, "web-env"⟩
    let w := clashWorld.put "web-env" ⟨database, [("password", "p")]⟩
    (dashboard sampleConfig).Steps (Interleave.Config.idle emptyWorld) (Interleave.Config.idle w) ∧
      app ∈ w.objects ∧ database ∈ w.objects ∧
      w.claim app = some "web-env" ∧ w.claim database = some "web-env" ∧
      w.clobbered = [("web-env", app, database)] := by
  intro app database w
  have hstep : EnvStep clashWorld w :=
    .operator database _ (by decide +kernel) rfl (by decide +kernel)
  exact ⟨.tail steps_clashWorld (.env hstep), by decide +kernel, by decide +kernel,
    by decide +kernel, by decide +kernel, by decide +kernel⟩

end Orkano.Dashboard.Resources
