import Orkano.Dashboard.Resources.Cluster

/-!
Each Secret name has one owner: the invariant, and what every kind of change needs to
keep it.
-/
namespace Orkano.Dashboard.Resources

open List

theorem hasSuffix_append (name suffix : String) : hasSuffix (name ++ suffix) suffix := by
  simp [hasSuffix]

theorem credentialsName_injective {s s' : String} (h : credentialsName s = credentialsName s') :
    s = s' := by
  have h := congrArg String.toList h
  simp only [credentialsName, String.toList_append] at h
  exact String.toList_inj.mp (append_cancel_right h)

theorem envSecretName_injective {a a' : String} (h : envSecretName a = envSecretName a') :
    a = a' := by
  have h := congrArg String.toList h
  simp only [envSecretName, String.toList_append] at h
  exact String.toList_inj.mp (append_cancel_right h)

theorem envSecretName_ne_credentialsName (a s : String) : envSecretName a ≠ credentialsName s := by
  intro h
  have hl := congrArg (fun name => name.toList.getLast?) h
  simp [envSecretName, credentialsName, credentialsSuffix] at hl

theorem reserved_credentialsName (s : String) : reserved (credentialsName s) := by
  simp [reserved, credentialsName, hasSuffix_append]

theorem reserved_envSecretName (a : String) : reserved (envSecretName a) := by
  have h : hasSuffix (envSecretName a) envSecretSuffix := hasSuffix_append a _
  simp [reserved, h]

theorem cutSuffix_credentialsName (s : String) :
    cutSuffix (credentialsName s) credentialsSuffix = some s := by
  unfold cutSuffix credentialsName
  rw [if_pos (hasSuffix_append ..), String.toList_append]
  simp

section Owned

/-- The Secret names of distinct objects differ, and so every Secret was written for
the object that has its name; the Secret of a removed store may linger, unless a
database has the name. -/
structure Owned (w : World) : Prop where
  distinct : ∀ o ∈ w.objects, ∀ o' ∈ w.objects, ∀ name,
    w.claim o = some name → w.claim o' = some name → o = o'
  written : ∀ name, ∀ secret ∈ w.secrets name,
    (secret.owner ∈ w.objects ∧ w.claim secret.owner = some name) ∨
      (secret.owner ∉ w.objects ∧ ∃ s, secret.owner = ⟨.secretStore, s⟩ ∧ name = credentialsName s)
  fresh : ∀ o ∈ w.objects, isDatabase o → ∀ secret ∈ w.secrets o.name, secret.owner ∈ w.objects
  plain : ∀ o ∈ w.objects, o.kind = .externalSecret → reserved o.name = false
  env : ∀ a ∈ w.envSet, ⟨.app, a⟩ ∈ w.objects
  kept : w.clobbered = []

variable {w : World} {o : Object} {name : String} {secret : Secret}

theorem claim_database (h : isDatabase o) : w.claim o = some o.name := by
  unfold isDatabase at h
  unfold World.claim
  cases hk : o.kind with
  | postgres | mongo => rfl
  | _ => simp [hk] at h

variable {o' : Object}

/-- Writing a Secret changes no other object's claim. -/
theorem claim_put_of_ne (h : o' ≠ secret.owner) : (w.put name secret).claim o' = w.claim o' := by
  unfold World.claim World.put
  split
  · rename_i hk
    have hn : secret.owner.kind = .app → o'.name ≠ secret.owner.name := by
      intro ha heq
      apply h
      cases o'
      cases hs : secret.owner
      simp_all
    by_cases ha : secret.owner.kind = .app
    · simp [ha, hn ha]
    · simp [ha]
  · rfl
  · rfl
  · rfl
  · rfl

theorem claim_put_of_some {name' : String} (h : w.claim o' = some name') :
    (w.put name secret).claim o' = some name' := by
  unfold World.claim World.put at *
  split at h
  · split at h
    · rename_i hm
      cases h
      have : o'.name ∈ (if secret.owner.kind = .app then secret.owner.name :: w.envSet
          else w.envSet) := by
        split
        · exact mem_cons_of_mem _ hm
        · exact hm
      simp [this]
    · cases h
  · exact h
  · exact h
  · exact h
  · exact h

/-- An object may be added whose Secret name nobody has. -/
theorem Owned.add (hw : Owned w)
    (hcl : ∀ name, w.claim o = some name → ∀ o' ∈ w.objects, w.claim o' ≠ some name)
    (hf : isDatabase o → ∀ secret ∈ w.secrets o.name, secret.owner ∈ w.objects)
    (hp : o.kind = .externalSecret → reserved o.name = false) : Owned (w.add o) where
  distinct := by
    intro o1 h1 o2 h2 name hc1 hc2
    rcases mem_cons.mp h1 with rfl | ho1
    · rcases mem_cons.mp h2 with rfl | ho2
      · rfl
      · exact absurd hc2 (hcl name hc1 o2 ho2)
    rcases mem_cons.mp h2 with rfl | ho2
    · exact absurd hc1 (hcl name hc2 o1 ho1)
    · exact hw.distinct o1 ho1 o2 ho2 name hc1 hc2
  written := by
    intro name secret hs
    rcases hw.written name secret hs with ⟨hm, hc⟩ | ⟨hn, s, ho, rfl⟩
    · exact .inl ⟨mem_cons_of_mem _ hm, hc⟩
    by_cases heq : secret.owner = o
    · refine .inl ⟨heq ▸ mem_cons_self .., ?_⟩
      rw [ho]
      rfl
    refine .inr ⟨?_, s, ho, rfl⟩
    intro hm
    rcases mem_cons.mp hm with hm | hm
    · exact heq hm
    · exact hn hm
  fresh := by
    intro o' ho' hdb secret hs
    rcases mem_cons.mp ho' with rfl | ho'
    · exact mem_cons_of_mem _ (hf hdb secret hs)
    · exact mem_cons_of_mem _ (hw.fresh o' ho' hdb secret hs)
  plain := by
    intro o' ho' hk
    rcases mem_cons.mp ho' with rfl | ho'
    · exact hp hk
    · exact hw.plain o' ho' hk
  env := fun a ha => mem_cons_of_mem _ (hw.env a ha)
  kept := hw.kept

/-- A store may be removed; its Secret lingers. -/
theorem Owned.remove_store {s : String} (hw : Owned w) : Owned (w.remove ⟨.secretStore, s⟩) where
  distinct := by
    intro o1 h1 o2 h2
    exact hw.distinct o1 (mem_of_mem_filter h1) o2 (mem_of_mem_filter h2)
  written := by
    intro name secret hs
    rcases hw.written name secret hs with ⟨hm, hc⟩ | ⟨hn, s', how, rfl⟩
    · by_cases heq : secret.owner = ⟨.secretStore, s⟩
      · refine .inr ⟨by simp [World.remove, heq], s, heq, ?_⟩
        rw [heq] at hc
        exact (Option.some.inj hc).symm
      · exact .inl ⟨mem_filter.mpr ⟨hm, by simpa using heq⟩, hc⟩
    · exact .inr ⟨fun hm => hn (mem_of_mem_filter hm), s', how, rfl⟩
  fresh := by
    intro o ho hdb secret hs
    have ho := mem_of_mem_filter ho
    have hm := hw.fresh o ho hdb secret hs
    refine mem_filter.mpr ⟨hm, ?_⟩
    -- the store and the database cannot both have claimed the name
    simp only [decide_eq_true_eq]
    intro heq
    rcases hw.written _ secret hs with ⟨-, hc⟩ | ⟨hn, -⟩
    · have := hw.distinct o ho secret.owner hm o.name (claim_database hdb) hc
      rw [this, heq] at hdb
      cases hdb
    · exact hn hm
  plain := fun o ho => hw.plain o (mem_of_mem_filter ho)
  env := fun a ha => mem_filter.mpr ⟨hw.env a ha, by simp⟩
  kept := hw.kept

/-- The Secret that a write for its rightful owner finds is that owner's. -/
theorem Owned.owner_eq (hw : Owned w) (ho : o ∈ w.objects)
    (hcl : (w.put name secret).claim o = some name)
    (hnn : ∀ o' ∈ w.objects, w.claim o' = some name → o' = o) {old : Secret}
    (hold : old ∈ w.secrets name) : old.owner = o := by
  rcases hw.written name old hold with ⟨hm, hc⟩ | ⟨hnt, s, hs, rfl⟩
  · exact hnn old.owner hm hc
  obtain ⟨kind, n⟩ := o
  cases kind with
  | app =>
    -- an env Secret is not named like credentials
    unfold World.claim at hcl
    dsimp only at hcl
    split at hcl
    · exact absurd (Option.some.inj hcl) (envSecretName_ne_credentialsName n s)
    · cases hcl
  | secretStore =>
    have hn : n = s := credentialsName_injective (Option.some.inj hcl)
    rw [hs, ← hn] at hnt
    exact absurd ho hnt
  | externalSecret =>
    have := hw.plain _ ho rfl
    rw [show n = credentialsName s from Option.some.inj hcl, reserved_credentialsName] at this
    cases this
  | postgres | mongo =>
    cases Option.some.inj hcl
    exact absurd (hw.fresh _ ho rfl old hold) hnt

/-- A write for the object that has the name, or that gets it with this write. -/
theorem Owned.put (hw : Owned w) (how : secret.owner ∈ w.objects)
    (hcl : (w.put name secret).claim secret.owner = some name)
    (hnn : ∀ o' ∈ w.objects, w.claim o' = some name → o' = secret.owner) :
    Owned (w.put name secret) where
  distinct := by
    intro o1 h1 o2 h2 name' hc1 hc2
    by_cases he1 : o1 = secret.owner
    · by_cases he2 : o2 = secret.owner
      · rw [he1, he2]
      rw [he1, hcl] at hc1
      rw [claim_put_of_ne he2, ← hc1] at hc2
      exact absurd (hnn o2 h2 hc2) he2
    rw [claim_put_of_ne he1] at hc1
    by_cases he2 : o2 = secret.owner
    · rw [he2, hcl] at hc2
      rw [← hc2] at hc1
      exact absurd (hnn o1 h1 hc1) he1
    · rw [claim_put_of_ne he2] at hc2
      exact hw.distinct o1 h1 o2 h2 name' hc1 hc2
  written := by
    intro name' secret' hs
    by_cases hn : name' = name
    · subst hn
      simp only [World.put, Function.update_self, Option.mem_def, Option.some.injEq] at hs
      subst hs
      exact .inl ⟨how, hcl⟩
    simp only [World.put, Function.update_of_ne hn] at hs
    rcases hw.written name' secret' hs with ⟨hm, hc⟩ | hg
    · exact .inl ⟨hm, claim_put_of_some hc⟩
    · exact .inr hg
  fresh := by
    intro o ho hdb secret' hs
    by_cases hn : o.name = name
    · simp only [World.put, hn, Function.update_self, Option.mem_def, Option.some.injEq] at hs
      exact hs ▸ how
    · simp only [World.put, Function.update_of_ne hn] at hs
      exact hw.fresh o ho hdb secret' hs
  plain := hw.plain
  env := by
    intro a ha
    simp only [World.put] at ha
    split at ha
    · rename_i hk
      rcases mem_cons.mp ha with rfl | ha
      · rw [← hk]
        exact how
      · exact hw.env a ha
    · exact hw.env a ha
  kept := by
    cases hold : w.secrets name with
    | none => simp [World.put, hold, hw.kept]
    | some old => simp [World.put, hold, hw.owner_eq how hcl hnn hold, hw.kept]

theorem Owned.nameMu (hw : Owned w) (ho : Option ℕ) : Owned { w with nameMu := ho } :=
  ⟨hw.distinct, hw.written, hw.fresh, hw.plain, hw.env, hw.kept⟩

/-- The kinds of object that can have a Secret name, and how. -/
theorem claim_cases (h : w.claim o = some name) :
    (o.kind = .app ∧ o.name ∈ w.envSet ∧ envSecretName o.name = name) ∨
      (isDatabase o ∧ o.name = name) ∨
      (o.kind = .secretStore ∧ credentialsName o.name = name) ∨
      (o.kind = .externalSecret ∧ o.name = name) := by
  unfold World.claim at h
  unfold isDatabase
  cases hk : o.kind with
  | app =>
    simp only [hk] at h
    split at h
    · rename_i hm
      exact .inl ⟨rfl, hm, Option.some.inj h⟩
    · cases h
  | postgres | mongo => exact .inr (.inl ⟨rfl, by simpa [hk] using h⟩)
  | secretStore => exact .inr (.inr (.inl ⟨rfl, by simpa [hk] using h⟩))
  | externalSecret => exact .inr (.inr (.inr ⟨rfl, by simpa [hk] using h⟩))

end Owned

section Effects

variable {w w' : World}

def NoDatabase (w : World) (name : String) : Prop :=
  ∀ o ∈ w.objects, isDatabase o → o.name ≠ name

instance (w : World) (name : String) : Decidable (NoDatabase w name) :=
  inferInstanceAs (Decidable (∀ o ∈ w.objects, isDatabase o → o.name ≠ name))

def OtherKind (kind : Kind) (name : String) (o : Object) : Prop :=
  o.name = name ∧ o.kind ∈ topLevelNameKinds ∧ o.kind ≠ kind

/-- The objects of the two vault kinds that have the Secret name. -/
def EsoClaims (name : String) (o : Object) : Prop :=
  (o.kind = .externalSecret ∧ o.name = name) ∨
    (o.kind = .secretStore ∧ credentialsName o.name = name)

theorem Owned.add_app {name : String} (hw : Owned w) (hn : ⟨.app, name⟩ ∉ w.objects) :
    Owned (w.add ⟨.app, name⟩) := by
  apply hw.add
  · intro name' hc
    have hu : name ∉ w.envSet := fun hm => hn (hw.env name hm)
    simp [World.claim, hu] at hc
  · intro hdb
    cases hdb
  · intro hk
    cases hk

/-- A new database, when all checks of its handler found nothing. -/
theorem Owned.add_database {o : Object} (hdb : isDatabase o) (hw : Owned w) (hnw : o ∉ w.objects)
    (ha : ∀ o' ∈ w.objects, ¬ (OtherKind o.kind o.name o' ∨ EsoClaims o.name o'))
    (he : ∀ a ∈ w.envSet, envSecretName a ≠ o.name)
    (hf : ∀ old ∈ w.secrets o.name, old.owner ∈ w.objects) : Owned (w.add o) := by
  apply hw.add _ (fun _ => hf)
  · intro hkn
    simp [isDatabase, hkn] at hdb
  intro name hc o' ho' hc'
  obtain rfl : o.name = name := Option.some.inj ((claim_database hdb).symm.trans hc)
  have hno := ha o' ho'
  rcases claim_cases hc' with ⟨-, hm, he'⟩ | ⟨hdb', hn⟩ | hs | hsy
  · exact he _ hm he'
  · have hsm : o'.kind = o.kind := by
      by_contra hne
      refine hno (.inl ⟨hn, ?_, hne⟩)
      unfold isDatabase at hdb'
      simp only [Bool.or_eq_true, decide_eq_true_eq] at hdb'
      rcases hdb' with hk | hk
      · simp [hk, topLevelNameKinds]
      · simp [hk, topLevelNameKinds]
    apply hnw
    obtain ⟨k, n⟩ := o
    obtain ⟨k', n'⟩ := o'
    cases hsm
    cases hn
    exact ho'
  · exact hno (.inr (.inr hs))
  · exact hno (.inr (.inl hsy))

/-- A new store, when no database has the name of its credentials. -/
theorem Owned.add_store {s : String} (hw : Owned w) (hnw : ⟨.secretStore, s⟩ ∉ w.objects)
    (hf : NoDatabase w (credentialsName s)) : Owned (w.add ⟨.secretStore, s⟩) := by
  apply hw.add
  · intro name hc o' ho' hc'
    obtain rfl : credentialsName s = name := Option.some.inj hc
    rcases claim_cases hc' with ⟨-, -, he⟩ | ⟨hdb, hn⟩ | ⟨hk, hn⟩ | ⟨hk, hn⟩
    · exact envSecretName_ne_credentialsName _ _ he
    · exact hf o' ho' hdb hn
    · obtain ⟨k, n⟩ := o'
      cases hk
      cases credentialsName_injective hn
      exact hnw ho'
    have := hw.plain o' ho' hk
    rw [hn, reserved_credentialsName] at this
    cases this
  · intro hdb
    cases hdb
  · intro hk
    cases hk

/-- A new sync: its name is not reserved, and no database has it. -/
theorem Owned.add_sync {e : String} (hw : Owned w) (hnw : ⟨.externalSecret, e⟩ ∉ w.objects)
    (hp : reserved e = false) (hf : NoDatabase w e) : Owned (w.add ⟨.externalSecret, e⟩) := by
  apply hw.add
  · intro name hc o' ho' hc'
    obtain rfl : e = name := Option.some.inj hc
    rcases claim_cases hc' with ⟨-, -, he⟩ | ⟨hdb, hn⟩ | ⟨-, hn⟩ | ⟨hk, hn⟩
    · rw [← he, reserved_envSecretName] at hp
      cases hp
    · exact hf o' ho' hdb hn
    · rw [← hn, reserved_credentialsName] at hp
      cases hp
    obtain ⟨k, n⟩ := o'
    cases hk
    cases hn
    exact hnw ho'
  · intro hdb
    cases hdb
  · intro _
    exact hp

theorem Owned.put_env {a : String} {data : List (String × String)} (hw : Owned w)
    (ha : ⟨.app, a⟩ ∈ w.objects) (hf : NoDatabase w (envSecretName a)) :
    Owned (w.put (envSecretName a) ⟨⟨.app, a⟩, data⟩) := by
  apply hw.put ha (by simp [World.claim, World.put])
  intro o' ho' hc
  rcases claim_cases hc with ⟨hk, -, he⟩ | ⟨hdb, hn⟩ | ⟨-, hn⟩ | ⟨hk, hn⟩
  · obtain ⟨k, n⟩ := o'
    cases hk
    cases envSecretName_injective he
    rfl
  · exact absurd hn (hf o' ho' hdb)
  · exact absurd hn.symm (envSecretName_ne_credentialsName _ _)
  have := hw.plain o' ho' hk
  rw [hn, reserved_envSecretName] at this
  cases this

/-- What the operator and the syncs do keeps the names apart. -/
theorem EnvStep.owned (h : EnvStep w w') (hw : Owned w) :
    Owned w' ∧ w'.objects = w.objects ∧ w'.nameMu = w.nameMu := by
  cases h with
  | operator o data ho hdb _ =>
    refine ⟨hw.put ho (claim_database hdb) ?_, rfl, rfl⟩
    intro o' ho' hc
    exact hw.distinct o' ho' o ho o.name hc (claim_database hdb)
  | sync o data ho hk _ =>
    have hcl : ∀ w : World, w.claim o = some o.name := fun w => by simp [World.claim, hk]
    refine ⟨hw.put ho (hcl _) ?_, rfl, rfl⟩
    intro o' ho' hc
    exact hw.distinct o' ho' o ho o.name hc (hcl w)
  | collect name _ =>
    refine ⟨⟨hw.distinct, ?_, ?_, hw.plain, hw.env, hw.kept⟩, rfl, rfl⟩
    · intro name' secret hs
      by_cases hn : name' = name
      · simp [hn] at hs
      · simp only [Function.update_of_ne hn] at hs
        exact hw.written name' secret hs
    intro o ho hdb secret hs
    by_cases hn : o.name = name
    · simp [hn] at hs
    · simp only [Function.update_of_ne hn] at hs
      exact hw.fresh o ho hdb secret hs

end Effects

end Orkano.Dashboard.Resources
