import Mathlib.Data.List.Nodup
import Orkano.Dashboard.Auth.Accounts
import Orkano.Dashboard.Auth.World

/-!
Whom a user id and a session token stand for. No query rewrites the issuer and subject of a
row, and new rows take new ids; so an id stands for one identity for good.
-/
namespace Orkano.Dashboard

open Interleave List

namespace Db

variable {db db' : Db} {new : Option (String × String) → Prop}

/-- The id and the linked identity of every user. -/
def identities (db : Db) : List (Int × Option (String × String)) :=
  db.users.map fun u => (u.id, u.oidc)

/-- The token hash and the user of every session. -/
def owners (db : Db) : List (String × Int) := db.sessions.map fun s => (s.tokenHash, s.userId)

theorem mem_identities {u : User} (hu : u ∈ db.users) : (u.id, u.oidc) ∈ db.identities :=
  mem_map.mpr ⟨u, hu, rfl⟩

theorem mem_owners {s : Session} (hs : s ∈ db.sessions) : (s.tokenHash, s.userId) ∈ db.owners :=
  mem_map.mpr ⟨s, hs, rfl⟩

/-- What a query may do to the identities: drop some, and add one that satisfies `new`
under the next id. -/
structure Relinks (new : Option (String × String) → Prop) (db db' : Db) : Prop where
  next : db.nextUserId ≤ db'.nextUserId
  rows : db'.identities.Sublist db.identities ∨
    ∃ l o, l.Sublist db.identities ∧ new o ∧ db'.identities = l ++ [(db.nextUserId, o)] ∧
      db.nextUserId < db'.nextUserId

theorem relinks_of_sublist (hn : db.nextUserId ≤ db'.nextUserId)
    (h : db'.identities.Sublist db.identities) : Relinks new db db' := ⟨hn, .inl h⟩

theorem Relinks.refl (db : Db) : Relinks new db db := relinks_of_sublist (le_refl _) (.refl _)

structure Identified (db : Db) : Prop where
  drawn : ∀ p ∈ db.identities, p.1 < db.nextUserId
  distinct : (db.identities.map Prod.fst).Nodup

theorem Relinks.mem (h : Relinks new db db') {p : Int × Option (String × String)}
    (hp : p ∈ db'.identities) : p ∈ db.identities ∨ p.1 = db.nextUserId ∧ new p.2 := by
  rcases h.rows with hs | ⟨l, o, hs, ho, heq, -⟩
  · exact .inl (hs.subset hp)
  rw [heq, mem_append, mem_singleton] at hp
  rcases hp with hp | hp
  · exact .inl (hs.subset hp)
  · exact .inr (by rw [hp]; exact ⟨rfl, ho⟩)

/-- A query that relinks keeps ids drawn and distinct. -/
theorem Relinks.identified (h : Relinks new db db') (hdb : db.Identified) : db'.Identified := by
  rcases h.rows with hs | ⟨l, o, hs, -, heq, hlt⟩
  · constructor
    · intro p hp
      have := hdb.drawn p (hs.subset hp)
      have := h.next
      omega
    · exact hdb.distinct.sublist (hs.map Prod.fst)
  constructor
  · intro p hp
    rw [heq, mem_append, mem_singleton] at hp
    rcases hp with hp | hp
    · have := hdb.drawn p (hs.subset hp)
      omega
    · rw [hp]
      exact hlt
  · rw [heq, map_append, nodup_append]
    refine ⟨hdb.distinct.sublist (hs.map Prod.fst), by simp, ?_⟩
    -- every older id is below the one drawn now
    intro i hi j hj
    obtain ⟨p, hp, rfl⟩ := mem_map.mp hi
    have := hdb.drawn p (hs.subset hp)
    simp only [map_cons, map_nil, mem_singleton] at hj
    omega

/-- The id has been drawn, and any row it has is linked as `o`. -/
structure StandsFor (id : Int) (o : Option (String × String)) (db : Db) : Prop where
  drawn : id < db.nextUserId
  linked : ∀ p ∈ db.identities, p.1 = id → p.2 = o

variable {o : Option (String × String)}

theorem Identified.standsFor (h : db.Identified) {id : Int} (hm : (id, o) ∈ db.identities) :
    db.StandsFor id o where
  drawn := h.drawn _ hm
  linked _ hp hid := congrArg Prod.snd (inj_on_of_nodup_map h.distinct hp hm hid)

theorem StandsFor.relinks {id : Int} (h : db.StandsFor id o)
    (hr : Relinks new db db') : db'.StandsFor id o where
  drawn := lt_of_lt_of_le h.drawn hr.next
  linked p hp hid := by
    rcases hr.mem hp with hold | ⟨hn, -⟩
    · exact h.linked p hold hid
    · have := h.drawn
      omega

section Queries

variable {f : User → User}

theorem identities_updateUser {id : Int} (hid : ∀ u, (f u).id = u.id)
    (ho : ∀ u, (f u).oidc = u.oidc) : (db.updateUser id f).identities = db.identities := by
  simp only [identities, updateUser, map_map]
  apply map_congr_left
  intro u _
  by_cases h : u.id = id <;> simp [h, hid, ho]

theorem relinks_updateUser {id : Int} (hid : ∀ u, (f u).id = u.id) (ho : ∀ u, (f u).oidc = u.oidc) :
    Relinks new db (db.updateUser id f) := by
  refine relinks_of_sublist (le_refl _) ?_
  rw [identities_updateUser hid ho]

theorem identities_deleteUsers (p : User → Bool) :
    (db.deleteUsers p).identities.Sublist db.identities := filter_sublist.map _

theorem owners_deleteUsers (p : User → Bool) : (db.deleteUsers p).owners ⊆ db.owners :=
  (filter_sublist.map _).subset

variable {lower : String → String} {mk : Int → User}

theorem relinks_insertUser {o : Option (String × String)} (hid : ∀ id, (mk id).id = id)
    (ho : ∀ id, (mk id).oidc = o) (hn : new o) : Relinks new db (db.insertUser lower mk).2 := by
  unfold insertUser
  split
  · exact .refl db
  dsimp only
  split
  · exact relinks_of_sublist (by simp) (.refl _)
  · refine ⟨by simp, .inr ⟨db.identities, o, .refl _, hn, ?_, by simp⟩⟩
    simp [identities, hid, ho]

theorem owners_insertUser : (db.insertUser lower mk).2.owners = db.owners := by
  unfold insertUser
  split
  · rfl
  · dsimp only
    split <;> rfl

theorem relinks_createOIDCUser {username : Option String} {issuer subject : String} :
    Relinks (· = some (issuer, subject)) db (db.createOIDCUser lower username issuer subject).2 :=
    by
  unfold createOIDCUser
  split
  · exact .refl db
  · exact relinks_insertUser (fun _ => rfl) (fun _ => rfl) rfl

variable {p : User → Bool}

theorem Relinks.of_deleteUsers (h : Relinks new (db.deleteUsers p) db') : Relinks new db db' := by
  refine ⟨h.next, ?_⟩
  rcases h.rows with hs | ⟨l, o, hs, ho, heq, hlt⟩
  · exact .inl (hs.trans (identities_deleteUsers p))
  · exact .inr ⟨l, o, hs.trans (identities_deleteUsers p), ho, heq, hlt⟩

theorem createAdmin_cases (db : Db) (lower : String → String) (arg : CreateAdminParams) :
    let inserted := (db.deleteUnconfirmedUsers.insertUser lower arg.row).2
    (db.createAdmin lower arg).2 = { db with nextUserId := inserted.nextUserId } ∨
      inserted.SameAccounts (db.createAdmin lower arg).2 := by
  unfold createAdmin
  dsimp only
  split
  · exact .inl rfl
  split
  · exact .inl rfl
  · rename_i h
    exact .inr (sameAccounts_insertRecoveryCodes h)

variable {arg : CreateAdminParams}

theorem relinks_createAdmin : Relinks (· = none) db (db.createAdmin lower arg).2 := by
  have hi : Relinks (· = none) db (db.deleteUnconfirmedUsers.insertUser lower arg.row).2 :=
    .of_deleteUsers (relinks_insertUser (fun _ => rfl) (fun _ => rfl) rfl)
  rcases createAdmin_cases db lower arg with heq | hs
  · rw [heq]
    exact relinks_of_sublist hi.next (.refl _)
  rcases hi with ⟨hn, hr⟩
  refine ⟨by rw [hs.nextUserId]; exact hn, ?_⟩
  rw [identities, hs.users, hs.nextUserId]
  exact hr

theorem owners_createAdmin : (db.createAdmin lower arg).2.owners ⊆ db.owners := by
  rcases createAdmin_cases db lower arg with heq | hs
  · rw [heq]
    exact List.Subset.refl _
  have hk : (db.createAdmin lower arg).2.owners = db.deleteUnconfirmedUsers.owners := by
    rw [owners, hs.sessions, ← owners, owners_insertUser]
  rw [hk]
  exact owners_deleteUsers _

variable {tokenHash : String}

theorem owners_markSessionReauth {now : Time} :
    (db.markSessionReauth now tokenHash).owners = db.owners := by
  simp only [owners, markSessionReauth, map_map]
  apply map_congr_left
  intro s _
  by_cases h : s.tokenHash = tokenHash <;> simp [h]

/-- The foreign key of `sessions`. -/
def Referenced (db : Db) : Prop := ∀ p ∈ db.owners, ∃ q ∈ db.identities, q.1 = p.2

theorem Referenced.mono (h : db.Referenced) (ho : db'.owners ⊆ db.owners)
    (hi : db.identities ⊆ db'.identities) : db'.Referenced := by
  intro p hp
  obtain ⟨q, hq, hid⟩ := h p (ho hp)
  exact ⟨q, hi hq, hid⟩

theorem Referenced.deleteUsers (h : db.Referenced) : (db.deleteUsers p).Referenced := by
  intro o ho
  obtain ⟨s, hs, rfl⟩ := mem_map.mp ho
  simp only [Db.deleteUsers, mem_filter, Bool.not_eq_true', any_eq_false,
    decide_eq_true_eq, not_and, Bool.not_eq_true] at hs
  obtain ⟨q, hq, hid⟩ := h _ (mem_owners hs.1)
  obtain ⟨u, hu, rfl⟩ := mem_map.mp hq
  refine ⟨(u.id, u.oidc), mem_identities ?_, hid⟩
  simp only [Db.deleteUsers, mem_filter, Bool.not_eq_true']
  exact ⟨hu, hs.2 u hu hid⟩

theorem Referenced.insertUser (h : db.Referenced) : (db.insertUser lower mk).2.Referenced := by
  refine h.mono (by rw [owners_insertUser]; exact List.Subset.refl _) ?_
  unfold Db.insertUser
  split
  · exact List.Subset.refl _
  dsimp only
  split
  · exact List.Subset.refl _
  · simp [identities]

theorem Referenced.createAdmin (h : db.Referenced) : (db.createAdmin lower arg).2.Referenced := by
  rcases createAdmin_cases db lower arg with heq | hs
  · rw [heq]
    exact h
  have hi : (db.deleteUnconfirmedUsers.insertUser lower arg.row).2.Referenced :=
    h.deleteUsers.insertUser
  apply hi.mono
  · intro p hp
    rwa [owners, hs.sessions] at hp
  · intro q hq
    rwa [identities, hs.users]

variable {userId : Int} {expiresAt : Time}

/-- A session is created for an existing user or not at all. -/
theorem Referenced.createSession (h : db.Referenced) :
    (db.createSession tokenHash userId expiresAt).2.Referenced := by
  unfold Db.createSession
  split
  · exact h
  split
  · exact h
  split
  · exact h
  rename_i hf
  obtain ⟨u, hu, hid⟩ : ∃ u ∈ db.users, u.id = userId :=
    findUser_isSome.mp (by simpa [Option.isSome_iff_ne_none] using hf)
  intro p hp
  simp only [owners, map_append, map_cons, map_nil, mem_append,
    mem_singleton] at hp
  rcases hp with hp | rfl
  · exact h p hp
  · exact ⟨_, mem_identities hu, hid⟩

theorem mem_owners_createSession {p : String × Int}
    (h : p ∈ (db.createSession tokenHash userId expiresAt).2.owners) :
    p ∈ db.owners ∨ p = (tokenHash, userId) := by
  unfold createSession at h
  split at h
  · exact .inl h
  split at h
  · exact .inl h
  split at h
  · exact .inl h
  · simpa [owners] using h

end Queries

end Db

def StoreCall.Links : StoreCall → Option (String × String) → Prop
  | createOIDCUser _ issuer subject, o => o = some (issuer, subject)
  | createAdmin _, o => o = none
  | _, _ => False

section Run

variable {P : Primitives} {now : Time} {db : Db}

/-- What a query does to identities is what its call says. -/
theorem relinks_run (q : StoreCall) : Db.Relinks q.Links db (q.run P now db).2 := by
  cases q with
  | createOIDCUser username issuer subject => exact Db.relinks_createOIDCUser
  | createAdmin arg => exact Db.relinks_createAdmin
  | confirmUserTOTP id =>
    simp only [StoreCall.run, Db.confirmUserTOTP]
    split
    · exact .refl db
    · exact Db.relinks_updateUser (fun _ => rfl) fun _ => rfl
  | incrementFailedLogins id =>
    simp only [StoreCall.run, Db.incrementFailedLogins]
    split
    · exact Db.relinks_updateUser (fun _ => rfl) fun _ => rfl
    · exact .refl db
  | lockUser | resetFailedLogins => exact Db.relinks_updateUser (fun _ => rfl) fun _ => rfl
  | createSession tokenHash userId expiresAt =>
    simp only [StoreCall.run, Db.createSession]
    repeat' split
    all_goals exact Db.relinks_of_sublist (le_refl _) (.refl _)
  | consumeRecoveryCode userId codeHash =>
    simp only [StoreCall.run, Db.consumeRecoveryCode]
    split <;> exact Db.relinks_of_sublist (le_refl _) (.refl _)
  | appendAuditEntry e =>
    simp only [StoreCall.run, Db.appendAuditEntry]
    split <;> exact Db.relinks_of_sublist (le_refl _) (.refl _)
  | upsertSetting key value =>
    simp only [StoreCall.run, Db.upsertSetting]
    split <;> exact Db.relinks_of_sublist (le_refl _) (.refl _)
  | deleteSession _ | markSessionReauth _ | countConfirmedAdmins | getUserByUsername _
  | getUserByID _ | getUserByOIDC _ _ | getSession _ | touchSession _ =>
    exact Db.relinks_of_sublist (le_refl _) (.refl _)

/-- No query leaves a session without its user. -/
theorem referenced_run (q : StoreCall) (h : db.Referenced) : (q.run P now db).2.Referenced := by
  have hu : ∀ id f, (∀ u : User, (f u).id = u.id) → (∀ u : User, (f u).oidc = u.oidc) →
      (db.updateUser id f).Referenced := by
    intro id f hid ho
    refine h.mono (List.Subset.refl _) ?_
    rw [Db.identities_updateUser hid ho]
    exact List.Subset.refl _
  cases q with
  | createSession tokenHash userId expiresAt => exact h.createSession
  | createAdmin arg => exact h.createAdmin
  | createOIDCUser username issuer subject =>
    simp only [StoreCall.run, Db.createOIDCUser]
    split
    · exact h
    · exact h.insertUser
  | confirmUserTOTP id =>
    simp only [StoreCall.run, Db.confirmUserTOTP]
    split
    · exact h
    · exact hu _ _ (fun _ => rfl) fun _ => rfl
  | incrementFailedLogins id =>
    simp only [StoreCall.run, Db.incrementFailedLogins]
    split
    · exact hu _ _ (fun _ => rfl) fun _ => rfl
    · exact h
  | lockUser _ _ | resetFailedLogins _ => exact hu _ _ (fun _ => rfl) fun _ => rfl
  | deleteSession tokenHash =>
    exact h.mono (filter_sublist.map _).subset (List.Subset.refl _)
  | markSessionReauth tokenHash =>
    intro p hp
    exact h p (Db.owners_markSessionReauth ▸ hp)
  | consumeRecoveryCode userId codeHash =>
    simp only [StoreCall.run, Db.consumeRecoveryCode]
    split <;> exact h
  | appendAuditEntry e =>
    simp only [StoreCall.run, Db.appendAuditEntry]
    split <;> exact h
  | upsertSetting key value =>
    simp only [StoreCall.run, Db.upsertSetting]
    split <;> exact h
  | countConfirmedAdmins | getUserByUsername _ | getUserByID _ | getUserByOIDC _ _ | getSession _
  | touchSession _ => exact h

/-- Sessions come from `createSession` alone. -/
theorem mem_owners_run {q : StoreCall} {p : String × Int} (hp : p ∈ (q.run P now db).2.owners) :
    p ∈ db.owners ∨ ∃ expiresAt, q = .createSession p.1 p.2 expiresAt := by
  cases q with
  | createSession tokenHash userId expiresAt =>
    rcases Db.mem_owners_createSession hp with hp | rfl
    · exact .inl hp
    · exact .inr ⟨expiresAt, rfl⟩
  | createAdmin arg => exact .inl (Db.owners_createAdmin hp)
  | createOIDCUser username issuer subject =>
    simp only [StoreCall.run, Db.createOIDCUser] at hp
    split at hp
    · exact .inl hp
    · exact .inl (Db.owners_insertUser ▸ hp)
  | deleteSession tokenHash => exact .inl ((filter_sublist.map _).subset hp)
  | markSessionReauth tokenHash => exact .inl (Db.owners_markSessionReauth ▸ hp)
  | confirmUserTOTP id =>
    simp only [StoreCall.run, Db.confirmUserTOTP] at hp
    split at hp <;> exact .inl hp
  | incrementFailedLogins id =>
    simp only [StoreCall.run, Db.incrementFailedLogins] at hp
    split at hp <;> exact .inl hp
  | consumeRecoveryCode userId codeHash =>
    simp only [StoreCall.run, Db.consumeRecoveryCode] at hp
    split at hp <;> exact .inl hp
  | appendAuditEntry e =>
    simp only [StoreCall.run, Db.appendAuditEntry] at hp
    split at hp <;> exact .inl hp
  | upsertSetting key value =>
    simp only [StoreCall.run, Db.upsertSetting] at hp
    split at hp <;> exact .inl hp
  | lockUser _ _ | resetFailedLogins _ | countConfirmedAdmins | getUserByUsername _
  | getUserByID _ | getUserByOIDC _ _ | getSession _ | touchSession _ => exact .inl hp

end Run

section Exec

variable {P : Primitives} {faulty : Bool} {w w' : World}

def Call.Links : Call → Option (String × String) → Prop
  | .store q => q.Links
  | _ => fun _ => False

variable {c : Call}

theorem exec_keeps {R : Db → Prop} (hR : ∀ (q : StoreCall) now db, R db → R (q.run P now db).2)
    {x : c.Reply} (hx : (machine P faulty).exec c w x w') (h : R w.db) : R w'.db := by
  rcases (exec_frame hx).1 with hdb | ⟨q, rfl⟩
  · rwa [hdb]
  obtain ⟨now, ⟨-, hdb⟩ | ⟨-, hdb | hdb⟩⟩ := exec_store hx <;> rw [hdb]
  · exact hR q now w.db h
  · exact h
  · exact hR q now w.db h

theorem exec_relinks {x : c.Reply} (hx : (machine P faulty).exec c w x w') :
    Db.Relinks c.Links w.db w'.db := by
  rcases (exec_frame hx).1 with hdb | ⟨q, rfl⟩
  · rw [hdb]
    exact .refl _
  obtain ⟨now, ⟨-, hdb⟩ | ⟨-, hdb | hdb⟩⟩ := exec_store hx <;> rw [hdb]
  · exact relinks_run q
  · exact .refl _
  · exact relinks_run q

theorem mem_owners_exec {x : c.Reply} (hx : (machine P faulty).exec c w x w') {p : String × Int}
    (hp : p ∈ w'.db.owners) :
    p ∈ w.db.owners ∨ ∃ expiresAt, c = .store (.createSession p.1 p.2 expiresAt) := by
  rcases (exec_frame hx).1 with hdb | ⟨q, rfl⟩
  · exact .inl (hdb ▸ hp)
  obtain ⟨now, ⟨-, hdb⟩ | ⟨-, hdb | hdb⟩⟩ := exec_store hx <;> rw [hdb] at hp
  · exact (mem_owners_run hp).imp_right fun ⟨e, he⟩ => ⟨e, congrArg _ he⟩
  · exact .inl hp
  · exact (mem_owners_run hp).imp_right fun ⟨e, he⟩ => ⟨e, congrArg _ he⟩

end Exec

end Orkano.Dashboard
