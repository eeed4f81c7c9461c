import Mathlib.Algebra.Order.Group.Int
import Orkano.Dashboard.Auth.Store

/-!
Invariants of the account tables, and `Db.Evolves`, which every write respects: the row of a
confirmed or linked user is never deleted or replaced, and no id is drawn again.
-/
namespace Orkano.Dashboard

open List

structure User.SameAccount (u v : User) : Prop where
  id : v.id = u.id
  username : v.username = u.username
  passwordHash : v.passwordHash = u.passwordHash
  totpSecret : v.totpSecret = u.totpSecret
  oidc : v.oidc = u.oidc

namespace User

theorem SameAccount.refl (u : User) : u.SameAccount u := ⟨rfl, rfl, rfl, rfl, rfl⟩

theorem SameAccount.trans {u v w : User} (h1 : u.SameAccount v) (h2 : v.SameAccount w) :
    u.SameAccount w :=
  ⟨h2.id.trans h1.id, h2.username.trans h1.username, h2.passwordHash.trans h1.passwordHash,
    h2.totpSecret.trans h1.totpSecret, h2.oidc.trans h1.oidc⟩

theorem SameAccount.linked {u v : User} (h : u.SameAccount v) : v.linked = u.linked := by
  rw [User.linked, User.linked, h.oidc]

def Admissible (u : User) : Prop := u.confirmed = true ∨ u.linked = true

structure Becomes (u v : User) : Prop where
  account : u.SameAccount v
  confirmed : u.confirmed = true → v.confirmed = true

theorem Becomes.refl (u : User) : u.Becomes u := ⟨.refl u, fun h => h⟩

theorem Becomes.trans {u v w : User} (h1 : u.Becomes v) (h2 : v.Becomes w) : u.Becomes w :=
  ⟨h1.account.trans h2.account, h2.confirmed ∘ h1.confirmed⟩

theorem Becomes.admissible {u v : User} (h : u.Becomes v) (hu : u.Admissible) : v.Admissible :=
  hu.imp h.confirmed (h.account.linked ▸ ·)

end User

namespace Db

structure Safe (db : Db) : Prop where
  drawn : ∀ u ∈ db.users, u.id < db.nextUserId
  distinct : (db.users.map User.id).Nodup
  single : ∀ u ∈ db.users, ∀ v ∈ db.users, u.confirmed → v.confirmed → u.id = v.id
  owned : ∀ s ∈ db.sessions, ∃ u ∈ db.users, u.id = s.userId ∧ u.Admissible

structure Fresh (db : Db) : Prop where
  users : db.users = []
  sessions : db.sessions = []

structure Evolves (db db' : Db) : Prop where
  next : db.nextUserId ≤ db'.nextUserId
  kept : ∀ u ∈ db.users, u.Admissible → ∃ u' ∈ db'.users, u.Becomes u'
  gone : ∀ id < db.nextUserId, (∀ u ∈ db.users, u.id ≠ id) → ∀ u ∈ db'.users, u.id ≠ id

theorem Evolves.refl (db : Db) : db.Evolves db where
  next := le_refl _
  kept u hu _ := ⟨u, hu, .refl u⟩
  gone _ _ h := h

theorem Evolves.trans {db1 db2 db3 : Db} (h1 : db1.Evolves db2) (h2 : db2.Evolves db3) :
    db1.Evolves db3 where
  next := h1.next.trans h2.next
  kept u hu ha := by
    obtain ⟨u', hu', hb⟩ := h1.kept u hu ha
    obtain ⟨u'', hu'', hb'⟩ := h2.kept u' hu' (hb.admissible ha)
    exact ⟨u'', hu'', hb.trans hb'⟩
  gone id hid h := h2.gone id (lt_of_lt_of_le hid h1.next) (h1.gone id hid h)

/-- A user may get a session now and at any later time: the row is admissible, or
its id has been drawn and is gone. -/
def Ready (id : Int) (db : Db) : Prop :=
  (∃ u ∈ db.users, u.id = id ∧ u.Admissible) ∨ id < db.nextUserId ∧ ∀ u ∈ db.users, u.id ≠ id

theorem Ready.evolves {id : Int} {db db' : Db} (h : Ready id db) (he : db.Evolves db') :
    Ready id db' := by
  rcases h with ⟨u, hu, rfl, ha⟩ | ⟨hid, hg⟩
  · obtain ⟨u', hu', hb⟩ := he.kept u hu ha
    exact .inl ⟨u', hu', hb.account.id, hb.admissible ha⟩
  · exact .inr ⟨lt_of_lt_of_le hid he.next, he.gone id hid hg⟩

structure SameAccounts (db db' : Db) : Prop where
  users : db'.users = db.users
  nextUserId : db'.nextUserId = db.nextUserId
  sessions : db'.sessions = db.sessions

/-- A write that keeps the invariant and evolves the accounts. -/
def Keeps (db db' : Db) : Prop := db.Safe → db'.Safe ∧ db.Evolves db'

theorem Keeps.refl (db : Db) : db.Keeps db := fun h => ⟨h, .refl db⟩

theorem Keeps.trans {db1 db2 db3 : Db} (h1 : db1.Keeps db2) (h2 : db2.Keeps db3) :
    db1.Keeps db3 := fun h =>
  have ⟨hs, he⟩ := h1 h
  have ⟨hs', he'⟩ := h2 hs
  ⟨hs', he.trans he'⟩

theorem SameAccounts.keeps {db db' : Db} (h : db.SameAccounts db') : db.Keeps db' := by
  obtain ⟨hu, hn, hs⟩ := h
  intro hdb
  refine ⟨⟨?_, ?_, ?_, ?_⟩, ⟨hn.ge, ?_, ?_⟩⟩
  · simpa only [hu, hn] using hdb.drawn
  · simpa only [hu] using hdb.distinct
  · simpa only [hu] using hdb.single
  · simpa only [hu, hs] using hdb.owned
  · exact fun u hm _ => ⟨u, hu ▸ hm, .refl u⟩
  · exact fun id _ hg => by simpa only [hu] using hg

section Update

variable {db : Db} {id : Int} {f : User → User}

theorem mem_updateUser {u' : User} :
    u' ∈ (db.updateUser id f).users ↔ ∃ u ∈ db.users, (if u.id = id then f u else u) = u' := by
  simp [updateUser]

/-- Updating one row of an account, with at most one account confirmed afterwards. -/
theorem keeps_updateUser (hf : ∀ u : User, u.Becomes (f u))
    (hsn : ∀ u ∈ db.users, ∀ v ∈ db.users, u.id = id → v.id ≠ id → (f u).confirmed →
      v.confirmed → u.confirmed) : db.Keeps (db.updateUser id f) := by
  have hb : ∀ u : User, u.Becomes (if u.id = id then f u else u) := by
    intro u
    split
    · exact hf u
    · exact .refl u
  intro hdb
  refine ⟨⟨?_, ?_, ?_, ?_⟩, ⟨le_refl _, ?_, ?_⟩⟩
  · intro u' hu'
    obtain ⟨u, hu, rfl⟩ := mem_updateUser.mp hu'
    rw [(hb u).account.id]
    exact hdb.drawn u hu
  · have hi : (db.updateUser id f).users.map User.id = db.users.map User.id := by
      simp only [updateUser, map_map]
      exact map_congr_left fun u _ => (hb u).account.id
    rw [hi]
    exact hdb.distinct
  · intro u' hu' v' hv' hcu hcv
    obtain ⟨u, hu, rfl⟩ := mem_updateUser.mp hu'
    obtain ⟨v, hv, rfl⟩ := mem_updateUser.mp hv'
    rw [(hb u).account.id, (hb v).account.id]
    -- a row that is not the updated one was confirmed before
    by_cases hiu : u.id = id <;> by_cases hiv : v.id = id
    · rw [hiu, hiv]
    · rw [if_pos hiu] at hcu
      rw [if_neg hiv] at hcv
      exact hdb.single u hu v hv (hsn u hu v hv hiu hiv hcu hcv) hcv
    · rw [if_neg hiu] at hcu
      rw [if_pos hiv] at hcv
      exact hdb.single u hu v hv hcu (hsn v hv u hu hiv hiu hcv hcu)
    rw [if_neg hiu] at hcu
    rw [if_neg hiv] at hcv
    exact hdb.single u hu v hv hcu hcv
  · intro s hs
    obtain ⟨u, hu, hid, ha⟩ := hdb.owned s hs
    exact ⟨_, mem_updateUser.mpr ⟨u, hu, rfl⟩, (hb u).account.id.trans hid,
      (hb u).admissible ha⟩
  · exact fun u hu _ => ⟨_, mem_updateUser.mpr ⟨u, hu, rfl⟩, hb u⟩
  intro i _ hg u' hu'
  obtain ⟨u, hu, rfl⟩ := mem_updateUser.mp hu'
  rw [(hb u).account.id]
  exact hg u hu

theorem keeps_updateUser_of_confirmed_eq (hf : ∀ u : User, u.SameAccount (f u))
    (hc : ∀ u, (f u).confirmed = u.confirmed) : db.Keeps (db.updateUser id f) :=
  keeps_updateUser (fun u => ⟨hf u, (hc u).trans⟩) fun u _ _ _ _ _ h _ => (hc u).symm.trans h

theorem findUser_isSome : (db.findUser id).isSome ↔ ∃ u ∈ db.users, u.id = id := by
  simp [findUser]

theorem mem_of_findUser {u : User} (h : db.findUser id = some u) : u ∈ db.users ∧ u.id = id :=
  ⟨mem_of_find?_eq_some h, by simpa using find?_some h⟩

theorem keeps_confirmUserTOTP (now : Time) : db.Keeps (db.confirmUserTOTP now id).2 := by
  unfold confirmUserTOTP
  split
  · exact .refl db
  rename_i hf
  refine keeps_updateUser (fun u => ⟨⟨rfl, rfl, rfl, rfl, rfl⟩, fun _ => rfl⟩) ?_
  -- the unique index was free, so no other row is confirmed
  intro u hu v hv hid hne _ hcv
  refine absurd ⟨findUser_isSome.mpr ⟨u, hu, hid⟩, ?_⟩ hf
  exact any_eq_true.mpr ⟨v, hv, by simp [hne, hcv]⟩

theorem ready_of_confirmUserTOTP {now : Time} (hid : id < db.nextUserId)
    (h : (db.confirmUserTOTP now id).1 = .ok ()) : Ready id (db.confirmUserTOTP now id).2 := by
  unfold confirmUserTOTP at h ⊢
  split at h
  · cases h
  rename_i hf
  rw [if_neg hf]
  by_cases hex : ∃ u ∈ db.users, u.id = id
  · obtain ⟨u, hu, rfl⟩ := hex
    exact .inl ⟨_, mem_updateUser.mpr ⟨u, hu, if_pos rfl⟩, rfl, .inl rfl⟩
  refine .inr ⟨hid, fun u' hu' => ?_⟩
  obtain ⟨u, hu, rfl⟩ := mem_updateUser.mp hu'
  have hne : u.id ≠ id := fun h => hex ⟨u, hu, h⟩
  rwa [if_neg hne]

end Update

section Rows

variable {db : Db}

theorem keeps_drawn {n : Int} (hn : db.nextUserId ≤ n) : db.Keeps { db with nextUserId := n } :=
  fun hdb => ⟨⟨fun u hu => lt_of_lt_of_le (hdb.drawn u hu) hn, hdb.distinct, hdb.single, hdb.owned⟩,
    ⟨hn, fun u hu _ => ⟨u, hu, .refl u⟩, fun _ _ h => h⟩⟩

variable {u : User}

/-- A new account that is not confirmed disturbs no other. -/
theorem keeps_insert (hid : u.id = db.nextUserId) (hc : u.confirmed = false) :
    db.Keeps { db with nextUserId := db.nextUserId + 1, users := db.users ++ [u] } := by
  intro hdb
  refine ⟨⟨?_, ?_, ?_, ?_⟩, ⟨by dsimp only; omega, ?_, ?_⟩⟩
  · intro v hv
    rcases mem_append.mp hv with hv | hv
    · have := hdb.drawn v hv
      dsimp only
      omega
    rw [mem_singleton.mp hv, hid]
    dsimp only
    omega
  · have hf : db.nextUserId ∉ db.users.map User.id := by
      intro h
      obtain ⟨v, hv, hvd⟩ := mem_map.mp h
      have := hdb.drawn v hv
      omega
    rw [map_append, nodup_append]
    refine ⟨hdb.distinct, by simp, ?_⟩
    rintro a ha b hb rfl
    rw [map_singleton, mem_singleton, hid] at hb
    exact hf (hb ▸ ha)
  · have hold : ∀ v ∈ db.users ++ [u], v.confirmed → v ∈ db.users := by
      intro v hv hcv
      rcases mem_append.mp hv with hv | hv
      · exact hv
      · rw [mem_singleton.mp hv, hc] at hcv
        cases hcv
    exact fun v hv w hw hcv hcw => hdb.single v (hold v hv hcv) w (hold w hw hcw) hcv hcw
  · intro s hs
    obtain ⟨v, hv, h⟩ := hdb.owned s hs
    exact ⟨v, mem_append_left _ hv, h⟩
  · exact fun v hv _ => ⟨v, mem_append_left _ hv, .refl v⟩
  intro i hi hg v hv
  rcases mem_append.mp hv with hv | hv
  · exact hg v hv
  · rw [mem_singleton.mp hv, hid]
    omega

variable {lower : String → String} {mk : Int → User}

theorem keeps_insertUser (hmk : ∀ id, (mk id).id = id ∧ (mk id).confirmed = false) :
    db.Keeps (db.insertUser lower mk).2 := by
  unfold insertUser
  split
  · exact .refl db
  dsimp only
  split
  · exact keeps_drawn (by omega)
  · exact keeps_insert (hmk _).1 (hmk _).2

theorem mem_insertUser (h : (db.insertUser lower mk).1 = .ok u) :
    u = mk db.nextUserId ∧ u ∈ (db.insertUser lower mk).2.users := by
  unfold insertUser at h ⊢
  split at h
  · cases h
  rename_i hn
  rw [if_neg hn]
  dsimp only at h ⊢
  split at h
  · cases h
  · cases h
    simp

/-- Accounts may be deleted that can have no session. -/
theorem keeps_deleteUsers {p : User → Bool} (hp : ∀ u, p u → ¬ u.Admissible) :
    db.Keeps (db.deleteUsers p) := by
  have hst : ∀ u ∈ db.users, u.Admissible → u ∈ (db.deleteUsers p).users := by
    intro u hu ha
    refine mem_filter.mpr ⟨hu, ?_⟩
    simpa using fun h => hp u h ha
  have hsb : ∀ u ∈ (db.deleteUsers p).users, u ∈ db.users := fun u hu =>
    (mem_filter.mp hu).1
  intro hdb
  refine ⟨⟨?_, ?_, ?_, ?_⟩, ⟨le_refl _, ?_, ?_⟩⟩
  · exact fun u hu => hdb.drawn u (hsb u hu)
  · exact hdb.distinct.sublist (filter_sublist.map User.id)
  · exact fun u hu v hv => hdb.single u (hsb u hu) v (hsb v hv)
  · intro s hs
    obtain ⟨u, hu, hid, ha⟩ := hdb.owned s (mem_filter.mp hs).1
    exact ⟨u, hst u hu ha, hid, ha⟩
  · exact fun u hu ha => ⟨u, hst u hu ha, .refl u⟩
  · exact fun i _ hg u hu => hg u (hsb u hu)

theorem keeps_deleteUnconfirmedUsers : db.Keeps db.deleteUnconfirmedUsers :=
  keeps_deleteUsers fun u hu ha => by
    simp only [Bool.and_eq_true, Bool.not_eq_true'] at hu
    rcases ha with ha | ha
    · simp [ha] at hu
    · simp [ha] at hu

variable {userId : Int}

/-- Recovery codes touch neither accounts nor sessions. -/
theorem sameAccounts_insertRecoveryCodes {ha : List String} {db' : Db}
    (h : ha.foldlM (fun d hash => d.insertRecoveryCode userId hash) db = .ok db') :
    db.SameAccounts db' := by
  induction ha generalizing db with
  | nil =>
    cases h
    exact ⟨rfl, rfl, rfl⟩
  | cons hash ha ih =>
    rw [foldlM_cons] at h
    cases hi : db.insertRecoveryCode userId hash with
    | error e => simp [hi, bind, Except.bind] at h
    | ok db1 =>
      have hs : db.SameAccounts db1 := by
        unfold insertRecoveryCode at hi
        split at hi
        · cases hi
        · split at hi <;> cases hi
          exact ⟨rfl, rfl, rfl⟩
      have hr := ih (by simpa [hi, bind, Except.bind] using h)
      exact ⟨hr.users.trans hs.users, hr.nextUserId.trans hs.nextUserId,
        hr.sessions.trans hs.sessions⟩

theorem keeps_createAdmin {arg : CreateAdminParams} : db.Keeps (db.createAdmin lower arg).2 := by
  unfold createAdmin
  dsimp only
  have hi : db.Keeps (db.deleteUnconfirmedUsers.insertUser lower arg.row).2 :=
    keeps_deleteUnconfirmedUsers.trans (keeps_insertUser fun _ => ⟨rfl, rfl⟩)
  split
  · exact fun hdb => keeps_drawn (hi hdb).2.next hdb
  split
  · exact fun hdb => keeps_drawn (hi hdb).2.next hdb
  · rename_i h
    exact hi.trans (sameAccounts_insertRecoveryCodes h).keeps

variable {username : Option String}

theorem keeps_createOIDCUser {issuer subject : String} :
    db.Keeps (db.createOIDCUser lower username issuer subject).2 := by
  unfold createOIDCUser
  split
  · exact .refl db
  · exact keeps_insertUser fun _ => ⟨rfl, rfl⟩

theorem ready_of_createOIDCUser {issuer subject : String}
    (h : (db.createOIDCUser lower username issuer subject).1 = .ok u) :
    Ready u.id (db.createOIDCUser lower username issuer subject).2 := by
  unfold createOIDCUser at h ⊢
  split at h
  · cases h
  · obtain ⟨hu, hm⟩ := mem_insertUser h
    exact .inl ⟨u, hm, rfl, .inr (by rw [hu]; rfl)⟩

/-- A session is created only for a row that exists, and so for an admissible one. -/
theorem keeps_createSession {tokenHash : String} {expiresAt : Time} (hr : Ready userId db) :
    db.Keeps (db.createSession tokenHash userId expiresAt).2 := by
  unfold createSession
  split
  · exact .refl db
  split
  · exact .refl db
  split
  · exact .refl db
  rename_i hf
  obtain ⟨u, hu, hid⟩ : ∃ u ∈ db.users, u.id = userId :=
    findUser_isSome.mp (by simpa [Option.isSome_iff_ne_none] using hf)
  have ha : ∃ u ∈ db.users, u.id = userId ∧ u.Admissible :=
    hr.resolve_right fun h => h.2 u hu hid
  refine fun hdb => ⟨⟨hdb.drawn, hdb.distinct, hdb.single, fun s hs => ?_⟩,
    ⟨le_refl _, fun v hv _ => ⟨v, hv, .refl v⟩, fun _ _ h => h⟩⟩
  rcases mem_append.mp hs with hs | hs
  · exact hdb.owned s hs
  · rw [mem_singleton.mp hs]
    exact ha

theorem keeps_sessions {sessions : List Session}
    (h : ∀ s ∈ sessions, ∃ s' ∈ db.sessions, s'.userId = s.userId) :
    db.Keeps { db with sessions } := by
  refine fun hdb => ⟨⟨hdb.drawn, hdb.distinct, hdb.single, fun s hs => ?_⟩,
    ⟨le_refl _, fun v hv _ => ⟨v, hv, .refl v⟩, fun _ _ h => h⟩⟩
  obtain ⟨s', hs', hid⟩ := h s hs
  exact hid ▸ hdb.owned s' hs'

end Rows

end Db

end Orkano.Dashboard
