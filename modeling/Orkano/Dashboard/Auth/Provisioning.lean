import Orkano.Dashboard.Auth.AuditTrail

/-!
The row of an identity that signs in for the first time. Its username is cut to a number of
bytes, while the column counts characters and takes only valid UTF-8.
-/
namespace Orkano.Dashboard

open Interleave Program List

section Username

def displayName (id : Identity) : String := if id.email = "" then id.subject else id.email

/-- What the claims of an identity are taken to be: its key fits the columns, and its email has
no NUL either. -/
structure Identity.Storable (id : Identity) : Prop where
  issuer : Db.textBetween 1 512 id.issuer = true
  subject : Db.textBetween 1 255 id.subject = true
  email : '\x00' ∉ id.email.toList

/-- The name is short enough, or some of its characters take up exactly the bytes there are. -/
def CutsBetween (name : String) : Prop :=
  name.utf8ByteSize ≤ maxUsernameLen ∨
    ∃ front, front <+: name.toList ∧ String.utf8Len front = maxUsernameLen

def FitsUsername (username : String) : Prop := Db.textBetween 1 maxUsernameLen username = true

theorem takeBytes_append (front rest : List Char) :
    takeBytes (String.utf8Len front) (front ++ rest) = some front := by
  induction front with
  | nil => cases rest <;> simp [takeBytes]
  | cons c front ih =>
    have hp := c.utf8Size_pos
    rw [cons_append, String.utf8Len_cons, takeBytes, if_neg (by omega), if_pos (by omega),
      Nat.add_sub_cancel, ih, Option.map_some]

/-- Bytes that can be taken end with a whole character. -/
theorem utf8Len_of_takeBytes {n : ℕ} {text front : List Char} (h : takeBytes n text = some front)
    (hn : n ≤ String.utf8Len text) : front <+: text ∧ String.utf8Len front = n := by
  induction text generalizing n front with
  | nil =>
    obtain rfl : [] = front := Option.some.inj h
    exact ⟨prefix_rfl, (Nat.le_zero.mp hn).symm⟩
  | cons c text ih =>
    rw [takeBytes] at h
    split at h
    · rename_i h0
      obtain rfl : [] = front := Option.some.inj h
      refine ⟨?_, h0.symm⟩
      exact nil_prefix
    split at h
    · rename_i hle
      obtain ⟨front, hf, rfl⟩ := Option.map_eq_some_iff.mp h
      rw [String.utf8Len_cons] at hn
      obtain ⟨hpre, hlen⟩ := ih hf (by omega)
      refine ⟨cons_prefix_cons.mpr ⟨rfl, hpre⟩, ?_⟩
      rw [String.utf8Len_cons, hlen]
      omega
    · cases h

variable {id : Identity}

theorem provisionedUsername_eq (id : Identity) : provisionedUsername id =
    if (displayName id).utf8ByteSize > maxUsernameLen then
      (takeBytes maxUsernameLen (displayName id).toList).map String.ofList
    else some (displayName id) := rfl

theorem displayName_ne_empty (h : id.Storable) : displayName id ≠ "" := by
  unfold displayName
  split
  · intro he
    have hl := h.subject
    rw [he] at hl
    exact absurd hl (by decide)
  · assumption

theorem nul_notMem_displayName (h : id.Storable) : '\x00' ∉ (displayName id).toList := by
  unfold displayName
  split
  · exact (Db.textBetween_iff.mp h.subject).2
  · exact h.email

theorem fitsUsername_of_bytes {username : String} (hne : username ≠ "")
    (hb : username.utf8ByteSize ≤ maxUsernameLen) (hn : '\x00' ∉ username.toList) :
    FitsUsername username := by
  have hp : 0 < username.length := by
    rw [Nat.pos_iff_ne_zero]
    simpa using hne
  have hle := (AuditTrail.length_le_utf8ByteSize username).trans hb
  exact Db.textBetween_iff.mpr ⟨⟨hp, hle⟩, hn⟩

/-- Cut between two characters, the username is text that fits the column. -/
theorem provisionedUsername_fits (h : id.Storable) (hc : CutsBetween (displayName id)) :
    ∃ username, provisionedUsername id = some username ∧ FitsUsername username := by
  have hnl := nul_notMem_displayName h
  by_cases hs : (displayName id).utf8ByteSize ≤ maxUsernameLen
  · refine ⟨displayName id, ?_, fitsUsername_of_bytes (displayName_ne_empty h) hs hnl⟩
    rw [provisionedUsername_eq, if_neg (Nat.not_lt.mpr hs)]
  obtain ⟨front, ⟨rest, hr⟩, hsm⟩ := hc.resolve_left hs
  refine ⟨String.ofList front, ?_, fitsUsername_of_bytes ?_ ?_ ?_⟩
  · rw [provisionedUsername_eq, if_pos (Nat.lt_of_not_le hs), ← hr, ← hsm, takeBytes_append,
      Option.map_some]
  · intro he
    have hf : front = [] := by simpa using congrArg String.toList he
    rw [hf] at hsm
    cases hsm
  · rw [String.utf8ByteSize_ofList, hsm]
  rw [String.toList_ofList]
  intro hm
  exact hnl (hr ▸ mem_append_left rest hm)

theorem cutsBetween_of_provisionedUsername {username : String}
    (h : provisionedUsername id = some username) : CutsBetween (displayName id) := by
  by_cases hs : (displayName id).utf8ByteSize ≤ maxUsernameLen
  · exact .inl hs
  rw [provisionedUsername_eq, if_pos (Nat.lt_of_not_le hs)] at h
  obtain ⟨front, hf, -⟩ := Option.map_eq_some_iff.mp h
  have hlen : String.utf8Len (displayName id).toList = (displayName id).utf8ByteSize := by
    rw [← String.utf8ByteSize_ofList, String.ofList_toList]
  exact .inr ⟨front, utf8Len_of_takeBytes hf (by omega)⟩

end Username

section SignIn

variable {P : Primitives} {id : Identity} {username : String} {w : World}

def Identity.key (id : Identity) : Option (String × String) := some (id.issuer, id.subject)

def Db.holds (db : Db) (id : Identity) : Prop := ∃ v ∈ db.users, v.oidc = id.key

/-- What others may do to the store in the meantime: anything that gives the username to no
other identity, leaves ids, and keeps the row of the identity. -/
structure Meanwhile (P : Primitives) (id : Identity) (username : String) (w w' : World) : Prop where
  ids : w'.db.nextUserId < 2 ^ 63
  free : ∀ v ∈ w'.db.users, P.lower v.username = P.lower username → v.oidc = id.key
  kept : w.db.holds id → w'.db.holds id

/-- A call to a store that does not fail from outside, after whatever others did. -/
def amidSignIns (P : Primitives) (id : Identity) (username : String) (c : Call) (w : World)
    (x : c.Reply) (w' : World) : Prop :=
  ∃ w₁, Meanwhile P id username w w₁ ∧ (machine P false).exec c w₁ x w'

variable {db : Db}

theorem getUserByOIDC_of_holds (h : db.holds id) :
    ∃ u, db.getUserByOIDC id.issuer id.subject = .ok u := by
  obtain ⟨v, hv, hk⟩ := h
  unfold Db.getUserByOIDC
  cases hf : db.users.find? fun u => u.oidc = some (id.issuer, id.subject) with
  | some u => exact ⟨u, rfl⟩
  | none =>
    rw [find?_eq_none] at hf
    exact absurd (decide_eq_true hk) (hf v hv)

def oidcRow (username : String) (id : Identity) (uid : Int) : User where
  id := uid
  username := username
  passwordHash := ""
  totpSecret := ""
  totpConfirmedAt := none
  failedLogins := 0
  lockedUntil := none
  oidc := id.key

/-- The row passes every check, and an index refuses it only to an identity that has one. -/
theorem admitsUser_oidcRow (h : id.Storable) (hft : FitsUsername username) (uid : Int)
    (hfr : ∀ v ∈ db.users, P.lower v.username = P.lower username → v.oidc = id.key) :
    db.admitsUser P.lower (oidcRow username id uid) = .ok () ∨
      db.admitsUser P.lower (oidcRow username id uid) = .error .uniqueViolation ∧ db.holds id := by
  have hc : (Db.textBetween 1 254 username && Db.textBetween 0 255 "" &&
      Db.textBetween 0 255 "" &&
      (Db.textBetween 1 512 id.issuer && Db.textBetween 1 255 id.subject)) = true := by
    rw [h.issuer, h.subject, show Db.textBetween 1 254 username = true from hft]
    decide
  have ha : db.admitsUser P.lower (oidcRow username id uid) =
      if db.users.any (fun v => P.lower v.username = P.lower username) then .error .uniqueViolation
      else if db.users.any (fun v => v.oidc = id.key) then .error .uniqueViolation
      else .ok () :=
    if_neg fun hf => absurd ((congrArg Bool.not hc).symm.trans hf) (by decide)
  rw [ha]
  by_cases hn : db.users.any (fun v => P.lower v.username = P.lower username) = true
  · obtain ⟨v, hv, hl⟩ := any_eq_true.mp hn
    rw [if_pos hn]
    exact .inr ⟨rfl, v, hv, hfr v hv (of_decide_eq_true hl)⟩
  by_cases hk : db.users.any (fun v => v.oidc = id.key) = true
  · obtain ⟨v, hv, ho⟩ := any_eq_true.mp hk
    rw [if_neg hn, if_pos hk]
    exact .inr ⟨rfl, v, hv, of_decide_eq_true ho⟩
  · rw [if_neg hn, if_neg hk]
    exact .inl rfl

/-- The user is created, or one of the identity is there already. -/
theorem createOIDCUser_or_holds (h : id.Storable)
    (hn : provisionedUsername id = some username) (hf : FitsUsername username)
    (hi : db.nextUserId < 2 ^ 63)
    (hfr : ∀ v ∈ db.users, P.lower v.username = P.lower username → v.oidc = id.key) :
    (∃ u, (db.createOIDCUser P.lower (provisionedUsername id) id.issuer id.subject).1 = .ok u) ∨
      (db.createOIDCUser P.lower (provisionedUsername id) id.issuer id.subject).2.holds id := by
  have hc : db.createOIDCUser P.lower (some username) id.issuer id.subject =
      db.insertUser P.lower (oidcRow username id) := rfl
  rw [hn, hc, Db.insertUser, if_neg (by omega)]
  dsimp only
  rcases admitsUser_oidcRow h hf db.nextUserId hfr with ha | ⟨ha, hh⟩
  · rw [ha]
    exact .inl ⟨_, rfl⟩
  · rw [ha]
    exact .inr hh

theorem getUserByOIDC_cases (db : Db) (issuer subject : String) :
    (∃ u, db.getUserByOIDC issuer subject = .ok u) ∨
      db.getUserByOIDC issuer subject = .error .noRows := by
  unfold Db.getUserByOIDC
  cases db.users.find? fun u => u.oidc = some (issuer, subject) with
  | some u => exact .inl ⟨u, rfl⟩
  | none => exact .inr rfl

/-- A sign-in with a username that fits comes by a row, whatever others do meanwhile. -/
theorem ensures_resolveOIDCUser (h : id.Storable) (hn : provisionedUsername id = some username)
    (hf : FitsUsername username) : Ensures (amidSignIns P id username) (resolveOIDCUser id) w
      fun result _ => ∃ uid name, result = .ok (uid, name) := by
  simp only [resolveOIDCUser, storeCall, call, perform_bind, ensures_call]
  rintro x w1 ⟨w0, -, hg⟩
  obtain ⟨now, rfl, -⟩ := exec_store_sound hg
  simp only [StoreCall.run]
  rcases getUserByOIDC_cases w0.db id.issuer id.subject with ⟨u, hu⟩ | hnn
  · rw [hu]
    exact ensures_done.mpr ⟨_, _, rfl⟩
  rw [hnn]
  simp only [ensures_call]
  rintro x w3 ⟨w2, hm, hcr⟩
  obtain ⟨now, rfl, hdb⟩ := exec_store_sound hcr
  have hc := createOIDCUser_or_holds h hn hf hm.ids hm.free
  have hs : (w2.db.createOIDCUser P.lower (provisionedUsername id) id.issuer id.subject).2.holds id →
      w3.db.holds id := by
    intro hh
    rw [hdb]
    split
    · exact hh
    · exact hh
  simp only [StoreCall.run]
  cases hr : (w2.db.createOIDCUser P.lower (provisionedUsername id) id.issuer id.subject).1 with
  | ok u => exact ensures_done.mpr ⟨_, _, rfl⟩
  | error e =>
    -- Someone else has stored the row, and it is read again.
    have hh : w3.db.holds id := by
      rcases hc with ⟨u, hu⟩ | hh
      · rw [hr] at hu
        cases hu
      · exact hs hh
    simp only [ensures_call]
    rintro x w5 ⟨w4, hm', ha⟩
    obtain ⟨now, rfl, -⟩ := exec_store_sound ha
    obtain ⟨u, hu⟩ := getUserByOIDC_of_holds (hm'.kept hh)
    simp only [StoreCall.run, hu]
    exact ensures_done.mpr ⟨_, _, rfl⟩

/-- An identity that fits the store has a username that is text and fits its column, with which
the sign-in comes by a row unless the username is another identity's, exactly when its name is
cut between two characters. -/
theorem identity_provisioned (P : Primitives) {id : Identity} (h : id.Storable) :
    (∃ username, provisionedUsername id = some username ∧ FitsUsername username ∧
      ∀ w result w', Runs (amidSignIns P id username) (resolveOIDCUser id) w result w' →
        ∃ uid name, result = .ok (uid, name)) ↔
      CutsBetween (displayName id) := by
  constructor
  · rintro ⟨username, hname, -⟩
    exact cutsBetween_of_provisionedUsername hname
  · intro hcut
    obtain ⟨username, hname, hfits⟩ := provisionedUsername_fits h hcut
    exact ⟨username, hname, hfits, fun w => (ensures_resolveOIDCUser h hname hfits).post⟩

end SignIn

section Samples

def sampleAuthenticator : Authenticator := ⟨[], ["platform"], fun _ _ _ _ => ""⟩

def memberWithEmail (email : List Char) : Identity :=
  ⟨"subject-1", "https://idp.example", String.ofList email, false, ["platform"]⟩

variable {email : List Char}

theorem memberWithEmail_storable (h : '\x00' ∉ email) : (memberWithEmail email).Storable := by
  have hi : Db.textBetween 1 512 "https://idp.example" = true := by decide
  have hs : Db.textBetween 1 255 "subject-1" = true := by decide
  refine ⟨hi, hs, ?_⟩
  simp [memberWithEmail, h]

theorem displayName_memberWithEmail (h : email ≠ []) :
    displayName (memberWithEmail email) = String.ofList email :=
  if_neg fun he => h (by simpa [memberWithEmail] using congrArg String.toList he)

def longEmail : List Char := List.replicate 254 'a' ++ ['é']

/-- An email of 256 bytes that is cut between two characters. -/
theorem longEmail_provisioned : sampleAuthenticator.authorize samplePrimitives
      (memberWithEmail longEmail) = true ∧
    ∃ username, provisionedUsername (memberWithEmail longEmail) = some username ∧
      FitsUsername username := by
  have hcut : CutsBetween (displayName (memberWithEmail longEmail)) := by
    rw [displayName_memberWithEmail (by decide)]
    refine .inr ⟨List.replicate 254 'a', ?_, by decide +kernel⟩
    rw [String.toList_ofList]
    exact prefix_append _ _
  obtain ⟨username, hname, hfits, -⟩ := (identity_provisioned samplePrimitives
    (memberWithEmail_storable (by decide))).mpr hcut
  exact ⟨by rfl, username, hname, hfits⟩

def splitEmail : List Char := List.replicate 253 'a' ++ ['é']

theorem provisionedUsername_splitEmail : provisionedUsername (memberWithEmail splitEmail) = none := by
  rw [provisionedUsername_eq, displayName_memberWithEmail (by decide), String.utf8ByteSize_ofList,
    String.toList_ofList, if_pos (by decide +kernel)]
  decide +kernel

theorem resolveOIDCUser_unprovisioned {id : Identity} (h : provisionedUsername id = none) :
    ∃ w, Runs (machine samplePrimitives false).exec (resolveOIDCUser id) emptyWorld
      (.error .other) w := by
  have hf : ((machine samplePrimitives false).simulate (samplePick 0) (resolveOIDCUser id)
      emptyWorld).map Prod.fst = some (.error .other) := by
    unfold resolveOIDCUser
    rw [h]
    rfl
  exact ⟨_, (machine samplePrimitives false).runs_after hf⟩

/-- An allowed identity whose email fits the column as it is, but is cut inside a character:
the store refuses the row, and the sign-in fails. -/
theorem email_cut_inside_character :
    sampleAuthenticator.authorize samplePrimitives (memberWithEmail splitEmail) = true ∧
    (memberWithEmail splitEmail).Storable ∧
    Db.textBetween 1 maxUsernameLen (memberWithEmail splitEmail).email = true ∧
    provisionedUsername (memberWithEmail splitEmail) = none ∧
    ∃ w, Runs (machine samplePrimitives false).exec (resolveOIDCUser (memberWithEmail splitEmail))
      emptyWorld (.error .other) w := by
  have hfits : Db.textBetween 1 maxUsernameLen (memberWithEmail splitEmail).email = true := by
    rw [Db.textBetween, memberWithEmail, String.length_ofList]
    decide +kernel
  exact ⟨by rfl, memberWithEmail_storable (by decide), hfits, provisionedUsername_splitEmail,
    resolveOIDCUser_unprovisioned provisionedUsername_splitEmail⟩

end Samples

end Orkano.Dashboard
