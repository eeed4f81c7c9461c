import Orkano.Dashboard.Auth.OIDCIntegrity
import Orkano.Text.Lines
import Orkano.Text.Runes

/-!
Recovery codes: normalisation forgets separators and case and nothing else, codes do not
collide, and a code is spent by a conditional update, so it is good for one sign-in.
-/
namespace Orkano.Dashboard

open Interleave Program Text List

def isSeparator (c : Char) : Bool := c ∈ ['-', ' ', '\t', '\n', '\r']

/-- One edit of a typed code: a separator put in or left out, or a letter in the other
case. -/
inductive Edit : List Char → List Char → Prop where
  | insert {c : Char} (l r : List Char) : isSeparator c → Edit (l ++ r) (l ++ c :: r)
  | delete {c : Char} (l r : List Char) : isSeparator c → Edit (l ++ c :: r) (l ++ r)
  | recase {c d : Char} (l r : List Char) : d ∈ [c.toLower, c.toUpper] →
      Edit (l ++ c :: r) (l ++ d :: r)

def Retyped (code typed : String) : Prop := Relation.ReflTransGen Edit code.toList typed.toList

/-- What is left of a text: its characters other than separators, in upper case. -/
def residue (l : List Char) : List Char := (l.filter fun c => !isSeparator c).map Char.toUpper

theorem ascii_recase {c d : Char} (hc : isASCII c = true) (hd : d ∈ [c.toLower, c.toUpper]) :
    isASCII d = true ∧ d.toUpper = c.toUpper ∧ isSeparator d = isSeparator c := by
  have ha : [c.toLower, c.toUpper].all (fun d =>
      isASCII d && d.toUpper = c.toUpper && isSeparator d = isSeparator c) = true := by
    revert hc
    apply forall_isASCII
    decide +kernel
  simpa [and_assoc] using all_eq_true.mp ha d hd

theorem isASCII_of_isSeparator {c : Char} (hc : isSeparator c = true) : isASCII c = true := by
  simp only [isSeparator, decide_eq_true_eq, mem_cons, not_mem_nil, or_false] at hc
  rcases hc with rfl | rfl | rfl | rfl | rfl <;> rfl

/-- No edit changes what is left of a code. -/
theorem residue_edit {l l' : List Char} (h : Edit l l') (hl : ∀ c ∈ l, isASCII c = true) :
    (∀ c ∈ l', isASCII c = true) ∧ residue l' = residue l := by
  cases h with
  | @insert c l r hc =>
    refine ⟨fun d hd => ?_, by simp [residue, hc]⟩
    simp only [mem_append, mem_cons] at hd hl
    rcases hd with hd | rfl | hd
    · exact hl d (.inl hd)
    · exact isASCII_of_isSeparator hc
    · exact hl d (.inr hd)
  | @delete c l r hc =>
    refine ⟨fun d hd => ?_, by simp [residue, hc]⟩
    simp only [mem_append, mem_cons] at hd hl
    exact hl d (hd.imp_right .inr)
  | @recase c d l r hd =>
    obtain ⟨ha, hup, hs⟩ := ascii_recase (hl c (by simp)) hd
    refine ⟨fun e he => ?_, by simp [residue, filter_cons, hs, apply_ite, hup]⟩
    simp only [mem_append, mem_cons] at he hl
    rcases he with he | rfl | he
    · exact hl e (.inl he)
    · exact ha
    · exact hl e (.inr (.inr he))

theorem residue_retyped {l l' : List Char} (h : Relation.ReflTransGen Edit l l')
    (hl : ∀ c ∈ l, isASCII c = true) : (∀ c ∈ l', isASCII c = true) ∧ residue l' = residue l := by
  induction h with
  | refl => exact ⟨hl, rfl⟩
  | tail _ he ih =>
    obtain ⟨ha, hr⟩ := residue_edit he ih.1
    exact ⟨ha, hr.trans ih.2⟩

section Codes

variable {P : Primitives}

/-- Go's upper case agrees with ASCII's where both are defined. -/
def Primitives.UpperASCII (P : Primitives) : Prop := ∀ c, isASCII c = true → P.toUpper c = c.toUpper

theorem normalizeRecoveryCode_eq (hP : P.UpperASCII) {code : String}
    (hcd : ∀ c ∈ code.toList, isASCII c = true) :
    normalizeRecoveryCode P code = String.ofList (residue code.toList) := by
  unfold normalizeRecoveryCode residue
  congr 1
  have hf : (code.toList.filter fun r => decide (r ∉ ['-', ' ', '\t', '\n', '\r'])) =
      code.toList.filter fun c => !isSeparator c := by
    apply filter_congr
    intro c _
    simp [isSeparator]
  rw [hf]
  apply map_congr_left
  intro c hc
  exact hP c (hcd c (mem_filter.mp hc).1)

theorem recoverySymbol_plain (b : UInt8) : isASCII (recoverySymbol b) = true ∧
    isSeparator (recoverySymbol b) = false ∧ (recoverySymbol b).toUpper = recoverySymbol b := by
  have ha : recoveryAlphabet.all (fun c => isASCII c && !isSeparator c && c.toUpper = c) = true := by
    decide +kernel
  have hp : ∀ c ∈ recoveryAlphabet, isASCII c = true ∧ isSeparator c = false ∧ c.toUpper = c := by
    simpa [and_assoc] using ha
  apply hp
  have hlt : b.toNat % recoveryAlphabet.length < recoveryAlphabet.length :=
    Nat.mod_lt _ (by decide +kernel)
  simp [recoverySymbol, hlt]

theorem filter_intercalate {α : Type} (p : α → Bool) {sep : α} (hs : p sep = false)
    (ls : List (List α)) : ([sep].intercalate ls).filter p = (ls.map (List.filter p)).flatten := by
  induction ls with
  | nil => rfl
  | cons l ls ih =>
    cases ls with
    | nil => simp [List.intercalate]
    | cons m ls =>
      simp only [List.intercalate, intersperse_cons_cons, flatten_cons, filter_append,
        map_cons] at ih ⊢
      rw [ih]
      simp [hs]

variable {buf : List UInt8}

/-- Without its separators, a new code is one symbol for each random byte. -/
theorem filter_newRecoveryCode (hb : buf.length = recoveryGroups * recoveryGroupLen) :
    ((newRecoveryCode buf).toList.filter fun c => !isSeparator c) = buf.map recoverySymbol := by
  have hp : ∀ l : List UInt8, ((l.map recoverySymbol).filter fun c => !isSeparator c) =
      l.map recoverySymbol := by
    intro l
    apply filter_eq_self.mpr
    intro c hc
    obtain ⟨b, -, rfl⟩ := mem_map.mp hc
    simp [(recoverySymbol_plain b).2.1]
  simp only [newRecoveryCode, String.toList_intercalate, map_map]
  rw [show ("-" : String).toList = ['-'] from rfl, filter_intercalate _ (by decide), map_map]
  have hg : (List.filter fun c => !isSeparator c) ∘ String.toList ∘ (fun g =>
      String.ofList (((buf.map recoverySymbol).drop (g * recoveryGroupLen)).take recoveryGroupLen))
        =
      fun g => ((buf.map recoverySymbol).drop (g * recoveryGroupLen)).take recoveryGroupLen := by
    funext g
    simp only [Function.comp_apply, String.toList_ofList, ← map_drop, ← map_take, hp]
  rw [hg, flatten_groups, take_of_length_le (by simp [hb])]

theorem isASCII_newRecoveryCode (buf : List UInt8) :
    ∀ c ∈ (newRecoveryCode buf).toList, isASCII c = true := by
  intro c hc
  simp only [newRecoveryCode, String.toList_intercalate, map_map] at hc
  by_cases hs : isSeparator c = true
  · exact isASCII_of_isSeparator hs
  have hm : c ∈ (("-" : String).toList.intercalate _).filter fun c => !isSeparator c :=
    mem_filter.mpr ⟨hc, by simpa using hs⟩
  rw [show ("-" : String).toList = ['-'] from rfl, filter_intercalate _ (by decide)] at hm
  simp only [map_map, mem_flatten, mem_map, mem_range, Function.comp_apply,
    String.toList_ofList] at hm
  obtain ⟨_, ⟨g, -, rfl⟩, hm⟩ := hm
  have hm := mem_of_mem_drop (mem_of_mem_take (mem_filter.mp hm).1)
  obtain ⟨b, -, rfl⟩ := mem_map.mp hm
  exact (recoverySymbol_plain b).1

theorem residue_newRecoveryCode (hb : buf.length = recoveryGroups * recoveryGroupLen) :
    residue (newRecoveryCode buf).toList = buf.map recoverySymbol := by
  rw [residue, filter_newRecoveryCode hb, map_map]
  apply map_congr_left
  intro b _
  exact (recoverySymbol_plain b).2.2

theorem newRecoveryCode_inj {buf' : List UInt8}
    (h : buf.map recoverySymbol = buf'.map recoverySymbol) :
    newRecoveryCode buf = newRecoveryCode buf' := by
  simp only [newRecoveryCode, h]

variable {faulty : Bool} {w w' : World} {n : ℕ} {plain hashes : List String}

theorem exec_generateRecoveryCodes
    (h : (machine P faulty).exec (.generateRecoveryCodes n) w (some (plain, hashes)) w') :
    ∃ bufs : List (List UInt8), (∀ b ∈ bufs, b.length = recoveryGroups * recoveryGroupLen) ∧
      plain = bufs.map newRecoveryCode ∧ hashes = plain.map (hashRecoveryCode P) := by
  obtain ⟨_ | bufs, hk⟩ := h
  · cases hk
  simp only [machine, answer, generated] at hk
  split at hk
  · rename_i hok
    simp only [Option.some.injEq, Prod.mk.injEq] at hk
    obtain ⟨⟨hp, hh⟩, -⟩ := hk
    simp only [decide_eq_true_eq, all_eq_true] at hok
    exact ⟨bufs, hok.2, hp.symm, by rw [← hh, hp]⟩
  · cases hk

theorem hash_retyped (hP : P.UpperASCII) {typed : String}
    (h : Retyped (newRecoveryCode buf) typed) :
    hashRecoveryCode P typed = hashRecoveryCode P (newRecoveryCode buf) := by
  have ha := isASCII_newRecoveryCode buf
  obtain ⟨ha', hr⟩ := residue_retyped h ha
  rw [hashRecoveryCode, hashRecoveryCode, normalizeRecoveryCode_eq hP ha',
    normalizeRecoveryCode_eq hP ha, hr]

theorem hash_injective (hP : P.UpperASCII) (hs : Function.Injective P.sha256Hex)
    {buf' : List UInt8} (hb : buf.length = recoveryGroups * recoveryGroupLen)
    (hb' : buf'.length = recoveryGroups * recoveryGroupLen)
    (h : hashRecoveryCode P (newRecoveryCode buf) = hashRecoveryCode P (newRecoveryCode buf')) :
    newRecoveryCode buf = newRecoveryCode buf' := by
  have hn := hs h
  rw [normalizeRecoveryCode_eq hP (isASCII_newRecoveryCode buf),
    normalizeRecoveryCode_eq hP (isASCII_newRecoveryCode buf'), String.ofList_inj,
    residue_newRecoveryCode hb, residue_newRecoveryCode hb'] at hn
  exact newRecoveryCode_inj hn

end Codes

namespace Db

variable {db db' : Db}

/-- The rows a query leaves: older rows, never less spent than before, and rows of users
drawn by the query. -/
structure CodesFrom (db db' : Db) : Prop where
  next : db.nextUserId ≤ db'.nextUserId
  rows : ∀ r' ∈ db'.recoveryCodes,
    (∃ r ∈ db.recoveryCodes, r.userId = r'.userId ∧ r.codeHash = r'.codeHash ∧
      (r.usedAt.isSome → r'.usedAt.isSome)) ∨
    db.nextUserId ≤ r'.userId ∧ r'.userId < db'.nextUserId

theorem codesFrom_of_subset (hn : db.nextUserId ≤ db'.nextUserId)
    (h : db'.recoveryCodes ⊆ db.recoveryCodes) : CodesFrom db db' :=
  ⟨hn, fun r' hr' => .inl ⟨r', h hr', rfl, rfl, id⟩⟩

theorem CodesFrom.refl (db : Db) : CodesFrom db db :=
  codesFrom_of_subset (le_refl _) (List.Subset.refl _)

variable {lower : String → String} {mk : Int → User}

theorem recoveryCodes_insertUser : (db.insertUser lower mk).2.recoveryCodes = db.recoveryCodes := by
  unfold insertUser
  split
  · rfl
  · dsimp only
    split <;> rfl

theorem next_insertUser {u : User} (h : (db.insertUser lower mk).1 = .ok u) :
    (db.insertUser lower mk).2.nextUserId = db.nextUserId + 1 := by
  unfold insertUser at h ⊢
  split at h
  · cases h
  rename_i hn
  rw [if_neg hn]
  dsimp only at h ⊢
  split at h
  · cases h
  · rfl

variable {userId : Int}

/-- New rows are those of the one user. -/
theorem recoveryCodes_insertAll {hashes : List String}
    (h : hashes.foldlM (fun d hash => d.insertRecoveryCode userId hash) db = .ok db') :
    ∀ r ∈ db'.recoveryCodes, r ∈ db.recoveryCodes ∨ r.userId = userId := by
  induction hashes generalizing db with
  | nil =>
    cases h
    exact fun r hr => .inl hr
  | cons hash hashes ih =>
    rw [foldlM_cons] at h
    cases hi : db.insertRecoveryCode userId hash with
    | error e => simp [hi, bind, Except.bind] at h
    | ok db1 =>
      intro r hr
      rcases ih (by simpa [hi, bind, Except.bind] using h) r hr with hr | hr
      · unfold insertRecoveryCode at hi
        split at hi
        · cases hi
        split at hi <;> cases hi
        simp only [mem_append, mem_singleton] at hr
        rcases hr with hr | rfl
        · exact .inl hr
        · exact .inr rfl
      · exact .inr hr

theorem codesFrom_createAdmin {arg : CreateAdminParams} :
    CodesFrom db (db.createAdmin lower arg).2 := by
  have hl : Relinks (fun _ => True) db.deleteUnconfirmedUsers
      (db.deleteUnconfirmedUsers.insertUser lower arg.row).2 :=
    relinks_insertUser (o := none) (fun _ => rfl) (fun _ => rfl) trivial
  have hn : db.nextUserId ≤ (db.deleteUnconfirmedUsers.insertUser lower arg.row).2.nextUserId :=
    hl.next
  unfold createAdmin
  dsimp only
  split
  · exact codesFrom_of_subset hn (List.Subset.refl _)
  rename_i user hc
  split
  · exact codesFrom_of_subset hn (List.Subset.refl _)
  rename_i db2 hcd
  have hs := sameAccounts_insertRecoveryCodes hcd
  obtain ⟨hrw, -⟩ := mem_insertUser hc
  have hid : user.id = db.nextUserId := by
    rw [hrw]
    rfl
  have hd : db2.nextUserId = db.nextUserId + 1 := by
    rw [hs.nextUserId, next_insertUser hc]
    rfl
  refine ⟨by dsimp only; omega, fun r hr => ?_⟩
  rcases recoveryCodes_insertAll hcd r hr with hold | hnw
  · rw [recoveryCodes_insertUser] at hold
    exact .inl ⟨r, (mem_filter.mp hold).1, rfl, rfl, id⟩
  · exact .inr (by dsimp only; omega)

variable {codeHash : String}

theorem codesFrom_consumeRecoveryCode {now : Time} :
    CodesFrom db (db.consumeRecoveryCode now userId codeHash).2 := by
  unfold consumeRecoveryCode
  dsimp only
  split
  · refine ⟨le_refl _, fun r' hr' => .inl ?_⟩
    obtain ⟨r, hr, rfl⟩ := mem_map.mp hr'
    refine ⟨r, hr, ?_⟩
    split <;> simp
  · exact .refl db

/-- A code is consumed only while it is unused, and is used then. -/
theorem consumeRecoveryCode_ok {now : Time}
    (h : (db.consumeRecoveryCode now userId codeHash).1 = .ok ()) :
    (∃ r ∈ db.recoveryCodes, r.userId = userId ∧ r.codeHash = codeHash ∧ r.usedAt = none) ∧
    ∀ r ∈ (db.consumeRecoveryCode now userId codeHash).2.recoveryCodes, r.userId = userId →
      r.codeHash = codeHash → r.usedAt.isSome := by
  unfold consumeRecoveryCode at h ⊢
  dsimp only at h ⊢
  split at h
  · rename_i ha
    rw [if_pos ha]
    constructor
    · obtain ⟨r, hr, hr'⟩ := any_eq_true.mp ha
      exact ⟨r, hr, of_decide_eq_true hr'⟩
    intro r' hr' hu hh
    obtain ⟨r, hr, rfl⟩ := mem_map.mp hr'
    by_cases hun : r.userId = userId ∧ r.codeHash = codeHash ∧ r.usedAt = none
    · simp [hun]
    simp only [hun, decide_false, Bool.false_eq_true, if_false] at hu hh ⊢
    rw [Option.isSome_iff_ne_none]
    exact fun hn => hun ⟨hu, hh, hn⟩
  · cases h

end Db

section Spending

variable {P : Primitives} {visit : ℕ → Visit} {faulty : Bool} {t : ℕ} {s s' : World × Journal}

/-- No query makes a spent code good again, or gives an old user new ones. -/
theorem codesFrom_run {now : Time} {db : Db} (q : StoreCall) :
    Db.CodesFrom db (q.run P now db).2 := by
  have hl : Db.Relinks q.Links db (q.run P now db).2 := relinks_run q
  have hn := hl.next
  cases q with
  | createAdmin arg => exact Db.codesFrom_createAdmin
  | consumeRecoveryCode userId codeHash => exact Db.codesFrom_consumeRecoveryCode
  | createOIDCUser username issuer subject =>
    refine Db.codesFrom_of_subset hn ?_
    simp only [StoreCall.run, Db.createOIDCUser]
    split
    · exact List.Subset.refl _
    · rw [Db.recoveryCodes_insertUser]
      exact List.Subset.refl _
  | confirmUserTOTP id =>
    simp only [StoreCall.run, Db.confirmUserTOTP]
    split <;> exact Db.codesFrom_of_subset (le_refl _) (List.Subset.refl _)
  | incrementFailedLogins id =>
    simp only [StoreCall.run, Db.incrementFailedLogins]
    split <;> exact Db.codesFrom_of_subset (le_refl _) (List.Subset.refl _)
  | createSession tokenHash userId expiresAt =>
    simp only [StoreCall.run, Db.createSession]
    repeat' split
    all_goals exact Db.codesFrom_of_subset (le_refl _) (List.Subset.refl _)
  | appendAuditEntry e =>
    simp only [StoreCall.run, Db.appendAuditEntry]
    split <;> exact Db.codesFrom_of_subset (le_refl _) (List.Subset.refl _)
  | upsertSetting key value =>
    simp only [StoreCall.run, Db.upsertSetting]
    split <;> exact Db.codesFrom_of_subset (le_refl _) (List.Subset.refl _)
  | lockUser _ _ | resetFailedLogins _ | deleteSession _ | markSessionReauth _
  | countConfirmedAdmins | getUserByUsername _ | getUserByID _ | getUserByOIDC _ _ | getSession _
  | touchSession _ => exact Db.codesFrom_of_subset (le_refl _) (List.Subset.refl _)

variable {c : Call}

theorem exec_codesFrom {x : c.Reply} {w w' : World} (hx : (machine P faulty).exec c w x w') :
    Db.CodesFrom w.db w'.db := by
  rcases (exec_frame hx).1 with hdb | ⟨q, rfl⟩
  · rw [hdb]
    exact .refl _
  obtain ⟨now, ⟨-, hdb⟩ | ⟨-, hdb | hdb⟩⟩ := exec_store hx <;> rw [hdb]
  · exact codesFrom_run q
  · exact .refl _
  · exact codesFrom_run q

structure SpentOnce (s : World × Journal) : Prop where
  drawn : ∀ r ∈ s.1.db.recoveryCodes, r.userId < s.1.db.nextUserId
  spent : ∀ e ∈ s.2.redeemed, e.2.1 < s.1.db.nextUserId ∧
    ∀ r ∈ s.1.db.recoveryCodes, r.userId = e.2.1 → r.codeHash = e.2.2 → r.usedAt.isSome
  once : (s.2.redeemed.map Prod.snd).Nodup

theorem SpentOnce.codesFrom {w' : World} (h : SpentOnce s) (hc : Db.CodesFrom s.1.db w'.db) :
    SpentOnce (w', s.2) := by
  have hn := hc.next
  refine ⟨fun r' hr' => ?_, fun e he => ?_, h.once⟩
  · rcases hc.rows r' hr' with ⟨r, hr, hu, -⟩ | ⟨-, hlt⟩
    · have := h.drawn r hr
      dsimp only
      omega
    · exact hlt
  obtain ⟨hd, hs⟩ := h.spent e he
  refine ⟨lt_of_lt_of_le hd hn, fun r' hr' hu hh => ?_⟩
  rcases hc.rows r' hr' with ⟨r, hr, hru, hrh, hus⟩ | ⟨hge, -⟩
  · exact hus (hs r hr (hru.trans hu) (hrh.trans hh))
  · omega

theorem redeemed_record {x : c.Reply} {j : Journal} :
    (j.record t c x).redeemed = j.redeemed ∨
      ∃ userId codeHash, (⟨c, x⟩ : Σ c : Call, c.Reply) =
          ⟨.store (.consumeRecoveryCode userId codeHash), .ok ()⟩ ∧
        (j.record t c x).redeemed = (t, userId, codeHash) :: j.redeemed := by
  unfold Journal.record
  split
  case h_5 => exact .inr ⟨_, _, rfl, rfl⟩
  all_goals exact .inl rfl

/-- One answered call: a code that is redeemed was unused until now. -/
theorem SpentOnce.exec {x : c.Reply} (h : SpentOnce s)
    (hx : (journaled P visit faulty).exec t c s x s') : SpentOnce s' := by
  obtain ⟨w, j⟩ := s
  obtain ⟨w', j'⟩ := s'
  obtain ⟨⟨hec, -⟩, hj⟩ := hx
  have hc := exec_codesFrom hec
  have hold := h.codesFrom hc
  have hj : j' = j.record t c x := hj
  subst hj
  rcases redeemed_record (t := t) (x := x) (j := j) with hs | ⟨userId, codeHash, hcl, hcn⟩
  · exact ⟨hold.drawn, by rw [hs]; exact hold.spent, by rw [hs]; exact hold.once⟩
  cases hcl
  obtain ⟨now, ⟨hok, hdb⟩ | ⟨her, -⟩⟩ := exec_store hec
  · obtain ⟨⟨r, hr, hu, hh, hun⟩, hsp⟩ := Db.consumeRecoveryCode_ok hok.symm
    constructor
    · exact hold.drawn
    · intro e he
      rw [hcn, mem_cons] at he
      rcases he with rfl | he
      · refine ⟨lt_of_lt_of_le (hu ▸ h.drawn r hr) hc.next, fun r' hr' hu' hh' => ?_⟩
        rw [hdb] at hr'
        exact hsp r' hr' hu' hh'
      · exact hold.spent e he
    · rw [hcn, map_cons, nodup_cons]
      refine ⟨fun hm => ?_, h.once⟩
      obtain ⟨e, he, heq⟩ := mem_map.mp hm
      have hus := (h.spent e he).2 r hr (by rw [heq, hu]) (by rw [heq, hh])
      rw [hun] at hus
      cases hus
  · cases her

def spending : Discipline (World × Journal) ℕ where
  inv := SpentOnce
  evolves s s' := s.2.redeemed ⊆ s'.2.redeemed
  rely _ s s' := s.2.redeemed ⊆ s'.2.redeemed
  evolves_refl _ := List.Subset.refl _
  evolves_trans h h' := List.Subset.trans h h'
  rely_refl _ _ := List.Subset.refl _
  rely_trans _ _ _ _ h h' := List.Subset.trans h h'

theorem allowed_spending {x : c.Reply} (h : SpentOnce s)
    (hx : (journaled P visit faulty).exec t c s x s') : Allowed spending t s s' := by
  have hk : s.2.redeemed ⊆ s'.2.redeemed := by
    rw [hx.2]
    rcases redeemed_record (t := t) (x := x) (j := s.2) with hs | ⟨_, _, -, hc⟩
    · rw [hs]
      exact List.Subset.refl _
    · rw [hc]
      exact subset_cons_self _ _
  exact ⟨h.exec hx, hk, fun _ _ => hk⟩

theorem safe_spending {α : Type} (p : Prog α) :
    Safe (journaled P visit faulty).exec spending t (fun _ _ => True) p s :=
  safe_of_only (R := fun _ => True) (fun _ _ _ _ _ hi _ hx => allowed_spending hi hx)
    (fun _ _ h _ => h) (fun _ _ h _ => h) p.only_true trivial

/-- A recovery code that is accepted is on record as redeemed. -/
theorem safe_secondFactorOK {user : User} {req : LoginTOTPRequest} (hc : req.code = "") :
    Safe (journaled P visit faulty).exec spending t
      (fun ok s => ok = true → (t, user.id, hashRecoveryCode P req.recoveryCode) ∈ s.2.redeemed)
      (secondFactorOK P user req) s := by
  unfold secondFactorOK
  rw [if_neg (not_not.mpr hc)]
  split
  · intro s1 _ hi x s2 hx
    refine ⟨allowed_spending hi hx, ?_⟩
    cases x with
    | error e => exact nofun
    | ok _ =>
      intro _
      rw [hx.2]
      exact mem_cons_self
  · exact nofun

/-- What a second factor that was accepted for a recovery code has done. -/
def Redeemed (P : Primitives) (t : ℕ) (v : Visit) (a : Outcome) (s : World × Journal) : Prop :=
  ∀ user req, v.job = .secondFactor user req → req.code = "" → a = .factor true →
    (t, user.id, hashRecoveryCode P req.recoveryCode) ∈ s.2.redeemed

/-- No code is redeemed twice for a user, over any number of visits at once. -/
theorem journaled_respects : (journaled P visit faulty).Respects spending
    (fun t => Redeemed P t (visit t)) where
  lasts := fun _ _ _ _ h hr user req hj hc ha => hr (h user req hj hc ha)
  starts := by
    rintro t _ s rfl -
    cases hj : (visit t).job with
    | secondFactor user req =>
      by_cases hc : req.code = ""
      · simp only [Visit.program, hj]
        refine Safe.bind ((safe_secondFactorOK hc).mono fun ok s hok user' req' hj' _ ha => ?_)
        cases hj.symm.trans hj'
        exact hok (by cases ha; rfl)
      refine (safe_spending _).mono fun _ _ _ user' req' hj' hc' => ?_
      cases hj.symm.trans hj'
      exact absurd hc' hc
    | serve | resolveSession =>
      refine (safe_spending _).mono fun _ _ _ user' req' hj' => ?_
      cases hj.symm.trans hj'
  env := fun _ h => h.1.elim
  restart := by
    rintro ⟨w, j⟩ ⟨w', j'⟩ hi ⟨h, h'⟩
    cases h
    cases h'
    exact ⟨hi, List.Subset.refl _⟩

end Spending

/-- What is typed for a generated code is found under the hash that was stored, different
codes have different hashes, and whatever requests are under way together, a stored code
is accepted once. -/
theorem recovery_codes_single_use {P : Primitives} (hsha : Function.Injective P.sha256Hex)
    (hupper : P.UpperASCII) :
    (∀ n faulty w w' plain hashes,
      (machine P faulty).exec (.generateRecoveryCodes n) w (some (plain, hashes)) w' →
      plain.length = hashes.length ∧ ∀ code hash, (code, hash) ∈ plain.zip hashes →
        ∀ typed, Retyped code typed → hashRecoveryCode P typed = hash) ∧
    (∀ n n' faulty w w₁ w' w₁' plain hashes plain' hashes',
      (machine P faulty).exec (.generateRecoveryCodes n) w (some (plain, hashes)) w₁ →
      (machine P faulty).exec (.generateRecoveryCodes n') w' (some (plain', hashes')) w₁' →
      ∀ code ∈ plain, ∀ code' ∈ plain', code ≠ code' →
        hashRecoveryCode P code ≠ hashRecoveryCode P code') ∧
    ∀ visit faulty w c, (∀ r ∈ w.db.recoveryCodes, r.userId < w.db.nextUserId) →
      (journaled P visit faulty).Steps (Config.idle (w, Journal.empty)) c →
      (c.shared.2.redeemed.map Prod.snd).Nodup ∧
      ∀ t t' user req user' req', (visit t).job = .secondFactor user req →
        (visit t').job = .secondFactor user' req' → req.code = "" → req'.code = "" →
        c.threads t = some (.done (.factor true)) → c.threads t' = some (.done (.factor true)) →
        user.id = user'.id →
        hashRecoveryCode P req.recoveryCode = hashRecoveryCode P req'.recoveryCode → t = t' := by
  refine ⟨?_, ?_, ?_⟩
  · intro n faulty w w' plain hashes hgen
    obtain ⟨bufs, -, rfl, rfl⟩ := exec_generateRecoveryCodes hgen
    refine ⟨by simp, fun code hash hmem typed htyped => ?_⟩
    rw [← map_prod_left_eq_zip] at hmem
    simp only [mem_map, Prod.mk.injEq] at hmem
    obtain ⟨_, ⟨buf, -, rfl⟩, rfl, rfl⟩ := hmem
    exact hash_retyped hupper htyped
  · intro n n' faulty w w₁ w' w₁' plain hashes plain' hashes' hgen hgen' code hcode code' hcode' hne
    obtain ⟨bufs, hlen, rfl, -⟩ := exec_generateRecoveryCodes hgen
    obtain ⟨bufs', hlen', rfl, -⟩ := exec_generateRecoveryCodes hgen'
    obtain ⟨buf, hbuf, rfl⟩ := mem_map.mp hcode
    obtain ⟨buf', hbuf', rfl⟩ := mem_map.mp hcode'
    exact fun heq => hne (hash_injective hupper hsha (hlen buf hbuf) (hlen' buf' hbuf') heq)
  intro visit faulty w c hdrawn hsteps
  have hstart : SpentOnce (w, Journal.empty) := ⟨hdrawn, nofun, nodup_nil⟩
  obtain ⟨hgood, -⟩ := System.reachable_good journaled_respects (System.good_idle hstart) hsteps
  refine ⟨hgood.inv.once, ?_⟩
  intro t t' user req user' req' hjob hjob' hcode hcode' hdone hdone' hid hhash
  have hmem := hgood.safe t _ hdone user req hjob hcode rfl
  have hmem' := hgood.safe t' _ hdone' user' req' hjob' hcode' rfl
  have heq := inj_on_of_nodup_map hgood.inv.once hmem hmem' (by rw [hid, hhash])
  exact (Prod.mk.inj heq).1

def savedWorld : World :=
  { emptyWorld with db := ⟨[], 2, [], [⟨1, "AAAAAAAAAAAAAAAA", none⟩], [], []⟩ }

def savedUser : User := ⟨1, "root", "", "", some 0, 0, none, none⟩

def recoveryVisits : ℕ → Visit
  | 0 => ⟨deployedWith "A", anonymousRequest,
      .secondFactor savedUser ⟨"", "AAAA-AAAA-AAAA-AAAa"⟩, none, deployedWith_unverified "A"⟩
  | _ => ⟨deployedWith "A", anonymousRequest,
      .secondFactor savedUser ⟨"", "AAAA-AAAA-AAAA-AAAA"⟩, none, deployedWith_unverified "A"⟩

def redeemedState : World × Journal := afterVisit false recoveryVisits (savedWorld, Journal.empty) 0

theorem runs_redeemed : Runs (visitMachine false false (recoveryVisits 0) 0).exec
    ((recoveryVisits 0).program samplePrimitives) (savedWorld, Journal.empty) (.factor true)
    (afterVisit false recoveryVisits (savedWorld, Journal.empty) 0) :=
  Machine.runs_after _ (by decide +kernel)

theorem runs_spent : Runs (visitMachine false false (recoveryVisits 1) 1).exec
    ((recoveryVisits 1).program samplePrimitives) redeemedState (.factor false)
    (afterVisit false recoveryVisits redeemedState 1) :=
  Machine.runs_after _ (by decide +kernel)

def redeemedConfig : Config dashboard (World × Journal) ℕ Outcome :=
  ⟨redeemedState, Function.update (fun _ => none) 0 (some (.done (.factor true)))⟩

def spentConfig : Config dashboard (World × Journal) ℕ Outcome :=
  ⟨afterVisit false recoveryVisits redeemedState 1,
    Function.update redeemedConfig.threads 1 (some (.done (.factor false)))⟩

/-- A code is redeemed and then tried again, in a run of the dashboard. -/
theorem steps_spent : (journaled samplePrimitives recoveryVisits false).Steps
    (Config.idle (savedWorld, Journal.empty)) spentConfig := by
  have hf : (journaled samplePrimitives recoveryVisits false).Steps
      (Config.idle (savedWorld, Journal.empty)) redeemedConfig :=
    System.steps_done_of_runs rfl rfl
      (runs_redeemed.mono fun _ _ _ _ h => (exec_visitMachine h).1)
  exact hf.trans (System.steps_done_of_runs rfl rfl
    (runs_spent.mono fun _ _ _ _ h => (exec_visitMachine h).1))

theorem generated_sample : (machine samplePrimitives false).exec (.generateRecoveryCodes 1) savedWorld
    (some (["AAAA-AAAA-AAAA-AAAA"], ["AAAAAAAAAAAAAAAA"])) savedWorld :=
  ⟨some [List.replicate 16 0], rfl⟩

theorem retyped_sample : Retyped "AAAA-AAAA-AAAA-AAAA" "AAAA-AAAA-AAAA-AAAa" :=
  .single (.recase "AAAA-AAAA-AAAA-AAA".toList [] (by decide))

/-- The code is found in another spelling, and only the first of two attempts succeeds. -/
theorem saved_code_accepted_once :
    hashRecoveryCode samplePrimitives "AAAA-AAAA-AAAA-AAAa" = "AAAAAAAAAAAAAAAA" ∧
    spentConfig.threads 0 = some (.done (.factor true)) ∧
    spentConfig.threads 1 = some (.done (.factor false)) ∧
    (spentConfig.shared.2.redeemed.map Prod.snd).Nodup := by
  obtain ⟨htyped, -, honce⟩ := recovery_codes_single_use (P := samplePrimitives)
    Function.injective_id fun _ _ => rfl
  have hcode := (htyped 1 false savedWorld savedWorld _ _ generated_sample).2
    "AAAA-AAAA-AAAA-AAAA" "AAAAAAAAAAAAAAAA" mem_cons_self _ retyped_sample
  have hdrawn : ∀ r ∈ savedWorld.db.recoveryCodes, r.userId < savedWorld.db.nextUserId := by decide
  exact ⟨hcode, rfl, rfl, (honce recoveryVisits false savedWorld spentConfig hdrawn steps_spent).1⟩

end Orkano.Dashboard
