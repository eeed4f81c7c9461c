import Orkano.Dashboard.Resources.AppWrites
import Orkano.Dashboard.Resources.EnvRefs

/-!
The environment of an App as browsers edit it. A variable save puts the whole spec of the
browser's copy, so a copy older than a secret save brings back the references that the secret
save had replaced.
-/
namespace Orkano.Dashboard.AppWrites.EnvEditor

open Interleave Program List
open Resources (ApiError EnvVar envRef envSecretName isEnvName maxEnvVars sortedEnvKeys
  reconcileEnvRefs writeK8sError)

section Form

inductive RowKind where
  | value
  | ref
deriving DecidableEq, Repr

structure VarRow where
  kind : RowKind
  name : String
  value : String
  refName : String
  refKey : String
deriving DecidableEq, Repr

/-- White space and line ends, as `trim` of a browser takes them. -/
def isTrimmed (c : Char) : Bool :=
  c.toNat ∈ [0x09, 0x0A, 0x0B, 0x0C, 0x0D, 0x20, 0xA0, 0x1680, 0x2028, 0x2029, 0x202F, 0x205F,
    0x3000, 0xFEFF] || 0x2000 ≤ c.toNat && c.toNat ≤ 0x200A

def trim (s : String) : String :=
  String.ofList ((s.toList.dropWhile isTrimmed).reverse.dropWhile isTrimmed).reverse

def isManagedRef (e : EnvVar) (secretName : String) : Bool := e.refersTo secretName

def managedRefs (name : String) (spec : AppSpec) : List EnvVar :=
  spec.env.filter fun e => isManagedRef e (envSecretName name)

def VarRow.entry (r : VarRow) : EnvVar :=
  match r.kind with
  | .value => ⟨trim r.name, r.value, none⟩
  | .ref => ⟨trim r.name, "", some (trim r.refName, trim r.refKey)⟩

/-- The loop over the rows; the names are collected. -/
def checkRows (secretName : String) : List VarRow → List String → Except String (List String)
  | [], seen => .ok seen
  | row :: rows, seen =>
    let name := trim row.name
    if name.length > 253 ∨ isEnvName name = false then
      .error ("Variable names must start with a letter or underscore and use only letters, " ++
        "digits, and underscores.")
    else if name ∈ seen then .error ("Duplicate variable name " ++ name ++ ".")
    else if row.kind = .value ∧ row.value = "" then .error (name ++ " needs a value.")
    else if row.kind = .ref ∧ (trim row.refName = "" ∨ trim row.refKey = "") then
      .error ("Reference " ++ name ++ " needs a Secret name and key.")
    else if row.kind = .ref ∧ trim row.refName = secretName then
      .error "Use the secret values section below for this app's own secrets."
    else checkRows secretName rows (name :: seen)

def validateVarRows (name : String) (rows : List VarRow) (copy : AppSpec) : Except String Unit := do
  let seen ← checkRows (envSecretName name) rows []
  match (managedRefs name copy).find? fun e => e.name ∈ seen with
  | some e => .error (e.name ++ " is managed in the secret values section — remove it here.")
  | none =>
    if rows.length + (managedRefs name copy).length > maxEnvVars then
      .error "An app can have at most 64 environment variables."
    else .ok ()

def submit (name : String) (copy : AppSpec) (rows : List VarRow) : Except String AppSpec := do
  validateVarRows name rows copy
  return { copy with env := rows.map VarRow.entry ++ managedRefs name copy }

variable {name secretName : String} {rows : List VarRow} {copy spec : AppSpec}

/-- A row that was accepted is no reference into the App's own Secret. -/
theorem not_refersTo_of_checkRows {seen names : List String}
    (h : checkRows secretName rows seen = .ok names) :
    ∀ r ∈ rows, r.entry.refersTo secretName = false := by
  induction rows generalizing seen with
  | nil => simp
  | cons row rows ih =>
    simp only [checkRows] at h
    split at h
    · cases h
    split at h
    · cases h
    split at h
    · cases h
    split at h
    · cases h
    split at h
    · cases h
    rename_i ho
    intro r hr
    rcases mem_cons.mp hr with rfl | hr
    · rw [not_and] at ho
      cases hk : r.kind with
      | value => simp [VarRow.entry, hk, EnvVar.refersTo]
      | ref => simpa [VarRow.entry, hk, EnvVar.refersTo] using ho hk
    · exact ih h r hr

/-- The editor sends back the managed references of the copy it was opened with. -/
theorem managedRefs_submit (h : submit name copy rows = .ok spec) :
    managedRefs name spec = managedRefs name copy := by
  unfold submit validateVarRows at h
  cases hrw : checkRows (envSecretName name) rows [] with
  | error e =>
    rw [hrw] at h
    cases h
  | ok seen =>
    have hs : spec = { copy with env := rows.map VarRow.entry ++ managedRefs name copy } := by
      rw [hrw] at h
      simp only [bind, Except.bind] at h
      split at h
      · cases h
      · exact (Except.ok.inj h).symm
    have hn : (rows.map VarRow.entry).filter
        (fun e => isManagedRef e (envSecretName name)) = [] := by
      rw [filter_eq_nil_iff]
      intro e he
      obtain ⟨r, hr, rfl⟩ := mem_map.mp he
      simp [isManagedRef, not_refersTo_of_checkRows hrw r hr]
    rw [hs, managedRefs, filter_append, hn, nil_append, managedRefs,
      filter_filter]
    simp

/-- After a secret save, the managed references are those of its keys, in order. -/
theorem filter_refersTo_reconcileEnvRefs (env : List EnvVar) (secretName : String)
    (keys : List String) :
    (reconcileEnvRefs env secretName keys).filter (fun e => isManagedRef e secretName) =
      keys.map (envRef secretName) := by
  rw [Resources.reconcileEnvRefs_eq, filter_append]
  have hk : (env.filter (EnvVar.keptBy secretName keys)).filter
      (fun e => isManagedRef e secretName) = [] := by
    rw [filter_eq_nil_iff]
    intro e he hr
    have hk := (mem_filter.mp he).2
    simp only [isManagedRef] at hr
    simp [EnvVar.keptBy, hr] at hk
  have hrf : (keys.map (envRef secretName)).filter (fun e => isManagedRef e secretName) =
      keys.map (envRef secretName) := by
    simp [isManagedRef]
  rw [hk, hrf, nil_append]

end Form

section Saves

inductive Save where
  | secrets (data : List (String × String))
  | vars (copy : AppSpec) (rows : List VarRow)

/-- Any number of browsers save, each save in a thread of its own. The operator writes the
status, which only makes a new version. -/
def editors (name : String) (save : ℕ → Save) : System appServer World ℕ Resources.Response where
  exec t := (machine t).exec
  env w w' := w' = { w with app := w.app.write w.app.current }
  restart w w' := w' = w
  starts t p :=
    match save t with
    | .secrets data => p = handleSetEnv name data
    | .vars copy rows => ∃ spec, submit name copy rows = .ok spec ∧ p = handleUpdateApp spec

/-- The App that a variable save replaces has the references of its copy. -/
def UpToDate (name : String) (save : ℕ → Save) (t : ℕ) (c : Call) (w : World) (_ : c.Reply) :
    Prop :=
  match c, save t with
  | .updateApp _ _, .vars copy _ =>
    ∀ app ∈ w.app.current, managedRefs name app.spec = managedRefs name copy
  | _, _ => True

/-- The keys of a stored save, if it was a secret save. -/
def savedKeys (save : ℕ → Save) (e : Commit) : Option (List String) :=
  match save e.thread with
  | .secrets data => sortedEnvKeys data
  | .vars _ _ => none

/-- The references there are to be: to the keys of the last stored secret save, or those of
the start. -/
def expected (name : String) (save : ℕ → Save) (start : List EnvVar) (commits : List Commit) :
    List EnvVar :=
  (commits.findSome? (savedKeys save)).elim start fun keys => keys.map (envRef (envSecretName name))

variable (name : String) (save : ℕ → Save) (start : List EnvVar)

structure Settled (w : World) : Prop where
  refs : ∀ app ∈ w.app.current, managedRefs name app.spec = expected name save start w.commits
  valid : ∀ e ∈ w.commits, ∀ data, save e.thread = .secrets data → (sortedEnvKeys data).isSome

def saving : Discipline World ℕ where
  inv := Settled name save start
  evolves _ _ := True
  rely _ w w' := w.commits <:+ w'.commits
  evolves_refl _ := trivial
  evolves_trans := fun _ _ => trivial
  rely_refl _ _ := List.suffix_rfl
  rely_trans := fun _ _ _ _ h h' => h.trans h'

/-- A save that was answered well has been stored. -/
def Stored (t : ℕ) (r : Resources.Response) (w : World) : Prop :=
  r.status = 200 → ∃ e ∈ w.commits, e.thread = t

end Saves

section Steps

variable {name : String} {save : ℕ → Save} {start : List EnvVar} {t version : ℕ} {w w' : World}
  {app : AppObject}

/-- An update is stored over an App that is there, or it changes nothing and fails. -/
theorem updateApp_cases {x : Except ApiError Unit}
    (h : (machine t).exec (.updateApp version app) w x w') :
    w' = w ∧ x ≠ .ok () ∨ (∃ cur, w.app.current = some cur) ∧ w' = w.commit t app.stored := by
  have ht : (w.take t version app).2 = w ∧ (w.take t version app).1 ≠ .ok () ∨
      (∃ cur, w.app.current = some cur) ∧ (w.take t version app).2 = w.commit t app.stored := by
    unfold World.take
    split
    · rename_i hup
      obtain ⟨hc, -⟩ := Versioned.update_eq_some.mp hup
      exact .inr ⟨Option.isSome_iff_exists.mp hc, rfl⟩
    · exact .inl ⟨rfl, nofun⟩
  obtain ⟨_ | e | e, hk⟩ := h
  · have htk : w.take t version app = (x, w') := Option.some.inj hk
    rwa [htk] at ht
  · cases hk
    rcases ht with ⟨hw, -⟩ | hs
    · exact .inl ⟨hw, nofun⟩
    · exact .inr hs
  · cases hk
    exact .inl ⟨rfl, nofun⟩

theorem Settled.allowed (h : Settled name save start w) (ha : w'.app.current = w.app.current)
    (hc : w'.commits = w.commits) : Allowed (saving name save start) t w w' := by
  refine ⟨⟨?_, ?_⟩, trivial, fun _ _ => ?_⟩
  · rw [ha, hc]
    exact h.refs
  · rw [hc]
    exact h.valid
  · change w.commits <:+ w'.commits
    rw [hc]

theorem Settled.commit (h : Settled name save start w)
    (hr : managedRefs name app.spec =
      expected name save start (⟨t, w.seen t, w.app, app.stored⟩ :: w.commits))
    (hv : ∀ data, save t = .secrets data → (sortedEnvKeys data).isSome) :
    Allowed (saving name save start) t w (w.commit t app.stored) := by
  refine ⟨⟨?_, ?_⟩, trivial, fun _ _ => suffix_cons _ _⟩
  · rintro _ ⟨⟩
    exact hr
  intro e he
  rcases mem_cons.mp he with rfl | he
  · exact hv
  · exact h.valid e he

variable {data : List (String × String)}

theorem expected_secrets {keys : List String} {e : Commit} (hs : save e.thread = .secrets data)
    (hk : sortedEnvKeys data = some keys) (commits : List Commit) :
    expected name save start (e :: commits) = keys.map (envRef (envSecretName name)) := by
  simp [expected, savedKeys, hs, hk]

variable {rows : List VarRow}

theorem expected_vars {copy : AppSpec} {e : Commit} (hs : save e.thread = .vars copy rows)
    (commits : List Commit) :
    expected name save start (e :: commits) = expected name save start commits := by
  simp [expected, savedKeys, hs]

/-- The program of a save keeps the references, among the other saves. -/
abbrev Keeps {α : Type} (name : String) (save : ℕ → Save) (start : List EnvVar) (t : ℕ)
    (post : α → World → Prop) : Prog α → World → Prop :=
  Safe ((editors name save).restrict (UpToDate name save)).exec (saving name save start) t post

/-- A save that replaces the App keeps the references, if what it stores does at its commit. -/
theorem safe_put {spec : AppSpec}
    (hr : ∀ w1 x, Settled name save start w1 → (∃ cur, w1.app.current = some cur) →
      UpToDate name save t (.updateApp version { app with spec := spec }) w1 x → ∀ e : Commit,
        e.thread = t → managedRefs name spec = expected name save start (e :: w1.commits))
    (hv : ∀ data, save t = .secrets data → (sortedEnvKeys data).isSome) :
    Keeps name save start t (Stored t) (putBack version app spec) w := by
  intro w1 _ hi x w2 hx
  obtain ⟨hok, he⟩ := hx
  rcases updateApp_cases he with ⟨rfl, hf⟩ | ⟨hc, rfl⟩
  · refine ⟨hi.allowed rfl rfl, ?_⟩
    cases x with
    | ok _ => exact absurd rfl hf
    | error e => cases e <;> exact nofun
  refine ⟨hi.commit (hr w1 x hi hc hok _ rfl) hv, ?_⟩
  have hs : ∃ e ∈ (w1.commit t { app with spec := spec }.stored).commits, e.thread = t :=
    ⟨_, mem_cons_self, rfl⟩
  cases x <;> exact fun _ => hs

theorem safe_fetch {f : Except ApiError (ℕ × AppObject) → Prog Resources.Response}
    (he : ∀ e w, Keeps name save start t (Stored t) (f (.error e)) w)
    (hok : ∀ version app w, Keeps name save start t (Stored t) (f (.ok (version, app))) w) :
    Keeps name save start t (Stored t) (call .getApp >>= f) w := by
  intro w1 _ hi x w2 hx
  rcases exec_getApp hx.2 with ⟨e, rfl, rfl⟩ | ⟨version, app, rfl, -, rfl⟩
  · exact ⟨hi.allowed rfl rfl, he e w2⟩
  · exact ⟨hi.allowed rfl rfl, hok version app _⟩

theorem stored_writeK8sError (e : ApiError) : Stored t (writeK8sError e) w := by
  cases e <;> exact nofun

theorem safe_secret (data : List (String × String)) :
    Keeps name save start t (fun _ _ => True) (writeEnvSecret name data) w := by
  intro w1 _ hi x w2 hx
  obtain ⟨-, _, hk⟩ := hx
  cases hk
  refine ⟨hi.allowed rfl rfl, ?_⟩
  cases x with
  | ok _ => trivial
  | error e =>
    change Safe _ _ _ _ (if _ then _ else _) _
    split
    · trivial
    intro w3 _ hi3 y w4 hy
    obtain ⟨-, _, hk⟩ := hy
    cases hk
    exact ⟨hi3.allowed rfl rfl, trivial⟩

/-- A secret save keeps the references in step, and is stored when it is answered well. -/
theorem safe_secretSave (hs : save t = .secrets data) :
    Keeps name save start t (Stored t) (handleSetEnv name data) w := by
  unfold handleSetEnv Resources.EnvCalls.setEnv
  split
  · exact nofun
  split
  · exact nofun
  rename_i keys hk
  refine safe_fetch (fun e _ => stored_writeK8sError e) fun version app w1 => ?_
  dsimp only
  split
  · exact nofun
  refine Safe.bind ((safe_secret data).mono fun written w2 _ => ?_)
  cases written with
  | error e => exact stored_writeK8sError e
  | ok _ =>
    refine safe_put (fun w3 _ _ _ _ e he => ?_) fun data' hs' => ?_
    · subst he
      rw [expected_secrets hs hk]
      exact filter_refersTo_reconcileEnvRefs _ _ _
    rw [hs] at hs'
    cases hs'
    simp [hk]

theorem safe_varSave {copy spec : AppSpec} (hs : save t = .vars copy rows)
    (hsb : submit name copy rows = .ok spec) :
    Keeps name save start t (Stored t) (handleUpdateApp spec) w := by
  refine safe_fetch (fun e _ => stored_writeK8sError e) fun version app w1 => ?_
  dsimp only
  split
  · exact nofun
  refine safe_put (fun w2 _ hi hc hu e he => ?_) fun data hs' => ?_
  · subst he
    obtain ⟨cur, hc⟩ := hc
    simp only [UpToDate, hs] at hu
    rw [expected_vars hs, managedRefs_submit hsb, ← hu cur hc, hi.refs cur hc]
  · rw [hs] at hs'
    cases hs'

/-- All saves keep the references as the last stored secret save has set them. -/
theorem editors_respects :
    ((editors name save).restrict (UpToDate name save)).Respects (saving name save start)
      Stored where
  starts := by
    intro t p w hp _
    change match save t with
      | .secrets data => p = handleSetEnv name data
      | .vars copy rows => ∃ spec, submit name copy rows = .ok spec ∧ p = handleUpdateApp spec at hp
    split at hp
    · rename_i hs
      subst hp
      exact safe_secretSave hs
    rename_i hs
    obtain ⟨spec, hsb, rfl⟩ := hp
    exact safe_varSave hs hsb
  lasts := by
    intro t r w w' hst hsf hss
    obtain ⟨e, he, ht⟩ := hst hss
    exact ⟨e, List.IsSuffix.subset hsf he, ht⟩
  env := by
    rintro w _ hi rfl
    exact ⟨⟨hi.refs, hi.valid⟩, trivial, fun _ => suffix_rfl⟩
  restart := by
    rintro w _ hi rfl
    exact ⟨hi, trivial⟩

end Steps

/-- While every variable save meets an App that has the references of its copy, the
references are to the keys of the last secret save. -/
theorem variable_saves_keep_refs {name : String} {save : ℕ → Save} {app : Versioned AppObject}
    {c : Config appServer World ℕ Resources.Response}
    (hsteps : ((editors name save).restrict (UpToDate name save)).Steps
      (Config.idle (World.start app)) c) :
    (∀ t r, c.threads t = some (.done r) → r.status = 200 → ∃ e ∈ c.shared.commits, e.thread = t) ∧
      (∀ newer e older data, c.shared.commits = newer ++ e :: older →
        save e.thread = .secrets data →
        (∀ e' ∈ newer, ∃ copy rows, save e'.thread = .vars copy rows) →
        ∀ a ∈ c.shared.app.current, ∃ keys, sortedEnvKeys data = some keys ∧
          managedRefs name a.spec = keys.map (envRef (envSecretName name))) ∧
      ((∀ e ∈ c.shared.commits, ∃ copy rows, save e.thread = .vars copy rows) →
        ∀ a ∈ c.shared.app.current, ∀ a₀ ∈ app.current,
          managedRefs name a.spec = managedRefs name a₀.spec) := by
  let start : List EnvVar := app.current.elim [] fun a => managedRefs name a.spec
  have hstart : Settled name save start (World.start app) := by
    refine ⟨fun a ha => ?_, by simp [World.start]⟩
    have hcur : app.current = some a := ha
    simp [expected, World.start, start, hcur]
  obtain ⟨hgood, -⟩ := System.reachable_good editors_respects (System.good_idle hstart) hsteps
  have hskip : ∀ newer commits : List Commit,
      (∀ e ∈ newer, ∃ copy rows, save e.thread = .vars copy rows) →
      expected name save start (newer ++ commits) = expected name save start commits := by
    intro newer commits hvars
    induction newer with
    | nil => rfl
    | cons e newer ih =>
      obtain ⟨copy, rows, hsave⟩ := hvars e mem_cons_self
      rw [cons_append, expected_vars hsave]
      exact ih fun e' he' => hvars e' (mem_cons_of_mem _ he')
  refine ⟨fun t r hr => hgood.safe t _ hr, ?_, ?_⟩
  · intro newer e older data hcommits hsave hvars a ha
    have he : e ∈ c.shared.commits := by simp [hcommits]
    obtain ⟨keys, hkeys⟩ := Option.isSome_iff_exists.mp (hgood.inv.valid e he data hsave)
    refine ⟨keys, hkeys, ?_⟩
    rw [hgood.inv.refs a ha, hcommits, hskip newer _ hvars, expected_secrets hsave hkeys]
  intro hvars a ha a₀ ha₀
  have hcur : app.current = some a₀ := ha₀
  rw [hgood.inv.refs a ha, ← append_nil c.shared.commits, hskip _ _ hvars]
  simp [expected, start, hcur]

def referringSpec : AppSpec := { sampleSpec with env := [envRef "web-env" "A"] }

def referringApp : Versioned AppObject := ⟨[some ⟨[], referringSpec⟩]⟩

def modeRow : VarRow := ⟨.value, " MODE", "prod", "", ""⟩

def twoSaves (copy : AppSpec) : ℕ → Save
  | 0 => .secrets [("B", "y")]
  | _ => .vars copy [modeRow]

def submitted (copy : AppSpec) : AppSpec :=
  { copy with env := ⟨"MODE", "prod", none⟩ :: managedRefs "web" copy }

def saveProgram (copy : AppSpec) : ℕ → Prog Resources.Response
  | 0 => handleSetEnv "web" [("B", "y")]
  | _ => handleUpdateApp (submitted copy)

theorem starts_saveProgram {copy : AppSpec}
    (h : submit "web" copy [modeRow] = .ok (submitted copy)) (t : ℕ) :
    (editors "web" (twoSaves copy)).starts t (saveProgram copy t) := by
  cases t with
  | zero => rfl
  | succ n => exact ⟨_, h, rfl⟩

/-- The variable save was loaded before the secret save and is sent after it. -/
def outdated : Config appServer World ℕ Resources.Response :=
  [0, 0, 0, 0, 1, 1, 1].foldl (System.advance machine (fun _ => samplePick)
    (saveProgram referringSpec)) (Config.idle (World.start referringApp))

/-- Both saves succeed, and the reference of the copy is back. -/
theorem outdated_copy_restores_refs :
    (editors "web" (twoSaves referringSpec)).Steps (Config.idle (World.start referringApp))
        outdated ∧
      outdated.result 0 = some ⟨200, ""⟩ ∧ outdated.result 1 = some ⟨200, ""⟩ ∧
      (outdated.shared.commits.map (·.thread)) = [1, 0] ∧
      sortedEnvKeys [("B", "y")] = some ["B"] ∧
      (outdated.shared.app.current.map fun a => managedRefs "web" a.spec) =
        some [envRef "web-env" "A"] := by
  refine ⟨?_, by decide +kernel, by decide +kernel, by decide +kernel, by decide +kernel,
    by decide +kernel⟩
  have hsubmit : submit "web" referringSpec [modeRow] = .ok (submitted referringSpec) := by
    decide +kernel
  exact System.steps_schedule _ _ _ (fun _ _ _ _ _ h => h) (starts_saveProgram hsubmit) _ _

def upToDate (save : ℕ → Save) (t : ℕ) (c : Call) (w : World) (_ : c.Reply) (_ : World) : Bool :=
  match c, save t with
  | .updateApp _ _, .vars copy _ =>
    w.app.current.all fun app => managedRefs "web" app.spec = managedRefs "web" copy
  | _, _ => true

theorem upToDate_sound {save : ℕ → Save} {t : ℕ} {c : Call} {w w' : World} {x : c.Reply}
    (h : upToDate save t c w x w' = true) : UpToDate "web" save t c w x := by
  unfold UpToDate
  split
  · rename_i hs
    intro app ha
    rw [Option.mem_def] at ha
    simpa [upToDate, hs, ha] using h
  · trivial

def reloadedSpec : AppSpec := { sampleSpec with env := [envRef "web-env" "B"] }

def reloaded : Config appServer World ℕ Resources.Response :=
  [0, 0, 0, 0, 1, 1, 1].foldl (System.advance
    (fun t => (machine t).guard (upToDate (twoSaves reloadedSpec) t)) (fun _ => samplePick)
    (saveProgram reloadedSpec)) (Config.idle (World.start referringApp))

/-- A secret save and a variable save from a copy that was loaded after it. -/
theorem reloaded_copy_keeps_refs :
    reloaded.result 0 = some ⟨200, ""⟩ ∧ reloaded.result 1 = some ⟨200, ""⟩ ∧
      (reloaded.shared.app.current.map fun a => a.spec.env.map (·.name)) = some ["MODE", "B"] ∧
      ∀ a ∈ reloaded.shared.app.current, ∃ keys, sortedEnvKeys [("B", "y")] = some keys ∧
        managedRefs "web" a.spec = keys.map (envRef (envSecretName "web")) := by
  have hsubmit : submit "web" reloadedSpec [modeRow] = .ok (submitted reloadedSpec) := by
    decide +kernel
  have hsteps : ((editors "web" (twoSaves reloadedSpec)).restrict
      (UpToDate "web" (twoSaves reloadedSpec))).Steps (Config.idle (World.start referringApp))
        reloaded := by
    refine System.steps_schedule _ _ _ (fun t c w x w' h => ?_) (fun t => ?_) _ _
    · obtain ⟨hexec, hok⟩ := (Machine.exec_guard _).mp h
      exact ⟨upToDate_sound hok, hexec⟩
    · exact starts_saveProgram hsubmit t
  have hthreads : reloaded.shared.commits.map (·.thread) = [1, 0] := by decide +kernel
  obtain ⟨e₁, rest, hcommits, h₁, hrest⟩ := map_eq_cons_iff.mp hthreads
  obtain ⟨e₀, older, rfl, h₀, -⟩ := map_eq_cons_iff.mp hrest
  refine ⟨by decide +kernel, by decide +kernel, by decide +kernel, ?_⟩
  refine (variable_saves_keep_refs hsteps).2.1 [e₁] e₀ older _ hcommits ?_ ?_
  · rw [h₀]
    rfl
  intro e he
  rw [mem_singleton] at he
  rw [he, h₁]
  exact ⟨_, _, rfl⟩

end Orkano.Dashboard.AppWrites.EnvEditor
