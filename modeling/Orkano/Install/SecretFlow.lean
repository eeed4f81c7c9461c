import Orkano.Install.Apply
import Orkano.K3s.Progress

/-!
What the texts of the bootstrap and the installer tell about the secrets they handle. Two runs
that differ in a secret say the same as long as no command with a secret in it is quoted.
-/
namespace Orkano.SecretFlow

open Interleave Program Transport

variable {R : Runner}

section Token

open K3s K3s.Progress

variable {o : Options} {t : Templates} {c : K3s.Config} {token token' : String}

/-- The configuration of a server that joins with a token. -/
def joining (c : K3s.Config) (token : String) : K3s.Config := { c with token := token }

/-- Whether the answer to a `cat` shows a file with the contents. -/
def shows (R : Runner) (text : String) (x : R.Outcome) (content : String) : Bool :=
  match R.report text x with
  | .error _ => false
  | .ok res => res.stdout = content

/-- An answer that does not give the token away: a failed write of `config.yaml` does not
quote the command, and a `config.yaml` that is shown is right for both tokens or neither. -/
def tokenSafe (R : Runner) (o : Options) (t : Templates) (c : K3s.Config) (token token' : String) :
    Command → R.Outcome → Bool
  | .write path _ _, x => path ≠ pathConfig || !R.quotes x
  | .cat path, x => path ≠ pathConfig ||
      shows R (o.shell.text (.cat path)) x (t.configYAML (joining c token)) =
        shows R (o.shell.text (.cat path)) x (t.configYAML (joining c token'))
  | _, _ => true

def TokenSafe (R : Runner) (o : Options) (t : Templates) (c : K3s.Config) (token token' : String)
    (cmd : Command) (x : R.Outcome) : Prop := tokenSafe R o t c token token' cmd x = true

theorem validate_joining (he : token = "" ↔ token' = "")
    (hf : c.serverURL ≠ "" → tokenRe token = tokenRe token') :
    validate (joining c token) = validate (joining c token') := by
  simp only [validate, joining, K3s.Config.version, K3s.Config.cron]
  by_cases hj : c.serverURL = ""
  · simp only [hj, if_true]
    rfl
  · simp only [he, hf hj]
    rfl

/-- What is shown does not depend on the token, as long as the answers are safe. -/
theorem alike_ensureConfig :
    Alike (TokenSafe R o t c token token') Eq
      (Progress.ensureFile R o pathConfig (t.configYAML (joining c token)) "0600").run
      (Progress.ensureFile R o pathConfig (t.configYAML (joining c token')) "0600").run := by
  apply alike_send
  intro x hx
  cases hr : R.report (o.shell.text (.cat pathConfig)) x with
  | error e => exact Alike.refl (fun _ => rfl) _
  | ok cur =>
    have hb : cur.stdout = t.configYAML (joining c token) ↔
        cur.stdout = t.configYAML (joining c token') := by
      simpa [TokenSafe, tokenSafe, shows, hr] using hx
    dsimp only
    by_cases hs : cur.exitStatus = 0 ∧ cur.stdout = t.configYAML (joining c token)
    · rw [if_pos hs, if_pos ⟨hs.1, hb.mp hs.2⟩]
      exact Alike.refl (fun _ => rfl) _
    rw [if_neg hs, if_neg fun h => hs ⟨h.1, hb.mpr h.2⟩]
    refine Transport.Alike.then (alike_runOK ?_) (fun _ => rfl) ?_
    · intro y hy
      simpa [TokenSafe, tokenSafe] using hy
    · intro _
      exact Alike.refl (fun _ => rfl) _

theorem waitReady_joining (polls : ℕ) :
    Progress.waitReady R o (joining c token) polls = Progress.waitReady R o (joining c token') polls := by
  induction polls with
  | zero => rfl
  | succ polls ih =>
    unfold Progress.waitReady
    rw [ih]
    rfl

/-- Nothing but the write of `config.yaml` depends on the token. -/
theorem alike_bootstrap (hem : token = "" ↔ token' = "")
    (hf : c.serverURL ≠ "" → tokenRe token = tokenRe token') :
    Alike (TokenSafe R o t c token token') Eq (Progress.bootstrap R o t (joining c token)).run
      (Progress.bootstrap R o t (joining c token')).run := by
  have hs {α : Type} (p : Narration R Command α) :
      Alike (TokenSafe R o t c token token') Eq p.run p.run := Alike.refl (fun _ => rfl) _
  have he {α : Type} (e : String) : (.error e : Except String α) = .error e := rfl
  unfold Progress.bootstrap
  rw [validate_joining hem hf]
  cases validate (joining c token') with
  | some message => exact hs _
  | none =>
    refine Transport.Alike.then (hs _) he fun installed => ?_
    refine Transport.Alike.then (hs _) he fun prepared => ?_
    refine Transport.Alike.then ?_ he fun converged => ?_
    · exact Transport.Alike.then alike_ensureConfig he fun configChanged => hs _
    have hw : Progress.waitReady R o (joining c token) o.polls =
        Progress.waitReady R o (joining c token') o.polls := waitReady_joining o.polls
    rw [hw]
    exact hs _

end Token

section Generated

open Install Installer

variable {X : Surroundings} {c : Installer.Config} {v v' : Values}

/-- A failed apply of a Secret does not quote the command. -/
def secretSafe (R : Runner) : Installer.Command → R.Outcome → Bool
  | .applySecret _, x => !R.quotes x
  | _, _ => true

def SecretSafe (R : Runner) (cmd : Installer.Command) (x : R.Outcome) : Prop :=
  secretSafe R cmd x = true

structure SameLengths (v v' : Values) : Prop where
  superuserPassword : v.superuserPassword.length = v'.superuserPassword.length
  receiverPassword : v.receiverPassword.length = v'.receiverPassword.length
  dispatcherPassword : v.dispatcherPassword.length = v'.dispatcherPassword.length
  dashboardPassword : v.dashboardPassword.length = v'.dashboardPassword.length
  webhookSecret : v.webhookSecret.length = v'.webhookSecret.length
  bootstrapToken : v.bootstrapToken.length = v'.bootstrapToken.length
  dashboardEncKey : v.dashboardEncKey.length = v'.dashboardEncKey.length

/-- A result without the token that is meant for the caller. -/
def withoutToken (r : Installer.Result) : Installer.Result := { r with bootstrapToken := "" }

def Failed.withoutToken (f : Failed) : Failed := { f with result := f.result.map SecretFlow.withoutToken }

/-- Errors that differ in the token at most, or results that are related. -/
def EndAlike {α : Type} (Q : α → α → Prop) : Except Failed α → Except Failed α → Prop
  | .error f, .error f' => Failed.withoutToken f = Failed.withoutToken f'
  | .ok a, .ok b => Q a b
  | _, _ => False

variable {α : Type}

theorem endAlike_refl (r : Except Failed α) : EndAlike Eq r r := by
  cases r <;> rfl

theorem empty_iff_of_length {s s' : String} (h : s.length = s'.length) : s = "" ↔ s' = "" := by
  rw [← String.length_eq_zero_iff, ← String.length_eq_zero_iff, h]

theorem firstEmpty_eq {fields fields' : List (String × String)}
    (h : List.Forall₂ (fun f f' => f.1 = f'.1 ∧ f.2.length = f'.2.length) fields fields') :
    (fields.find? fun f => f.2 = "").map Prod.fst = (fields'.find? fun f => f.2 = "").map Prod.fst := by
  induction h with
  | nil => rfl
  | @cons f f' _ _ hf _ ih =>
    have he := empty_iff_of_length hf.2
    by_cases hz : f'.2 = ""
    · simp [he, hz, hf.1]
    · simpa [he, hz] using ih

theorem SameLengths.validate_eq (h : SameLengths v v') : v.validate = v'.validate :=
  firstEmpty_eq (.cons ⟨rfl, h.superuserPassword⟩ (.cons ⟨rfl, h.receiverPassword⟩
    (.cons ⟨rfl, h.dispatcherPassword⟩ (.cons ⟨rfl, h.dashboardPassword⟩
      (.cons ⟨rfl, h.webhookSecret⟩ (.cons ⟨rfl, h.bootstrapToken⟩
        (.cons ⟨rfl, h.dashboardEncKey⟩ .nil)))))))

theorem specTable_names (hashToken : String → String) (v v' : Values) :
    List.Forall₂ (fun s s' => s.name = s'.name) (specTable hashToken v) (specTable hashToken v') := by
  simp [specTable, roleSpec]

theorem alike_createSecretIfAbsent {s s' : Spec} (hn : s.name = s'.name) :
    Alike (SecretSafe R) Eq ((secretShell R c).createSecretIfAbsent s).run
      ((secretShell R c).createSecretIfAbsent s').run := by
  unfold SecretShell.createSecretIfAbsent
  simp only [secretShell, hn]
  refine Transport.Alike.then (Alike.refl (fun _ => rfl) _) (fun _ => rfl) fun found => ?_
  cases found with
  | true => exact Alike.refl (fun _ => rfl) _
  | false =>
    refine Transport.Alike.then (alike_runOK ?_) (fun _ => rfl) ?_
    · intro y hy
      simpa [SecretSafe, secretSafe] using hy
    · intro _
      exact Alike.refl (fun _ => rfl) _

/-- Nor on the values of the Secrets. -/
theorem alike_ensureEach {table table' : List Spec} {token token' : String} {changed : Bool}
    (h : List.Forall₂ (fun s s' => s.name = s'.name) table table') :
    Alike (SecretSafe R) (fun a b => a.changed = b.changed ∧ a.err = b.err)
      ((secretShell R c).ensureEach v table token changed)
      ((secretShell R c).ensureEach v' table' token' changed) := by
  induction h generalizing token token' changed with
  | nil => exact .done ⟨rfl, rfl⟩
  | @cons s s' _ _ hn _ ih =>
    refine (alike_createSecretIfAbsent hn).bind ?_
    rintro r _ rfl
    match r with
    | .error e => exact .done ⟨rfl, rfl⟩
    | .ok false => exact ih
    | .ok true =>
      rw [hn]
      exact .say ih

theorem alike_ensureSecrets (h : SameLengths v v') :
    Alike (SecretSafe R) (fun a b => a.changed = b.changed ∧ a.err = b.err)
      (Installer.ensureSecrets R X c v) (Installer.ensureSecrets R X c v') := by
  unfold Installer.ensureSecrets SecretShell.ensureSecrets specs
  rw [h.validate_eq]
  cases v'.validate with
  | some field => exact .done ⟨rfl, rfl⟩
  | none => exact alike_ensureEach (specTable_names ..)

theorem EndAlike.bind {β : Type} {Q : α → α → Prop} {Q' : β → β → Prop} {p q : Applying R α}
    {f g : α → Applying R β} (h : Alike (SecretSafe R) (EndAlike Q) p.run q.run)
    (hfg : ∀ a b, Q a b → Alike (SecretSafe R) (EndAlike Q') (f a).run (g b).run) :
    Alike (SecretSafe R) (EndAlike Q') (p >>= f).run (q >>= g).run := by
  apply Alike.bind h
  intro r r' hr
  match r, r', hr with
  | .error _, .error _, hr => exact .done hr
  | .ok a, .ok b, hr => exact hfg a b hr

theorem alike_attempt {result result' : Option Installer.Result}
    (h : result.map withoutToken = result'.map withoutToken) (p : Narration R Installer.Command α) :
    Alike (SecretSafe R) (EndAlike Eq) (attempt R result p).run (attempt R result' p).run := by
  have hp : Alike (SecretSafe R) Eq p.run p.run := Alike.refl (fun _ => rfl) _
  apply Alike.bind hp
  rintro r _ rfl
  cases r with
  | error e =>
    apply Alike.done
    simp [Except.mapError, EndAlike, Failed.withoutToken, h]
  | ok a => exact .done rfl

abbrev ResultAlike (r r' : Installer.Result) : Prop := withoutToken r = withoutToken r'

theorem alike_lift {Q : α → α → Prop} {p q : Prog R α} (h : Alike (SecretSafe R) Q p q) :
    Alike (SecretSafe R) (EndAlike Q) (ExceptT.lift p : Applying R α).run
      (ExceptT.lift q : Applying R α).run :=
  Alike.bind h fun _ _ hab => .done hab

theorem alike_placePolicy {res res' : Installer.Result} (h : ResultAlike res res')
    (policy : Policy) : Alike (SecretSafe R) (EndAlike ResultAlike) (placePolicy R X c policy res).run
      (placePolicy R X c policy res').run := by
  unfold placePolicy
  split
  · exact .done h
  refine EndAlike.bind (alike_attempt (by simpa using h) _) ?_
  rintro created _ rfl
  have hc : (withoutToken res).changed = (withoutToken res').changed := congrArg _ h
  apply Alike.done
  simp only [withoutToken] at hc
  simp [EndAlike, ResultAlike, withoutToken, hc]

/-- Two installs that differ in their Secrets show the same. -/
theorem alike_placeSecrets (h : SameLengths v v') (policy : Policy) (changed : Bool) :
    Alike (SecretSafe R) (EndAlike ResultAlike) (placeSecrets R X c (.ok v) policy changed).run
      (placeSecrets R X c (.ok v') policy changed).run := by
  have hv : Alike (SecretSafe R) (EndAlike SameLengths) (check R (.ok v)).run
      (check R (.ok v')).run := .done h
  refine EndAlike.bind (alike_attempt rfl _) ?_
  rintro _ _ rfl
  refine EndAlike.bind hv ?_
  intro v1 v1' h1
  refine EndAlike.bind (alike_lift (alike_ensureSecrets h1)) ?_
  rintro seeded seeded' ⟨hc, he⟩
  have hr : ResultAlike ⟨changed || seeded.changed, seeded.bootstrapToken⟩
      ⟨changed || seeded'.changed, seeded'.bootstrapToken⟩ := by
    simp [ResultAlike, withoutToken, hc]
  dsimp only
  rw [he]
  cases seeded'.err with
  | none => exact alike_placePolicy hr policy
  | some e =>
    apply Alike.done
    simpa [EndAlike, Failed.withoutToken] using hr

/-- Nothing but the creation of Secrets depends on their values. -/
theorem alike_apply (h : SameLengths v v') :
    Alike (SecretSafe R) (EndAlike ResultAlike) (apply R X c (.ok v)).run
      (apply R X c (.ok v')).run := by
  have hs {α : Type} (p : Applying R α) : Alike (SecretSafe R) (EndAlike Eq) p.run p.run :=
    Alike.refl endAlike_refl _
  refine EndAlike.bind (hs _) ?_
  rintro ⟨files, seed⟩ _ rfl
  refine EndAlike.bind (hs _) ?_
  rintro policy _ rfl
  refine EndAlike.bind (hs _) ?_
  rintro placed _ rfl
  have hp : Alike (SecretSafe R) (EndAlike ResultAlike)
      (placeComponents R X c (.ok v) policy (policy.changed || placed)).run
      (placeComponents R X c (.ok v') policy (policy.changed || placed)).run := by
    unfold placeComponents
    split
    · exact alike_placeSecrets h policy _
    · exact .done rfl
  refine EndAlike.bind hp ?_
  intro res res' hr
  have ha : Alike (SecretSafe R) (EndAlike Eq) (awaitTargets R X c res).run
      (awaitTargets R X c res').run := by
    unfold awaitTargets
    split
    · exact alike_attempt (by simpa using hr) _
    · exact .done rfl
  refine EndAlike.bind ha ?_
  rintro _ _ rfl
  exact .done hr

def publicPart : Except Failed Installer.Result → Except Failed Installer.Result
  | .error f => .error (Failed.withoutToken f)
  | .ok r => .ok (withoutToken r)

theorem EndAlike.publicPart_eq {r r' : Except Failed Installer.Result}
    (h : EndAlike ResultAlike r r') : publicPart r = publicPart r' := by
  match r, r', h with
  | .error _, .error _, h => exact congrArg Except.error h
  | .ok _, .ok _, h => exact congrArg Except.ok h

end Generated

section Runs

open K3s.Progress Install Installer

/-- A bootstrap with its texts, in which the commands are answered one after the other. -/
def bootstrapRun (R : Runner) (o : Options) (t : K3s.Templates) (c : K3s.Config) (token : String)
    (answers : ℕ → R.Outcome) :
    Played K3s.Progress.Command R.Outcome String (Except String K3s.Result) :=
  (K3s.Progress.bootstrap R o t (joining c token)).run.play answers

def applyRun (R : Runner) (X : Surroundings) (c : Installer.Config) (v : Values)
    (answers : ℕ → R.Outcome) :
    Played Installer.Command R.Outcome String (Except Failed Installer.Result) :=
  (apply R X c (.ok v)).run.play answers

/-- Two runs that get the same answers and differ in the token, or in the generated
values, say and return the same, as long as no answer gives a secret away. -/
theorem texts_tell_no_secret (R : Runner) (answers : ℕ → R.Outcome) :
    (∀ (o : Options) (t : K3s.Templates) (c : K3s.Config) (token token' : String),
      token.length = token'.length →
      (c.serverURL ≠ "" → K3s.tokenRe token = K3s.tokenRe token') →
      (∀ e ∈ (bootstrapRun R o t c token answers).exchanges,
        tokenSafe R o t c token token' e.1 e.2 = true) →
      (bootstrapRun R o t c token answers).lines = (bootstrapRun R o t c token' answers).lines ∧
        (bootstrapRun R o t c token answers).result =
          (bootstrapRun R o t c token' answers).result) ∧
    ∀ (X : Surroundings) (c : Installer.Config) (v v' : Values), SameLengths v v' →
      (∀ e ∈ (applyRun R X c v answers).exchanges, secretSafe R e.1 e.2 = true) →
      (applyRun R X c v answers).lines = (applyRun R X c v' answers).lines ∧
        publicPart (applyRun R X c v answers).result =
          publicPart (applyRun R X c v' answers).result := by
  constructor
  · intro o t c token token' hlength hformat hsafe
    exact (alike_bootstrap (empty_iff_of_length hlength) hformat).play hsafe
  intro X c v v' hlengths hsafe
  obtain ⟨hlines, hresult⟩ := (alike_apply hlengths).play hsafe
  exact ⟨hlines, hresult.publicPart_eq⟩

end Runs

section Sample

open K3s.Progress Install Installer

def sampleNode : Runner := sshClient "203.0.113.7:22"

def sampleOptions : Options := ⟨true, 1, "5m0s", "context deadline exceeded"⟩

def sampleTemplates : K3s.Templates := ⟨"sysctl", "audit", "psa", fun d => "token: " ++ d.token⟩

def sampleConfig : K3s.Config :=
  ⟨"203.0.113.7", [], "https://203.0.113.6:6443", "", 0, "", "", 0⟩

def exits (status : ℕ) (stdout stderr : String) : SSHOutcome := .exited ⟨stdout, stderr, status⟩

/-- k3s is not installed, and no file is there; the write of `config.yaml` ends as given. -/
def joinAnswers (last : SSHOutcome) (n : ℕ) : SSHOutcome :=
  if n ∈ [0, 1, 5, 7, 9] then exits 1 "" "" else if n = 10 then last else exits 0 "" ""

def sampleSurroundings : Surroundings where
  static := [("namespaces.yaml", "kind: Namespace")]
  externalSecrets := []
  templates := []
  readDoc _ := .error "no document"
  lower := Text.asciiLowering
  decodeDeployment _ := .error "no JSON"
  duration _ := "5m0s"
  hashToken token := "sha256 of " ++ token
  namespacePolls := 1
  readyRounds := 1

def sampleInstall : Installer.Config := ⟨"", "v0.2.0", "", false, [], [], "", false, [], 0, true⟩

def sampleValues (password : String) : Values := ⟨password, "b", "c", "d", "e", "f", "g"⟩

/-- There is no receiver, the manifest and the namespace are there, and the first Secret
is not; its apply ends as given, and the next one fails. -/
def applyAnswers (first : SSHOutcome) (n : ℕ) : SSHOutcome :=
  if n = 1 then exits 0 "kind: Namespace" "" else if n = 3 ∨ n = 5 then exits 1 "" "not found"
  else if n = 4 then first else if n = 6 then exits 1 "" "forbidden" else exits 0 "" ""

/-- Runs that stop at a command with a secret in it, which exits with an error. -/
theorem failed_writes_tell_no_secret :
    (bootstrapRun sampleNode sampleOptions sampleTemplates sampleConfig "K10a"
        (joinAnswers (exits 1 "" "tee: No space left on device"))).result =
        .error ("k3s: write /etc/rancher/k3s/config.yaml exited 1: tee: No space left on device") ∧
      (bootstrapRun sampleNode sampleOptions sampleTemplates sampleConfig "K10a"
          (joinAnswers (exits 1 "" "tee: No space left on device"))).result =
        (bootstrapRun sampleNode sampleOptions sampleTemplates sampleConfig "K10b"
          (joinAnswers (exits 1 "" "tee: No space left on device"))).result ∧
      (applyRun sampleNode sampleSurroundings sampleInstall (sampleValues "x")
          (applyAnswers (exits 0 "" ""))).lines =
        (applyRun sampleNode sampleSurroundings sampleInstall (sampleValues "y")
          (applyAnswers (exits 0 "" ""))).lines := by
  have hbootstrap := (texts_tell_no_secret sampleNode
    (joinAnswers (exits 1 "" "tee: No space left on device"))).1 sampleOptions sampleTemplates
    sampleConfig "K10a" "K10b" (by decide) (fun _ => by decide) (by decide +kernel)
  have happly := (texts_tell_no_secret sampleNode (applyAnswers (exits 0 "" ""))).2
    sampleSurroundings sampleInstall (sampleValues "x") (sampleValues "y")
    (by constructor <;> decide) (by decide +kernel)
  exact ⟨by decide +kernel, hbootstrap.2, happly.1⟩

def writeConfig (token : String) : K3s.Progress.Command :=
  .write K3s.pathConfig (sampleTemplates.configYAML (joining sampleConfig token)) "0600"

theorem text_write (pre path content mode : String) :
    K3s.Progress.Command.text pre (.write path content mode) =
      (pre ++ "mkdir -p " ++ K3s.Progress.dirOf path ++ " && printf %s '") ++
        (String.ofList (base64 (Text.bytes content)) ++
          ("' | base64 -d | " ++ pre ++ "tee " ++ path ++ " >/dev/null && " ++ pre ++ "chmod " ++
            mode ++ " " ++ path)) := by
  unfold K3s.Progress.Command.text
  simp only [String.append_assoc]

theorem quoted_writeConfig_ne : Text.quoted (sampleOptions.shell.text (writeConfig "K10a")) ≠
    Text.quoted (sampleOptions.shell.text (writeConfig "K10b")) := by
  have hc : (base64 (Text.bytes (sampleTemplates.configYAML (joining sampleConfig "K10a")))).flatMap
      Text.escaped ≠
      (base64 (Text.bytes (sampleTemplates.configYAML (joining sampleConfig "K10b")))).flatMap
      Text.escaped := by
    decide +kernel
  have hs : ∀ c, sampleOptions.shell.text c = K3s.Progress.Command.text "sudo " c := fun _ => rfl
  rw [hs, hs, writeConfig, writeConfig, text_write, text_write]
  exact Text.quoted_append_ne hc _ _

/-- The connection breaks while the token is written: the error quotes the command. -/
theorem broken_connection_tells_secret :
    (∀ token ∈ ["K10a", "K10b"], (bootstrapRun sampleNode sampleOptions sampleTemplates sampleConfig
        token (joinAnswers (.broken "EOF"))).result =
      .error ("k3s" ++ ": " ++ ("write " ++ K3s.pathConfig) ++ ": " ++ ("ssh: run " ++
        Text.quoted (sampleOptions.shell.text (writeConfig token)) ++ ": " ++ "EOF"))) ∧
    (bootstrapRun sampleNode sampleOptions sampleTemplates sampleConfig "K10a"
        (joinAnswers (.broken "EOF"))).result ≠
      (bootstrapRun sampleNode sampleOptions sampleTemplates sampleConfig "K10b"
        (joinAnswers (.broken "EOF"))).result := by
  have hfirst : (bootstrapRun sampleNode sampleOptions sampleTemplates sampleConfig "K10a"
      (joinAnswers (.broken "EOF"))).result =
    .error ("k3s" ++ ": " ++ ("write " ++ K3s.pathConfig) ++ ": " ++ ("ssh: run " ++
      Text.quoted (sampleOptions.shell.text (writeConfig "K10a")) ++ ": " ++ "EOF")) := rfl
  have hsecond : (bootstrapRun sampleNode sampleOptions sampleTemplates sampleConfig "K10b"
      (joinAnswers (.broken "EOF"))).result =
    .error ("k3s" ++ ": " ++ ("write " ++ K3s.pathConfig) ++ ": " ++ ("ssh: run " ++
      Text.quoted (sampleOptions.shell.text (writeConfig "K10b")) ++ ": " ++ "EOF")) := rfl
  constructor
  · intro token htoken
    rcases List.mem_pair.mp htoken with rfl | rfl
    · exact hfirst
    · exact hsecond
  rw [hfirst, hsecond]
  intro heq
  simp only [Except.error.injEq, String.append_right_inj, String.append_left_inj] at heq
  exact quoted_writeConfig_ne heq

end Sample

end Orkano.SecretFlow
