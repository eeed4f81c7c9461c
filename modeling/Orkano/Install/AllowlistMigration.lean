import Orkano.Install.Apply
import Orkano.Interleave.Fallible

/-!
The move of a repository policy from the receiver's Deployment into a ConfigMap, by any number
of installers that may be interrupted at any command. The Deployment is free to change as soon
as a file on the node has changed.
-/
namespace Orkano.AllowlistMigration

open Interleave Program Text Transport Installer List

section Node

/-- The files of the node, the receiver's Deployment, and what the policy's ConfigMap has
held since it was created, newest first. -/
structure World where
  files : String → Option Bytes
  receiver : Option Deployment
  policies : List String

namespace World

/-- The content of one file, or that it is gone. -/
def put (w : World) (path : String) (content : Option Bytes) : World :=
  { w with files := Function.update w.files path content }

/-- A command that runs to its end. `kubectl create` does nothing to what exists. -/
def effect (w : World) : Command → World
  | .createPolicy data => if w.policies = [] then { w with policies := [data] } else w
  | .rm path => w.put path none
  | .mv source target =>
    match w.files source with
    | none => w
    | some content => (w.put source none).put target content
  | .tee _ append path piece =>
    w.put path (if append then (w.files path).getD [] ++ piece else piece)
  | _ => w

/-- A write that is cut off leaves something in the file. -/
def partway (w : World) (left : Bytes) : Command → World
  | .tee _ _ path _ => w.put path left
  | _ => w

end World

variable (R : Runner) (X : Surroundings)

/-- What is true of the node when a command reports success with this output. -/
def Honest (w : World) : Command → String → Prop
  | .getReceiver, out => (w.receiver = none ∧ trimSpace out = "") ∨
      ∃ d, w.receiver = some d ∧ trimSpace out ≠ "" ∧ X.decodeDeployment out = .ok d
  | .createPolicy _, _ => w.policies = []
  | .getPolicy, _ => w.policies ≠ []
  | _, _ => True

/-- Only a command that exits with zero is known to have run to its end. -/
def exec : (u : Utterance Command String) → World →
    (narrated Command R.Outcome String).Reply u → World → Prop
  | .say _, w, _, w' => w' = w
  | .run c, w, x, w' =>
    (w' = w ∨ w' = w.effect c ∨ ∃ left, w' = w.partway left c) ∧
      ∀ text r, R.report text x = .ok r → r.exitStatus = 0 →
        Honest X w c r.stdout ∧ w' = w.effect c

/-- Installers with any assets, which read a Deployment and lower a name as `X` does. -/
def installers (runs : Installer.Config → Prop) (changes : World → World → Prop) :
    System (narrated Command R.Outcome String) World ℕ (Except Failed Installer.Result) where
  exec _ := exec R X
  env := changes
  restart := Eq
  starts _ p := ∃ Y c generated, Y.decodeDeployment = X.decodeDeployment ∧ Y.lower = X.lower ∧
    runs c ∧ p = (apply R Y c generated).run

/-- A version is installed, and no policy is asked for. -/
def Upgrades (c : Installer.Config) : Prop :=
  c.version ≠ "" ∧ RepoAllowlist.normalize X.lower c.repoAllowlist = .ok []

/-- The policy stands in the Deployment as it is. -/
def Carries (raw : String) (d : Deployment) : Prop :=
  ∃ v ∈ d.containers.flatten, v.name = legacyRepoAllowlistEnv ∧ v.valueFrom = false ∧ v.value = raw

/-- The Deployment may change in any way, but has the policy as long as the files are as
they were. -/
def Rollout (raw : String) (files : String → Option Bytes) (w w' : World) : Prop :=
  ∃ receiver, w' = { w with receiver := receiver } ∧
    (w.files = files → ∃ d, receiver = some d ∧ Carries raw d)

def Edit (w w' : World) : Prop :=
  w.policies ≠ [] ∧ ∃ data, w' = { w with policies := data :: w.policies }

end Node

section Steps

variable {R : Runner} {X : Surroundings} {w w' : World}

theorem effect_policies (h : w.policies ≠ []) (c : Command) :
    (w.effect c).policies = w.policies := by
  cases c with
  | createPolicy data => simp only [World.effect, if_neg h]
  | mv source target =>
    simp only [World.effect]
    split <;> rfl
  | _ => rfl

theorem partway_policies (left : Bytes) (c : Command) :
    (w.partway left c).policies = w.policies := by
  cases c <;> rfl

theorem exec_policies {u : Utterance Command String}
    {x : (narrated Command R.Outcome String).Reply u} (h : exec R X u w x w')
    (hw : w.policies ≠ []) : w'.policies = w.policies := by
  cases u with
  | say line => exact congrArg World.policies h
  | run c =>
    rcases h.1 with rfl | rfl | ⟨left, rfl⟩
    · rfl
    · exact effect_policies hw c
    · exact partway_policies left c

variable {x : R.Outcome}

theorem exec_question {c : Command} (h : exec R X (.run c) w x w') (he : w.effect c = w)
    (hp : ∀ left, w.partway left c = w) : w' = w := by
  rcases h.1 with rfl | rfl | ⟨left, rfl⟩
  · rfl
  · exact he
  · exact hp left

theorem exec_createPolicy {data : String} (h : exec R X (.run (.createPolicy data)) w x w') :
    w' = w ∨ w.policies = [] ∧ w' = { w with policies := [data] } := by
  rcases h.1 with rfl | rfl | ⟨left, rfl⟩
  · exact .inl rfl
  · by_cases hw : w.policies = []
    · exact .inr ⟨hw, if_pos hw⟩
    · exact .inl (if_neg hw)
  · exact .inl rfl

end Steps

section Legacy

variable {vars : List EnvVar} {out : Option String}

theorem scanEnv_of_some {a : String} (h : scanEnv vars (some a) = .ok out) :
    out = some a ∧ ∀ v ∈ vars, v.name ≠ legacyRepoAllowlistEnv := by
  induction vars with
  | nil =>
    cases h
    simp
  | cons v rest ih =>
    by_cases hv : v.name = legacyRepoAllowlistEnv
    · simp [scanEnv, hv] at h
    rw [scanEnv, if_pos hv] at h
    obtain ⟨ho, hr⟩ := ih h
    exact ⟨ho, forall_mem_cons.mpr ⟨hv, hr⟩⟩

/-- A scan that succeeds finds the value of a variable that is there. -/
theorem scanEnv_of_mem {v : EnvVar} (h : scanEnv vars none = .ok out) (hv : v ∈ vars)
    (hn : v.name = legacyRepoAllowlistEnv) : out = some v.value := by
  induction vars with
  | nil => cases hv
  | cons u rest ih =>
    by_cases hu : u.name = legacyRepoAllowlistEnv
    · simp only [scanEnv, hu, ne_eq, not_true, if_false, Option.isSome_none,
        Bool.false_eq_true] at h
      split at h
      · cases h
      obtain ⟨rfl, hr⟩ := scanEnv_of_some h
      rcases mem_cons.mp hv with rfl | hv
      · rfl
      · exact absurd hn (hr v hv)
    · rw [scanEnv, if_pos hu] at h
      rcases mem_cons.mp hv with rfl | hv
      · exact absurd hn hu
      · exact ih h hv

/-- What is read from a Deployment that carries a policy is that policy. -/
theorem readLegacy_of_carries {X : Surroundings} {raw : String} {d : Deployment}
    {repositories : List String} (hd : Carries raw d) (h : readLegacy X d = .ok repositories) :
    RepoAllowlist.normalize X.lower (legacyEntries raw) = .ok repositories := by
  obtain ⟨v, hv, hnm, -, rfl⟩ := hd
  unfold readLegacy at h
  split at h
  · cases h
  cases hs : scanEnv d.containers.flatten none with
  | error e => simp [hs] at h
  | ok out =>
    obtain rfl := scanEnv_of_mem hs hv hnm
    simp only [hs] at h
    split at h
    · cases h
    next hn =>
    cases h
    exact hn

end Legacy

section Discipline

variable (raw text : String) (first : World)

/-- Until the policy is stored, nothing on the node has changed; it is stored as it was. -/
structure Kept (w : World) : Prop where
  before : w.policies = [] → w.files = first.files ∧ ∃ d, w.receiver = some d ∧ Carries raw d
  created : w.policies ≠ [] → ∃ edits, w.policies = edits ++ [text]

/-- A policy that exists stays, below what is written over it. -/
def discipline : Discipline World ℕ where
  inv := Kept raw text first
  evolves _ _ := True
  rely _ w w' := w.policies <:+ w'.policies
  evolves_refl _ := trivial
  evolves_trans := fun _ _ => trivial
  rely_refl _ _ := List.suffix_rfl
  rely_trans := fun _ _ _ _ h h' => h.trans h'

variable {raw text first} {R : Runner} {X : Surroundings} {t : ℕ} {w w' : World}

theorem policies_ne_of_suffix (h : w.policies <:+ w'.policies) (hw : w.policies ≠ []) :
    w'.policies ≠ [] := by
  intro hn
  rw [hn, suffix_nil] at h
  exact hw h

theorem allowed_self (h : Kept raw text first w) : Allowed (discipline raw text first) t w w :=
  ⟨h, trivial, fun _ _ => suffix_rfl⟩

theorem allowed_of_policy {u : Utterance Command String}
    {x : (narrated Command R.Outcome String).Reply u} (h : Kept raw text first w)
    (hw : w.policies ≠ []) (hx : exec R X u w x w') :
    Allowed (discipline raw text first) t w w' := by
  have heq := exec_policies hx hw
  refine ⟨⟨fun hn => absurd (heq ▸ hn) hw, fun _ => ?_⟩, trivial, fun _ _ => ?_⟩
  · rw [heq]
    exact h.created hw
  · exact ⟨[], heq.symm⟩

theorem allowed_createPolicy {x : R.Outcome} (h : Kept raw text first w)
    (hx : exec R X (.run (.createPolicy text)) w x w') :
    Allowed (discipline raw text first) t w w' := by
  rcases exec_createPolicy hx with rfl | ⟨hn, rfl⟩
  · exact allowed_self h
  have hc : [text] ≠ [] := cons_ne_nil _ _
  refine ⟨⟨fun hne => absurd hne hc, fun _ => ⟨[], rfl⟩⟩, trivial, fun _ _ => ?_⟩
  show w.policies <:+ [text]
  rw [hn]
  exact nil_suffix

theorem safeOk_of_policy {α ε : Type} (hw : w.policies ≠ [])
    (p : ExceptT ε (Program (narrated Command R.Outcome String)) α) :
    SafeOk (fun _ => exec R X) (discipline raw text first) t (fun _ w => w.policies ≠ []) p w := by
  have hs : Safe (fun _ => exec R X) (discipline raw text first) t
      (fun _ w => w.policies ≠ []) p.run w := by
    refine safe_of_only_keeping (R := fun w : World => w.policies ≠ []) ?_ ?_ (only_true _) hw
    · intro u w x w' _ hi hw hx
      refine ⟨allowed_of_policy hi hw hx, ?_⟩
      rw [exec_policies hx hw]
      exact hw
    · intro w w' hw hr
      exact policies_ne_of_suffix hr hw
  exact hs.mono fun _ _ h _ _ => h

theorem safeOk_send {β : Type} {c : Command} {S : Command → String}
    {f : Except String Transport.Result → Narration R Command β} {post : β → World → Prop}
    (h : ∀ w1, w.policies <:+ w1.policies → Kept raw text first w1 → ∀ x w2,
      exec R X (.run c) w1 x w2 → Allowed (discipline raw text first) t w1 w2 ∧
        SafeOk (fun _ => exec R X) (discipline raw text first) t post (f (R.report (S c) x)) w2) :
    SafeOk (fun _ => exec R X) (discipline raw text first) t post (send R S c >>= f) w := h

end Discipline

section Installer

variable {raw text : String} {first : World} {R : Runner} {X Y : Surroundings} {t : ℕ} {w : World}
variable {c : Installer.Config} {entries : List String}

theorem Kept.read {out : String} (h : Kept raw text first w) (hw : w.policies = [])
    (ho : Honest X w .getReceiver out) :
    trimSpace out ≠ "" ∧ ∃ d, X.decodeDeployment out = .ok d ∧ Carries raw d := by
  obtain ⟨-, d, hr, hc⟩ := h.before hw
  rcases ho with ⟨hn, -⟩ | ⟨d', hd', hb, hd⟩
  · rw [hr] at hn
    cases hn
  · rw [hr, Option.some.injEq] at hd'
    exact ⟨hb, d', hd, hd' ▸ hc⟩

/-- The receiver's policy is read, unless somebody has stored it before. -/
theorem safeOk_legacyReceiverRepoAllowlist (hdc : Y.decodeDeployment = X.decodeDeployment)
    (he : RepoAllowlist.normalize Y.lower (legacyEntries raw) = .ok entries) :
    SafeOk (fun _ => exec R X) (discipline raw text first) t
      (fun r w => w.policies ≠ [] ∨ r = some entries) (legacyReceiverRepoAllowlist R Y c) w := by
  apply safeOk_send
  intro w1 _ hi x w2 hx
  obtain rfl := exec_question hx rfl fun _ => rfl
  refine ⟨allowed_self hi, ?_⟩
  by_cases hw : w2.policies = []
  · cases hrp : R.report (c.shell.text .getReceiver) x with
    | error e => exact SafeOk.throw _
    | ok got =>
      by_cases hs : got.exitStatus = 0
      · have hr := hi.read hw (hx.2 _ got hrp hs).1
        refine hr.2.elim fun d hd => ?_
        simp only [hs, ne_eq, not_true, if_false, hr.1, hdc, hd.1]
        cases hl : readLegacy Y d with
        | error e => exact SafeOk.throw _
        | ok repositories =>
          have hsm := he.symm.trans (readLegacy_of_carries hd.2 hl)
          exact SafeOk.pure (.inr (congrArg some (Except.ok.inj hsm).symm))
      · simp only [ne_eq, hs, not_false_eq_true, if_true]
        exact SafeOk.throw _
  · exact (safeOk_of_policy hw _).mono fun _ _ h a ha => .inl (h a ha)

/-- It returns without an error only if the ConfigMap is there. -/
theorem safeOk_createConfigMapIfAbsent :
    SafeOk (fun _ => exec R X) (discipline raw text first) t (fun _ w => w.policies ≠ [])
      (createConfigMapIfAbsent R c text) w := by
  apply safeOk_send
  intro w1 _ hi x w2 hx
  refine ⟨allowed_createPolicy hi hx, ?_⟩
  cases hr : R.report (c.shell.text (.createPolicy text)) x with
  | error e => exact SafeOk.throw _
  | ok created =>
    simp only
    split
    · next hs =>
      obtain ⟨hn, rfl⟩ := hx.2 _ created hr hs
      apply SafeOk.pure
      simp only [World.effect, if_pos (show w1.policies = [] from hn)]
      exact cons_ne_nil _ _
    apply safeOk_send
    intro w3 _ hi' y w4 hy
    obtain rfl := exec_question hy rfl fun _ => rfl
    refine ⟨allowed_self hi', ?_⟩
    cases hg : R.report (c.shell.text .getPolicy) y with
    | error e => exact SafeOk.throw _
    | ok got =>
      simp only
      split
      · next hs => exact SafeOk.pure (hy.2 _ got hg hs).1
      · exact SafeOk.throw _

theorem safeOk_ensureRepoAllowlist (ht : RepoAllowlist.format Y.lower entries = .ok text) :
    SafeOk (fun _ => exec R X) (discipline raw text first) t (fun _ w => w.policies ≠ [])
      (ensureRepoAllowlist R Y c entries) w := by
  simp only [ensureRepoAllowlist, ht]
  apply SafeOk.bind safeOk_createConfigMapIfAbsent
  intro created w1 hw1
  exact safeOk_of_policy hw1 _

theorem safeOk_migratePolicy (hv : c.version ≠ "")
    (hd : Y.decodeDeployment = X.decodeDeployment)
    (he : RepoAllowlist.normalize Y.lower (legacyEntries raw) = .ok entries)
    (ht : RepoAllowlist.format Y.lower entries = .ok text) :
    SafeOk (fun _ => exec R X) (discipline raw text first) t (fun _ w => w.policies ≠ [])
      (migratePolicy R Y c []) w := by
  rw [migratePolicy, if_pos ⟨hv, rfl⟩]
  apply SafeOk.bind (SafeOk.adapt _ (safeOk_legacyReceiverRepoAllowlist hd he))
  rintro r w1 (hw1 | rfl)
  · exact safeOk_of_policy hw1 _
  apply SafeOk.bind (SafeOk.adapt _ (safeOk_ensureRepoAllowlist ht))
  intro changed w2 hw2
  exact SafeOk.pure hw2

theorem prepare_seed {files : List ManifestFile} {seed : List String}
    (h : prepare Y c = .ok (files, seed)) :
    RepoAllowlist.normalize Y.lower c.repoAllowlist = .ok seed := by
  simp only [prepare, bind, Except.bind] at h
  repeat' split at h
  all_goals simp_all [pure, Except.pure]

/-- An upgrade seeds the policy with the old entries or leaves the one that exists. -/
theorem safeOk_apply {generated : Except String Install.Values} (hr : Upgrades Y c)
    (hd : Y.decodeDeployment = X.decodeDeployment)
    (he : RepoAllowlist.normalize Y.lower (legacyEntries raw) = .ok entries)
    (ht : RepoAllowlist.format Y.lower entries = .ok text) :
    SafeOk (fun _ => exec R X) (discipline raw text first) t (fun _ _ => True)
      (apply R Y c generated) w := by
  unfold apply
  cases hp : prepare Y c with
  | error e => exact SafeOk.throw _
  | ok prepared =>
    obtain ⟨files, seed⟩ := prepared
    obtain rfl : [] = seed := Except.ok.inj (hr.2.symm.trans (prepare_seed hp))
    show SafeOk _ _ _ _ (migratePolicy R Y c [] >>= _) w
    apply SafeOk.bind (safeOk_migratePolicy hr.1 hd he ht)
    intro policy w1 hw1
    exact (safeOk_of_policy hw1 _).mono fun _ _ _ _ _ => trivial

end Installer

section Runs

variable {raw text : String} {first : World} (R : Runner) (X : Surroundings)

/-- What happens beside the installers of an upgrade. -/
def Upgrading (raw : String) (first w w' : World) : Prop :=
  Rollout raw first.files w w' ∨ Edit w w'

theorem upgrading_allowed {w w' : World} (h : Kept raw text first w)
    (hs : Upgrading raw first w w') : Kept raw text first w' ∧ w.policies <:+ w'.policies := by
  rcases hs with ⟨receiver, rfl, hr⟩ | ⟨hne, data, rfl⟩
  · refine ⟨⟨fun hn => ?_, h.created⟩, suffix_rfl⟩
    have hf := (h.before hn).1
    exact ⟨hf, hr hf⟩
  refine ⟨⟨fun hn => absurd hn (cons_ne_nil _ _), fun _ => ?_⟩, suffix_cons _ _⟩
  obtain ⟨edits, he⟩ := h.created hne
  exact ⟨data :: edits, by simp [he]⟩

/-- Any number of upgrades at once seed the policy once, with the old entries. -/
theorem respects_upgrade {entries : List String}
    (he : RepoAllowlist.normalize X.lower (legacyEntries raw) = .ok entries)
    (ht : RepoAllowlist.format X.lower entries = .ok text) :
    (installers R X (Upgrades X) (Upgrading raw first)).Respects (discipline raw text first)
      fun _ _ _ => True where
  starts := by
    rintro t p w ⟨Y, c, generated, hd, hl, hr, rfl⟩ -
    rw [Upgrades, ← hl] at hr
    rw [← hl] at he ht
    exact (safeOk_apply hr hd he ht).mono fun _ _ _ => trivial
  lasts := fun _ _ _ _ _ _ => trivial
  env := by
    intro w w' hi hst
    obtain ⟨hi', hs⟩ := upgrading_allowed hi hst
    exact ⟨hi', trivial, fun _ => hs⟩
  restart := by
    rintro w _ hi rfl
    exact ⟨hi, trivial⟩

/-- Nobody but the installers touches the policy. -/
def LeavesPolicy (w w' : World) : Prop := w'.policies = w.policies

/-- Where a policy exists, no installer changes it. -/
theorem respects_policy {policies : List String} (hne : policies ≠ []) :
    (installers R X (fun _ => True) LeavesPolicy).Respects
      (Discipline.invariant fun w => w.policies = policies) fun _ _ _ => True where
  starts := by
    intro t p w _ hw
    refine (safe_of_only_keeping (R := fun _ => True) ?_ (fun _ _ _ _ => trivial) (only_true p)
      trivial).mono fun _ _ _ => trivial
    intro u w x w' _ hw _ hx
    have hs : w'.policies = policies := (exec_policies hx (hw ▸ hne)).trans hw
    exact ⟨⟨hs, trivial, fun _ _ => trivial⟩, trivial⟩
  lasts := fun _ _ _ _ _ _ => trivial
  env := fun hw hst => ⟨hst.trans hw, trivial, fun _ => trivial⟩
  restart := by
    rintro w _ hw rfl
    exact ⟨hw, trivial⟩

/-- No file of the node is touched before the receiver's policy is stored, with exactly
its entries, and no run of any installer changes a policy that is stored. -/
theorem legacy_policy_never_lost {raw : String} {entries : List String}
    (haccepted : RepoAllowlist.normalize X.lower (legacyEntries raw) = .ok entries) :
    (∃ text, RepoAllowlist.format X.lower (legacyEntries raw) = .ok text ∧
      ∀ first : World, first.policies = [] → (∃ d, first.receiver = some d ∧ Carries raw d) →
        ∀ c, (installers R X (Upgrades X) (Upgrading raw first)).Steps (Config.idle first) c →
          c.shared.files = first.files ∨ ∃ edits, c.shared.policies = edits ++ [text]) ∧
    ∀ first : World, first.policies ≠ [] → ∀ c,
      (installers R X (fun _ => True) LeavesPolicy).Steps (Config.idle first) c →
        c.shared.policies = first.policies := by
  constructor
  · obtain ⟨text, htext⟩ : ∃ text, RepoAllowlist.format X.lower (legacyEntries raw) = .ok text := by
      simp only [RepoAllowlist.format, haccepted, Except.ok.injEq, exists_eq']
    have hentries : RepoAllowlist.format X.lower entries = .ok text := by
      simp only [RepoAllowlist.format, RepoAllowlist.normalize_normalize haccepted]
      simpa only [RepoAllowlist.format, haccepted] using htext
    refine ⟨text, htext, fun first hnil hreceiver c hc => ?_⟩
    have hfirst : Kept raw text first first :=
      ⟨fun _ => ⟨rfl, hreceiver⟩, fun hne => absurd hnil hne⟩
    have hkept := (System.reachable_good (respects_upgrade R X haccepted hentries)
      (System.good_idle hfirst) hc).1.inv
    by_cases hpolicies : c.shared.policies = []
    · exact .inl (hkept.before hpolicies).1
    · exact .inr (hkept.created hpolicies)
  · intro first hne c hc
    exact (System.reachable_good (respects_policy R X hne) (System.good_idle rfl) hc).1.inv

end Runs

def sampleReceiver : Deployment :=
  ⟨"orkano-receiver",
    [[⟨"PORT", "8080", false⟩, ⟨"ORKANO_REPO_ALLOWLIST", "acme/web,Acme/Shop", false⟩]]⟩

def sampleSurroundings : Surroundings where
  static := [("namespaces.yaml", "kind: Namespace")]
  externalSecrets := []
  templates := []
  readDoc _ := .error "no document"
  lower := asciiLowering
  decodeDeployment out := if out = "receiver" then .ok sampleReceiver else .error "no JSON"
  duration _ := "5m0s"
  hashToken token := "sha256 of " ++ token
  namespacePolls := 0
  readyRounds := 0

def sampleConfig : Installer.Config := ⟨"", "v0.2.0", "", false, [""], [], "", false, [], 0, true⟩

def sampleWorld : World := ⟨fun _ => none, some sampleReceiver, []⟩

def sampleStatus (w : World) : Command → ℕ
  | .getReceiver => if w.receiver = some sampleReceiver then 0 else 1
  | .createPolicy _ => if w.policies = [] then 0 else 1
  | .getPolicy => if w.policies = [] then 1 else 0
  | .cat _ => 1
  | _ => 0

def sampleNode : Machine (narrated Command SSHOutcome String) World where
  Choice _ := Unit
  answer
    | .say _, _, w => some ((), w)
    | .run c, _, w =>
      let out := if c = .getReceiver then "receiver" else ""
      some (.exited ⟨out, "", sampleStatus w c⟩, if sampleStatus w c = 0 then w.effect c else w)

def sampleRunner : Runner := sshClient "203.0.113.7:22"

def sampleApply : Program (narrated Command SSHOutcome String) (Except Failed Installer.Result) :=
  (apply sampleRunner sampleSurroundings sampleConfig (.error "no randomness")).run

def sampleUpgraded (runs : List ℕ) (w : World) : World :=
  runs.foldl (fun w _ => sampleNode.after (fun _ _ => ()) sampleApply w) w

/-- The sample node reports success only of what is true. -/
theorem sampleStatus_honest {w : World} {c : Command} (h : sampleStatus w c = 0) :
    Honest sampleSurroundings w c (if c = .getReceiver then "receiver" else "") := by
  cases c with
  | getReceiver =>
    have hr : w.receiver = some sampleReceiver := by
      by_contra hne
      simp [sampleStatus, hne] at h
    exact .inr ⟨sampleReceiver, hr, by decide, rfl⟩
  | createPolicy data =>
    by_contra hne
    simp [sampleStatus, if_neg (show ¬ w.policies = [] from hne)] at h
  | getPolicy =>
    intro hn
    simp [sampleStatus, hn] at h
  | _ => trivial

theorem sampleNode_exec {u : Utterance Command String} {w w' : World}
    {x : (narrated Command SSHOutcome String).Reply u} (h : sampleNode.exec u w x w') :
    exec sampleRunner sampleSurroundings u w x w' := by
  obtain ⟨_, ha⟩ := h
  cases u with
  | say line =>
    cases ha
    rfl
  | run c =>
    cases ha
    constructor
    · split
      · exact .inr (.inl rfl)
      · exact .inl rfl
    intro text r hr hs
    cases hr
    exact ⟨sampleStatus_honest hs, if_pos hs⟩

theorem steps_sampleUpgraded (runs : List ℕ) (w : World) {ok : Installer.Config → Prop}
    (hok : ok sampleConfig) (changes : World → World → Prop) :
    (installers sampleRunner sampleSurroundings ok changes).Steps (Config.idle w)
      (Config.idle (sampleUpgraded runs w)) := by
  refine System.steps_idle_after (fun _ => sampleNode) (fun _ _ _ => ()) (fun _ => sampleApply)
    ?_ ?_ runs w
  · intro _ u w x w' h
    exact sampleNode_exec h
  · intro _
    exact ⟨sampleSurroundings, sampleConfig, _, rfl, rfl, hok, rfl⟩

/-- A first run stores the policy, writes a manifest and stops at the namespace; a second
one leaves the policy as it is. -/
theorem upgrade_keeps_sample_policy :
    (sampleUpgraded [0] sampleWorld).files
        "/var/lib/rancher/k3s/server/manifests/orkano/namespaces.yaml" ≠ none ∧
      (∃ edits, (sampleUpgraded [0] sampleWorld).policies = edits ++ ["acme/shop\nacme/web\n"]) ∧
      (sampleUpgraded [1] (sampleUpgraded [0] sampleWorld)).policies =
        (sampleUpgraded [0] sampleWorld).policies := by
  have haccepted : RepoAllowlist.normalize sampleSurroundings.lower
      (legacyEntries "acme/web,Acme/Shop") = .ok ["acme/shop", "acme/web"] := by decide +kernel
  have hformat : RepoAllowlist.format sampleSurroundings.lower
      (legacyEntries "acme/web,Acme/Shop") = .ok "acme/shop\nacme/web\n" := by decide +kernel
  have hruns : Upgrades sampleSurroundings sampleConfig := ⟨by decide, by decide +kernel⟩
  have hfile : (sampleUpgraded [0] sampleWorld).files
      "/var/lib/rancher/k3s/server/manifests/orkano/namespaces.yaml" ≠ none := by decide +kernel
  have hcarries : Carries "acme/web,Acme/Shop" sampleReceiver :=
    ⟨⟨"ORKANO_REPO_ALLOWLIST", "acme/web,Acme/Shop", false⟩, by decide, rfl, rfl, rfl⟩
  obtain ⟨⟨text, htext, hkept⟩, hstays⟩ :=
    legacy_policy_never_lost sampleRunner sampleSurroundings haccepted
  rw [hformat, Except.ok.injEq] at htext
  rw [← htext] at hkept
  refine ⟨hfile, ?_, ?_⟩
  · rcases hkept sampleWorld rfl ⟨sampleReceiver, rfl, hcarries⟩ _
      (steps_sampleUpgraded [0] sampleWorld hruns _) with hsame | hstored
    · exact absurd (congrFun hsame _) hfile
    · exact hstored
  · exact hstays _ (by decide +kernel) _ (steps_sampleUpgraded [1] _ trivial _)

end Orkano.AllowlistMigration
