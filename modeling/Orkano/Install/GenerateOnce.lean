import Orkano.Install.PlatformSecrets

/-!
Whether the platform's Secrets are generated once. The installer takes every exit status but 0
for absence, so it is safe exactly as long as each apply finds its Secret absent.
-/
namespace Orkano.Install

open Interleave Program List

variable {hashToken : String → String} {values : ℕ → Values} {first w w' : World} {t : ℕ}

def Kept (w w' : World) : Prop :=
  ∀ name secret, w.secrets name = some secret → w'.secrets name = some secret

/-- The data of a Secret is what some run's table has for the name. -/
def FromRun (hashToken : String → String) (values : ℕ → Values) (name : String)
    (secret : Secret) : Prop :=
  ∃ t table, specs hashToken (values t) = .ok table ∧ ⟨name, secret.data⟩ ∈ table

def onceDiscipline (hashToken : String → String) (values : ℕ → Values) (first : World) :
    Discipline World ℕ where
  inv w := ∀ name secret, w.secrets name = some secret →
    first.secrets name = some secret ∨ FromRun hashToken values name secret
  evolves := Kept
  rely _ := Kept
  evolves_refl := fun _ _ _ h => h
  evolves_trans := fun h₁ h₂ name secret h => h₂ name secret (h₁ name secret h)
  rely_refl := fun _ _ _ _ h => h
  rely_trans := fun _ _ _ _ h₁ h₂ name secret h => h₂ name secret (h₁ name secret h)

def ApplyAbsent (w : World) : Call → Prop
  | .applySecret s => w.secrets s.name = none
  | _ => True

instance (w : World) : (c : Call) → Decidable (ApplyAbsent w c)
  | .applySecret s => inferInstanceAs (Decidable (w.secrets s.name = none))
  | .getSecret _ | .createSecret _ => inferInstanceAs (Decidable True)

/-- The runs, where every apply is as `ApplyAbsent` says. -/
def carefulSeeders (hashToken : String → String) (values : ℕ → Values) :
    System node World ℕ RunResult :=
  (seeders hashToken values).restrict fun _ c w _ => ApplyAbsent w c

@[simp] theorem put_same (w : World) (name : String) (secret : Secret) :
    (w.put name secret).secrets name = some secret := Function.update_self ..

theorem put_of_ne {name name' : String} (h : name' ≠ name) (secret : Secret) :
    (w.put name secret).secrets name' = w.secrets name' := Function.update_of_ne h ..

theorem allowed_same (hw : (onceDiscipline hashToken values first).inv w) :
    Allowed (onceDiscipline hashToken values first) t w w :=
  ⟨hw, fun _ _ h => h, fun _ _ _ _ h => h⟩

/-- A Secret may be stored where there is none, with the data of this run. -/
theorem allowed_put {s : Spec} {table : List Spec} {secret : Secret}
    (hw : (onceDiscipline hashToken values first).inv w)
    (ht : specs hashToken (values t) = .ok table) (hs : s ∈ table) (hd : secret.data = s.data)
    (hf : w.secrets s.name = none) :
    Allowed (onceDiscipline hashToken values first) t w (w.put s.name secret) := by
  have hk : Kept w (w.put s.name secret) := by
    intro name old hold
    by_cases hn : name = s.name
    · rw [hn, hf] at hold
      cases hold
    · rw [put_of_ne hn]
      exact hold
  refine ⟨?_, hk, fun _ _ => hk⟩
  intro name new hnw
  by_cases hn : name = s.name
  · rw [hn, put_same, Option.some.injEq] at hnw
    right
    refine ⟨t, table, ht, ?_⟩
    rw [hn, ← hnw, hd]
    exact hs
  · rw [put_of_ne hn] at hnw
    exact hw name new hnw

section Runs

variable {v : Values} {table rest : List Spec}

/-- A Secret of the name holds exactly this data. -/
def Stored (name : String) (data : List (String × String)) (w : World) : Prop :=
  ∃ secret, w.secrets name = some secret ∧ secret.data = data

theorem Stored.kept {name : String} {data : List (String × String)} (h : Stored name data w)
    (hk : Kept w w') : Stored name data w' := by
  obtain ⟨secret, hs, hd⟩ := h
  exact ⟨secret, hk name secret hs, hd⟩

theorem run_createSecretIfAbsent (s : Spec) :
    (kubectl.createSecretIfAbsent s).run = Program.call (I := node) (.getSecret s.name) fun
      | none => .done (.error (.check s.name))
      | some status => if status = 0 then .done (.ok false) else
          Program.call (I := node) (.applySecret s) fun
            | true => .done (.ok true)
            | false => .done (.error (.create s.name)) := by
  refine congrArg (Program.call _) (funext fun x => ?_)
  cases x with
  | none => rfl
  | some status =>
    by_cases hz : status = 0
    · subst hz
      rfl
    · simp only [if_neg hz]
      change (if decide (status = 0) = true then _ else _ : ExceptT InstallError Prog Bool).run = _
      rw [decide_eq_false hz]
      exact congrArg (Program.call _) (funext fun ok => by cases ok <;> rfl)

/-- A Secret is created or left as it is; when created, it has this data. -/
theorem safe_createSecretIfAbsent {s : Spec} (ht : specs hashToken (values t) = .ok table)
    (hs : s ∈ table) :
    Safe (carefulSeeders hashToken values).exec (onceDiscipline hashToken values first) t
      (fun x w' => x = .ok true → Stored s.name s.data w') (kubectl.createSecretIfAbsent s).run
      w := by
  rw [run_createSecretIfAbsent]
  intro w1 _ hw1 x w2 he
  obtain rfl := exec_getSecret he.2
  refine ⟨allowed_same hw1, ?_⟩
  cases x with
  | none => exact nofun
  | some status =>
    dsimp only
    split
    · exact nofun
    intro w3 _ hw3 y w4 he3
    have ha : w3.secrets s.name = none := he3.1
    have hap : w3.apply s = w3.put s.name ⟨s.data, some (s.data.map Prod.fst)⟩ := by
      simp only [World.apply, ha]
    rcases exec_applySecret he3.2 with ⟨rfl, rfl⟩ | rfl
    · exact ⟨allowed_same hw3, nofun⟩
    rw [hap]
    refine ⟨allowed_put hw3 ht hs rfl ha, ?_⟩
    cases y with
    | false => exact nofun
    | true =>
      intro _
      exact ⟨_, put_same .., rfl⟩

/-- A token that is to be printed is the one whose hash is stored. -/
def TokenStored (hashToken : String → String) (token : String) (w : World) : Prop :=
  token ≠ "" → Stored nameBootstrapToken [(keyTokenSHA256, hashToken token)] w

variable {token : String}

theorem TokenStored.kept (h : TokenStored hashToken token w) (hk : Kept w w') :
    TokenStored hashToken token w' := fun hne => (h hne).kept hk

theorem data_of_mem_specTable {s : Spec} (hs : s ∈ specTable hashToken v)
    (hn : s.name = nameBootstrapToken) :
    s.data = [(keyTokenSHA256, hashToken v.bootstrapToken)] := by
  simp only [specTable, roleSpec, mem_cons, not_mem_nil, or_false] at hs
  rcases hs with rfl | rfl | rfl | rfl | rfl | rfl | rfl | rfl | rfl
  case inr.inr.inr.inr.inr.inr.inl => rfl
  all_goals
    dsimp only at hn
    exact absurd hn (by decide)

theorem specs_eq (h : specs hashToken v = .ok table) : table = specTable hashToken v := by
  unfold specs at h
  split at h
  · cases h
  · exact (Except.ok.inj h).symm

/-- The token that is returned is the one whose hash is stored. -/
theorem safe_ensureEach {changed : Bool}
    (ht : specs hashToken (values t) = .ok table) (hr : rest ⊆ table)
    (htk : TokenStored hashToken token w) :
    Safe (carefulSeeders hashToken values).exec (onceDiscipline hashToken values first) t
      (fun r => TokenStored hashToken r.bootstrapToken)
      (kubectl.ensureEach (values t) rest token changed) w := by
  induction rest generalizing w token changed with
  | nil => exact htk
  | cons s rest ih =>
    have hs : s ∈ table := hr (mem_cons_self ..)
    have hr' : rest ⊆ table := fun _ h => hr (mem_cons_of_mem _ h)
    have hst : ∀ w w', TokenStored hashToken token w → Kept w w' →
        TokenStored hashToken token w' := fun _ _ h hk => h.kept hk
    unfold SecretShell.ensureEach
    apply Safe.bind
    apply Safe.mono _ ((safe_createSecretIfAbsent ht hs).and_stable hst hst htk)
    intro x w1 hx
    match x, hx with
    | .error e, hx => exact hx.2
    | .ok false, hx => exact ih hr' hx.2
    | .ok true, hx =>
      apply ih hr'
      split
      · rename_i hn
        intro _
        rw [specs_eq ht] at hs
        rw [← data_of_mem_specTable hs hn, ← hn]
        exact hx.1 rfl
      · exact hx.2

theorem safe_seedEach {created existed : List String}
    (ht : specs hashToken (values t) = .ok table) (hr : rest ⊆ table) :
    Safe (carefulSeeders hashToken values).exec (onceDiscipline hashToken values first) t
      (fun _ _ => True) (seedEach rest created existed) w := by
  induction rest generalizing w created existed with
  | nil => trivial
  | cons s rest ih =>
    have hs : s ∈ table := hr (mem_cons_self ..)
    have hr' : rest ⊆ table := fun _ h => hr (mem_cons_of_mem _ h)
    unfold seedEach
    apply Safe.bind
    intro w1 _ hw1 x w2 he
    have ha : Allowed (onceDiscipline hashToken values first) t w1 w2 := by
      rcases exec_createSecret he.2 with rfl | ⟨hf, rfl⟩
      · exact allowed_same hw1
      · exact allowed_put hw1 ht hs rfl hf
    refine ⟨ha, ?_⟩
    cases x with
    | created | alreadyExists => exact ih hr'
    | error => trivial

def RunPost (hashToken : String → String) : RunResult → World → Prop
  | .installed r, w => TokenStored hashToken r.bootstrapToken w
  | .seeded _, _ => True

theorem safe_installerRun :
    Safe (carefulSeeders hashToken values).exec (onceDiscipline hashToken values first) t
      (RunPost hashToken) (installerRun hashToken (values t)) w := by
  unfold installerRun SecretShell.ensureSecrets
  apply Safe.bind
  cases ht : specs hashToken (values t) with
  | error field => exact fun h => absurd rfl h
  | ok table => exact safe_ensureEach ht (List.Subset.refl _) fun h => absurd rfl h

theorem safe_seederRun :
    Safe (carefulSeeders hashToken values).exec (onceDiscipline hashToken values first) t
      (RunPost hashToken) (seederRun hashToken (values t)) w := by
  unfold seederRun seed
  apply Safe.bind
  cases ht : specs hashToken (values t) with
  | error field => trivial
  | ok table => exact safe_seedEach ht (List.Subset.refl _)

/-- Any number of runs at once: a Secret once there keeps its data. -/
theorem carefulSeeders_respect :
    (carefulSeeders hashToken values).Respects (onceDiscipline hashToken values first)
      (fun _ => RunPost hashToken) where
  starts := by
    intro t p w hp _
    rcases hp with rfl | rfl
    · exact safe_installerRun
    · exact safe_seederRun
  lasts := by
    intro t r w w' hps hk
    cases r with
    | installed r => exact TokenStored.kept hps hk
    | seeded r => trivial
  env := fun _ he => absurd he id
  restart := by
    intro w w' hw he
    rw [show w' = w from he]
    exact ⟨hw, fun _ _ h => h⟩

end Runs

def sampleValues (t : ℕ) : Values :=
  let tag := String.ofList (List.replicate (t + 1) 'x')
  ⟨"su" ++ tag, "rc" ++ tag, "di" ++ tag, "da" ++ tag, "wh" ++ tag, "tok" ++ tag, "key" ++ tag⟩

def sampleHash (token : String) : String := "sha256 of " ++ token

def emptyCluster : World := ⟨fun _ => none⟩

def honestPick : (c : Call) → World → c.Choice
  | .getSecret name, w => some (if (w.secrets name).isSome then 0 else 1)
  | .applySecret _, _ | .createSecret _, _ => none

/-- Every check exits with 1, as with an API server that cannot be reached. -/
def unreachablePick : (c : Call) → World → c.Choice
  | .getSecret _, _ => some 1
  | .applySecret _, _ | .createSecret _, _ => none

def carefulMachine : Machine node World := machine.guard fun c w _ _ => decide (ApplyAbsent w c)

def sampleRun (t : ℕ) : Prog RunResult := installerRun sampleHash (sampleValues t)

def firstWorld : World := carefulMachine.after honestPick (sampleRun 0) emptyCluster

def firstConfig : Config node World ℕ RunResult :=
  ⟨firstWorld, Function.update (fun _ => none) 0
    (some (.done (.installed ⟨(sampleValues 0).bootstrapToken, true, none⟩)))⟩

theorem runs_firstWorld : Runs carefulMachine.exec (sampleRun 0) emptyCluster
    (.installed ⟨(sampleValues 0).bootstrapToken, true, none⟩) firstWorld :=
  carefulMachine.runs_after (by decide +kernel)

theorem carefulMachine_exec {c : Call} {x : c.Reply} (h : carefulMachine.exec c w x w') :
    (carefulSeeders sampleHash sampleValues).exec t c w x w' := by
  rw [carefulMachine, Machine.exec_guard, decide_eq_true_iff] at h
  exact ⟨h.2, h.1⟩

theorem steps_firstConfig {M : System node World ℕ RunResult} (hM : M.starts 0 (sampleRun 0))
    (he : ∀ c w x w', carefulMachine.exec c w x w' → M.exec 0 c w x w') :
    M.Steps (Config.idle emptyCluster) firstConfig := by
  have hr : Runs (M.exec 0) (sampleRun 0) emptyCluster _ firstWorld :=
    runs_firstWorld.mono he
  exact .head (.start rfl hM) (System.steps_of_runs hr _)

def secondWorld : World := carefulMachine.after honestPick (sampleRun 1) firstWorld

def secondConfig : Config node World ℕ RunResult :=
  ⟨secondWorld, Function.update firstConfig.threads 1 (some (.done (.installed ⟨"", false, none⟩)))⟩

def rotatedWorld : World := machine.after unreachablePick (sampleRun 1) firstWorld

def rotatedConfig : Config node World ℕ RunResult :=
  ⟨rotatedWorld, Function.update firstConfig.threads 1
    (some (.done (.installed ⟨(sampleValues 1).bootstrapToken, true, none⟩)))⟩

end Orkano.Install
