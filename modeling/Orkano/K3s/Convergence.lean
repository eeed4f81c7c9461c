import Orkano.K3s.Bootstrap

/-!
What a successful bootstrap guarantees. The restart of the service follows the change flag of
`config.yaml` alone.
-/

namespace Orkano.K3s

open Interleave Program Text Node

def serviceFiles : List String := [pathConfig, pathAudit, pathPSA]

def managedFiles : List String := pathSysctl :: serviceFiles

structure Converged (t : Templates) (c : Config) (n : Node) : Prop where
  sysctl : n.files pathSysctl = some t.sysctlConf
  audit : n.files pathAudit = some t.auditYAML
  psa : n.files pathPSA = some t.psaYAML
  config : n.files pathConfig = some (t.configYAML c)
  started : ∀ path ∈ serviceFiles, n.changed path < n.started
  applied : n.changed pathSysctl < n.applied pathSysctl

structure Settled (t : Templates) (c : Config) (n : Node) : Prop where
  sysctl : n.files pathSysctl = some t.sysctlConf → n.installed.isSome = true →
    n.changed pathSysctl < n.applied pathSysctl
  service : n.installed.map installedVersion = some c.version → n.files pathConfig = some (t.configYAML c) →
    n.active = true → n.files pathAudit = some t.auditYAML ∧ n.files pathPSA = some t.psaYAML ∧
      ∀ path ∈ serviceFiles, n.changed path < n.started

variable {P : Tools} {t : Templates} {c : Config} {n n' : Node}
variable {installed : Option String}

/-- The version that is found is the installed one; finding it changes nothing. -/
theorem detectInstalled_succeeds (h : Succeeds (machine P).exec detectInstalled n installed n') :
    n' = n ∧ (installed = none ∨ installed = n.installed.map installedVersion) := by
  obtain ⟨reply, n1, hrn, hr⟩ := succeeds_bind.mp h
  have hn1 := exec_reads rfl (succeeds_run.mp hrn)
  subst hn1
  cases reply with
  | none => exact absurd hr succeeds_throw
  | some out =>
    obtain ⟨rfl, rfl⟩ := succeeds_pure.mp hr
    refine ⟨rfl, ?_⟩
    by_cases he : out.exit = 0
    · obtain ⟨rfl, -⟩ := exec_exit_zero (by simp) (succeeds_run.mp hrn) he
      right
      cases hv : n'.installed <;> simp_all [complete]
    · simp [he]

theorem detectInstalled_undisturbed (h : Succeeds (undisturbed P) detectInstalled n installed n') :
    installed = n.installed.map installedVersion := by
  obtain ⟨reply, n1, hrn, hr⟩ := succeeds_bind.mp h
  obtain ⟨rfl, -⟩ := undisturbed.complete (by simp) (succeeds_perform.mp hrn)
  obtain ⟨rfl, -⟩ := succeeds_pure.mp hr
  cases hi : n.installed <;> simp [Node.complete, hi]

structure SysctlReady (t : Templates) (installed : Option String) (n n' : Node) : Prop where
  keeps : Keeps [pathSysctl, pathSysctl ++ ".tmp"] n n'
  present : n'.files pathSysctl = some t.sysctlConf
  applied : (n.files pathSysctl = some t.sysctlConf → installed.isSome = true →
    n.changed pathSysctl < n.applied pathSysctl) → n'.changed pathSysctl < n'.applied pathSysctl

/-- The parameters are loaded wherever the file is new or the node is. -/
theorem sysctl_ready {α : Type} {changed : Bool} {rest : Action α}
    {x : α} {n1 : Node} (he : Ensured pathSysctl t.sysctlConf n n1)
    (hsm : changed = false → n.files pathSysctl = some t.sysctlConf)
    (h : Succeeds (machine P).exec (do
      if changed || installed.isNone then
        runOK "k3s" (.sysctl pathSysctl) "apply kernel parameters"
      rest) n1 x n') :
    ∃ n2, SysctlReady t installed n n2 ∧ Succeeds (machine P).exec rest n2 x n' := by
  by_cases hn : (changed || installed.isNone) = true
  · rw [if_pos hn] at h
    obtain ⟨⟨⟩, n2, hsy, hr⟩ := succeeds_bind.mp h
    obtain ⟨-, hn2⟩ := runOK_succeeds (by simp) hsy
    simp only [complete, he.present, Option.isSome_some, if_true] at hn2
    subst hn2
    refine ⟨_, ⟨(he.keeps.trans (applySysctl_keeps ..)).mono (by simp), he.present, ?_⟩, hr⟩
    intro _
    simpa [applySysctl, tick] using n1.past pathSysctl
  · rw [if_neg hn] at h
    simp only [Bool.or_eq_true, not_or, Bool.not_eq_true, Option.isNone_eq_false_iff] at hn
    refine ⟨n1, ⟨he.keeps, he.present, ?_⟩, h⟩
    intro hs
    have hf := hsm hn.1
    rw [he.same hf, he.applied]
    exact hs hf hn.2

def preparedPaths : List String :=
  [pathSysctl, pathSysctl ++ ".tmp", pathAudit, pathAudit ++ ".tmp", pathPSA, pathPSA ++ ".tmp"]

structure Prepared (t : Templates) (installed : Option String) (n n' : Node) : Prop where
  keeps : Keeps preparedPaths n n'
  sysctl : n'.files pathSysctl = some t.sysctlConf
  audit : n'.files pathAudit = some t.auditYAML
  psa : n'.files pathPSA = some t.psaYAML
  auditSame : n.files pathAudit = some t.auditYAML → n'.changed pathAudit = n.changed pathAudit
  auditFresh : n.files pathAudit ≠ some t.auditYAML → n.now ≤ n'.changed pathAudit
  psaSame : n.files pathPSA = some t.psaYAML → n'.changed pathPSA = n.changed pathPSA
  psaFresh : n.files pathPSA ≠ some t.psaYAML → n.now ≤ n'.changed pathPSA
  applied : (n.files pathSysctl = some t.sysctlConf → installed.isSome = true →
    n.changed pathSysctl < n.applied pathSysctl) → n'.changed pathSysctl < n'.applied pathSysctl

/-- What stands on the node once the prerequisites are written. -/
theorem applyHostPrereqs_prepared {wrote : Bool}
    (h : Succeeds (machine P).exec (applyHostPrereqs t installed) n wrote n') :
    Prepared t installed n n' := by
  obtain ⟨changed, n1, hs, hrs⟩ := succeeds_bind.mp h
  obtain ⟨he, hsm⟩ := ensureFile_ensured hs (by decide)
  obtain ⟨n2, hr, hr2⟩ := sysctl_ready he hsm hrs
  obtain ⟨⟨⟩, n3, hm, hr3⟩ := succeeds_bind.mp hr2
  obtain ⟨audit, n4, had, hr4⟩ := succeeds_bind.mp hr3
  obtain ⟨psa, n5, hp, hd⟩ := succeeds_bind.mp hr4
  obtain ⟨-, rfl⟩ := succeeds_pure.mp hd
  obtain ⟨-, hn3⟩ := runOK_succeeds (by simp) hm
  change n3 = n2 at hn3
  subst hn3
  obtain ⟨hea, -⟩ := ensureFile_ensured had (by decide)
  obtain ⟨hep, -⟩ := ensureFile_ensured hp (by decide)
  have ha := hea.keeps.trans hep.keeps
  constructor
  · exact hr.keeps.trans ha
  · rw [ha.files _ (by decide)]
    exact hr.present
  · rw [hep.keeps.files _ (by decide)]
    exact hea.present
  · exact hep.present
  · intro hf
    rw [← hr.keeps.files _ (by decide)] at hf
    rw [hep.keeps.changed _ (by decide), hea.same hf,
      hr.keeps.changed _ (by decide)]
  · intro hf
    rw [← hr.keeps.files _ (by decide)] at hf
    rw [hep.keeps.changed _ (by decide)]
    exact Nat.le_trans hr.keeps.now (hea.fresh hf)
  · intro hf
    rw [← hr.keeps.files _ (by decide), ← hea.keeps.files _ (by decide)] at hf
    rw [hep.same hf, hea.keeps.changed _ (by decide),
      hr.keeps.changed _ (by decide)]
  · intro hf
    rw [← hr.keeps.files _ (by decide), ← hea.keeps.files _ (by decide)] at hf
    exact Nat.le_trans (hr.keeps.trans hea.keeps).now (hep.fresh hf)
  · rw [ha.changed _ (by decide), ha.applied _ (by decide)]
    exact hr.applied

/-- What the service reads is as it was, if the two policies were as asked for. -/
theorem Prepared.service_same (h : Prepared t installed n n')
    (ha : n.files pathAudit = some t.auditYAML) (hp : n.files pathPSA = some t.psaYAML) :
    ∀ path ∈ serviceFiles, n'.changed path = n.changed path := by
  simp only [serviceFiles, List.forall_mem_cons, List.not_mem_nil, false_implies, implies_true,
    and_true]
  exact ⟨h.keeps.changed _ (by decide), h.auditSame ha, h.psaSame hp⟩

/-- Kernel parameters that are in place on an installed node are not loaded. -/
theorem sysctl_left {wrote : Bool} (hf : n.files pathSysctl = some t.sysctlConf)
    (hi : installed.isSome = true)
    (h : Succeeds (undisturbed P) (applyHostPrereqs t installed) n wrote n') :
    n'.changed pathSysctl = n.changed pathSysctl ∧ n'.applied pathSysctl = n.applied pathSysctl := by
  obtain ⟨changed, n1, hs, hrs⟩ := succeeds_bind.mp h
  obtain ⟨rfl, rfl⟩ := ensureWith_same (by decide) hf hs
  rw [if_neg (by simpa [Option.isSome_iff_ne_none] using hi)] at hrs
  obtain ⟨⟨⟩, n2, hm, hr2⟩ := succeeds_bind.mp hrs
  obtain ⟨audit, n3, had, hr3⟩ := succeeds_bind.mp hr2
  obtain ⟨psa, n4, hp, hd⟩ := succeeds_bind.mp hr3
  obtain ⟨-, rfl⟩ := succeeds_pure.mp hd
  obtain ⟨-, hn2⟩ := runOK_succeeds (by simp) (succeeds_of_undisturbed hm)
  change n2 = n1 at hn2
  subst hn2
  obtain ⟨hea, -⟩ := ensureFile_ensured (succeeds_of_undisturbed had) (by decide)
  obtain ⟨hep, -⟩ := ensureFile_ensured (succeeds_of_undisturbed hp) (by decide)
  have hk := hea.keeps.trans hep.keeps
  exact ⟨hk.changed _ (by decide), hk.applied _ (by decide)⟩

/-- The service is said to be active only when it is. -/
theorem active_of_isActive {out : Output} (h : (machine P).exec .isActive n (some out) n')
    (ho : trimSpace out.stdout = "active") : n.active = true := by
  obtain ⟨fate, hf⟩ := h
  cases ha : n.active with
  | true => rfl
  | false =>
    cases fate with
    | done =>
      simp only [machine, answer, complete, ha, Bool.false_eq_true, if_false] at hf
      cases hf
      exact absurd ho (by decide)
    | failed status left =>
      cases hf
      have he : trimSpace "" ≠ "active" := by decide
      exact absurd ho he
    | lost | unsent | answered => cases hf

/-- The service was started anew, and no file that the bootstrap manages was touched. -/
structure Restarted (n n' : Node) : Prop where
  kept : ∀ path ∈ managedFiles, n'.files path = n.files path ∧ n'.changed path = n.changed path ∧
    n'.applied path = n.applied path
  started : n.now ≤ n'.started

theorem restarted_restartService (n : Node) : Restarted n n.restartService :=
  ⟨fun _ _ => ⟨rfl, rfl, rfl⟩, Nat.le_refl _⟩

/-- How a run treats the service: it starts it anew, or it finds the wanted version
running with the wanted configuration in place. -/
theorem installOrConverge_started {acted : Bool} (howns : ∀ path ∈ managedFiles, path ∉ P.owns)
    (hv : installed = none ∨ installed = n.installed.map installedVersion)
    (h : Succeeds (machine P).exec (installOrConverge t c installed) n acted n') :
    ∃ n1, Ensured pathConfig (t.configYAML c) n n1 ∧
      (Restarted n1 n' ∨ n' = n1 ∧ n.installed.map installedVersion = some c.version ∧
        n.files pathConfig = some (t.configYAML c) ∧ n.active = true) := by
  obtain ⟨configChanged, n1, hf, hrs⟩ := succeeds_bind.mp h
  obtain ⟨he, hsm⟩ := ensureFile_ensured hf (by decide)
  refine ⟨n1, he, ?_⟩
  by_cases hw : installed = some c.version
  · have hi : n.installed.map installedVersion = some c.version := by
      rw [hw] at hv
      simpa [eq_comm] using hv
    simp only [hw, ne_eq, not_true, if_false] at hrs
    cases configChanged with
    | true =>
      obtain ⟨⟨⟩, n2, hrt, hd⟩ := succeeds_bind.mp hrs
      obtain ⟨-, rfl⟩ := succeeds_pure.mp hd
      rw [restart_succeeds hrt]
      exact .inl (restarted_restartService n1)
    | false =>
      have hc := hsm rfl
      obtain ⟨reply, n2, ha, hr2⟩ := succeeds_bind.mp hrs
      have hn2 := exec_reads rfl (succeeds_run.mp ha)
      subst hn2
      cases reply with
      | none => exact absurd hr2 succeeds_throw
      | some out =>
        by_cases ho : trimSpace out.stdout = "active"
        · simp only [ho, not_true, if_false, succeeds_pure] at hr2
          have hr := active_of_isActive (succeeds_run.mp ha) ho
          rw [he.keeps.active] at hr
          exact .inr ⟨hr2.2, hi, hc, hr⟩
        simp only [ho, not_false_eq_true, if_true] at hr2
        obtain ⟨⟨⟩, n3, hs, hd⟩ := succeeds_bind.mp hr2
        obtain ⟨-, rfl⟩ := succeeds_pure.mp hd
        obtain rfl | ⟨hn3, hr⟩ := start_succeeds hs
        · exact .inl (restarted_restartService n2)
        · rw [he.keeps.active] at hr
          exact .inr ⟨hn3, hi, hc, hr⟩
  · simp only [ne_eq, hw, not_false_eq_true, if_true] at hrs
    obtain ⟨⟨⟩, n2, hin, hd⟩ := succeeds_bind.mp hrs
    obtain ⟨-, rfl⟩ := succeeds_pure.mp hd
    obtain ⟨hexit, rfl⟩ := runOK_succeeds (by simp) hin
    exact .inl ⟨fun path hp => P.keeps hexit (howns path hp), P.starts hexit⟩

/-- A service that runs with the wanted version and configuration is left alone. -/
theorem service_left {acted : Bool} (hv : installed = some c.version)
    (hf : n.files pathConfig = some (t.configYAML c)) (ha : n.active = true)
    (h : Succeeds (undisturbed P) (installOrConverge t c installed) n acted n') : n' = n := by
  obtain ⟨configChanged, n1, hc, hrs⟩ := succeeds_bind.mp h
  obtain ⟨rfl, rfl⟩ := ensureWith_same (by decide) hf hc
  simp only [hv, ne_eq, not_true, if_false, Bool.false_eq_true] at hrs
  obtain ⟨reply, n2, hq, hr⟩ := succeeds_bind.mp hrs
  obtain ⟨rfl, hn2⟩ := undisturbed.complete (by simp) (succeeds_perform.mp hq)
  have hout : n1.complete P .isActive = (⟨0, "active\n"⟩, n1) := by simp [Node.complete, ha]
  rw [hout] at hr hn2
  have hactive : trimSpace "active\n" = "active" := by decide
  simp only [hactive, not_true, if_false] at hr
  exact (succeeds_pure.mp hr).2.trans hn2

theorem readOnly_waitReady (polls : ℕ) : ReadOnly (waitReady c polls) := by
  induction polls with
  | zero => exact readOnly_throw _
  | succ polls ih =>
    apply readOnly_run_bind rfl
    intro reply
    cases reply with
    | none => exact ih
    | some out => exact readOnly_ite (readOnly_pure _) ih

theorem readOnly_auditLogPresent (attempts : ℕ) : ReadOnly (auditLogPresent attempts) := by
  induction attempts with
  | zero => exact readOnly_pure _
  | succ attempts ih =>
    apply readOnly_run_bind rfl
    intro reply
    cases reply with
    | none => exact readOnly_throw _
    | some out => exact readOnly_ite (readOnly_pure _) ih

theorem readOnly_verify : ReadOnly verify := by
  apply readOnly_run_bind rfl
  intro reply
  cases reply with
  | none => exact readOnly_throw _
  | some out =>
    apply readOnly_ite (readOnly_throw _)
    apply readOnly_ite (readOnly_throw _)
    apply (readOnly_auditLogPresent 3).bind
    intro present
    exact readOnly_ite (readOnly_pure _) (readOnly_throw _)

theorem readOnly_fetchKubeconfig : ReadOnly (fetchKubeconfig c) := by
  apply readOnly_run_bind rfl
  intro reply
  cases reply with
  | none => exact readOnly_throw _
  | some out =>
    dsimp only
    split
    · exact readOnly_throw _
    split
    · exact readOnly_pure _
    · exact readOnly_throw _

theorem readOnly_fetchToken : ReadOnly (fetchToken c) := by
  apply readOnly_ite (readOnly_pure _)
  apply readOnly_run_bind rfl
  intro reply
  cases reply with
  | none => exact readOnly_throw _
  | some out =>
    dsimp only
    generalize tokenRe (trimSpace out.stdout) = wellFormed
    exact readOnly_ite (readOnly_throw _) (readOnly_ite (readOnly_pure _) (readOnly_throw _))

/-- A run that succeeds, taken apart into its stages. -/
theorem bootstrap_stages {exec : (c : Command) → Node → Option Output → Node → Prop} {polls : ℕ}
    {result : Result} (hexec : ∀ c n reply n', exec c n reply n' → (machine P).exec c n reply n')
    (h : Succeeds exec (bootstrap t c polls) n result n') :
    ∃ installed prepared n1 acted, Succeeds exec detectInstalled n installed n ∧
      Succeeds exec (applyHostPrereqs t installed) n prepared n1 ∧
      Succeeds exec (installOrConverge t c installed) n1 acted n' := by
  simp only [bootstrap] at h
  split at h
  · exact absurd h succeeds_throw
  obtain ⟨installed, n0, hd, h0⟩ := succeeds_bind.mp h
  obtain ⟨prepared, n1, hp, h1⟩ := succeeds_bind.mp h0
  obtain ⟨acted, n2, hc, h2⟩ := succeeds_bind.mp h1
  obtain ⟨⟨⟩, n3, hw, h3⟩ := succeeds_bind.mp h2
  obtain ⟨status, n4, hvr, h4⟩ := succeeds_bind.mp h3
  obtain ⟨kubeconfig, n5, hk, h5⟩ := succeeds_bind.mp h4
  obtain ⟨token, n6, ht, hdn⟩ := succeeds_bind.mp h5
  obtain ⟨rfl, -⟩ := detectInstalled_succeeds (Runs.mono hexec hd)
  have hn' : n' = n2 :=
    calc n' = n6 := (succeeds_pure.mp hdn).2
      _ = n5 := readOnly_fetchToken.eq (Runs.mono hexec ht)
      _ = n4 := readOnly_fetchKubeconfig.eq (Runs.mono hexec hk)
      _ = n3 := readOnly_verify.eq (Runs.mono hexec hvr)
      _ = n2 := (readOnly_waitReady polls).eq (Runs.mono hexec hw)
  rw [hn']
  exact ⟨installed, prepared, n1, acted, hd, hp, hc⟩

section Bootstrap

variable {polls : ℕ} {result : Result} (howns : ∀ path ∈ managedFiles, path ∉ P.owns)

include howns

/-- From a settled node, a run that succeeds converges. -/
theorem converged_of_settled (hsettled : Settled t c n)
    (h : Succeeds (machine P).exec (bootstrap t c polls) n result n') : Converged t c n' := by
  obtain ⟨installed, prepared, n₁, acted, hdetect, hprereqs, hconverge⟩ :=
    bootstrap_stages (fun _ _ _ _ he => he) h
  have hversion := (detectInstalled_succeeds hdetect).2
  have hprepared := applyHostPrereqs_prepared hprereqs
  have hkept := hprepared.keeps
  obtain ⟨n₂, hconfig, hservice⟩ :=
    installOrConverge_started howns (hkept.installed ▸ hversion) hconverge
  have happlied : n₂.changed pathSysctl < n₂.applied pathSysctl := by
    rw [hconfig.keeps.changed _ (by decide), hconfig.keeps.applied _ (by decide)]
    apply hprepared.applied
    intro hfile hsome
    obtain rfl | rfl := hversion
    · cases hsome
    · exact hsettled.sysctl hfile (by simpa using hsome)
  have hsysctl : n₂.files pathSysctl = some t.sysctlConf := by
    rw [hconfig.keeps.files _ (by decide)]
    exact hprepared.sysctl
  have haudit : n₂.files pathAudit = some t.auditYAML := by
    rw [hconfig.keeps.files _ (by decide)]
    exact hprepared.audit
  have hpsa : n₂.files pathPSA = some t.psaYAML := by
    rw [hconfig.keeps.files _ (by decide)]
    exact hprepared.psa
  obtain hrestarted | ⟨rfl, hinstalled, hfile, hactive⟩ := hservice
  · obtain ⟨hf, hch, hap⟩ := hrestarted.kept pathSysctl (by decide)
    refine ⟨hf.trans hsysctl, (hrestarted.kept _ (by decide)).1.trans haudit,
      (hrestarted.kept _ (by decide)).1.trans hpsa,
      (hrestarted.kept _ (by decide)).1.trans hconfig.present, ?_, hch ▸ hap ▸ happlied⟩
    intro path hpath
    rw [(hrestarted.kept path (List.mem_cons_of_mem _ hpath)).2.1]
    exact Nat.lt_of_lt_of_le (n₂.past path) hrestarted.started
  rw [hkept.installed] at hinstalled
  have hfile₀ := (hkept.files pathConfig (by decide)).symm.trans hfile
  rw [hkept.active] at hactive
  obtain ⟨hauditBefore, hpsaBefore, hread⟩ := hsettled.service hinstalled hfile₀ hactive
  refine ⟨hsysctl, haudit, hpsa, hconfig.present, ?_, happlied⟩
  rw [hconfig.keeps.started, hkept.started]
  -- Nothing the service reads has changed in this run.
  have hconfigSame : ∀ path ∈ serviceFiles, n'.changed path = n₁.changed path := by
    simp only [serviceFiles, List.forall_mem_cons, List.not_mem_nil, false_implies,
      implies_true, and_true]
    exact ⟨hconfig.same hfile, hconfig.keeps.changed _ (by decide), hconfig.keeps.changed _ (by decide)⟩
  intro path hpath
  rw [hconfigSame path hpath, hprepared.service_same hauditBefore hpsaBefore path hpath]
  exact hread path hpath

/-- Where nobody interferes, a run converges only from a settled node. -/
theorem settled_of_converged (hconverged : Converged t c n')
    (h : Succeeds (undisturbed P) (bootstrap t c polls) n result n') : Settled t c n := by
  obtain ⟨installed, prepared, n₁, acted, hdetect, hprereqs, hconverge⟩ :=
    bootstrap_stages (fun _ _ _ _ ⟨fate, _, hf⟩ => ⟨fate, hf⟩) h
  obtain rfl := detectInstalled_undisturbed hdetect
  have hprepared := applyHostPrereqs_prepared (succeeds_of_undisturbed hprereqs)
  have hkept := hprepared.keeps
  constructor
  · intro hfile hsome
    obtain ⟨hchanged, happlied⟩ := sysctl_left hfile (by simpa using hsome) hprereqs
    obtain ⟨n₂, hconfig, hservice⟩ := installOrConverge_started howns
      (.inr (by rw [hkept.installed])) (succeeds_of_undisturbed hconverge)
    have hsame : n'.changed pathSysctl = n₂.changed pathSysctl ∧
        n'.applied pathSysctl = n₂.applied pathSysctl := by
      obtain hrestarted | ⟨rfl, -⟩ := hservice
      · exact (hrestarted.kept _ (by decide)).2
      · exact ⟨rfl, rfl⟩
    have hlt := hconverged.applied
    rwa [hsame.1, hsame.2, hconfig.keeps.changed _ (by decide), hconfig.keeps.applied _ (by decide),
      hchanged, happlied] at hlt
  · intro hversion hfile hactive
    obtain rfl := service_left hversion (hkept.files _ (by decide) |>.trans hfile)
      (hkept.active.trans hactive) hconverge
    have hread : ∀ path ∈ serviceFiles, n'.changed path < n.started := by
      rw [← hkept.started]
      exact hconverged.started
    -- A policy written in this run is younger than the service.
    have haudit : n.files pathAudit = some t.auditYAML := by
      by_contra hne
      have hlt := Nat.lt_of_le_of_lt (hprepared.auditFresh hne) (hread pathAudit (by decide))
      exact Nat.lt_asymm hlt n.begun
    have hpsa : n.files pathPSA = some t.psaYAML := by
      by_contra hne
      have hlt := Nat.lt_of_le_of_lt (hprepared.psaFresh hne) (hread pathPSA (by decide))
      exact Nat.lt_asymm hlt n.begun
    refine ⟨haudit, hpsa, fun path hpath => ?_⟩
    rw [← hprepared.service_same haudit hpsa path hpath]
    exact hread path hpath

end Bootstrap

def sampleTemplates : Templates where
  sysctlConf := "vm.panic_on_oom=0"
  auditYAML := "kind: Policy"
  psaYAML := "kind: AdmissionConfiguration"
  render data := "etcd-snapshot-schedule-cron: " ++ data.snapshotCron

def sampleConfig : Config := ⟨"10.0.0.5", [], "", "", 0, "", "", 0⟩

/-- Every command succeeds and the cluster is healthy, but `restart` is sent only if told so. -/
def sampleFate (restarts : Bool) : Command → Node → Fate
  | .query .nodes, _ => .answered ⟨0, "server Ready"⟩
  | .query .encryptStatus, _ => .answered ⟨0, "Encryption Status: Enabled"⟩
  | .restart, _ => if restarts then .done else .unsent
  | _, _ => .done

/-- A node with the given audit policy and configuration and everything else in place. -/
def sampleNode (installed : Option String) (audit config : String) : Node where
  files path :=
    if path = pathSysctl then some sampleTemplates.sysctlConf
    else if path = pathAudit then some audit
    else if path = pathPSA then some sampleTemplates.psaYAML
    else if path = pathConfig then some config
    else if path = pathKubeconfig then some localServer
    else if path = pathToken then some "K10secret"
    else none
  changed _ := 0
  now := 2
  past := never_changed
  installed := installed
  active := installed.isSome
  started := 1
  begun := Nat.one_lt_two
  applied _ := 1
  profiles := []

def sampleRun : Action Result := bootstrap sampleTemplates sampleConfig 1

def sampleResult (alreadyInstalled changed : Bool) : Result :=
  ⟨alreadyInstalled, changed, defaultK3sVersion, "Enabled", true, "https://10.0.0.5:6443", "K10secret"⟩

def sampleAfter (restarts : Bool) (n : Node) : Node :=
  (machine bareTools).after (sampleFate restarts) sampleRun.run n

def sampleAnswer (restarts : Bool) (n : Node) : Option (Except Failure Result) :=
  ((machine bareTools).simulate (sampleFate restarts) sampleRun.run n).map Prod.fst

def freshNode : Node := sampleNode none "old" "old"

def currentNode : Node :=
  sampleNode (some (versionText defaultK3sVersion)) sampleTemplates.auditYAML
    (sampleTemplates.configYAML sampleConfig)

theorem settled_freshNode : Settled sampleTemplates sampleConfig freshNode := by
  constructor
  · intro _ hi
    cases hi
  · intro hi
    cases hi

theorem settled_currentNode : Settled sampleTemplates sampleConfig currentNode := by
  constructor
  · intro _ _
    exact Nat.zero_lt_one
  · intro _ _ _
    exact ⟨by decide +kernel, by decide +kernel, fun _ _ => Nat.zero_lt_one⟩

/-- A new audit policy on an installed node is written and never read: the service runs on. -/
def newPolicy : Node :=
  sampleNode (some (versionText defaultK3sVersion)) "old" (sampleTemplates.configYAML sampleConfig)

def newConfig : Node := sampleNode (some (versionText defaultK3sVersion)) sampleTemplates.auditYAML "old"

end Orkano.K3s
