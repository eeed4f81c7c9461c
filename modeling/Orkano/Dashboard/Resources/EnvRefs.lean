import Orkano.Dashboard.Resources.Handlers

/-!
The references of an App's environment into its Secret. Setting a list of keys drops the
references there are and adds one for each key.
-/
namespace Orkano.Dashboard.Resources

open List

def EnvVar.refersTo (secretName : String) (e : EnvVar) : Bool :=
  e.secretRef.any fun ref => ref.1 = secretName

/-- Whether an entry is left alone when the keys are set. -/
def EnvVar.keptBy (secretName : String) (keys : List String) (e : EnvVar) : Bool :=
  e.name ∉ keys && !e.refersTo secretName

def envRef (secretName key : String) : EnvVar := ⟨key, "", some (secretName, key)⟩

section Laws

variable {secretName : String} {env : List EnvVar} {keys : List String} {e : EnvVar}

theorem reconcileEnvRefs_eq (env : List EnvVar) (secretName : String) (keys : List String) :
    reconcileEnvRefs env secretName keys =
      env.filter (EnvVar.keptBy secretName keys) ++ keys.map (envRef secretName) := rfl

@[simp] theorem refersTo_envRef (secretName key : String) :
    (envRef secretName key).refersTo secretName = true := by
  simp [EnvVar.refersTo, envRef]

@[simp] theorem not_keptBy_envRef (secretName key : String) (keys : List String) :
    (envRef secretName key).keptBy secretName keys = false := by
  simp [EnvVar.keptBy]

variable {key : String}

theorem EnvVar.refersTo_of_secretRef (h : e.secretRef = some (secretName, key)) :
    e.refersTo secretName = true := by
  simp [EnvVar.refersTo, h]

@[simp] theorem filter_keptBy_envRefs (secretName : String) (keys keys' : List String) :
    (keys.map (envRef secretName)).filter (EnvVar.keptBy secretName keys') = [] := by
  simp [filter_map, Function.comp_def]

theorem filter_not_refersTo_reconcileEnvRefs (env : List EnvVar) (secretName : String)
    (keys : List String) :
    ((reconcileEnvRefs env secretName keys).filter fun e => !e.refersTo secretName) =
      env.filter (EnvVar.keptBy secretName keys) := by
  have hk : ∀ e : EnvVar, (!e.refersTo secretName && e.keptBy secretName keys) =
      e.keptBy secretName keys := by
    intro e
    cases h : e.refersTo secretName <;> simp [EnvVar.keptBy, h]
  rw [reconcileEnvRefs_eq, filter_append, filter_filter]
  simp [filter_map, Function.comp_def, hk]

theorem filter_keptBy_reconcileEnvRefs (env : List EnvVar) (secretName : String)
    (keys keys' : List String) :
    (reconcileEnvRefs env secretName keys).filter (EnvVar.keptBy secretName keys') =
      env.filter fun e => e.keptBy secretName keys && e.keptBy secretName keys' := by
  rw [reconcileEnvRefs_eq, filter_append, filter_keptBy_envRefs, append_nil,
    filter_filter]
  exact filter_congr fun e _ => Bool.and_comm _ _

theorem reconcileEnvRefs_reconcileEnvRefs (env : List EnvVar) (secretName : String)
    (keys keys' : List String) :
    reconcileEnvRefs (reconcileEnvRefs env secretName keys) secretName keys' =
      (env.filter fun e => e.keptBy secretName keys && e.keptBy secretName keys') ++
        keys'.map (envRef secretName) := by
  rw [reconcileEnvRefs_eq, filter_keptBy_reconcileEnvRefs]

theorem reconcileEnvRefs_idem (env : List EnvVar) (secretName : String) (keys : List String) :
    reconcileEnvRefs (reconcileEnvRefs env secretName keys) secretName keys =
      reconcileEnvRefs env secretName keys := by
  rw [reconcileEnvRefs_reconcileEnvRefs, reconcileEnvRefs_eq]
  simp only [Bool.and_self]

theorem envRef_of_mem_reconcileEnvRefs (he : e ∈ reconcileEnvRefs env secretName keys)
    (hr : e.refersTo secretName = true) : ∃ key ∈ keys, e = envRef secretName key := by
  rw [reconcileEnvRefs_eq, mem_append, mem_filter, mem_map] at he
  rcases he with ⟨_, hk⟩ | ⟨key, hky, heq⟩
  · simp [EnvVar.keptBy, hr] at hk
  · exact ⟨key, hky, heq.symm⟩

theorem nodup_reconcileEnvRefs (hen : (env.map (·.name)).Nodup) (hk : keys.Nodup)
    (secretName : String) : ((reconcileEnvRefs env secretName keys).map (·.name)).Nodup := by
  have hn : (keys.map (envRef secretName)).map (·.name) = keys := by
    simp [Function.comp_def, envRef]
  rw [reconcileEnvRefs_eq, map_append, hn, nodup_append]
  refine ⟨(filter_sublist.map _).nodup hen, hk, ?_⟩
  intro name hnm key hky heq
  obtain ⟨e, he, rfl⟩ := mem_map.mp hnm
  have hkp := (mem_filter.mp he).2
  simp [EnvVar.keptBy, heq, hky] at hkp

/-- Each key of the save is referred to exactly once. -/
theorem countP_reconcileEnvRefs (env : List EnvVar) (hky : keys.Nodup) (hke : key ∈ keys) :
    (reconcileEnvRefs env secretName keys).countP
      (fun e => e.secretRef = some (secretName, key)) = 1 := by
  have hk : (env.filter (EnvVar.keptBy secretName keys)).countP
      (fun e => e.secretRef = some (secretName, key)) = 0 := by
    rw [countP_eq_zero]
    intro e he hrf
    have hk := (mem_filter.mp he).2
    simp [EnvVar.keptBy, EnvVar.refersTo_of_secretRef (of_decide_eq_true hrf)] at hk
  have hr : (keys.map (envRef secretName)).countP
      (fun e => e.secretRef = some (secretName, key)) = keys.count key := by
    rw [countP_map, List.count]
    apply countP_congr
    intro k _
    simp [envRef]
  rw [reconcileEnvRefs_eq, countP_append, hk, hr, count_eq_one_of_mem hky hke]

/-- What setting a list of keys does to an environment with unique names. -/
theorem reconcileEnvRefs_laws (secretName : String) (env : List EnvVar)
    (henv : (env.map (·.name)).Nodup) (keys : List String) (hkeys : keys.Nodup) :
    let out := reconcileEnvRefs env secretName keys
    (out.map (·.name)).Nodup ∧
      (∀ key ∈ keys, out.countP (fun e => e.secretRef = some (secretName, key)) = 1) ∧
      (∀ e ∈ out, e.refersTo secretName = true → ∃ key ∈ keys, e = envRef secretName key) ∧
      (out.filter fun e => !e.refersTo secretName) = env.filter (EnvVar.keptBy secretName keys) ∧
      reconcileEnvRefs out secretName keys = out ∧
      ∀ keys', keys'.Nodup →
        ((reconcileEnvRefs out secretName keys').filter fun e => !e.refersTo secretName) =
          env.filter fun e => e.keptBy secretName keys && e.keptBy secretName keys' := by
  refine ⟨nodup_reconcileEnvRefs henv hkeys secretName, fun key hkey => ?_, fun e he => ?_,
    filter_not_refersTo_reconcileEnvRefs env secretName keys,
    reconcileEnvRefs_idem env secretName keys, fun keys' _ => ?_⟩
  · exact countP_reconcileEnvRefs env hkeys hkey
  · exact envRef_of_mem_reconcileEnvRefs he
  · rw [filter_not_refersTo_reconcileEnvRefs, filter_keptBy_reconcileEnvRefs]

end Laws

/-- A variable, a reference elsewhere and a reference to a key that is given up. -/
def sampleEnv : List EnvVar :=
  [⟨"MODE", "prod", none⟩, ⟨"DB", "", some ("pg", "uri")⟩, envRef "web-env" "OLD"]

/-- A key that an older reference had is taken over, and a key given up is dropped. -/
theorem sampleEnv_laws :
    (sampleEnv.map (·.name)).Nodup ∧ ["DB", "TOKEN"].Nodup ∧
      ((reconcileEnvRefs sampleEnv "web-env" ["DB", "TOKEN"]).map (·.name)).Nodup ∧
      (reconcileEnvRefs sampleEnv "web-env" ["DB", "TOKEN"]).map (·.name) =
        ["MODE", "DB", "TOKEN"] :=
  ⟨by decide, by decide,
    (reconcileEnvRefs_laws "web-env" sampleEnv (by decide) ["DB", "TOKEN"] (by decide)).1,
    by decide⟩

end Orkano.Dashboard.Resources
