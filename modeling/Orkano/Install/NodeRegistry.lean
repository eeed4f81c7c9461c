import Orkano.Install.Files
import Orkano.Node.Commands
import Orkano.Text.Lines

/-!
Pointing a node's container runtime at the in-cluster registry (`internal/install`). k3s is
restarted if this run wrote the CA or `registries.yaml`. A text stands for a Go string here, a
character for each of its bytes.
-/

namespace Orkano.NodeRegistry

open Interleave Program Text Node List Install

def fileShell : FileShell Action Char where
  tee _ append path piece :=
    runOK "install" (if append then .append path (String.ofList piece)
      else .tee path (String.ofList piece))
  mv source target := runOK "install" (.mv source target)
  chmod mode path := runOK "install" (.chmod mode path)

/-- `ensureFile` of the install package, which replaces a file atomically. -/
def ensureFile (path content mode : String) : Action Bool :=
  ensureWith "install" path content (fileShell.replaceFile path content.toList mode)

/-- `net.ParseIP`: whether a text is an address. -/
structure IPSyntax where
  parses : String → Bool
  no_newline : ∀ {ip}, parses ip = true → '\n' ∉ ip.toList

structure RegistryInfo where
  ca : String
  clusterIP : String
deriving DecidableEq, Repr

def registryHost : String := "orkano-registry.orkano-system.svc.cluster.local"
def registryHostsMarker : String := " # orkano-registry"
def nodeRegistriesPath : String := "/etc/rancher/k3s/registries.yaml"
def nodeRegistryCAPath : String := "/etc/rancher/k3s/orkano-registry-ca.crt"
def nodeHostsPath : String := "/etc/hosts"

def registriesYAML : String :=
  "configs:\n  \"" ++ registryHost ++ "\":\n    tls:\n      ca_file: " ++ nodeRegistryCAPath ++ "\n"

/-- Whether a line of the hosts file is the one this installer manages. -/
def managed (line : List Char) : Bool := registryHostsMarker.toList.isSuffixOf line

def hostsLine (ip host : String) : List Char := (ip ++ " " ++ host ++ registryHostsMarker).toList

def renderHosts (current ip host : String) : String :=
  let kept := (current.toList.splitOn '\n').filter (!managed ·)
  let body := (['\n'].intercalate kept).rdropWhile (· = '\n')
  String.ofList (body ++ '\n' :: (hostsLine ip host ++ ['\n']))

def ensureHostsEntry (ip host : String) : Action Bool := do
  match ← run (.cat nodeHostsPath) with
  | none => throw (.transport ("install: read " ++ nodeHostsPath))
  | some cur =>
    if cur.exit ≠ 0 then
      throw (.refused ("install: " ++ nodeHostsPath ++ " is unreadable (exit " ++
        toString cur.exit ++ ")"))
    else if cur.stdout = renderHosts cur.stdout ip host then return false
    else do
      runOK "install" (.tee nodeHostsPath (renderHosts cur.stdout ip host))
        ("update " ++ nodeHostsPath)
      return true

/-- Polls until the API server answers, or `polls` times until the deadline. -/
def waitAPIReady : ℕ → Action Unit
  | 0 => throw (.refused "install: k3s apiserver did not become ready")
  | polls + 1 => do
    match ← run (.query .readyz) with
    | none => waitAPIReady polls
    | some out =>
      if out.exit = 0 ∧ trimSpace out.stdout = "ok" then return
      else waitAPIReady polls

/-- `WriteNodeRegistry`; reports whether anything on the node changed. -/
def writeNodeRegistry (S : IPSyntax) (info : RegistryInfo) (polls : ℕ) : Action Bool :=
  if info.ca = "" ∨ S.parses info.clusterIP = false then
    throw (.refused "install: registry info is incomplete")
  else do
    let caChanged ← ensureFile nodeRegistryCAPath info.ca "0644"
    let cfgChanged ← ensureFile nodeRegistriesPath registriesYAML "0600"
    let hostsChanged ← ensureHostsEntry info.clusterIP registryHost
    if !caChanged && !cfgChanged then return hostsChanged
    else do
      runOK "install" .restart "restart k3s"
      waitAPIReady polls
      return true

section Hosts

structure Mapped (ip host text : String) : Prop where
  present : hostsLine ip host ∈ text.toList.splitOn '\n'
  only : ∀ line ∈ text.toList.splitOn '\n', managed line = true → line = hostsLine ip host

def keptLines (text : String) : List (List Char) :=
  (text.toList.splitOn '\n').filter (!managed ·)

def hostsBody (text : String) : List Char :=
  (['\n'].intercalate (keptLines text)).rdropWhile (· = '\n')

variable {ip host text : String}

theorem managed_hostsLine (ip host : String) : managed (hostsLine ip host) = true := by
  rw [managed, isSuffixOf_iff_suffix, hostsLine, String.toList_append]
  exact suffix_append ..

theorem renderHosts_eq (current ip host : String) : renderHosts current ip host =
    String.ofList (hostsBody current ++ '\n' :: (hostsLine ip host ++ ['\n'])) := rfl

theorem splitOn_renderHosts (current : String) (hip : '\n' ∉ ip.toList)
    (hh : '\n' ∉ host.toList) : (renderHosts current ip host).toList.splitOn '\n' =
      (hostsBody current).splitOn '\n' ++ [hostsLine ip host, []] := by
  have hl : '\n' ∉ hostsLine ip host := by
    have hm : '\n' ∉ registryHostsMarker.toList := by decide
    simp [hostsLine, hip, hh, hm]
  rw [renderHosts_eq, String.toList_ofList, splitOn_append_cons_self,
    splitOn_append_cons_self, splitOn_eq_singleton hl, splitOn_nil]
  rfl

theorem splitOn_hostsBody (text : String) : ∃ k, (['\n'].intercalate (keptLines text)).splitOn '\n' =
    (hostsBody text).splitOn '\n' ++ List.replicate k [] := splitOn_eq_trimmed ..

variable {line : List Char}

theorem no_newline_of_kept (h : line ∈ keptLines text) : '\n' ∉ line :=
  notMem_of_mem_splitOn (mem_filter.mp h).1

theorem not_managed_of_body (h : line ∈ (hostsBody text).splitOn '\n') : managed line = false := by
  obtain ⟨k, hk⟩ := splitOn_hostsBody text
  have hl : line ∈ (['\n'].intercalate (keptLines text)).splitOn '\n' :=
    hk ▸ mem_append_left _ h
  rcases mem_splitOn_intercalate (fun _ => no_newline_of_kept) hl with hkp | rfl
  · simpa using (mem_filter.mp hkp).2
  · decide

theorem managed_renderHosts (current : String) (hip : '\n' ∉ ip.toList) (hh : '\n' ∉ host.toList) :
    ((renderHosts current ip host).toList.splitOn '\n').filter managed = [hostsLine ip host] := by
  have hb : ((hostsBody current).splitOn '\n').filter managed = [] :=
    filter_eq_nil_iff.mpr fun line hl => by simp [not_managed_of_body hl]
  rw [splitOn_renderHosts current hip hh, filter_append, hb, nil_append,
    filter_cons_of_pos (managed_hostsLine ip host)]
  rfl

theorem keptLines_renderHosts (current : String) (hip : '\n' ∉ ip.toList)
    (hh : '\n' ∉ host.toList) :
    keptLines (renderHosts current ip host) = (hostsBody current).splitOn '\n' ++ [[]] := by
  have hb : ((hostsBody current).splitOn '\n').filter (!managed ·) =
      (hostsBody current).splitOn '\n' :=
    filter_eq_self.mpr fun line hl => by simp [not_managed_of_body hl]
  rw [keptLines, splitOn_renderHosts current hip hh, filter_append, hb,
    filter_cons_of_neg (by simp [managed_hostsLine])]
  rfl

theorem hostsBody_renderHosts (current : String) (hip : '\n' ∉ ip.toList)
    (hh : '\n' ∉ host.toList) : hostsBody (renderHosts current ip host) = hostsBody current := by
  have hl : (hostsBody current).splitOn '\n' ++ [[]] =
      (hostsBody current ++ ['\n']).splitOn '\n' := by
    rw [splitOn_append_cons_self, splitOn_nil]
  rw [hostsBody, keptLines_renderHosts current hip hh, hl, intercalate_splitOn,
    rdropWhile_concat_pos _ _ _ (by simp), hostsBody, rdropWhile_idempotent]

/-- The lines of others, without the blank ones at the end. -/
def otherLines (text : String) : List (List Char) := (keptLines text).rdropWhile (· = [])

theorem rdropWhile_hostsBody (text : String) :
    ((hostsBody text).splitOn '\n').rdropWhile (· = []) = otherLines text := by
  obtain ⟨k, hk⟩ := splitOn_hostsBody text
  rw [← rdropWhile_append_replicate _ k, ← hk, otherLines]
  cases hkp : keptLines text with
  | nil => simp
  | cons line rest =>
    rw [splitOn_intercalate '\n' (fun _ hl => no_newline_of_kept (hkp ▸ hl)) (by simp)]

theorem renderHosts_mapped (current : String) (hip : '\n' ∉ ip.toList) (hh : '\n' ∉ host.toList) :
    Mapped ip host (renderHosts current ip host) := by
  have hm := managed_renderHosts current hip hh
  constructor
  · exact (mem_filter.mp (hm ▸ mem_singleton_self _)).1
  · intro line hl hl'
    exact mem_singleton.mp (hm ▸ mem_filter.mpr ⟨hl, hl'⟩)

/-- Rendering puts in the one managed line, keeps the lines of others and forgets what an
earlier rendering put in. -/
theorem renderHosts_laws {ip₁ : String} (current ip₂ : String) (hip : '\n' ∉ ip.toList)
    (hip₁ : '\n' ∉ ip₁.toList) (hhost : '\n' ∉ host.toList) :
    ((renderHosts current ip host).toList.splitOn '\n').filter managed = [hostsLine ip host] ∧
    otherLines (renderHosts current ip host) = otherLines current ∧
    renderHosts (renderHosts current ip host) ip host = renderHosts current ip host ∧
    renderHosts (renderHosts current ip₁ host) ip₂ host = renderHosts current ip₂ host := by
  have habsorb : ∀ {ip : String} (ip' : String), '\n' ∉ ip.toList →
      renderHosts (renderHosts current ip host) ip' host = renderHosts current ip' host := by
    intro ip ip' hip
    rw [renderHosts_eq, hostsBody_renderHosts current hip hhost, ← renderHosts_eq]
  refine ⟨managed_renderHosts current hip hhost, ?_, habsorb ip hip, habsorb ip₂ hip₁⟩
  rw [otherLines, keptLines_renderHosts current hip hhost,
    rdropWhile_concat_pos _ _ _ (by simp), rdropWhile_hostsBody]

/-- A second address takes the place of the first, whatever else is in the file. -/
theorem renderHosts_sample :
    let current := "127.0.0.1 localhost\n10.0.0.1 r # orkano-registry\n\n10.0.0.9 db\n\n"
    renderHosts (renderHosts current "10.43.0.42" registryHost) "10.43.0.99" registryHost =
      renderHosts current "10.43.0.99" registryHost := by
  have hip : '\n' ∉ "10.43.0.42".toList := by decide
  exact (renderHosts_laws _ _ hip hip (by decide)).2.2.2

end Hosts

section Writing

variable {P : Tools} {n n' : Node} {path : String} {content : List Char}

theorem ne_tmp (path : String) : path ≠ tmp path := by
  intro h
  have hl := congrArg String.length h
  simp [tmp] at hl

theorem ensured_after {n1 : Node} {content : String} (hk : Keeps [tmp path] n n1)
    (h : Ensured path content n1 n') : Ensured path content n n' := by
  have hp : path ∉ [tmp path] := by simpa using ne_tmp path
  constructor
  · exact (hk.trans h.keeps).mono (by simp [tmp])
  · exact h.present
  · intro hf
    rw [h.same, hk.changed path hp]
    rw [hk.files path hp]
    exact hf
  · intro hf
    rw [← hk.files path hp] at hf
    exact Nat.le_trans hk.now (h.fresh hf)
  · rw [h.applied, hk.applied path hp]

theorem finalize_succeeds {content : String}
    (h : Succeeds (machine P).exec (fileShell.finalize path) n () n')
    (ht : n.files (tmp path) = some content) : Ensured path content n n' := by
  obtain ⟨-, hn'⟩ := runOK_succeeds (by simp) h
  simp only [complete, ht] at hn'
  subst hn'
  constructor
  · exact (setFile_keeps ..).trans (setFile_keeps ..)
  · rw [files_setFile_of_ne _ _ (ne_tmp path), files_setFile]
  · intro hs
    rw [changed_setFile_of_ne _ _ (ne_tmp path), changed_setFile_of_eq hs]
  · intro hs
    rw [changed_setFile_of_ne _ _ (ne_tmp path), changed_setFile_of_files_ne hs]
  · rfl

/-- The chunks are appended to the temporary file in their order. -/
theorem writeChunks_append {pieces : List (List Char)} {start : List Char}
    (h : Succeeds (machine P).exec (fileShell.writeChunks path false pieces) n () n')
    (hs : n.files (tmp path) = some (String.ofList start)) :
    Keeps [tmp path] n n' ∧
      n'.files (tmp path) = some (String.ofList (start ++ pieces.flatten)) := by
  induction pieces generalizing n start with
  | nil =>
    obtain ⟨-, rfl⟩ := succeeds_pure.mp h
    exact ⟨.refl .., by simpa using hs⟩
  | cons piece rest ih =>
    obtain ⟨⟨⟩, n1, ha, hr⟩ := succeeds_bind.mp h
    obtain ⟨-, hn1⟩ := runOK_succeeds (by simp) ha
    simp only [complete, hs, Bool.not_false, if_true, Option.getD_some,
      ← String.ofList_append] at hn1
    subst hn1
    obtain ⟨hk, hf⟩ := ih hr (files_setFile ..)
    refine ⟨((setFile_keeps ..).trans hk).mono (by simp), ?_⟩
    rw [hf, flatten_cons, append_assoc]

theorem flatten_chunks (content : List Char) : (chunks content).flatten = content := by
  rw [chunks, flatten_groups]
  apply take_of_length_le
  simp only [base64Length, chunkBytes, chunkBase64]
  omega

theorem writeInline_succeeds
    (h : Succeeds (machine P).exec (fileShell.writeInline path content) n () n') :
    Ensured path (String.ofList content) n n' := by
  obtain ⟨⟨⟩, n1, ht, hf⟩ := succeeds_bind.mp h
  obtain ⟨-, rfl⟩ := runOK_succeeds (by simp) ht
  exact ensured_after (setFile_keeps ..) (finalize_succeeds hf (files_setFile ..))

/-- A file written in chunks has the whole text in the end. -/
theorem writeChunked_succeeds (hl : content ≠ [])
    (h : Succeeds (machine P).exec (fileShell.writeChunked path content) n () n') :
    Ensured path (String.ofList content) n n' := by
  obtain ⟨⟨⟩, n2, hc, hfn⟩ := succeeds_bind.mp h
  have ha := flatten_chunks content
  cases hp : chunks content with
  | nil =>
    rw [hp] at ha
    exact absurd ha.symm hl
  | cons piece rest =>
    rw [hp] at hc ha
    obtain ⟨⟨⟩, n1, ht, hr⟩ := succeeds_bind.mp hc
    obtain ⟨-, rfl⟩ := runOK_succeeds (by simp) ht
    obtain ⟨hk, hf⟩ := writeChunks_append hr (files_setFile ..)
    rw [← flatten_cons, ha] at hf
    exact ensured_after (((setFile_keeps ..).trans hk).mono (by simp))
      (finalize_succeeds hfn hf)

variable {mode : String}

/-- A replaced file has the text, written in one piece or in chunks. -/
theorem replaceFile_succeeds
    (h : Succeeds (machine P).exec (fileShell.replaceFile path content mode) n () n') :
    Ensured path (String.ofList content) n n' := by
  have hwr : ∃ n1, Ensured path (String.ofList content) n n1 ∧ Succeeds (machine P).exec
      (fileShell.chmod mode path ("chmod " ++ path)) n1 () n' := by
    unfold FileShell.replaceFile at h
    split at h
    · obtain ⟨⟨⟩, n1, hw, hc⟩ := succeeds_bind.mp h
      exact ⟨n1, writeInline_succeeds hw, hc⟩
    rename_i hl
    obtain ⟨⟨⟩, n1, hw, hc⟩ := succeeds_bind.mp h
    refine ⟨n1, writeChunked_succeeds ?_ hw, hc⟩
    rintro rfl
    exact hl (by decide)
  obtain ⟨n1, he, hc⟩ := hwr
  obtain ⟨-, hn'⟩ := runOK_succeeds (by simp) hc
  rw [hn']
  exact he

theorem ensureFile_ensured {content : String} {wrote : Bool}
    (h : Succeeds (machine P).exec (ensureFile path content mode) n wrote n')
    (hp : path ≠ profilesFile) :
    Ensured path content n n' ∧ (wrote = false → n.files path = some content) := by
  refine ensureWith_ensured hp ?_ h
  intro n n' hw
  rw [← String.ofList_toList (s := content)]
  exact replaceFile_succeeds hw

end Writing

section Convergence

variable {P : Tools} {S : IPSyntax} {n n' : Node} {info : RegistryInfo}

theorem readOnly_waitAPIReady (polls : ℕ) : ReadOnly (waitAPIReady polls) := by
  induction polls with
  | zero => exact readOnly_throw _
  | succ polls ih =>
    apply readOnly_run_bind rfl
    intro reply
    cases reply with
    | none => exact ih
    | some out => exact readOnly_ite (readOnly_pure _) ih

/-- The hosts file is the only one touched, and it maps the host. -/
theorem ensureHostsEntry_mapped {ip host : String} {wrote : Bool} (hip : '\n' ∉ ip.toList)
    (hh : '\n' ∉ host.toList)
    (h : Succeeds (machine P).exec (ensureHostsEntry ip host) n wrote n') :
    Keeps [nodeHostsPath] n n' ∧ ∃ text, n'.files nodeHostsPath = some text ∧ Mapped ip host text := by
  obtain ⟨reply, n1, hc, hr⟩ := succeeds_bind.mp h
  have hn1 := exec_reads rfl (succeeds_run.mp hc)
  subst hn1
  cases reply with
  | none => exact absurd hr succeeds_throw
  | some cur =>
    have hm := renderHosts_mapped cur.stdout hip hh
    by_cases he : cur.exit = 0
    · simp only [he, ne_eq, not_true, if_false] at hr
      by_cases hs : cur.stdout = renderHosts cur.stdout ip host
      · rw [if_pos hs, succeeds_pure] at hr
        obtain ⟨-, rfl⟩ := hr
        have hf := files_of_cat (by decide) (succeeds_run.mp hc) he
        rw [← hs] at hm
        exact ⟨.refl .., cur.stdout, hf, hm⟩
      rw [if_neg hs] at hr
      obtain ⟨⟨⟩, n2, ht, hd⟩ := succeeds_bind.mp hr
      obtain ⟨-, rfl⟩ := succeeds_pure.mp hd
      obtain ⟨-, rfl⟩ := runOK_succeeds (by simp) ht
      exact ⟨setFile_keeps .., _, files_setFile .., hm⟩
    · simp [he] at hr

structure Converged (info : RegistryInfo) (n : Node) : Prop where
  ca : n.files nodeRegistryCAPath = some info.ca
  registries : n.files nodeRegistriesPath = some registriesYAML
  hosts : ∃ text, n.files nodeHostsPath = some text ∧ Mapped info.clusterIP registryHost text
  caRead : n.changed nodeRegistryCAPath < n.started
  registriesRead : n.changed nodeRegistriesPath < n.started

/-- Files that need not be written have been read. -/
def Settled (info : RegistryInfo) (n : Node) : Prop :=
  n.files nodeRegistryCAPath = some info.ca → n.files nodeRegistriesPath = some registriesYAML →
    n.changed nodeRegistryCAPath < n.started ∧ n.changed nodeRegistriesPath < n.started

/-- The end of a run: nothing is left to do, or k3s is restarted. -/
theorem restart_step {polls : ℕ} {quiet hoc result : Bool}
    (h : Succeeds (machine P).exec (if quiet = true then pure hoc else do
      runOK "install" .restart "restart k3s"
      waitAPIReady polls
      return true) n result n') :
    quiet = true ∧ n' = n ∨ n' = n.restartService := by
  cases quiet with
  | true =>
    obtain ⟨-, rfl⟩ := succeeds_pure.mp h
    exact .inl ⟨rfl, rfl⟩
  | false =>
    obtain ⟨⟨⟩, n1, hr, hrs⟩ := succeeds_bind.mp h
    obtain ⟨⟨⟩, n2, hw, hd⟩ := succeeds_bind.mp hrs
    obtain ⟨-, rfl⟩ := succeeds_pure.mp hd
    rw [(readOnly_waitAPIReady polls).eq hw]
    exact .inr (restart_succeeds hr)

section Run

variable {polls : ℕ} {changed : Bool}

/-- From a settled node, a run that succeeds leaves the registry's files in place and read. -/
theorem converged_of_settled (hsettled : Settled info n)
    (h : Succeeds (machine P).exec (writeNodeRegistry S info polls) n changed n') :
    Converged info n' := by
  unfold writeNodeRegistry at h
  split at h
  · exact absurd h succeeds_throw
  rename_i hinfo
  have hip : '\n' ∉ info.clusterIP.toList := by
    apply S.no_newline
    simpa using (not_or.mp hinfo).2
  obtain ⟨caChanged, n₁, hca, h₁⟩ := succeeds_bind.mp h
  obtain ⟨cfgChanged, n₂, hcfg, h₂⟩ := succeeds_bind.mp h₁
  obtain ⟨hostsChanged, n₃, hhosts, h₃⟩ := succeeds_bind.mp h₂
  obtain ⟨hensCA, hsameCA⟩ := ensureFile_ensured hca (by decide)
  obtain ⟨hensCfg, hsameCfg⟩ := ensureFile_ensured hcfg (by decide)
  obtain ⟨hkept, text, htext, hmapped⟩ := ensureHostsEntry_mapped hip (by decide) hhosts
  have hfileCA : n₃.files nodeRegistryCAPath = some info.ca := by
    rw [hkept.files _ (by decide), hensCfg.keeps.files _ (by decide)]
    exact hensCA.present
  have hfileCfg : n₃.files nodeRegistriesPath = some registriesYAML := by
    rw [hkept.files _ (by decide)]
    exact hensCfg.present
  obtain ⟨hquiet, rfl⟩ | rfl := restart_step h₃
  · simp only [Bool.and_eq_true, Bool.not_eq_true'] at hquiet
    have hbeforeCA := hsameCA hquiet.1
    have hbeforeCfg := hsameCfg hquiet.2
    have hchangedCA : n'.changed nodeRegistryCAPath = n.changed nodeRegistryCAPath := by
      rw [hkept.changed _ (by decide), hensCfg.keeps.changed _ (by decide), hensCA.same hbeforeCA]
    have hchangedCfg : n'.changed nodeRegistriesPath = n.changed nodeRegistriesPath := by
      rw [hkept.changed _ (by decide), hensCfg.same hbeforeCfg, hensCA.keeps.changed _ (by decide)]
    have hstarted : n'.started = n.started := by
      rw [hkept.started, hensCfg.keeps.started, hensCA.keeps.started]
    rw [hensCA.keeps.files _ (by decide)] at hbeforeCfg
    obtain ⟨hreadCA, hreadCfg⟩ := hsettled hbeforeCA hbeforeCfg
    refine ⟨hfileCA, hfileCfg, ⟨text, htext, hmapped⟩, ?_, ?_⟩
    · rw [hchangedCA, hstarted]
      exact hreadCA
    · rw [hchangedCfg, hstarted]
      exact hreadCfg
  · exact ⟨hfileCA, hfileCfg, ⟨text, htext, hmapped⟩, n₃.past _, n₃.past _⟩

/-- A run that finds both files as asked for touches nothing but the hosts file. -/
theorem keeps_of_current (hca : n.files nodeRegistryCAPath = some info.ca)
    (hcfg : n.files nodeRegistriesPath = some registriesYAML)
    (h : Succeeds (undisturbed P) (writeNodeRegistry S info polls) n changed n') :
    Keeps [nodeHostsPath] n n' := by
  unfold writeNodeRegistry at h
  split at h
  · exact absurd h succeeds_throw
  rename_i hinfo
  have hip : '\n' ∉ info.clusterIP.toList := by
    apply S.no_newline
    simpa using (not_or.mp hinfo).2
  obtain ⟨caChanged, n₁, hwriteCA, h₁⟩ := succeeds_bind.mp h
  obtain ⟨rfl, rfl⟩ := ensureWith_same (by decide) hca hwriteCA
  obtain ⟨cfgChanged, n₂, hwriteCfg, h₂⟩ := succeeds_bind.mp h₁
  obtain ⟨rfl, rfl⟩ := ensureWith_same (by decide) hcfg hwriteCfg
  obtain ⟨hostsChanged, n₃, hhosts, hend⟩ := succeeds_bind.mp h₂
  obtain ⟨-, rfl⟩ := succeeds_pure.mp hend
  exact (ensureHostsEntry_mapped hip (by decide) (succeeds_of_undisturbed hhosts)).1

/-- From any settled state, every successful run leaves the CA, `registries.yaml` and the hosts
entry as asked for, and k3s restarted after the last change of the first two; from any other, no
successful and undisturbed one does. -/
theorem writeNodeRegistry_converges {polls : ℕ} :
    (Settled info n → ∀ changed n',
      Succeeds (machine P).exec (writeNodeRegistry S info polls) n changed n' →
        Converged info n') ∧
    ∀ changed n', Succeeds (undisturbed P) (writeNodeRegistry S info polls) n changed n' →
      (Converged info n' ↔ Settled info n) := by
  refine ⟨fun hs _ _ => converged_of_settled hs, fun changed n' h => ⟨?_, fun hs => ?_⟩⟩
  · intro hconverged hca hcfg
    have hkept := keeps_of_current hca hcfg h
    rw [← hkept.started, ← hkept.changed _ (by decide), ← hkept.changed _ (by decide)]
    exact ⟨hconverged.caRead, hconverged.registriesRead⟩
  · exact converged_of_settled hs (succeeds_of_undisturbed h)

end Run

end Convergence

def sampleSyntax : IPSyntax where
  parses ip := ip.toList.all fun c => c.isDigit || c = '.'
  no_newline := by
    intro ip hip hnewline
    have hbad := List.all_eq_true.mp hip _ hnewline
    revert hbad
    decide

def sampleInfo : RegistryInfo := ⟨"new CA", "10.43.0.7"⟩

def sampleFate (restarts : Bool) : Command → Node → Fate
  | .query _, _ => .answered ⟨0, "ok"⟩
  | .restart, _ => if restarts then .done else .unsent
  | _, _ => .done

def sampleNode : Node where
  files path :=
    if path = nodeRegistryCAPath then some "old CA"
    else if path = nodeRegistriesPath then some registriesYAML
    else if path = nodeHostsPath then some "127.0.0.1 localhost\n"
    else none
  changed _ := 0
  now := 2
  past := never_changed
  installed := some "v1.35.5+k3s1"
  active := true
  started := 1
  begun := Nat.one_lt_two
  applied _ := 1
  profiles := []

def sampleRun : Action Bool := writeNodeRegistry sampleSyntax sampleInfo 1

def sampleAfter (restarts : Bool) (n : Node) : Node :=
  (machine bareTools).after (sampleFate restarts) sampleRun.run n

def sampleAnswer (restarts : Bool) (n : Node) : Option (Except Failure Bool) :=
  ((machine bareTools).simulate (sampleFate restarts) sampleRun.run n).map Prod.fst

/-- A new CA is written, and k3s restarted. -/
theorem new_ca_converges : Settled sampleInfo sampleNode ∧
    Converged sampleInfo (sampleAfter true sampleNode) := by
  have hsettled : Settled sampleInfo sampleNode := by
    intro hca
    exact absurd hca (by decide +kernel)
  have hrun : Succeeds (machine bareTools).exec sampleRun sampleNode true
      (sampleAfter true sampleNode) := Machine.runs_after _ (by decide +kernel)
  exact ⟨hsettled, writeNodeRegistry_converges.1 hsettled _ _ hrun⟩

/-- A run that is cut off before the restart leaves the new CA behind, and the next run
finds nothing to do. -/
theorem lost_restart_never_repeated :
    Runs (machine bareTools).exec sampleRun.run sampleNode
        (.error (.transport "install: restart k3s")) (sampleAfter false sampleNode) ∧
      Succeeds (machine bareTools).exec sampleRun (sampleAfter false sampleNode) false
        (sampleAfter true (sampleAfter false sampleNode)) ∧
      ¬ Converged sampleInfo (sampleAfter true (sampleAfter false sampleNode)) := by
  have hruns : (sampleAnswer false sampleNode = some (.error (.transport "install: restart k3s"))) ∧
      sampleAnswer true (sampleAfter false sampleNode) = some (.ok false) ∧
      ¬ (sampleAfter true (sampleAfter false sampleNode)).changed nodeRegistryCAPath <
        (sampleAfter true (sampleAfter false sampleNode)).started := by
    decide +kernel
  obtain ⟨hcut, hquiet, hunread⟩ := hruns
  exact ⟨Machine.runs_after _ hcut, Machine.runs_after _ hquiet, fun h => hunread h.caRead⟩

end Orkano.NodeRegistry
