import Orkano.Interleave.Fallible
import Orkano.Text.Runes

/-!
The commands the CLI sends to a node it prepares. A node remembers when each of its files last
changed and when they were last read; any command may be lost or fail half-way.
-/

namespace Orkano.Node

open Interleave Program Text

/-- Names that the kernel's list of profiles shows as they are, on a line of their own. -/
def PlainName (name : String) : Prop :=
  '\n' ∉ name.toList ∧ name.toList.head?.any (!isSpace ·) = true

instance (name : String) : Decidable (PlainName name) :=
  inferInstanceAs (Decidable (_ ∧ _))

inductive Mode where
  | enforce
  | complain
  | kill
  | unconfined
  | prompt
deriving DecidableEq, Repr

def Mode.text : Mode → String
  | enforce => "enforce"
  | complain => "complain"
  | kill => "kill"
  | unconfined => "unconfined"
  | prompt => "prompt"

structure Profile where
  name : String
  mode : Mode
  source : String
  plain : PlainName name
deriving DecidableEq

/-- `apparmor_parser`: the profile a text is compiled to. -/
structure Parser where
  compile : String → Option Profile
  source_eq : ∀ {text profile}, compile text = some profile → profile.source = text

def Profile.line (p : Profile) : List Char := (p.name ++ " (" ++ p.mode.text ++ ")").toList

/-- `/sys/kernel/security/apparmor/profiles`. -/
def listing (profiles : List Profile) : String :=
  String.ofList (profiles.flatMap fun p => p.line ++ ['\n'])

/-- `apparmor_parser -r` replaces the profile of the same name. -/
def replaceProfile (p : Profile) (profiles : List Profile) : List Profile :=
  p :: profiles.filter fun q => q.name ≠ p.name

/-- `profilesFile`. -/
def profilesFile : String := "/sys/kernel/security/apparmor/profiles"

inductive Query where
  | nodes
  | encryptStatus
  | auditLog
  | readyz
deriving DecidableEq, Repr

inductive Command where
  | cat (path : String)
  /-- `mkdir -p` of the directory, `tee` to the path and `chmod`, in one command. -/
  | write (path content mode : String)
  | tee (path content : String)
  | append (path content : String)
  | mv (source target : String)
  | chmod (mode path : String)
  | mkdir (path : String)
  | sysctl (path : String)
  | k3sVersion
  | installK3s (version : String)
  | restart
  | start
  | isActive
  | parser (path : String)
  | query (q : Query)
deriving DecidableEq, Repr

structure Output where
  exit : ℕ
  stdout : String
deriving DecidableEq, Repr

/-- Every command is answered by its output, or by an error of the transport. -/
def runner : Interface where
  Call := Command
  Reply _ := Option Output

end Orkano.Node

namespace Orkano

/-- A node. Times count the effects of commands; a service or the kernel has seen
the last change of a file if it read the file later. -/
structure Node where
  files : String → Option String
  changed : String → ℕ
  now : ℕ
  past : ∀ path, changed path < now
  /-- What the installed k3s prints as its version. -/
  installed : Option String
  active : Bool
  started : ℕ
  begun : started < now
  applied : String → ℕ
  profiles : List Node.Profile

namespace Node

/-- The installer of k3s. A run that ends well has started the service anew, and has left alone
all files but its own. -/
structure Installer where
  install : String → Node → Output × Node
  /-- What a run that fails leaves behind. -/
  interrupted : String → Node → Node
  owns : List String
  starts : ∀ {version n}, (install version n).1.exit = 0 → n.now ≤ (install version n).2.started
  keeps : ∀ {version n path}, (install version n).1.exit = 0 → path ∉ owns →
    (install version n).2.files path = n.files path ∧
    (install version n).2.changed path = n.changed path ∧
    (install version n).2.applied path = n.applied path

/-- The programs of others that commands run. -/
structure Tools extends Parser, Installer

theorem never_changed (_ : String) : 0 < 2 := Nat.two_pos

open Interleave Program

section Effects

variable (n : Node)

theorem past_update (path : String) (b : Bool) (p : String) :
    (if b then n.changed else Function.update n.changed path n.now) p < n.now + 1 := by
  have hp := n.past p
  cases b with
  | true => exact Nat.lt_succ_of_lt hp
  | false =>
    simp only [Bool.false_eq_true, if_false, Function.update_apply]
    split <;> omega

/-- Give a file new contents, or remove it. Only different contents are a change. -/
def setFile (path : String) (content : Option String) : Node :=
  { n with
    files := Function.update n.files path content
    changed := if decide (n.files path = content) then n.changed
      else Function.update n.changed path n.now
    now := n.now + 1
    past := n.past_update path _
    begun := Nat.lt_succ_of_lt n.begun }

def tick : Node :=
  { n with
    now := n.now + 1
    past := fun path => Nat.lt_succ_of_lt (n.past path)
    begun := Nat.lt_succ_of_lt n.begun }

def applySysctl (path : String) : Node :=
  { n.tick with applied := Function.update n.applied path n.now }

def restartService : Node :=
  { n.tick with active := true, started := n.now, begun := Nat.lt_succ_self _ }

/-- `systemctl start` leaves a running service alone. -/
def startService : Node := if n.active then n else n.restartService

def load (p : Profile) : Node :=
  { n.tick with profiles := replaceProfile p n.profiles }

variable (P : Tools)

def complete : Command → Output × Node
  | .cat path =>
    if path = profilesFile then (⟨0, listing n.profiles⟩, n)
    else match n.files path with
      | some content => (⟨0, content⟩, n)
      | none => (⟨1, ""⟩, n)
  | .write path content _ | .tee path content => (⟨0, ""⟩, n.setFile path (some content))
  | .append path content =>
    (⟨0, ""⟩, n.setFile path (some ((n.files path).getD "" ++ content)))
  | .mv source target =>
    match n.files source with
    | some content => (⟨0, ""⟩, (n.setFile target (some content)).setFile source none)
    | none => (⟨1, ""⟩, n)
  | .chmod _ path => (⟨if (n.files path).isSome then 0 else 1, ""⟩, n)
  | .mkdir _ => (⟨0, ""⟩, n)
  | .sysctl path => if (n.files path).isSome then (⟨0, ""⟩, n.applySysctl path) else (⟨255, ""⟩, n)
  | .k3sVersion =>
    match n.installed with
    | some text => (⟨0, text⟩, n)
    | none => (⟨127, ""⟩, n)
  | .installK3s version => P.install version n
  | .restart => if n.installed.isSome then (⟨0, ""⟩, n.restartService) else (⟨5, ""⟩, n)
  | .start => if n.installed.isSome then (⟨0, ""⟩, n.startService) else (⟨5, ""⟩, n)
  | .isActive => if n.active then (⟨0, "active\n"⟩, n) else (⟨3, "inactive\n"⟩, n)
  | .parser path =>
    match (n.files path).bind P.compile with
    | some p => (⟨0, ""⟩, n.load p)
    | none => (⟨1, ""⟩, n)
  | .query _ => (⟨0, ""⟩, n)

/-- What a command that fails half-way may leave behind. -/
def partway (left : String) : Command → Node
  -- The file may be cut short, or complete with the wrong permissions.
  | .write path _ _ | .tee path _ | .append path _ => n.setFile path (some left)
  | .installK3s version => P.interrupted version n
  | .restart => { n.tick with active := false }
  | _ => n

end Effects

inductive Fate where
  | done
  /-- It runs to its end, and the answer is lost. -/
  | lost
  | unsent
  | failed (status : ℕ) (left : Option String)
  /-- The cluster's answer to a question. -/
  | answered (out : Output)

def answer (P : Tools) (c : Command) (fate : Fate) (n : Node) : Option (Option Output × Node) :=
  match fate with
  | .done => some (some (n.complete P c).1, (n.complete P c).2)
  | .lost => some (none, (n.complete P c).2)
  | .unsent => some (none, n)
  | .failed status left =>
    some (some ⟨status + 1, ""⟩, left.elim n fun text => n.partway P text c)
  | .answered out =>
    match c with
    | .query _ => some (some out, n)
    | _ => none

def machine (P : Tools) : Machine runner Node where
  Choice _ := Fate
  answer := answer P

/-- Runs in which every command reaches its end and every question is answered. -/
def undisturbed (P : Tools) (c : Command) (n : Node) (reply : Option Output) (n' : Node) : Prop :=
  ∃ fate, (fate = .done ∨ ∃ out, fate = .answered out) ∧ answer P c fate n = some (reply, n')

variable {P : Tools} {n n' : Node}
variable {c : Command}

theorem undisturbed.complete {reply : Option Output} (hc : ∀ q, c ≠ .query q)
    (h : undisturbed P c n reply n') :
    reply = some (n.complete P c).1 ∧ n' = (n.complete P c).2 := by
  obtain ⟨_, rfl | ⟨out, rfl⟩, hf⟩ := h
  · cases hf
    exact ⟨rfl, rfl⟩
  · cases c with
    | query q => exact absurd rfl (hc q)
    | _ => cases hf

/-- A command other than a question that exits with status zero ran to its end. -/
theorem exec_exit_zero {out : Output} (hc : ∀ q, c ≠ .query q)
    (h : (machine P).exec c n (some out) n') (he : out.exit = 0) :
    out = (n.complete P c).1 ∧ n' = (n.complete P c).2 := by
  obtain ⟨fate, hf⟩ := h
  cases fate with
  | done =>
    cases hf
    exact ⟨rfl, rfl⟩
  | lost | unsent => cases hf
  | failed status left =>
    cases hf
    cases he
  | answered out =>
    cases c with
    | query q => exact absurd rfl (hc q)
    | _ => cases hf

/-- The answer to a command that only reads leaves the node as it is. -/
theorem exec_read {reply : Option Output} (hr : (n.complete P c).2 = n)
    (hp : ∀ text, n.partway P text c = n) (h : (machine P).exec c n reply n') : n' = n := by
  obtain ⟨fate, hf⟩ := h
  cases fate with
  | done | lost =>
    cases hf
    exact hr
  | unsent =>
    cases hf
    rfl
  | failed status left =>
    cases hf
    cases left with
    | none => rfl
    | some text => exact hp text
  | answered out =>
    cases c with
    | query q =>
      cases hf
      rfl
    | _ => cases hf

section Actions

inductive Failure where
  | transport (doing : String)
  | exited (doing : String) (status : ℕ)
  | refused (message : String)
deriving DecidableEq, Repr

/-- Code that drives a node and stops at the first error. -/
abbrev Action (α : Type) := ExceptT Failure (Program runner) α

def run (c : Command) : Action (Option Output) := ExceptT.lift (perform c)

/-- `runOK`: a command that must succeed. -/
def runOK (package : String) (c : Command) (desc : String) : Action Unit := do
  match ← run c with
  | none => throw (.transport (package ++ ": " ++ desc))
  | some out => if out.exit ≠ 0 then throw (.exited (package ++ ": " ++ desc) out.exit)

/-- Write a file if `cat` shows other contents or none; reports whether it was written. -/
def ensureWith (package path content : String) (write : Action Unit) : Action Bool := do
  match ← run (.cat path) with
  | none => throw (.transport (package ++ ": read " ++ path))
  | some cur =>
    if cur.exit = 0 ∧ cur.stdout = content then return false
    else do
      write
      return true

/-- `ensureFile` of the k3s and the nodeprep package. -/
def ensureFile (package path content mode : String) : Action Bool :=
  ensureWith package path content (runOK package (.write path content mode) ("write " ++ path))

variable {c : Command} {reply : Option Output}

theorem succeeds_of_undisturbed {α : Type} {a : Action α} {x : α}
    (h : Succeeds (undisturbed P) a n x n') : Succeeds (machine P).exec a n x n' :=
  Runs.mono (fun _ _ _ _ ⟨fate, _, hf⟩ => ⟨fate, hf⟩) h

@[simp] theorem succeeds_run :
    Succeeds (machine P).exec (run c) n reply n' ↔ (machine P).exec c n reply n' :=
  succeeds_perform

variable {package desc : String}

theorem runOK_succeeds (hc : ∀ q, c ≠ .query q)
    (h : Succeeds (machine P).exec (runOK package c desc) n () n') :
    (n.complete P c).1.exit = 0 ∧ n' = (n.complete P c).2 := by
  obtain ⟨reply, n1, hrn, hr⟩ := succeeds_bind.mp h
  cases reply with
  | none => exact absurd hr succeeds_throw
  | some out =>
    by_cases he : out.exit = 0
    · simp only [he, ne_eq, not_true, if_false, succeeds_pure] at hr
      obtain ⟨rfl, rfl⟩ := exec_exit_zero hc (succeeds_run.mp hrn) he
      exact ⟨he, hr.2⟩
    · simp [he] at hr

theorem restart_succeeds (h : Succeeds (machine P).exec (runOK package .restart desc) n () n') :
    n' = n.restartService := by
  obtain ⟨he, rfl⟩ := runOK_succeeds (by simp) h
  cases hi : n.installed with
  | none => simp [complete, hi] at he
  | some text => simp [complete, hi]

theorem start_succeeds (h : Succeeds (machine P).exec (runOK package .start desc) n () n') :
    n' = n.restartService ∨ n' = n ∧ n.active = true := by
  obtain ⟨he, rfl⟩ := runOK_succeeds (by simp) h
  cases hi : n.installed with
  | none => simp [complete, hi] at he
  | some text => cases ha : n.active <;> simp [complete, hi, startService, ha]

def Reads : Command → Bool
  | .cat _ | .chmod _ _ | .mkdir _ | .k3sVersion | .isActive | .query _ => true
  | _ => false

/-- A command that reads leaves the node as it is. -/
theorem exec_reads (hc : Reads c = true) (h : (machine P).exec c n reply n') : n' = n := by
  apply exec_read _ _ h
  · cases c with
    | cat path =>
      simp only [complete]
      split
      · rfl
      · split <;> rfl
    | k3sVersion | isActive =>
      simp only [complete]
      split <;> rfl
    | chmod | mkdir | query => rfl
    | _ => cases hc
  · intro text
    cases c with
    | write | tee | append | installK3s | restart => cases hc
    | _ => rfl

def ReadOnly {α : Type} (a : Action α) : Prop := a.run.Only fun c => Reads c = true

variable {α β : Type}

theorem readOnly_pure (a : α) : ReadOnly (pure a : Action α) := trivial

theorem readOnly_throw (e : Failure) : ReadOnly (throw e : Action α) := trivial

variable {a : Action α}

theorem readOnly_ite {c : Prop} [Decidable c] {b : Action α} (ha : ReadOnly a) (hb : ReadOnly b) :
    ReadOnly (if c then a else b) := by
  split
  · exact ha
  · exact hb

theorem ReadOnly.bind {f : α → Action β} (ha : ReadOnly a) (hf : ∀ x, ReadOnly (f x)) :
    ReadOnly (a >>= f) := by
  apply only_bind ha
  intro r
  cases r with
  | error e => trivial
  | ok x => exact hf x

theorem readOnly_run_bind {f : Option Output → Action α} (hc : Reads c = true)
    (hf : ∀ reply, ReadOnly (f reply)) : ReadOnly (run c >>= f) := by
  apply ReadOnly.bind _ hf
  exact ⟨hc, fun _ => trivial⟩

theorem ReadOnly.eq {x : α} (ha : ReadOnly a) (h : Succeeds (machine P).exec a n x n') :
    n' = n := by
  have hk : n = n' := Runs.of_only (fun _ => rfl) Eq.trans
    (fun c s reply s' hc he => (exec_reads hc he).symm) ha h
  exact hk.symm

end Actions

section Frames

structure Keeps (paths : List String) (n n' : Node) : Prop where
  files : ∀ path ∉ paths, n'.files path = n.files path
  changed : ∀ path ∉ paths, n'.changed path = n.changed path
  installed : n'.installed = n.installed
  active : n'.active = n.active
  started : n'.started = n.started
  applied : ∀ path ∉ paths, n'.applied path = n.applied path
  profiles : n'.profiles = n.profiles
  now : n.now ≤ n'.now

theorem Keeps.refl (paths : List String) (n : Node) : Keeps paths n n :=
  ⟨fun _ _ => rfl, fun _ _ => rfl, rfl, rfl, rfl, fun _ _ => rfl, rfl, Nat.le_refl _⟩

/-- What two actions in a row leave alone. -/
theorem Keeps.trans {ps qs : List String} {n1 n2 n3 : Node} (h : Keeps ps n1 n2)
    (h' : Keeps qs n2 n3) : Keeps (ps ++ qs) n1 n3 where
  files path hpath := by
    rw [List.mem_append, not_or] at hpath
    exact (h'.files path hpath.2).trans (h.files path hpath.1)
  changed path hpath := by
    rw [List.mem_append, not_or] at hpath
    exact (h'.changed path hpath.2).trans (h.changed path hpath.1)
  installed := h'.installed.trans h.installed
  active := h'.active.trans h.active
  started := h'.started.trans h.started
  applied path hpath := by
    rw [List.mem_append, not_or] at hpath
    exact (h'.applied path hpath.2).trans (h.applied path hpath.1)
  profiles := h'.profiles.trans h.profiles
  now := Nat.le_trans h.now h'.now

theorem Keeps.mono {ps qs : List String} (h : Keeps ps n n') (hs : ps ⊆ qs) : Keeps qs n n' where
  files path hpath := h.files path (mt (@hs path) hpath)
  changed path hpath := h.changed path (mt (@hs path) hpath)
  installed := h.installed
  active := h.active
  started := h.started
  applied path hpath := h.applied path (mt (@hs path) hpath)
  profiles := h.profiles
  now := h.now

@[simp] theorem files_setFile (n : Node) (path : String) (content : Option String) :
    (n.setFile path content).files path = content :=
  Function.update_self ..

variable {path : String}

theorem files_setFile_of_ne (n : Node) {p : String} (content : Option String) (h : p ≠ path) :
    (n.setFile path content).files p = n.files p :=
  Function.update_of_ne h ..

theorem changed_setFile_of_ne (n : Node) {p : String} (content : Option String) (h : p ≠ path) :
    (n.setFile path content).changed p = n.changed p := by
  simp only [setFile]
  split
  · rfl
  · exact Function.update_of_ne h ..

theorem changed_setFile_of_eq {content : Option String} (h : n.files path = content) :
    (n.setFile path content).changed = n.changed := by
  simp [setFile, h]

theorem changed_setFile_of_files_ne {content : Option String} (h : n.files path ≠ content) :
    (n.setFile path content).changed path = n.now := by
  simp [setFile, h]

theorem setFile_keeps (n : Node) (path : String) (content : Option String) :
    Keeps [path] n (n.setFile path content) where
  files p hp := n.files_setFile_of_ne content (by simpa using hp)
  changed p hp := n.changed_setFile_of_ne content (by simpa using hp)
  installed := rfl
  active := rfl
  started := rfl
  applied _ _ := rfl
  profiles := rfl
  now := Nat.le_succ _

theorem applySysctl_keeps (n : Node) (path : String) : Keeps [path] n (n.applySysctl path) where
  files _ _ := rfl
  changed _ _ := rfl
  installed := rfl
  active := rfl
  started := rfl
  applied p hp := Function.update_of_ne (by simpa using hp) ..
  profiles := rfl
  now := Nat.le_succ _

structure Ensured (path content : String) (n n' : Node) : Prop where
  keeps : Keeps [path, path ++ ".tmp"] n n'
  present : n'.files path = some content
  same : n.files path = some content → n'.changed path = n.changed path
  fresh : n.files path ≠ some content → n.now ≤ n'.changed path
  applied : n'.applied path = n.applied path

variable {content : String}

theorem Ensured.refl (h : n.files path = some content) : Ensured path content n n :=
  ⟨.refl .., h, fun _ => rfl, fun hne => absurd h hne, rfl⟩

theorem complete_cat (hp : path ≠ profilesFile) (he : (n.complete P (.cat path)).1.exit = 0) :
    n.files path = some (n.complete P (.cat path)).1.stdout := by
  simp only [complete, if_neg hp] at he ⊢
  split at he <;> simp_all

theorem files_of_cat {out : Output} (hp : path ≠ profilesFile)
    (h : (machine P).exec (.cat path) n (some out) n') (he : out.exit = 0) :
    n.files path = some out.stdout := by
  obtain ⟨rfl, -⟩ := exec_exit_zero (by simp) h he
  exact complete_cat hp he

variable {wrote : Bool}

/-- A file is written only when it differs, and has the content afterwards. -/
theorem ensureWith_ensured {package : String} {write : Action Unit} (hp : path ≠ profilesFile)
    (hwr : ∀ {n n'}, Succeeds (machine P).exec write n () n' → Ensured path content n n')
    (h : Succeeds (machine P).exec (ensureWith package path content write) n wrote n') :
    Ensured path content n n' ∧ (wrote = false → n.files path = some content) := by
  obtain ⟨reply, n1, hct, hr⟩ := succeeds_bind.mp h
  have hn1 := exec_reads rfl (succeeds_run.mp hct)
  subst hn1
  cases reply with
  | none => exact absurd hr succeeds_throw
  | some cur =>
    by_cases hc : cur.exit = 0 ∧ cur.stdout = content
    · simp only [hc, and_self, if_true, succeeds_pure] at hr
      obtain ⟨rfl, rfl⟩ := hr
      have hf := files_of_cat hp (succeeds_run.mp hct) hc.1
      rw [hc.2] at hf
      exact ⟨.refl hf, fun _ => hf⟩
    simp only [hc, if_false] at hr
    obtain ⟨⟨⟩, n2, hw, hd⟩ := succeeds_bind.mp hr
    obtain ⟨rfl, rfl⟩ := succeeds_pure.mp hd
    exact ⟨hwr hw, by simp⟩

/-- A file that is read with the contents it should have is left alone. -/
theorem ensureWith_same {package : String} {write : Action Unit} (hp : path ≠ profilesFile)
    (hf : n.files path = some content)
    (h : Succeeds (undisturbed P) (ensureWith package path content write) n wrote n') :
    wrote = false ∧ n' = n := by
  obtain ⟨reply, n1, hct, hr⟩ := succeeds_bind.mp h
  have hcat : n.complete P (.cat path) = (⟨0, content⟩, n) := by
    simp only [complete, if_neg hp, hf]
  obtain ⟨rfl, rfl⟩ := undisturbed.complete (by simp) (succeeds_perform.mp hct)
  rw [hcat] at hr
  simp only [and_self, if_true] at hr
  exact succeeds_pure.mp hr

theorem ensureFile_ensured {package mode : String}
    (h : Succeeds (machine P).exec (ensureFile package path content mode) n wrote n')
    (hp : path ≠ profilesFile) :
    Ensured path content n n' ∧ (wrote = false → n.files path = some content) := by
  refine ensureWith_ensured hp ?_ h
  intro n n' hw
  obtain ⟨-, rfl⟩ := runOK_succeeds (by simp) hw
  constructor
  · exact (setFile_keeps ..).mono (by simp)
  · exact files_setFile ..
  · intro hf
    exact congrFun (changed_setFile_of_eq hf) path
  · intro hf
    exact Nat.le_of_eq (changed_setFile_of_files_ne hf).symm
  · rfl

end Frames

section Samples

/-- What an installed k3s of a version prints. -/
def versionText (version : String) : String := "k3s version " ++ version ++ "\n"

/-- Tools of which the installer does nothing but put in the version and restart the service. -/
def plainTools (parser : Parser) : Tools where
  toParser := parser
  install version n := (⟨0, ""⟩, { n.restartService with installed := some (versionText version) })
  interrupted _ n := n
  owns := []
  starts _ := Nat.le_refl _
  keeps _ _ := ⟨rfl, rfl, rfl⟩

/-- No AppArmor profile compiles. -/
def bareTools : Tools := plainTools ⟨fun _ => none, nofun⟩

end Samples

end Node
end Orkano
