import Orkano.Node.Commands
import Orkano.Text.Lines
import Orkano.Text.Quote

/-!
The AppArmor profile that build pods are confined by (`internal/nodeprep`). The kernel's list does
not say which text a profile was loaded from.
-/

namespace Orkano.Nodeprep

open Interleave Program Text Node List

/-- `ProfileName`. -/
def profileName : String := "orkano-buildkit"

def profilePath : String := "/etc/apparmor.d/" ++ profileName

def modeEnforce : String := "enforce"

/-- What stands before and behind the last occurrence of a blank and a parenthesis. -/
def cutLast : List Char → Option (List Char × List Char)
  | [] => none
  | c :: cs =>
    match cutLast cs with
    | some (before, behind) => some (c :: before, behind)
    | none =>
      match c, cs with
      | ' ', '(' :: behind => some ([], behind)
      | _, _ => none

/-- One turn of the loop in `profileMode`. -/
def lineMode (name : String) (line : List Char) : Option String :=
  let line := (trimSpace (String.ofList line)).toList
  match cutLast line with
  | none => none
  | some (before, behind) =>
    if line.getLast? = some ')' ∧ before = name.toList then some (String.ofList behind.dropLast)
    else none

/-- The mode of the named profile, if it is loaded. -/
def profileMode (list name : String) : Option String :=
  (list.toList.splitOn '\n').findSome? (lineMode name)

def queryProfile : Action (Option String) := do
  match ← run (.cat profilesFile) with
  | none => throw (.transport "nodeprep: read AppArmor profiles")
  | some out =>
    if out.exit ≠ 0 then
      throw (.refused ("nodeprep: cannot read " ++ profilesFile ++
        " (is AppArmor enabled on this node?)"))
    else return profileMode out.stdout profileName

structure Result where
  changed : Bool
  mode : String
deriving DecidableEq, Repr

/-- The check at the end, on the mode that was last read. -/
def verifyMode (changed : Bool) : Option String → Action Result
  | none => throw (.refused ("nodeprep: AppArmor profile " ++ profileName ++
      " is not loaded after apparmor_parser; is AppArmor enabled on this node?"))
  | some mode =>
    if mode ≠ modeEnforce then
      throw (.refused ("nodeprep: AppArmor profile " ++ profileName ++ " loaded in " ++
        quoted mode ++ " mode, want enforce"))
    else return ⟨changed, mode⟩

/-- `EnsureAppArmorProfile`, for the embedded text. -/
def ensureAppArmorProfile (apparmorProfile : String) : Action Result := do
  let wrote ← ensureFile "nodeprep" profilePath apparmorProfile "0644"
  let mode ← queryProfile
  if wrote || mode ≠ some modeEnforce then do
    runOK "nodeprep" (.parser profilePath) "load AppArmor profile"
    let mode ← queryProfile
    verifyMode true mode
  else verifyMode false mode

theorem cutLast_append {rest : List Char} (hr : cutLast ('(' :: rest) = none)
    (before : List Char) : cutLast (before ++ ' ' :: '(' :: rest) = some (before, rest) := by
  induction before with
  | nil =>
    rw [nil_append, cutLast, hr]
  | cons c before ih => simp [cutLast, ih]

theorem cutLast_mode (mode : Mode) : cutLast ('(' :: (mode.text ++ ")").toList) = none := by
  cases mode <;> decide

/-- The loop reads a line of the kernel's list as it was written. -/
theorem lineMode_line (p : Profile) (name : String) :
    lineMode name p.line = if p.name = name then some p.mode.text else none := by
  have hl : p.line = p.name.toList ++ ' ' :: '(' :: (p.mode.text ++ ")").toList := by
    simp [Profile.line]
  have hls : p.line.getLast? = some ')' := by
    rw [Profile.line, String.toList_append]
    exact getLast?_concat
  have hh : ∀ c ∈ p.line.head?, isSpace c = false := by
    have hp := p.plain.2
    rw [hl]
    cases hn : p.name.toList with
    | nil => simp [hn] at hp
    | cons c cs => simpa [hn] using hp
  have ht : trimSpace (String.ofList p.line) = String.ofList p.line := by
    apply trimSpace_eq_self
    · rwa [String.toList_ofList]
    rw [String.toList_ofList, hls]
    intro c hc
    cases hc
    decide
  have hct := cutLast_append (cutLast_mode p.mode) p.name.toList
  rw [← hl] at hct
  simp [lineMode, ht, hct, hls, String.toList_inj]

/-- The kernel's list is read back: the first profile of the name, with its mode. -/
theorem profileMode_listing (profiles : List Profile) (name : String) :
    profileMode (listing profiles) name =
      (profiles.find? fun p => p.name = name).map fun p => p.mode.text := by
  simp only [profileMode, listing, String.toList_ofList]
  induction profiles with
  | nil => rfl
  | cons p rest ih =>
    have hl : '\n' ∉ p.line := by
      have hp := p.plain.1
      cases hm : p.mode <;> simp [Profile.line, hm, Mode.text, hp]
    rw [flatMap_cons, append_assoc, singleton_append, splitOn_append_cons_self,
      splitOn_eq_singleton hl, singleton_append, findSome?_cons, lineMode_line, ih,
      find?_cons]
    by_cases hn : p.name = name <;> simp [hn]

section Loading

/-- The profile the kernel applies under the name. -/
def kernelProfile (n : Node) : Option Profile := n.profiles.find? fun p => p.name = profileName

structure Embedded (P : Tools) where
  text : String
  profile : Profile
  compiles : P.compile text = some profile
  named : profile.name = profileName

variable {P : Tools} {E : Embedded P} {n n' : Node}

/-- The query tells the mode the kernel has the profile in. -/
theorem queryProfile_succeeds {mode : Option String}
    (h : Succeeds (machine P).exec queryProfile n mode n') :
    n' = n ∧ mode = (kernelProfile n).map fun p => p.mode.text := by
  obtain ⟨reply, n1, hc, hr⟩ := succeeds_bind.mp h
  have hn1 := exec_reads rfl (succeeds_run.mp hc)
  subst hn1
  cases reply with
  | none => exact absurd hr succeeds_throw
  | some out =>
    by_cases he : out.exit = 0
    · simp only [he, ne_eq, not_true, if_false, succeeds_pure] at hr
      obtain ⟨rfl, -⟩ := exec_exit_zero (by simp) (succeeds_run.mp hc) he
      refine ⟨hr.2, ?_⟩
      rw [hr.1]
      exact profileMode_listing ..
    · simp [he] at hr

theorem text_eq_enforce {mode : Mode} (h : mode.text = modeEnforce) : mode = .enforce := by
  cases mode with
  | enforce => rfl
  | _ => exact absurd h (by decide)

theorem verifyMode_succeeds {changed : Bool} {r : Result}
    (h : Succeeds (machine P).exec
      (verifyMode changed ((kernelProfile n).map fun p => p.mode.text)) n r n') :
    n' = n ∧ ∃ p, kernelProfile n = some p ∧ p.mode = .enforce := by
  cases hp : kernelProfile n with
  | none =>
    rw [hp] at h
    exact absurd h succeeds_throw
  | some p =>
    rw [hp, Option.map_some] at h
    by_cases hm : p.mode.text = modeEnforce
    · simp only [verifyMode, hm, ne_eq, not_true, if_false, succeeds_pure] at h
      exact ⟨h.2, p, rfl, text_eq_enforce hm⟩
    · simp [verifyMode, hm] at h

theorem parser_succeeds {desc : String} (hf : n.files profilePath = some E.text)
    (h : Succeeds (machine P).exec (runOK "nodeprep" (.parser profilePath) desc) n () n') :
    kernelProfile n' = some E.profile := by
  obtain ⟨-, rfl⟩ := runOK_succeeds (by simp) h
  simp [complete, hf, E.compiles, kernelProfile, load, replaceProfile, E.named]

/-- The embedded profile is in the kernel, in enforce mode. -/
def Embedded.Enforced (E : Embedded P) (n : Node) : Prop :=
  ∃ p, kernelProfile n = some p ∧ p.source = E.text ∧ p.mode = .enforce

/-- No other text of the name is enforced while the file is current. -/
def Embedded.Settled (E : Embedded P) (n : Node) : Prop :=
  n.files profilePath = some E.text → ∀ p, kernelProfile n = some p → p.mode = .enforce →
    p.source = E.text

/-- From a settled node, a run that succeeds leaves the embedded profile enforced. -/
theorem enforced_of_settled {r : Result} (hprior : E.Settled n)
    (h : Succeeds (machine P).exec (ensureAppArmorProfile E.text) n r n') : E.Enforced n' := by
  obtain ⟨wrote, n₁, hfile, h₁⟩ := succeeds_bind.mp h
  obtain ⟨mode, n₂, hquery, h₂⟩ := succeeds_bind.mp h₁
  obtain ⟨hens, hsame⟩ := ensureFile_ensured hfile (by decide)
  obtain ⟨rfl, rfl⟩ := queryProfile_succeeds hquery
  by_cases hload : (wrote || (kernelProfile n₂).map (fun p => p.mode.text) ≠ some modeEnforce) = true
  · rw [if_pos hload] at h₂
    obtain ⟨⟨⟩, n₃, hparser, h₃⟩ := succeeds_bind.mp h₂
    obtain ⟨mode, n₄, hquery', h₄⟩ := succeeds_bind.mp h₃
    obtain ⟨rfl, rfl⟩ := queryProfile_succeeds hquery'
    obtain ⟨rfl, p, hp, hmode⟩ := verifyMode_succeeds h₄
    have hloaded := parser_succeeds hens.present hparser
    rw [hloaded, Option.some.injEq] at hp
    subst hp
    exact ⟨E.profile, hloaded, P.source_eq E.compiles, hmode⟩
  · rw [if_neg hload] at h₂
    obtain ⟨rfl, p, hp, hmode⟩ := verifyMode_succeeds h₂
    have hwrote : wrote = false := by
      cases wrote with
      | false => rfl
      | true => simp at hload
    have hkernel : kernelProfile n = some p := by
      rw [← hp, kernelProfile, kernelProfile, hens.keeps.profiles]
    exact ⟨p, hp, hprior (hsame hwrote) p hkernel hmode, hmode⟩

/-- A current file and an enforced profile of the name are taken for all there is to do. -/
theorem unchanged_of_current {r : Result} {p : Profile} (hfile : n.files profilePath = some E.text)
    (hp : kernelProfile n = some p) (hmode : p.mode = .enforce)
    (h : Succeeds (undisturbed P) (ensureAppArmorProfile E.text) n r n') : n' = n := by
  obtain ⟨wrote, n₁, hwrite, h₁⟩ := succeeds_bind.mp h
  obtain ⟨mode, n₂, hquery, h₂⟩ := succeeds_bind.mp h₁
  obtain ⟨rfl, rfl⟩ := ensureWith_same (by decide) hfile hwrite
  obtain ⟨rfl, rfl⟩ := queryProfile_succeeds (succeeds_of_undisturbed hquery)
  have htext : p.mode.text = modeEnforce := by rw [hmode]; rfl
  rw [if_neg (by simp [hp, htext])] at h₂
  exact (verifyMode_succeeds (succeeds_of_undisturbed h₂)).1

/-- Where no other text of the name is enforced while the file is current, every successful run
leaves the embedded profile in the kernel, in enforce mode; elsewhere no undisturbed one does. -/
theorem ensureAppArmorProfile_enforced {n : Node} :
    (E.Settled n → ∀ r n', Succeeds (machine P).exec (ensureAppArmorProfile E.text) n r n' →
      E.Enforced n') ∧
    ∀ r n', Succeeds (undisturbed P) (ensureAppArmorProfile E.text) n r n' →
      (E.Enforced n' ↔ E.Settled n) := by
  refine ⟨fun hprior r n' h => enforced_of_settled hprior h, fun r n' h => ⟨?_, fun hprior => ?_⟩⟩
  · rintro ⟨q, hq, hsource, -⟩ hfile p hp hmode
    rw [unchanged_of_current hfile hp hmode h, hp, Option.some.injEq] at hq
    rw [hq, hsource]
  · exact enforced_of_settled hprior (succeeds_of_undisturbed h)

end Loading

def sampleProfile (text : String) : Profile := ⟨profileName, .enforce, text, by decide⟩

def sampleTools : Tools := plainTools
  { compile text := some (sampleProfile text)
    source_eq := by
      rintro text _ ⟨⟩
      rfl }

def sampleEmbedded : Embedded sampleTools := ⟨"new rules", sampleProfile "new rules", rfl, rfl⟩

def sampleFate (loads : Bool) : Command → Node → Fate
  | .parser _, _ => if loads then .done else .unsent
  | _, _ => .done

def sampleNode (rules : String) : Node where
  files path := if path = profilePath then some rules else none
  changed _ := 0
  now := 1
  past _ := by decide
  installed := none
  active := false
  started := 0
  begun := Nat.zero_lt_one
  applied _ := 0
  profiles := [sampleProfile rules]

def oldNode : Node := sampleNode "old rules"

def sampleRun : Action Result := ensureAppArmorProfile sampleEmbedded.text

def sampleAfter (loads : Bool) (n : Node) : Node :=
  (machine sampleTools).after (sampleFate loads) sampleRun.run n

def sampleAnswer (loads : Bool) (n : Node) : Option (Except Failure Result) :=
  ((machine sampleTools).simulate (sampleFate loads) sampleRun.run n).map Prod.fst

/-- Old rules in the file and in the kernel are replaced, and the embedded ones are left alone. -/
theorem embedded_rules_enforced :
    sampleEmbedded.Enforced (sampleAfter true oldNode) ∧
      sampleEmbedded.Enforced (sampleAfter true (sampleNode "new rules")) := by
  have hruns : sampleAnswer true oldNode = some (.ok ⟨true, "enforce"⟩) ∧
      sampleAnswer true (sampleNode "new rules") = some (.ok ⟨false, "enforce"⟩) := by
    decide +kernel
  constructor
  · refine ensureAppArmorProfile_enforced.1 ?_ _ _ (Machine.runs_after _ hruns.1)
    intro hfile
    exact absurd hfile (by decide +kernel)
  · refine ensureAppArmorProfile_enforced.1 ?_ _ _ (Machine.runs_after _ hruns.2)
    rintro - p ⟨⟩ -
    rfl

/-- A run that is cut off before the profile is loaded leaves the new file behind, and the
next run accepts the old rules. -/
theorem old_rules_accepted :
    Runs (machine sampleTools).exec sampleRun.run oldNode
        (.error (.transport "nodeprep: load AppArmor profile")) (sampleAfter false oldNode) ∧
      Succeeds (machine sampleTools).exec sampleRun (sampleAfter false oldNode)
        ⟨false, "enforce"⟩ (sampleAfter true (sampleAfter false oldNode)) ∧
      (kernelProfile (sampleAfter true (sampleAfter false oldNode))).map (·.source) =
        some "old rules" := by
  have hruns : sampleAnswer false oldNode =
        some (.error (.transport "nodeprep: load AppArmor profile")) ∧
      sampleAnswer true (sampleAfter false oldNode) = some (.ok ⟨false, "enforce"⟩) ∧
      (kernelProfile (sampleAfter true (sampleAfter false oldNode))).map (·.source) =
        some "old rules" := by
    decide +kernel
  obtain ⟨hcut, hquiet, hold⟩ := hruns
  exact ⟨Machine.runs_after _ hcut, Machine.runs_after _ hquiet, hold⟩

end Orkano.Nodeprep
