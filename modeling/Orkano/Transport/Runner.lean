import Orkano.Interleave.Narrated
import Orkano.Text.Quote
import Orkano.Text.Runes

/-!
The two ways a command reaches a node, `internal/ssh` and `internal/localexec`, and what they
report. Some of the errors quote the command.
-/
namespace Orkano.Transport

open Interleave Program Text

/-- `ssh.Result`. -/
structure Result where
  stdout : String
  stderr : String
  exitStatus : ℕ
deriving DecidableEq, Repr

/-- The `Runner` of the k3s and the install package. An outcome is what happened to a
command; only outcomes that are marked so are reported with the command in the text. -/
structure Runner where
  Outcome : Type
  report : String → Outcome → Except String Result
  exited : Result → Outcome
  quotes : Outcome → Bool
  report_exited : ∀ cmd r, report cmd (exited r) = .ok r
  report_eq : ∀ {x}, quotes x = false → ∀ cmd cmd', report cmd x = report cmd' x

/-- What happens to a command that is sent over SSH; `cause` is the error underneath. -/
inductive SSHOutcome where
  | exited (r : Result)
  | dialFailed (cause : String)
  | handshakeFailed (cause : String)
  | sessionFailed (cause : String)
  | cancelled (cause : String)
  | broken (cause : String)
deriving DecidableEq, Repr

def sshReport (addr cmd : String) : SSHOutcome → Except String Result
  | .exited r => .ok r
  | .dialFailed cause => .error ("ssh: dial " ++ addr ++ ": " ++ cause)
  | .handshakeFailed cause => .error ("ssh: handshake with " ++ addr ++ ": " ++ cause)
  | .sessionFailed cause => .error ("ssh: new session: " ++ cause)
  | .cancelled cause | .broken cause => .error ("ssh: run " ++ quoted cmd ++ ": " ++ cause)

def SSHOutcome.quotes : SSHOutcome → Bool
  | .cancelled _ | .broken _ => true
  | _ => false

def sshClient (addr : String) : Runner where
  Outcome := SSHOutcome
  report := sshReport addr
  exited := .exited
  quotes := SSHOutcome.quotes
  report_exited _ _ := rfl
  report_eq {x} hx cmd cmd' := by
    cases x with
    | cancelled | broken => cases hx
    | _ => rfl

inductive LocalOutcome where
  | exited (r : Result)
  | cancelled (cause : String)
  | killed (cause : String)
  | unstarted (cause : String)
deriving DecidableEq, Repr

/-- `localexec.Runner.Run`. -/
def localReport (cmd : String) : LocalOutcome → Except String Result
  | .exited r => .ok r
  | .cancelled cause | .unstarted cause =>
    .error ("localexec: run " ++ quoted cmd ++ ": " ++ cause)
  | .killed cause => .error ("localexec: run " ++ quoted cmd ++ ": killed: " ++ cause)

def LocalOutcome.quotes : LocalOutcome → Bool
  | .exited _ => false
  | _ => true

def localRunner : Runner where
  Outcome := LocalOutcome
  report := localReport
  exited := .exited
  quotes := LocalOutcome.quotes
  report_exited _ _ := rfl
  report_eq {x} hx cmd cmd' := by
    cases x with
    | exited => rfl
    | _ => cases hx

/-- The standard alphabet: letters, digits, `+` and `/`. -/
def base64Digit (n : ℕ) : Char :=
  let d := n % 64
  Char.ofNat (if d < 26 then 65 + d else if d < 52 then 71 + d else if d < 62 then d - 4
    else if d = 62 then 43 else 47)

/-- `base64.StdEncoding.EncodeToString`. -/
def base64 : Bytes → List Char
  | [] => []
  | [a] =>
    let n := a.toNat * 16
    [base64Digit (n / 64), base64Digit n, '=', '=']
  | [a, b] =>
    let n := (a.toNat * 256 + b.toNat) * 4
    [base64Digit (n / 4096), base64Digit (n / 64), base64Digit n, '=']
  | a :: b :: c :: rest =>
    let n := (a.toNat * 256 + b.toNat) * 256 + c.toNat
    base64Digit (n / 262144) :: base64Digit (n / 4096) :: base64Digit (n / 64) ::
      base64Digit n :: base64 rest

example : (["f", "fo", "foo", "foob"].map fun s => String.ofList (base64 (bytes s))) =
    ["Zg==", "Zm8=", "Zm9v", "Zm9vYg=="] := by decide +kernel

section Narration

/-- Code that sends commands, says what it does and stops at the first error. -/
abbrev Narration (R : Runner) (C α : Type) :=
  ExceptT String (Program (narrated C R.Outcome String)) α

variable (R : Runner) {C α β : Type}

def say (line : String) : Narration R C Unit :=
  ExceptT.lift (perform (I := narrated C R.Outcome String) (.say line))

/-- One command, which is sent as `text` says. -/
def send (text : C → String) (c : C) : Narration R C (Except String Result) := do
  let x ← ExceptT.lift (perform (I := narrated C R.Outcome String) (.run c))
  return R.report (text c) x

/-- A package's way to run commands: the text they are sent as, its name in errors, and
what it takes for the first line of what a command wrote to its error output. -/
structure Shell (C : Type) where
  text : C → String
  package : String
  firstLine : String → String

/-- `runOK`: a command that must succeed. -/
def runOK (S : Shell C) (c : C) (desc : String) : Narration R C Unit := do
  match ← send R S.text c with
  | .error e => throw (S.package ++ ": " ++ desc ++ ": " ++ e)
  | .ok res =>
    if res.exitStatus ≠ 0 then
      throw (S.package ++ ": " ++ desc ++ " exited " ++ toString res.exitStatus ++ ": " ++
        S.firstLine res.stderr)

end Narration

section Alike

variable {R : Runner} {C α β : Type} {safe : C → R.Outcome → Prop}
variable {Q : Except String β → Except String β → Prop}

theorem Alike.then {p q : Narration R C α} {f g : α → Narration R C β}
    (h : Alike safe Eq p.run q.run) (he : ∀ e, Q (.error e) (.error e))
    (hfg : ∀ a, Alike safe Q (f a).run (g a).run) : Alike safe Q (p >>= f).run (q >>= g).run := by
  apply Alike.bind h
  rintro r _ rfl
  cases r with
  | error e => exact .done (he e)
  | ok a => exact hfg a

variable {S : Shell C}

theorem alike_send {c c' : C} {f g : Except String Result → Narration R C β} (h : ∀ x, safe c x →
      Alike safe Q (f (R.report (S.text c) x)).run (g (R.report (S.text c') x)).run) :
    Alike safe Q (send R S.text c >>= f).run (send R S.text c' >>= g).run :=
  Alike.run h

theorem alike_runOK {c c' : C} {desc : String} (hs : ∀ x, safe c x → R.quotes x = false) :
    Alike safe Eq (runOK R S c desc).run (runOK R S c' desc).run := by
  apply alike_send
  intro x hx
  rw [R.report_eq (hs x hx) (S.text c) (S.text c')]
  exact Alike.refl (fun _ => rfl) _

end Alike

end Orkano.Transport
