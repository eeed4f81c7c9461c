import Orkano.Json.Struct

/-!
The JSON documents that the dashboard seals into its cookies, and what each decodes to when it
is read as another: what survives is the values of the member names two structs share.
-/
namespace Orkano.Dashboard

open Json

structure Challenge where
  uid : Int64
  stage : String
  expires : Int64
deriving DecidableEq, Repr

structure OIDCFlow where
  state : String
  nonce : String
  verifier : String
  reauth : Bool
  uid : Int64
  sessionHash : String
  expires : Int64
deriving DecidableEq, Repr

structure GitHubFlow where
  state : String
  actor : String
  expires : Int64
deriving DecidableEq, Repr

namespace Challenge

def zero : Challenge := ⟨0, "", 0⟩

def members (c : Challenge) : List (String × Scalar) :=
  [("uid", .int c.uid.toInt), ("stage", .string c.stage), ("exp", .int c.expires.toInt)]

def marshal (c : Challenge) : String := Json.marshal c.members

def fields : List (Json.Field Challenge) :=
  [.int64 "uid" fun n c => { c with uid := n },
   .string "stage" fun s c => { c with stage := s },
   .int64 "exp" fun n c => { c with expires := n }]

def unmarshal (text : String) : Option Challenge := Json.unmarshal fields zero text

end Challenge

namespace OIDCFlow

def zero : OIDCFlow := ⟨"", "", "", false, 0, "", 0⟩

/-- The three step-up fields are left out when they are empty. -/
def members (f : OIDCFlow) : List (String × Scalar) :=
  [("state", .string f.state), ("nonce", .string f.nonce), ("verifier", .string f.verifier)] ++
    (if f.reauth then [("reauth", .bool true)] else []) ++
    (if f.uid = 0 then [] else [("uid", .int f.uid.toInt)]) ++
    (if f.sessionHash = "" then [] else [("sess", .string f.sessionHash)]) ++
    [("exp", .int f.expires.toInt)]

def marshal (f : OIDCFlow) : String := Json.marshal f.members

def fields : List (Json.Field OIDCFlow) :=
  [.string "state" fun s f => { f with state := s },
   .string "nonce" fun s f => { f with nonce := s },
   .string "verifier" fun s f => { f with verifier := s },
   .bool "reauth" fun b f => { f with reauth := b },
   .int64 "uid" fun n f => { f with uid := n },
   .string "sess" fun s f => { f with sessionHash := s },
   .int64 "exp" fun n f => { f with expires := n }]

def unmarshal (text : String) : Option OIDCFlow := Json.unmarshal fields zero text

end OIDCFlow

namespace GitHubFlow

def zero : GitHubFlow := ⟨"", "", 0⟩

def members (f : GitHubFlow) : List (String × Scalar) :=
  [("state", .string f.state), ("actor", .string f.actor), ("exp", .int f.expires.toInt)]

def marshal (f : GitHubFlow) : String := Json.marshal f.members

def fields : List (Json.Field GitHubFlow) :=
  [.string "state" fun s f => { f with state := s },
   .string "actor" fun s f => { f with actor := s },
   .int64 "exp" fun n f => { f with expires := n }]

def unmarshal (text : String) : Option GitHubFlow := Json.unmarshal fields zero text

end GitHubFlow

section Assign

private theorem Challenge.assigns (c : Challenge) :
    (∀ n : Int64, assignMember Challenge.fields c ("uid", (Scalar.int n.toInt).value) =
      some { c with uid := n }) ∧
    (∀ s, assignMember Challenge.fields c ("stage", (Scalar.string s).value) =
      some { c with stage := s }) ∧
    (∀ n : Int64, assignMember Challenge.fields c ("exp", (Scalar.int n.toInt).value) =
      some { c with expires := n }) :=
  ⟨fun n => Field.assign_int64 "uid" _ n c, fun _ => rfl, fun n => Field.assign_int64 "exp" _ n c⟩

variable {key : String}

private theorem Challenge.ignores
    (h : key ∈ ["state", "nonce", "verifier", "reauth", "sess", "actor"]) (c : Challenge)
    (v : Value) : assignMember Challenge.fields c (key, v) = some c := by
  apply assignMember_unknown
  revert key
  decide

private theorem OIDCFlow.assigns (f : OIDCFlow) :
    (∀ s, assignMember OIDCFlow.fields f ("state", (Scalar.string s).value) =
      some { f with state := s }) ∧
    (∀ s, assignMember OIDCFlow.fields f ("nonce", (Scalar.string s).value) =
      some { f with nonce := s }) ∧
    (∀ s, assignMember OIDCFlow.fields f ("verifier", (Scalar.string s).value) =
      some { f with verifier := s }) ∧
    (∀ b, assignMember OIDCFlow.fields f ("reauth", (Scalar.bool b).value) =
      some { f with reauth := b }) ∧
    (∀ n : Int64, assignMember OIDCFlow.fields f ("uid", (Scalar.int n.toInt).value) =
      some { f with uid := n }) ∧
    (∀ s, assignMember OIDCFlow.fields f ("sess", (Scalar.string s).value) =
      some { f with sessionHash := s }) ∧
    (∀ n : Int64, assignMember OIDCFlow.fields f ("exp", (Scalar.int n.toInt).value) =
      some { f with expires := n }) :=
  ⟨fun _ => rfl, fun _ => rfl, fun _ => rfl, fun _ => rfl,
    fun n => Field.assign_int64 "uid" _ n f, fun _ => rfl,
    fun n => Field.assign_int64 "exp" _ n f⟩

private theorem OIDCFlow.ignores (h : key ∈ ["stage", "actor"]) (f : OIDCFlow) (v : Value) :
    assignMember OIDCFlow.fields f (key, v) = some f := by
  apply assignMember_unknown
  revert key
  decide

private theorem GitHubFlow.assigns (f : GitHubFlow) :
    (∀ s, assignMember GitHubFlow.fields f ("state", (Scalar.string s).value) =
      some { f with state := s }) ∧
    (∀ s, assignMember GitHubFlow.fields f ("actor", (Scalar.string s).value) =
      some { f with actor := s }) ∧
    (∀ n : Int64, assignMember GitHubFlow.fields f ("exp", (Scalar.int n.toInt).value) =
      some { f with expires := n }) :=
  ⟨fun _ => rfl, fun _ => rfl, fun n => Field.assign_int64 "exp" _ n f⟩

private theorem GitHubFlow.ignores
    (h : key ∈ ["uid", "stage", "nonce", "verifier", "reauth", "sess"]) (f : GitHubFlow)
    (v : Value) : assignMember GitHubFlow.fields f (key, v) = some f := by
  apply assignMember_unknown
  revert key
  decide

end Assign

/-- The members of an OIDC flow cookie with the optional ones present or absent. -/
private theorem OIDCFlow.foldlM_members {α : Type} (g : α → String × Value → Option α) (a : α)
    (f : OIDCFlow) :
    (values f.members).foldlM g a =
      (do
        let a ← g a ("state", (Scalar.string f.state).value)
        let a ← g a ("nonce", (Scalar.string f.nonce).value)
        let a ← g a ("verifier", (Scalar.string f.verifier).value)
        let a ← if f.reauth then g a ("reauth", (Scalar.bool true).value) else some a
        let a ← if f.uid = 0 then some a else g a ("uid", (Scalar.int f.uid.toInt).value)
        let a ← if f.sessionHash = "" then some a
          else g a ("sess", (Scalar.string f.sessionHash).value)
        g a ("exp", (Scalar.int f.expires.toInt).value)) := by
  cases hr : f.reauth <;> by_cases hu : f.uid = 0 <;> by_cases hs : f.sessionHash = "" <;>
    simp [OIDCFlow.members, values, hr, hu, hs]

@[simp] theorem Challenge.unmarshal_challenge (c : Challenge) :
    Challenge.unmarshal c.marshal = some c := by
  simp [Challenge.unmarshal, Challenge.marshal, unmarshal_marshal, Challenge.members, values,
    Challenge.assigns]

@[simp] theorem Challenge.unmarshal_oidcFlow (f : OIDCFlow) :
    Challenge.unmarshal f.marshal = some ⟨f.uid, "", f.expires⟩ := by
  by_cases hu : f.uid = 0 <;>
    simp [Challenge.unmarshal, OIDCFlow.marshal, unmarshal_marshal, OIDCFlow.foldlM_members,
      Challenge.assigns, Challenge.ignores, Challenge.zero, hu]

@[simp] theorem Challenge.unmarshal_githubFlow (f : GitHubFlow) :
    Challenge.unmarshal f.marshal = some ⟨0, "", f.expires⟩ := by
  simp [Challenge.unmarshal, GitHubFlow.marshal, unmarshal_marshal, GitHubFlow.members, values,
    Challenge.assigns, Challenge.ignores, Challenge.zero]

@[simp] theorem OIDCFlow.unmarshal_challenge (c : Challenge) :
    OIDCFlow.unmarshal c.marshal = some ⟨"", "", "", false, c.uid, "", c.expires⟩ := by
  simp [OIDCFlow.unmarshal, Challenge.marshal, unmarshal_marshal, Challenge.members, values,
    OIDCFlow.assigns, OIDCFlow.ignores, OIDCFlow.zero]

@[simp] theorem OIDCFlow.unmarshal_oidcFlow (f : OIDCFlow) :
    OIDCFlow.unmarshal f.marshal = some f := by
  obtain ⟨state, nonce, verifier, reauth, uid, sessionHash, expires⟩ := f
  cases reauth <;> by_cases hu : uid = 0 <;> by_cases hs : sessionHash = "" <;>
    simp [OIDCFlow.unmarshal, OIDCFlow.marshal, unmarshal_marshal, OIDCFlow.foldlM_members,
      OIDCFlow.assigns, OIDCFlow.zero, hu, hs]

@[simp] theorem OIDCFlow.unmarshal_githubFlow (f : GitHubFlow) :
    OIDCFlow.unmarshal f.marshal = some ⟨f.state, "", "", false, 0, "", f.expires⟩ := by
  simp [OIDCFlow.unmarshal, GitHubFlow.marshal, unmarshal_marshal, GitHubFlow.members, values,
    OIDCFlow.assigns, OIDCFlow.ignores, OIDCFlow.zero]

@[simp] theorem GitHubFlow.unmarshal_challenge (c : Challenge) :
    GitHubFlow.unmarshal c.marshal = some ⟨"", "", c.expires⟩ := by
  simp [GitHubFlow.unmarshal, Challenge.marshal, unmarshal_marshal, Challenge.members, values,
    GitHubFlow.assigns, GitHubFlow.ignores, GitHubFlow.zero]

@[simp] theorem GitHubFlow.unmarshal_oidcFlow (f : OIDCFlow) :
    GitHubFlow.unmarshal f.marshal = some ⟨f.state, "", f.expires⟩ := by
  simp [GitHubFlow.unmarshal, OIDCFlow.marshal, unmarshal_marshal, OIDCFlow.foldlM_members,
    GitHubFlow.assigns, GitHubFlow.ignores, GitHubFlow.zero]

@[simp] theorem GitHubFlow.unmarshal_githubFlow (f : GitHubFlow) :
    GitHubFlow.unmarshal f.marshal = some f := by
  simp [GitHubFlow.unmarshal, GitHubFlow.marshal, unmarshal_marshal, GitHubFlow.members, values,
    GitHubFlow.assigns]

/-- Each document is read back as it was written. -/
theorem documents_read_back :
    (∀ c : Challenge, Challenge.unmarshal c.marshal = some c) ∧
    (∀ f : OIDCFlow, OIDCFlow.unmarshal f.marshal = some f) ∧
    ∀ f : GitHubFlow, GitHubFlow.unmarshal f.marshal = some f :=
  ⟨Challenge.unmarshal_challenge, OIDCFlow.unmarshal_oidcFlow, GitHubFlow.unmarshal_githubFlow⟩

end Orkano.Dashboard
