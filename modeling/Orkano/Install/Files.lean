import Mathlib.Data.Nat.Notation

/-!
How the installer replaces a file (`internal/install`): in one command, or in chunks where the
encoding of the contents would make the command too long. The same code runs with texts and
against a node, so what runs the commands is left open.
-/
namespace Orkano.Install

/-- `maxInlineBase64`. -/
def maxInlineBase64 : ℕ := 96 * 1024

/-- `chunkBase64`. -/
def chunkBase64 : ℕ := 48 * 1024

def base64Length (bytes : ℕ) : ℕ := 4 * ((bytes + 2) / 3)

/-- The bytes that `chunkBase64` characters stand for. -/
def chunkBytes : ℕ := chunkBase64 / 4 * 3

def tmp (path : String) : String := path ++ ".tmp"

/-- The commands that it takes, each of which must succeed. A `β` stands for a byte. -/
structure FileShell (m : Type → Type) (β : Type) where
  tee (mkdir append : Bool) (path : String) (piece : List β) (desc : String) : m Unit
  mv (source target desc : String) : m Unit
  chmod (mode path desc : String) : m Unit

/-- The pieces of the contents behind the chunks of their encoding. -/
def chunks {β : Type} (content : List β) : List (List β) :=
  (List.range ((base64Length content.length + chunkBase64 - 1) / chunkBase64)).map fun i =>
    (content.drop (i * chunkBytes)).take chunkBytes

namespace FileShell

variable {m : Type → Type} [Monad m] {β : Type} (S : FileShell m β)

def finalize (path : String) : m Unit := S.mv (tmp path) path ("finalize " ++ path)

def writeInline (path : String) (content : List β) : m Unit := do
  S.tee true false (tmp path) content ("write " ++ path)
  S.finalize path

/-- The loop of `writeChunked`: the first chunk truncates the temporary file. -/
def writeChunks (path : String) : Bool → List (List β) → m Unit
  | _, [] => return
  | first, piece :: rest => do
    S.tee first (!first) (tmp path) piece ("write chunk of " ++ path)
    writeChunks path false rest

def writeChunked (path : String) (content : List β) : m Unit := do
  S.writeChunks path true (chunks content)
  S.finalize path

/-- What `ensureFile` does to a file with other contents. -/
def replaceFile (path : String) (content : List β) (mode : String) : m Unit := do
  if base64Length content.length ≤ maxInlineBase64 then S.writeInline path content
  else S.writeChunked path content
  S.chmod mode path ("chmod " ++ path)

end FileShell

end Orkano.Install
