import Orkano.FileTree.Disk
import Orkano.Text.SlashPath

/-!
Uploaded source archives. `Inspect` looks at the entries of an archive when it is uploaded,
`Extract` unpacks them where it is built: names are bytes, sizes are machine words, and what is
unpacked goes to a disk with symbolic links on it.
-/
namespace Orkano.SourceArchive.Zip

open FileTree Text List

def maxUncompressedBytes : UInt64 := (256 : UInt64) <<< 20
def maxFiles : ℕ := 10000
def maxCompressionRatio : UInt64 := 200

inductive FileType where
  | regular
  | directory
  | other
deriving DecidableEq, Repr

/-- What a reader of an entry gives, and whether the copy or closing it fails in the end. -/
structure Stream where
  data : Bytes
  fails : Bool
deriving DecidableEq, Repr

structure Header where
  name : Bytes
  flags : UInt16
  method : UInt16
  fileType : FileType
  perm : ℕ
  compressedSize : UInt64
  uncompressedSize : UInt64
  /-- Nothing if the entry cannot be opened. -/
  stream : Option Stream
deriving DecidableEq, Repr

namespace Header

variable (file : Header)

def encrypted : Bool := file.flags &&& 0x1 ≠ 0

def slashed : Bool := file.name.getLast? = some 0x2f

/-- A name that ends in a slash is a directory's, whatever the attributes say. -/
def isDir : Bool := file.fileType = .directory || file.slashed

def isRegular : Bool := file.fileType = .regular && !file.slashed

def executable : Bool := file.perm &&& 0o111 ≠ 0

/-- Where the entry goes, below the destination. -/
def place : List Bytes := cleanedNames file.name

end Header

inductive Problem where
  | noEntries
  | tooManyEntries (n : ℕ)
  | unsafePath (name : Bytes)
  | duplicate (path : Bytes)
  | encrypted (path : Bytes)
  | method (path : Bytes) (method : UInt16)
  | notRegular (path : Bytes)
  | tooLarge
  | ratio (path : Bytes)
  | noFiles
  | readDirectory
  | notEmpty
  | createDirectory (path : Bytes)
  | createParent (path : Bytes)
  | openEntry (path : Bytes)
  | createFile (path : Bytes)
  | copy (path : Bytes)
  | size (path : Bytes)
deriving DecidableEq, Repr

def safePath (name : Bytes) : Option Bytes :=
  if name = [] ∨ 0x00 ∈ name ∨ 0x5c ∈ name ∨ isRooted name = true then none
  else
    let clean := cleanPath name
    if clean = bytes "." ∨ clean = bytes ".." ∨ bytes "../" <+: clean then none else some clean

structure Info where
  files : ℕ
  uncompressedBytes : UInt64
deriving DecidableEq, Repr

def overRatio (file : Header) : Bool :=
  file.uncompressedSize > (1 : UInt64) <<< 20 &&
    file.uncompressedSize > (file.compressedSize + 1) * maxCompressionRatio

def inspectLoop : List Header → List Bytes → Info → Except Problem Info
  | [], _, info => .ok info
  | file :: rest, seen, info =>
    match safePath file.name with
    | none => .error (.unsafePath file.name)
    | some clean =>
      if clean ∈ seen then .error (.duplicate clean)
      else if file.encrypted then .error (.encrypted clean)
      else if file.method ≠ 0 ∧ file.method ≠ 8 then .error (.method clean file.method)
      else if !file.isDir && !file.isRegular then .error (.notRegular clean)
      else if file.isDir then inspectLoop rest (clean :: seen) info
      else if file.uncompressedSize > maxUncompressedBytes - info.uncompressedBytes then
        .error .tooLarge
      else if overRatio file then .error (.ratio clean)
      else
        inspectLoop rest (clean :: seen)
          ⟨info.files + 1, info.uncompressedBytes + file.uncompressedSize⟩

def inspect (files : List Header) : Except Problem Info :=
  if files = [] then .error .noEntries
  else if files.length > maxFiles then .error (.tooManyEntries files.length)
  else
    match inspectLoop files [] ⟨0, 0⟩ with
    | .error e => .error e
    | .ok info => if info.files = 0 then .error .noFiles else .ok info

structure File where
  bytes : Bytes
  executable : Bool
deriving DecidableEq, Repr

structure Host where
  cwd : List Bytes
  maxLinks : ℕ

def stepOf (name : Bytes) : Option (Step Bytes) :=
  if name = [] ∨ name = bytes "." then none
  else if name = bytes ".." then some .up
  else some (.down name)

def steps (path : Bytes) : List (Step Bytes) := (pathNames path).filterMap stepOf

/-- `filepath.Dir`: what stands before the last name, cleaned. -/
def dirPath (path : Bytes) : Bytes := cleanPath (path.rdropWhile (· ≠ 0x2f))

namespace Host

variable (h : Host)

def start (path : Bytes) : List Bytes := if isRooted path then [] else h.cwd

def openDir (d : Disk Bytes File) (path : Bytes) : Option (List Bytes) :=
  if path = [] then none
  else (d.resolve h.maxLinks (h.start path) (steps path)).map Prod.fst

def mkdirAll (d : Disk Bytes File) (path : Bytes) : Disk Bytes File × Bool :=
  d.mkdirAll h.maxLinks (h.start path) (steps path) (steps path).length

/-- A file that is created exclusively, with what is written to it. -/
def createFile (d : Disk Bytes File) (path : Bytes) (content : File) : Option (Disk Bytes File) :=
  d.make h.maxLinks (h.start path) (steps path) (.file content)

end Host

section Extract

variable (h : Host) (destination : Bytes)

/-- Copy an entry to a new file, at most one byte more than may remain. -/
def copyEntry (file : Header) (clean target : Bytes) (d : Disk Bytes File) (extracted : UInt64) :
    Disk Bytes File × Except Problem UInt64 :=
  match file.stream with
  | none => (d, .error (.openEntry clean))
  | some stream =>
    let remaining := (maxUncompressedBytes - extracted).toInt64
    let copied := stream.data.take (remaining + 1).toNatClampNeg
    match h.createFile d target ⟨copied, file.executable⟩ with
    | none => (d, .error (.createFile clean))
    | some d =>
      let written := Int64.ofNat copied.length
      if stream.fails then (d, .error (.copy clean))
      else if written < 0 || written > remaining then (d, .error (.size clean))
      else if written.toUInt64 ≠ file.uncompressedSize then (d, .error (.size clean))
      else (d, .ok (extracted + written.toUInt64))

def extractEntry (file : Header) (d : Disk Bytes File) (extracted : UInt64) :
    Disk Bytes File × Except Problem UInt64 :=
  match safePath file.name with
  | none => (d, .error (.unsafePath file.name))
  | some clean =>
    let target := joinPath destination clean
    if file.isDir then
      match h.mkdirAll d target with
      | (d, true) => (d, .ok extracted)
      | (d, false) => (d, .error (.createDirectory clean))
    else
      match h.mkdirAll d (dirPath target) with
      | (d, true) => copyEntry h file clean target d extracted
      | (d, false) => (d, .error (.createParent clean))

def extractLoop : List Header → Disk Bytes File → UInt64 → Disk Bytes File × Except Problem UInt64
  | [], d, extracted => (d, .ok extracted)
  | file :: rest, d, extracted =>
    match extractEntry h destination file d extracted with
    | (d, .error e) => (d, .error e)
    | (d, .ok extracted) => extractLoop rest d extracted

def extract (files : List Header) (d : Disk Bytes File) : Disk Bytes File × Except Problem Unit :=
  match inspect files with
  | .error e => (d, .error e)
  | .ok _ =>
    match h.openDir d destination with
    | none => (d, .error .readDirectory)
    | some root =>
      if d.children root ≠ [] then (d, .error .notEmpty)
      else
        let (d, result) := extractLoop h destination files d 0
        (d, result.map fun _ => ())

end Extract

/-- What a safe path is: names that lead down, without the bytes that other systems read as
separators or as the end of a name. -/
structure SafeNames (clean : Bytes) (names : List Bytes) : Prop where
  eq : clean = joinNames names
  ne_nil : names ≠ []
  proper : ∀ n ∈ names, ProperName n
  backslash : 0x5c ∉ clean
  nul : 0x00 ∉ clean

theorem SafeNames.dropLast_ne {clean : Bytes} {names : List Bytes} (h : SafeNames clean names) :
    names.dropLast ≠ names := by
  intro heq
  have hl := congrArg length heq
  have := length_pos_iff.mpr h.ne_nil
  rw [length_dropLast] at hl
  omega

theorem cleanPath_of_not_rooted {path : Bytes} (h : isRooted path = false) :
    cleanPath path = if cleanedNames path = [] then bytes "." else joinNames (cleanedNames path) := by
  have hi : joinNames (cleanedNames path) = [] ↔ cleanedNames path = [] := by
    constructor
    · intro he
      by_contra hne
      have hnm := pathNames_joinNames (fun n hn => (name_of_mem_cleanedNames hn).2.2) hne
      rw [he] at hnm
      have hm : [] ∈ cleanedNames path := by
        rw [← hnm]
        decide
      exact (name_of_mem_cleanedNames hm).1 rfl
    · intro hnl
      rw [hnl]
      rfl
  unfold cleanPath
  simp only [h, Bool.false_eq_true, ↓reduceIte, nil_append, hi]

theorem up_of_replicate {k : ℕ} {proper : List Bytes} :
    joinNames (List.replicate (k + 1) (bytes "..") ++ proper) = bytes ".." ∨
      bytes "../" <+: joinNames (List.replicate (k + 1) (bytes "..") ++ proper) := by
  rw [replicate_succ, cons_append]
  cases List.replicate k (bytes "..") ++ proper with
  | nil => exact .inl rfl
  | cons m rest =>
    right
    rw [joinNames, intercalate_cons_cons, append_assoc]
    have hs : bytes "../" = bytes ".." ++ [0x2f] := by decide
    rw [hs, ← append_assoc]
    exact prefix_append _ _

/-- A path that is let through leads down, and is clean. -/
theorem safeNames_of_safePath {name clean : Bytes} (h : safePath name = some clean) :
    SafeNames clean (cleanedNames name) := by
  unfold safePath at h
  split at h
  · cases h
  rename_i hna
  simp only [not_or, Bool.not_eq_true] at hna
  obtain ⟨-, hnl, hbc, hr⟩ := hna
  dsimp only at h
  split at h
  · cases h
  rename_i hs
  cases h
  simp only [not_or] at hs
  obtain ⟨hdt, hd, hup⟩ := hs
  rw [cleanPath_of_not_rooted hr] at hdt hd hup ⊢
  have hne : cleanedNames name ≠ [] := fun hni => hdt (if_pos hni)
  rw [if_neg hne] at hd hup ⊢
  obtain ⟨k, proper, hnm, hp, -⟩ := cleanedNames_eq name
  have hp' : ∀ n ∈ cleanedNames name, ProperName n := by
    cases k with
    | zero =>
      rw [hnm]
      exact hp
    | succ k =>
      rw [hnm] at hd hup
      rcases up_of_replicate with hd' | hup'
      · exact absurd hd' hd
      · exact absurd hup' hup
  -- The bytes of the names are bytes of the name that was given.
  have hby : ∀ b, b ∉ name → ∀ n ∈ cleanedNames name, b ∉ n := by
    intro b hb n hn hm
    rcases mem_pathNames_of_mem_cleanedNames hn with hn' | hn'
    · rw [← joinNames_pathNames name] at hb
      exact hb (mem_joinNames hn' hm)
    · exact (hp' n hn).ne_dots hn'
  exact ⟨rfl, hne, hp', notMem_joinNames (by decide) (hby _ hbc),
    notMem_joinNames (by decide) (hby _ hnl)⟩

/-- Names that clean to the root itself, to an absolute path or to one that leaves the root are
refused. -/
theorem safePath_none {name : Bytes} (h : cleanPath name = bytes "." ∨
    isRooted (cleanPath name) = true ∨ cleanPath name = bytes ".." ∨
      bytes "../" <+: cleanPath name) : safePath name = none := by
  unfold safePath
  split
  · rfl
  rename_i hn
  simp only [not_or] at hn
  dsimp only
  rw [if_pos]
  rcases h with h | h | h | h
  · exact .inl h
  · rw [isRooted_cleanPath] at h
    exact absurd h hn.2.2.2
  · exact .inr (.inl h)
  · exact .inr (.inr h)

section Targets

variable {destination clean : Bytes} {names : List Bytes}

def namedStep (name : Bytes) : Step Bytes := if name = bytes ".." then .up else .down name

theorem steps_eq (path : Bytes) :
    steps path = ((pathNames path).filter fun n => n ≠ [] ∧ n ≠ bytes ".").map namedStep := by
  rw [steps, ← filterMap_eq_map, filterMap_filter]
  apply filterMap_congr
  intro n _
  by_cases hn : n ≠ [] ∧ n ≠ bytes "."
  · have hs : stepOf n = some (namedStep n) := by
      unfold stepOf namedStep
      rw [if_neg (not_or.mpr hn)]
      split <;> rfl
    rw [hs, if_pos (by simpa using hn)]
    rfl
  have hs : stepOf n = none := by
    unfold stepOf
    rw [if_pos]
    by_contra hcontra
    exact hn (not_or.mp hcontra)
  rw [hs, if_neg (by simpa using hn)]

theorem steps_cleanPath (path : Bytes) : steps (cleanPath path) = (cleanedNames path).map namedStep := by
  rw [steps_eq, pathNames_cleanPath]

theorem namedStep_proper {name : Bytes} (h : ProperName name) : namedStep name = .down name :=
  if_neg h.ne_dots

/-- A target is the destination and the entry's names below it. -/
theorem steps_target (hd : destination ≠ []) (h : SafeNames clean names) :
    isRooted (joinPath destination clean) = isRooted destination ∧
      steps (joinPath destination clean) =
        (cleanedNames destination).map namedStep ++ names.map .down := by
  obtain ⟨hr, hnm⟩ := cleanedNames_append hd h.proper h.ne_nil
  rw [joinPath, if_pos hd, isRooted_cleanPath, steps_cleanPath, h.eq, hr, hnm,
    map_append]
  refine ⟨rfl, congrArg _ ?_⟩
  apply map_congr_left
  intro n hn
  exact namedStep_proper (h.proper n hn)

/-- The parent of a target is the destination and all names but the last. -/
theorem steps_dirPath (hd : destination ≠ []) (h : SafeNames clean names) :
    isRooted (dirPath (joinPath destination clean)) = isRooted destination ∧
      steps (dirPath (joinPath destination clean)) =
        (cleanedNames destination).map namedStep ++ names.dropLast.map .down := by
  obtain ⟨hr, hnm⟩ := cleanedNames_append hd h.proper h.ne_nil
  have hp : cleanedNames (destination ++ 0x2f :: joinNames names) =
      (cleanedNames destination ++ names.dropLast) ++ [names.getLast h.ne_nil] := by
    rw [hnm, append_assoc, dropLast_concat_getLast]
  obtain ⟨hr', hn'⟩ := cleanedNames_before_last hp
  rw [joinPath, if_pos hd, h.eq, dirPath, isRooted_cleanPath, steps_cleanPath, hr', hn',
    hr, map_append]
  refine ⟨rfl, congrArg _ ?_⟩
  apply map_congr_left
  intro n hn
  exact namedStep_proper (h.proper n (dropLast_subset names hn))

end Targets

end Orkano.SourceArchive.Zip
