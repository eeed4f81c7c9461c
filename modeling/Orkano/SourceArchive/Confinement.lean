import Orkano.SourceArchive.Zip

/-!
An extraction stays inside its destination: only directories and new files are made in a directory
that was empty, so no link below it could lead a later name elsewhere.
-/
namespace Orkano.SourceArchive.Zip

open FileTree Text List

variable {h : Host} {d : Disk Bytes File} {destination clean : Bytes} {names root : List Bytes}
  {left : ℕ}

/-- A directory to extract to, with a path that names it. The system walks the path as it is
given and the targets after it was cleaned; the two lead to different places only where the
path goes up from a link. -/
structure Destination (h : Host) (d : Disk Bytes File) where
  path : Bytes
  root : List Bytes
  opened : h.openDir d path = some root
  cleaned : h.openDir d (cleanPath path) = some root

theorem start_cleanPath (h : Host) (path : Bytes) : h.start (cleanPath path) = h.start path := by
  rw [Host.start, isRooted_cleanPath, Host.start]

/-- Cleaning a path that never goes up changes nothing about where it leads. -/
def Destination.ofDown (path : Bytes) (root : List Bytes) (hdown : bytes ".." ∉ pathNames path)
    (hopened : h.openDir d path = some root) : Destination h d where
  path
  root
  opened := hopened
  cleaned := by
    have hp : path ≠ [] := by
      rintro rfl
      cases hopened
    have hc : cleanPath path ≠ [] := by
      unfold cleanPath
      generalize _ ++ joinNames (cleanedNames path) = out
      dsimp only
      split
      · decide
      · assumption
    have hs : steps (cleanPath path) = steps path := by
      rw [steps_cleanPath, cleanedNames_of_down hdown, steps_eq]
    rw [← hopened, Host.openDir, Host.openDir, start_cleanPath, hs, if_neg hp, if_neg hc]

theorem Destination.path_ne (dest : Destination h d) : dest.path ≠ [] := by
  intro hn
  have ho := dest.opened
  rw [Host.openDir, if_pos hn] at ho
  cases ho

theorem Destination.resolve (dest : Destination h d) : ∃ left,
    d.resolve h.maxLinks (h.start dest.path) ((cleanedNames dest.path).map namedStep) =
      some (dest.root, left) := by
  have hc := dest.cleaned
  unfold Host.openDir at hc
  split at hc
  · cases hc
  rw [start_cleanPath, steps_cleanPath] at hc
  obtain ⟨⟨root, left⟩, hr, rfl⟩ := Option.map_eq_some_iff.mp hc
  exact ⟨left, hr⟩

section Entries

/-- An object that an entry calls for: a directory on the way to its place, or what it is
itself. -/
def CalledFor (files : List Header) (root : List Bytes) (e : List Bytes × Object Bytes File) : Prop :=
  ∃ file ∈ files, ∃ clean, safePath file.name = some clean ∧ SafeNames clean file.place ∧
    ((e.2 = .dir ∧ ∃ front, front <+: file.place ∧ (file.isDir = false → front ≠ file.place) ∧
        e.1 = root ++ front) ∨
      (file.isDir = false ∧ e.1 = root ++ file.place ∧ ∃ content, e.2 = .file content))

def Made (files : List Header) (root : List Bytes) (d d' : Disk Bytes File) : Prop :=
  ∃ new, Disk.Grown root d d' new ∧ ∀ e ∈ new, CalledFor files root e

theorem Made.refl (files : List Header) (root : List Bytes) (d : Disk Bytes File) :
    Made files root d d := ⟨[], .refl root d, nofun⟩

theorem Made.trans {files : List Header} {d' d'' : Disk Bytes File} (h1 : Made files root d d')
    (h2 : Made files root d' d'') : Made files root d d'' := by
  obtain ⟨new, hg, hn⟩ := h1
  obtain ⟨new', hg', hn'⟩ := h2
  refine ⟨_, hg.trans hg', fun e he => ?_⟩
  rcases mem_append.mp he with he | he
  · exact hn' e he
  · exact hn e he

theorem Made.mono {files files' : List Header} {d' : Disk Bytes File} (hm : Made files root d d')
    (hf : files ⊆ files') : Made files' root d d' := by
  obtain ⟨new, hg, hn⟩ := hm
  exact ⟨new, hg, fun e he => (hn e he).imp fun _ hfile => ⟨hf hfile.1, hfile.2⟩⟩

structure Ready (h : Host) (destination : Bytes) (root : List Bytes) (left : ℕ)
    (d : Disk Bytes File) : Prop where
  resolve : d.resolve h.maxLinks (h.start destination) ((cleanedNames destination).map namedStep) =
    some (root, left)
  noLinks : d.NoLinks root

theorem Ready.made {files : List Header} {d' : Disk Bytes File}
    (hd : Ready h destination root left d) (hm : Made files root d d') :
    Ready h destination root left d' := by
  obtain ⟨new, hg, -⟩ := hm
  exact ⟨Disk.resolve_mono (fun _ _ => hg.get_of_get) hd.resolve, hg.noLinks hd.noLinks⟩

variable {files : List Header} {file : Header} (extracted : UInt64)

theorem mkdirAll_eq {path : Bytes} {front : List Bytes} (hr : isRooted path = isRooted destination)
    (hs : steps path = (cleanedNames destination).map namedStep ++ front.map .down) :
    h.mkdirAll d path = d.mkdirAll h.maxLinks (h.start destination)
      ((cleanedNames destination).map namedStep ++ front.map .down)
      (((cleanedNames destination).map namedStep).length + front.length) := by
  have hlen : (front.map Step.down).length = front.length := by simp
  rw [Host.mkdirAll, Host.start, hr, hs, length_append, hlen]
  rfl

/-- Directories are made below the destination only. -/
theorem made_of_mkdirAll {path : Bytes} {front : List Bytes}
    (hd : Ready h destination root left d) (hfl : file ∈ files)
    (hsf : safePath file.name = some clean) (hf : front <+: file.place)
    (hpr : file.isDir = false → front ≠ file.place) (hr : isRooted path = isRooted destination)
    (hs : steps path = (cleanedNames destination).map namedStep ++ front.map .down) :
    Made files root d (h.mkdirAll d path).1 := by
  rw [mkdirAll_eq hr hs]
  obtain ⟨new, hg, hnw⟩ := Disk.grown_of_mkdirAll hd.noLinks hd.resolve front _
  refine ⟨new, hg, fun e he => ?_⟩
  obtain ⟨hdr, front', hp, hpl⟩ := hnw e he
  have hne : file.isDir = false → front' ≠ file.place := by
    rintro hfile rfl
    exact hpr hfile (hf.eq_of_length_le hp.length_le)
  exact ⟨file, hfl, clean, hsf, safeNames_of_safePath hsf,
    .inl ⟨hdr, front', hp.trans hf, hne, hpl⟩⟩

theorem createFile_eq (hds : destination ≠ []) (hsf : safePath file.name = some clean)
    {content : File} :
    h.createFile d (joinPath destination clean) content = d.make h.maxLinks (h.start destination)
      ((cleanedNames destination).map namedStep ++ file.place.map .down) (.file content) := by
  obtain ⟨hr, hs⟩ := steps_target hds (safeNames_of_safePath hsf)
  rw [Host.createFile, Host.start, hr, hs]
  rfl

/-- A file is made below the destination only. -/
theorem made_of_copyEntry (hd : Ready h destination root left d) (hds : destination ≠ [])
    (hf : file ∈ files) (hfile : file.isDir = false) (hsf : safePath file.name = some clean) :
    Made files root d (copyEntry h file clean (joinPath destination clean) d extracted).1 := by
  unfold copyEntry
  split
  · exact .refl files root d
  dsimp only
  split
  · exact .refl files root d
  rename_i d' hc
  have hm : Made files root d d' := by
    have hn := safeNames_of_safePath hsf
    rw [createFile_eq hds hsf] at hc
    have hg := Disk.grown_of_make hd.noLinks hd.resolve hn.ne_nil rfl hc
    refine ⟨_, hg, fun e he => ?_⟩
    rw [mem_singleton] at he
    rw [he]
    exact ⟨file, hf, clean, hsf, hn, .inr ⟨hfile, rfl, _, rfl⟩⟩
  split
  · exact hm
  split
  · exact hm
  split
  · exact hm
  · exact hm

/-- Each entry makes only what it calls for, below the destination. -/
theorem made_of_extractEntry (hd : Ready h destination root left d) (hds : destination ≠ [])
    (hf : file ∈ files) : Made files root d (extractEntry h destination file d extracted).1 := by
  unfold extractEntry
  split
  · exact .refl files root d
  rename_i clean hs
  have hn := safeNames_of_safePath hs
  dsimp only
  split
  · rename_i hdir
    obtain ⟨hr, hst⟩ := steps_target hds hn
    have hmd := made_of_mkdirAll hd hf hs (prefix_refl file.place) (by simp [hdir]) hr hst
    split
    · rename_i d' hm
      rwa [hm] at hmd
    · rename_i d' hm
      rwa [hm] at hmd
  · rename_i hdir
    obtain ⟨hr, hst⟩ := steps_dirPath hds hn
    have hpr := dropLast_prefix file.place
    have hmd := made_of_mkdirAll hd hf hs hpr (fun _ => hn.dropLast_ne) hr hst
    split
    · rename_i d' hm
      rw [hm] at hmd
      exact hmd.trans (made_of_copyEntry extracted (hd.made hmd) hds hf (by simpa using hdir) hs)
    · rename_i d' hm
      rwa [hm] at hmd

/-- A run over entries makes what they call for, and leaves the destination ready. -/
theorem made_of_extractLoop {rest : List Header} (hd : Ready h destination root left d)
    (hds : destination ≠ []) (hr : rest ⊆ files) :
    Made files root d (extractLoop h destination rest d extracted).1 := by
  induction rest generalizing d extracted with
  | nil => exact .refl files root d
  | cons file rest ih =>
    have hm := made_of_extractEntry extracted hd hds (hr mem_cons_self)
    unfold extractLoop
    split
    · rename_i d' e he
      rwa [he] at hm
    rename_i d' extracted' he
    rw [he] at hm
    exact hm.trans (ih extracted' (hd.made hm) fun f hf => hr (mem_cons_of_mem file hf))

end Entries

/-- For every archive and every directory to extract to: safe names lead down, by proper names
alone and without a backslash or a NUL; joined to any destination they come after its own names;
names that clean to anything else are refused; and all that an extraction makes, failed or not,
are new directories and files strictly below the directory, each where its entry's name says. -/
theorem extraction_confined (h : Host) (d : Disk Bytes File) (dest : Destination h d)
    (files : List Header) :
    (∀ name clean, safePath name = some clean → ∃ names, SafeNames clean names ∧
      isRooted clean = false ∧ ∀ destination, destination ≠ [] →
        isRooted (joinPath destination clean) = isRooted destination ∧
        cleanedNames (joinPath destination clean) = cleanedNames destination ++ names) ∧
    (∀ name, cleanPath name = bytes "." ∨ isRooted (cleanPath name) = true ∨
      cleanPath name = bytes ".." ∨ bytes "../" <+: cleanPath name → safePath name = none) ∧
    ∃ new, Disk.Grown dest.root d (extract h dest.path files d).1 new ∧
      ∀ e ∈ new, CalledFor files dest.root e := by
  refine ⟨?_, fun name => safePath_none, ?_⟩
  · intro name clean hsafe
    have hnames := safeNames_of_safePath hsafe
    refine ⟨_, hnames, ?_, fun destination hdest => ⟨(steps_target hdest hnames).1, ?_⟩⟩
    · rw [hnames.eq]
      exact isRooted_joinNames fun n hn => ⟨(hnames.proper n hn).ne_nil, (hnames.proper n hn).slash⟩
    · rw [joinPath, if_pos hdest, cleanedNames_cleanPath, hnames.eq]
      exact (cleanedNames_append hdest hnames.proper hnames.ne_nil).2
  · obtain ⟨left, hresolve⟩ := dest.resolve
    unfold extract
    split
    · exact Made.refl files dest.root d
    rw [dest.opened]
    dsimp only
    split
    · exact Made.refl files dest.root d
    rename_i hempty
    have hready : Ready h dest.path dest.root left d := by
      refine ⟨hresolve, fun rest o hrest ho => ?_⟩
      rw [Disk.get_of_children_nil (not_not.mp hempty) hrest] at ho
      cases ho
    exact made_of_extractLoop 0 hready dest.path_ne (List.Subset.refl files)

def sampleHost : Host := ⟨[], 40⟩

/-- A disk on which `/build` is a link to `/data`, with an empty directory there. -/
def sampleDisk : Disk Bytes File :=
  (((Disk.empty 8).put [bytes "data"] .dir rfl rfl).put [bytes "data", bytes "out"] .dir
    (by decide +kernel) (by decide +kernel)).put [bytes "build"] (.link false [.down (bytes "data")])
    (by decide +kernel) rfl

def sampleDestination : Destination sampleHost sampleDisk :=
  .ofDown (bytes "/build/out") [bytes "data", bytes "out"] (by decide +kernel) (by decide +kernel)

def sampleFile (name : String) (data : Bytes) : Header :=
  ⟨bytes name, 0, 0, .regular, 0o644, 0, .ofNat data.length, some ⟨data, false⟩⟩

/-- A file below a directory that has an entry of its own, which comes later. -/
def sampleFiles : List Header :=
  [sampleFile "src/main.go" [1, 2], ⟨bytes "src/", 0, 0, .directory, 0o755, 0, 0, none⟩]

/-- The archive goes through the link to the directory behind it, and nowhere else. -/
theorem sample_confined :
    (extract sampleHost sampleDestination.path sampleFiles sampleDisk).2 = .ok () ∧
      ∃ new, Disk.Grown [bytes "data", bytes "out"] sampleDisk
          (extract sampleHost sampleDestination.path sampleFiles sampleDisk).1 new ∧
        ∀ e ∈ new, CalledFor sampleFiles [bytes "data", bytes "out"] e :=
  ⟨by decide +kernel, (extraction_confined sampleHost sampleDisk sampleDestination sampleFiles).2.2⟩

end Orkano.SourceArchive.Zip
