import Orkano.SourceArchive.Confinement
import Orkano.SourceArchive.Sizes

/-!
What `Inspect` accepts, `Extract` can unpack, unless the path of one file leads through another. A
directory is made on the way to some entry only, and what stands on the way to an object is a
directory.
-/
namespace Orkano.SourceArchive.Zip

open FileTree Text List

/-- The data can be read to its end and is as long as the header says. -/
def Header.Intact (file : Header) : Prop :=
  file.isDir = false →
    ∃ data, file.stream = some ⟨data, false⟩ ∧ data.length = file.uncompressedSize.toNat

/-- No file stands where another entry needs a directory. -/
def Unobstructed (files : List Header) : Prop :=
  ∀ f ∈ files, f.isDir = false → ∀ e ∈ files, f.place <+: e.place → f.place = e.place

section Inspect

variable {files : List Header}

/-- Accepted entries have safe names that lead to different places. -/
theorem inspectLoop_places {seen : List Bytes} {info info' : Info}
    (h : inspectLoop files seen info = .ok info') :
    (∀ e ∈ files, ∃ clean, safePath e.name = some clean ∧ clean ∉ seen) ∧
      files.Pairwise fun e e' => e.place ≠ e'.place := by
  induction files generalizing seen info with
  | nil => exact ⟨nofun, .nil⟩
  | cons e files ih =>
    unfold inspectLoop at h
    split at h
    · cases h
    rename_i clean hc
    split at h
    · cases h
    rename_i hs
    iterate 3 (split at h; · cases h)
    obtain ⟨info1, hrest⟩ : ∃ info1, inspectLoop files (clean :: seen) info1 = .ok info' := by
      split at h
      · exact ⟨_, h⟩
      iterate 2 (split at h; · cases h)
      exact ⟨_, h⟩
    obtain ⟨hsafe, hpair⟩ := ih hrest
    refine ⟨fun e' he' => ?_, pairwise_cons.mpr ⟨fun e' he' heq => ?_, hpair⟩⟩
    · rcases mem_cons.mp he' with rfl | he'
      · exact ⟨clean, hc, hs⟩
      · obtain ⟨clean', hc', hn⟩ := hsafe e' he'
        exact ⟨clean', hc', fun hm => hn (mem_cons_of_mem clean hm)⟩
    · obtain ⟨clean', hc', hn⟩ := hsafe e' he'
      apply hn
      have hcc : clean' = clean := by
        rw [(safeNames_of_safePath hc).eq, (safeNames_of_safePath hc').eq]
        exact congrArg joinNames heq.symm
      rw [hcc]
      exact mem_cons_self

end Inspect

variable {h : Host} {d d' : Disk Bytes File} {destination clean : Bytes} {root : List Bytes}
  {left : ℕ} {file : Header} {extracted total : UInt64}

section Present

/-- What an entry leaves where it was extracted. -/
def Present (root : List Bytes) (d : Disk Bytes File) (e : Header) : Prop :=
  (e.isDir = true → d.get (root ++ e.place) = some .dir) ∧
    (e.isDir = false → ∃ stream n, e.stream = some stream ∧
      (stream.data.take n).length = e.uncompressedSize.toNat ∧
      d.get (root ++ e.place) = some (.file ⟨stream.data.take n, e.executable⟩))

theorem Present.grown {new : List (List Bytes × Object Bytes File)} (hp : Present root d file)
    (hg : Disk.Grown root d d' new) : Present root d' file := by
  refine ⟨fun hd => hg.get_of_get (hp.1 hd), fun hf => ?_⟩
  obtain ⟨stream, n, hs, hl, ho⟩ := hp.2 hf
  exact ⟨stream, n, hs, hl, hg.get_of_get ho⟩

/-- An entry that was extracted is there, with its whole content. -/
theorem present_of_extractEntry (hd : Ready h destination root left d) (hds : destination ≠ [])
    (he : extracted.toNat ≤ budget)
    (hok : extractEntry h destination file d extracted = (d', .ok total)) :
    Present root d' file := by
  unfold extractEntry at hok
  split at hok
  · cases hok
  rename_i clean hs
  have hn : SafeNames clean file.place := safeNames_of_safePath hs
  dsimp only at hok
  split at hok
  · rename_i hdir
    obtain ⟨hr, hst⟩ := steps_target hds hn
    split at hok
    · rename_i d1 hm
      cases hok
      rw [mkdirAll_eq hr hst] at hm
      exact ⟨fun _ => Disk.dir_of_mkdirAll hd.noLinks hd.resolve hn.ne_nil hm, by simp [hdir]⟩
    · cases hok
  rename_i hdir
  obtain ⟨hr, hst⟩ := steps_dirPath hds hn
  have hparent := dropLast_prefix file.place
  have hmd := made_of_mkdirAll hd (mem_singleton_self file) hs hparent
    (fun _ => hn.dropLast_ne) hr hst
  split at hok
  · rename_i d1 hm
    rw [hm] at hmd
    have hd1 := hd.made hmd
    refine ⟨fun htrue => absurd htrue hdir, fun _ => ?_⟩
    rw [copyEntry_eq he] at hok
    split at hok
    · cases hok
    rename_i stream hstream
    dsimp only at hok
    split at hok
    · cases hok
    rename_i d2 hc
    iterate 3 (split at hok; · cases hok)
    rename_i hlen
    cases hok
    rw [createFile_eq hds hs, Disk.make_down hd1.noLinks hd1.resolve hn.ne_nil] at hc
    exact ⟨stream, _, hstream, not_not.mp hlen, Disk.get_of_insert hc⟩
  · cases hok

/-- Where a run over entries succeeds, all of them are there at its end. -/
theorem present_of_extractLoop {rest : List Header} (hd : Ready h destination root left d)
    (hds : destination ≠ []) (he : extracted.toNat ≤ budget)
    (hok : extractLoop h destination rest d extracted = (d', .ok total)) :
    ∀ e ∈ rest, Present root d' e := by
  induction rest generalizing d extracted with
  | nil => exact nofun
  | cons file rest ih =>
    have hm := made_of_extractEntry extracted hd hds (mem_singleton_self file)
    obtain ⟨n, -, -, hc⟩ := @copies_extractEntry h destination file d extracted he
    unfold extractLoop at hok
    split at hok
    · cases hok
    rename_i d1 extracted' hentry
    rw [hentry] at hm hc
    have hd1 := hd.made hm
    have hp := present_of_extractEntry hd hds he hentry
    obtain ⟨new, hg, -⟩ := made_of_extractLoop extracted' hd1 hds (List.Subset.refl rest)
    rw [hok] at hg
    intro e hmem
    rcases mem_cons.mp hmem with rfl | hmem
    · exact hp.grown hg
    · exact ih hd1 (hc extracted' rfl).2.1 hok e hmem

/-- On the way to one entry's place no other entry's file can stand. -/
theorem unobstructed_of_present {files : List Header} (hp : ∀ e ∈ files, Present root d e) :
    Unobstructed files := by
  intro f hf hfile e he hpr
  by_contra hne
  obtain ⟨stream, n, -, -, hget⟩ := (hp f hf).2 hfile
  obtain ⟨rest, hrest⟩ := hpr
  have hr : rest ≠ [] := by
    rintro rfl
    exact hne (by simpa using hrest)
  obtain ⟨o, ho⟩ : ∃ o, d.get (root ++ e.place) = some o := by
    cases hd : e.isDir with
    | true => exact ⟨_, (hp e he).1 hd⟩
    | false =>
      obtain ⟨_, _, -, -, hg⟩ := (hp e he).2 hd
      exact ⟨_, hg⟩
  rw [← hrest, ← append_assoc] at ho
  rw [Disk.dir_of_get_append ho hr] at hget
  cases hget

end Present

section Success

/-- An entry is unpacked where neither a file is on its way nor anything at a file's place. -/
theorem extractEntry_succeeds (hd : Ready h destination root left d) (hds : destination ≠ [])
    (hroot : d.get root = some .dir) (hs : safePath file.name = some clean) (hi : file.Intact)
    (hr : file.place.length ≤ d.room)
    (hb : extracted.toNat + (if file.isDir then 0 else file.uncompressedSize.toNat) ≤ budget)
    (hc : ∀ front, front <+: file.place → ∀ content, d.get (root ++ front) ≠ some (.file content))
    (hf : file.isDir = false → d.get (root ++ file.place) = none) :
    ∃ d' total, extractEntry h destination file d extracted = (d', .ok total) ∧
      d.room ≤ d'.room + file.place.length := by
  have hn : SafeNames clean file.place := safeNames_of_safePath hs
  unfold extractEntry
  simp only [hs]
  split
  · obtain ⟨hrt, hst⟩ := steps_target hds hn
    obtain ⟨d1, hm, hr1⟩ := Disk.mkdirAll_succeeds hd.noLinks hroot hd.resolve hc hr
    rw [mkdirAll_eq hrt hst, hm]
    exact ⟨d1, extracted, rfl, hr1⟩
  rename_i hdir
  have hfile : file.isDir = false := by simpa using hdir
  obtain ⟨data, hstream, hlen⟩ := hi hfile
  rw [if_neg hdir] at hb
  obtain ⟨hrt, hst⟩ := steps_dirPath hds hn
  have hpr := dropLast_prefix file.place
  have hln : file.place.dropLast.length + 1 = file.place.length := by
    rw [length_dropLast]
    have := length_pos_iff.mpr hn.ne_nil
    omega
  obtain ⟨d1, hm, hr1⟩ := Disk.mkdirAll_succeeds hd.noLinks hroot hd.resolve
    (fun front hfr => hc front (hfr.trans hpr)) (by omega)
  obtain ⟨new, hg, hnew⟩ := Disk.grown_of_mkdirAll hd.noLinks hd.resolve file.place.dropLast
    (((cleanedNames destination).map namedStep).length + file.place.dropLast.length)
  rw [hm] at hg
  have hd1 := hg.noLinks hd.noLinks
  have hres1 := Disk.resolve_mono (fun _ _ => hg.get_of_get) hd.resolve
  have hfree : d1.get (root ++ file.place) = none := by
    cases ho : d1.get (root ++ file.place) with
    | none => rfl
    | some o =>
      rcases hg.get_cases ho with hold | hm
      · rw [hf hfile] at hold
        cases hold
      · obtain ⟨-, front, hfr, heq⟩ := hnew _ hm
        have := hfr.length_le
        rw [← append_cancel_left heq] at this
        omega
  have hparent : d1.get (root ++ file.place).dropLast = some .dir := by
    rw [dropLast_append_of_ne_nil hn.ne_nil]
    by_cases hnil : file.place.dropLast = []
    · rw [hnil, append_nil]
      exact hg.get_of_get hroot
    · exact Disk.dir_of_mkdirAll hd.noLinks hd.resolve hnil hm
  obtain ⟨d2, hins, hr2⟩ := Disk.insert_succeeds (by omega) hfree hparent
    (.file ⟨data, file.executable⟩)
  rw [mkdirAll_eq hrt hst, hm]
  have htake : data.take (budget - extracted.toNat + 1) = data := take_of_length_le (by omega)
  have hmake : h.createFile d1 (joinPath destination clean) ⟨data, file.executable⟩ = some d2 := by
    rw [createFile_eq hds hs, ← hins]
    exact Disk.make_down hd1 hres1 hn.ne_nil
  have hsmall : ¬ data.length > budget - extracted.toNat := by omega
  dsimp only
  rw [copyEntry_eq (by omega), hstream]
  simp only [htake, hmake, hlen ▸ hsmall, hlen, ne_eq, not_true_eq_false, Bool.false_eq_true, if_false]
  exact ⟨d2, _, rfl, by omega⟩

/-- What stands below a directory that was empty, an entry calls for. -/
theorem calledFor_of_get {done : List Header} {p : List Bytes} {o : Object Bytes File}
    (hm : Made done root d d') (hempty : ∀ p, p ≠ [] → d.get (root ++ p) = none) (hp : p ≠ [])
    (ho : d'.get (root ++ p) = some o) : CalledFor done root (root ++ p, o) := by
  obtain ⟨new, hg, hnew⟩ := hm
  rcases hg.get_cases ho with hold | hn
  · rw [hempty p hp] at hold
    cases hold
  · exact hnew _ hn

/-- Unobstructed entries are unpacked one after the other, whatever came before. -/
theorem extractLoop_succeeds {start : Disk Bytes File} {done rest : List Header}
    (hds : destination ≠ []) (hempty : ∀ p, p ≠ [] → start.get (root ++ p) = none)
    (hroot : start.get root = some .dir) (hsafe : ∀ e ∈ rest, ∃ clean, safePath e.name = some clean)
    (hi : ∀ e ∈ rest, e.Intact) (hdistinct : (done ++ rest).Pairwise fun e e' => e.place ≠ e'.place)
    (hu : Unobstructed (done ++ rest)) (hd : Ready h destination root left d)
    (hm : Made done root start d) (hr : (rest.map fun e => e.place.length).sum ≤ d.room)
    (hb : extracted.toNat + declaredBytes rest ≤ budget) :
    ∃ d' total, extractLoop h destination rest d extracted = (d', .ok total) := by
  induction rest generalizing done d extracted with
  | nil => exact ⟨d, extracted, rfl⟩
  | cons e rest ih =>
    obtain ⟨clean, hs⟩ := hsafe e mem_cons_self
    have hne : ∀ e' ∈ done, e'.place ≠ e.place := fun e' he' =>
      (pairwise_append.mp hdistinct).2.2 e' he' e mem_cons_self
    have hmem : e ∈ done ++ e :: rest := by simp
    have hdone : ∀ {f}, f ∈ done → f ∈ done ++ e :: rest := fun hf => mem_append_left _ hf
    have hd0 : d.get root = some .dir := by
      obtain ⟨new, hg, -⟩ := hm
      exact hg.get_of_get hroot
    have hc : ∀ front, front <+: e.place → ∀ content, d.get (root ++ front) ≠ some (.file content) := by
      intro front hf content hget
      have hnil : front ≠ [] := by
        rintro rfl
        rw [append_nil, hd0] at hget
        cases hget
      obtain ⟨f, hfd, -, -, -, ⟨hdir, -⟩ | ⟨hfile, hplace, -⟩⟩ := calledFor_of_get hm hempty hnil hget
      · cases hdir
      · cases append_cancel_left hplace
        exact hne f hfd (hu f (hdone hfd) hfile e hmem hf)
    have hf : e.isDir = false → d.get (root ++ e.place) = none := by
      intro hfile
      cases ho : d.get (root ++ e.place) with
      | none => rfl
      | some o =>
        obtain ⟨f, hfd, -, -, -, ⟨-, front, hfr, hproper, hplace⟩ | ⟨-, hplace, -⟩⟩ :=
          calledFor_of_get hm hempty (safeNames_of_safePath hs).ne_nil ho
        · cases append_cancel_left hplace
          exact absurd (hu e hmem hfile f (hdone hfd) hfr).symm (hne f hfd)
        · exact absurd (append_cancel_left hplace).symm (hne f hfd)
    rw [declaredBytes_cons] at hb
    rw [map_cons, sum_cons] at hr
    have hb0 : extracted.toNat ≤ budget := by omega
    obtain ⟨d1, total, hentry, hr1⟩ : ∃ d1 total, extractEntry h destination e d extracted =
        (d1, .ok total) ∧ d.room ≤ d1.room + e.place.length :=
      extractEntry_succeeds hd hds hd0 hs (hi e mem_cons_self) (by omega) (by omega) hc hf
    have hmade := made_of_extractEntry extracted hd hds (mem_singleton_self e)
    obtain ⟨n, -, -, hcopied⟩ := @copies_extractEntry h destination e d extracted hb0
    rw [hentry] at hmade hcopied
    obtain ⟨htotal, -, hn⟩ := hcopied total rfl
    rw [append_cons] at hdistinct hu
    have hm1 : Made (done ++ [e]) root start d1 :=
      (hm.mono fun f hf => mem_append_left _ hf).trans (hmade.mono fun f hf => mem_append_right _ hf)
    have hr2 : (rest.map fun e => e.place.length).sum ≤ d1.room := by omega
    have hb1 : total.toNat + declaredBytes rest ≤ budget := by omega
    obtain ⟨d2, total', hloop⟩ := ih (fun e' he' => hsafe e' (mem_cons_of_mem e he'))
      (fun e' he' => hi e' (mem_cons_of_mem e he')) hdistinct hu (hd.made hmade) hm1 hr2 hb1
    exact ⟨d2, total', by simp only [extractLoop, hentry, hloop]⟩

end Success

/-- An accepted archive whose data is intact is unpacked into an existing empty directory, one
file for each entry of a file and no other, exactly if no file stands where another entry needs a
directory. -/
theorem accepted_archive_extracts (h : Host) (d : Disk Bytes File) (dest : Destination h d)
    (files : List Header) (info : Info) (hdir : d.get dest.root = some .dir)
    (hempty : d.children dest.root = [])
    (hroom : (files.map fun e => e.place.length).sum ≤ d.room) (hintact : ∀ e ∈ files, e.Intact)
    (hinspect : inspect files = .ok info) :
    ((extract h dest.path files d).2 = .ok () ∧
      (∀ e ∈ files, e.isDir = false → ∃ data, e.stream = some ⟨data, false⟩ ∧
        (extract h dest.path files d).1.get (dest.root ++ e.place) =
          some (.file ⟨data, e.executable⟩)) ∧
      (∀ p content, (extract h dest.path files d).1.get (dest.root ++ p) = some (.file content) →
        ∃ e ∈ files, e.isDir = false ∧ e.place = p) ∧
      files.Pairwise fun e e' => e.place ≠ e'.place) ↔ Unobstructed files := by
  obtain ⟨left, hresolve⟩ := dest.resolve
  have hfree : ∀ p, p ≠ [] → d.get (dest.root ++ p) = none := fun p hp =>
    Disk.get_of_children_nil hempty hp
  have hready : Ready h dest.path dest.root left d := by
    refine ⟨hresolve, fun rest o hrest ho => ?_⟩
    rw [hfree rest hrest] at ho
    cases ho
  have hextract : extract h dest.path files d = ((extractLoop h dest.path files d 0).1,
      (extractLoop h dest.path files d 0).2.map fun _ => ()) := by
    simp only [extract, hinspect, dest.opened, hempty, ne_eq, not_true_eq_false, if_false]
  obtain ⟨hsafe, hdistinct⟩ := inspectLoop_places (inspectLoop_of_inspect hinspect)
  rw [hextract]
  constructor
  · rintro ⟨hok, -⟩
    obtain ⟨total, htotal⟩ : ∃ total, (extractLoop h dest.path files d 0).2 = .ok total := by
      cases hr : (extractLoop h dest.path files d 0).2 with
      | error e => simp [hr, Except.map] at hok
      | ok total => exact ⟨total, rfl⟩
    exact unobstructed_of_present
      (present_of_extractLoop hready dest.path_ne (by decide) (Prod.ext rfl htotal))
  · intro hclear
    have hbytes : (0 : UInt64).toNat + declaredBytes files ≤ budget := by
      simpa using (reported_of_inspect hinspect).2
    have hstart : Made [] dest.root d d := .refl [] dest.root d
    obtain ⟨d', total, hloop⟩ := extractLoop_succeeds dest.path_ne hfree hdir
      (fun e he => (hsafe e he).imp fun _ hs => hs.1) hintact (by simpa using hdistinct)
      (by simpa using hclear) hready hstart hroom hbytes
    have hmade := made_of_extractLoop 0 hready dest.path_ne (List.Subset.refl files)
    have hpresent := present_of_extractLoop hready dest.path_ne (by decide) hloop
    rw [hloop] at hmade ⊢
    refine ⟨rfl, fun e he hfile => ?_, fun p content hget => ?_, hdistinct⟩
    · obtain ⟨data, hstream, hlen⟩ := hintact e he hfile
      obtain ⟨stream, n, hstream', hlen', hget⟩ := (hpresent e he).2 hfile
      rw [hstream] at hstream'
      cases hstream'
      have htake : data.take n = data := by
        have htake := take_prefix n data
        apply htake.eq_of_length
        rw [hlen', hlen]
      rw [htake] at hget
      exact ⟨data, hstream, hget⟩
    · have hp : p ≠ [] := by
        rintro rfl
        obtain ⟨new, hg, -⟩ := hmade
        rw [append_nil, hg.get_of_get hdir] at hget
        cases hget
      obtain ⟨e, he, -, -, -, ⟨hd, -⟩ | ⟨hfile, hplace, -⟩⟩ := calledFor_of_get hmade hfree hp hget
      · cases hd
      · exact ⟨e, he, hfile, (append_cancel_left hplace).symm⟩

theorem unobstructed_sample : Unobstructed sampleFiles := by
  have hp : sampleFiles.map (fun e => (e.isDir, e.place)) =
      [(false, [bytes "src", bytes "main.go"]), (true, [bytes "src"])] := by decide +kernel
  simp only [sampleFiles, map_cons, map_nil, List.cons.injEq, Prod.mk.injEq] at hp
  obtain ⟨⟨hf, hfp⟩, ⟨hd, hdp⟩, -⟩ := hp
  simp [Unobstructed, sampleFiles, hf, hfp, hd, hdp]

/-- A file whose directory has an entry too is unpacked, and is the only one. -/
theorem sample_extracts :
    (extract sampleHost sampleDestination.path sampleFiles sampleDisk).2 = .ok () ∧
    (∀ e ∈ sampleFiles, e.isDir = false → ∃ data, e.stream = some ⟨data, false⟩ ∧
      (extract sampleHost sampleDestination.path sampleFiles sampleDisk).1.get
        (sampleDestination.root ++ e.place) = some (.file ⟨data, e.executable⟩)) ∧
    (∀ p content, (extract sampleHost sampleDestination.path sampleFiles sampleDisk).1.get
        (sampleDestination.root ++ p) = some (.file content) →
      ∃ e ∈ sampleFiles, e.isDir = false ∧ e.place = p) ∧
    sampleFiles.Pairwise fun e e' => e.place ≠ e'.place := by
  have hintact : ∀ e ∈ sampleFiles, e.Intact := by
    simp [sampleFiles, Header.Intact, sampleFile, Header.isDir]
  exact (accepted_archive_extracts sampleHost sampleDisk sampleDestination sampleFiles ⟨1, 2⟩
    (by decide +kernel) (by decide +kernel) (by decide +kernel) hintact (by decide +kernel)).mpr
    unobstructed_sample

/-- A file and another below it are accepted in either order, and unpacked in neither. -/
theorem obstructed_archive_rejected :
    inspect [sampleFile "a" [1], sampleFile "a/b" [2]] = .ok ⟨2, 2⟩ ∧
    (extract sampleHost sampleDestination.path [sampleFile "a" [1], sampleFile "a/b" [2]]
      sampleDisk).2 = .error (.createParent (bytes "a/b")) ∧
    inspect [sampleFile "a/b" [2], sampleFile "a" [1]] = .ok ⟨2, 2⟩ ∧
    (extract sampleHost sampleDestination.path [sampleFile "a/b" [2], sampleFile "a" [1]]
      sampleDisk).2 = .error (.createFile (bytes "a")) := by
  refine ⟨?_, ?_, ?_, ?_⟩ <;> decide +kernel

end Orkano.SourceArchive.Zip
