import Orkano.SourceArchive.Zip

/-!
The arithmetic of sizes. The running totals stay within the limit, so that nothing wraps, and a
product that does wrap only makes the check of the ratio stricter.
-/
namespace Orkano.SourceArchive.Zip

open FileTree Text List

def budget : ℕ := 256 * 2 ^ 20

theorem toNat_maxUncompressedBytes : maxUncompressedBytes.toNat = budget := by decide

/-- What the headers of the files say, over the natural numbers. -/
def declaredBytes (files : List Header) : ℕ :=
  ((files.filter fun f => !f.isDir).map fun f => f.uncompressedSize.toNat).sum

theorem declaredBytes_cons (file : Header) (files : List Header) : declaredBytes (file :: files) =
    (if file.isDir then 0 else file.uncompressedSize.toNat) + declaredBytes files := by
  unfold declaredBytes
  cases hd : file.isDir <;> simp [hd]

theorem toNat_remaining {total : UInt64} (h : total.toNat ≤ budget) :
    (maxUncompressedBytes - total).toNat = budget - total.toNat := by
  rw [UInt64.toNat_sub_of_le, toNat_maxUncompressedBytes]
  rw [UInt64.le_iff_toNat_le, toNat_maxUncompressedBytes]
  exact h

theorem toNat_add_of_le {a b : UInt64} (h : a.toNat + b.toNat ≤ budget) :
    (a + b).toNat = a.toNat + b.toNat := by
  rw [UInt64.toNat_add]
  apply Nat.mod_eq_of_lt
  unfold budget at h
  omega

/-- A file whose size the check of the ratio lets pass. -/
def WithinRatio (file : Header) : Prop :=
  2 ^ 20 < file.uncompressedSize.toNat →
    file.uncompressedSize.toNat ≤ (file.compressedSize.toNat + 1) * 200

/-- The check of the ratio does not wrap around. -/
theorem withinRatio_of_overRatio {file : Header} (h : overRatio file = false) : WithinRatio file := by
  intro hl
  have hlm : ((1 : UInt64) <<< 20).toNat = 2 ^ 20 := by decide
  have hp : file.uncompressedSize.toNat ≤
      ((file.compressedSize + 1) * maxCompressionRatio).toNat := by
    by_contra hcontra
    rw [not_le, ← UInt64.lt_iff_toNat_lt] at hcontra
    rw [← hlm, ← UInt64.lt_iff_toNat_lt] at hl
    simp [overRatio, hl, hcontra] at h
  -- Each reduction modulo the word size can only make the product smaller.
  calc file.uncompressedSize.toNat
      ≤ ((file.compressedSize + 1) * maxCompressionRatio).toNat := hp
    _ = (file.compressedSize + 1).toNat * 200 % 2 ^ 64 := UInt64.toNat_mul ..
    _ ≤ (file.compressedSize + 1).toNat * 200 := Nat.mod_le ..
    _ = (file.compressedSize.toNat + 1) % 2 ^ 64 * 200 := by rw [UInt64.toNat_add]; rfl
    _ ≤ (file.compressedSize.toNat + 1) * 200 := Nat.mul_le_mul_right _ (Nat.mod_le ..)

/-- What a run of the inspection says of the files it went over. -/
theorem inspectLoop_sizes {files : List Header} {seen : List Bytes} {info info' : Info}
    (hi : info.uncompressedBytes.toNat ≤ budget)
    (h : inspectLoop files seen info = .ok info') :
    info'.uncompressedBytes.toNat = info.uncompressedBytes.toNat + declaredBytes files ∧
      info'.uncompressedBytes.toNat ≤ budget ∧
      ∀ file ∈ files, file.isDir = false → WithinRatio file := by
  induction files generalizing seen info with
  | nil =>
    cases h
    exact ⟨rfl, hi, nofun⟩
  | cons file rest ih =>
    unfold inspectLoop at h
    rw [declaredBytes_cons]
    split at h
    · cases h
    split at h
    · cases h
    split at h
    · cases h
    split at h
    · cases h
    split at h
    · cases h
    split at h
    · rename_i hd
      obtain ⟨ht, hle, hr⟩ := ih hi h
      rw [if_pos hd, Nat.zero_add]
      refine ⟨ht, hle, fun f hf hfl => ?_⟩
      rcases mem_cons.mp hf with rfl | hf
      · rw [hd] at hfl
        cases hfl
      · exact hr f hf hfl
    · rename_i hd
      split at h
      · cases h
      split at h
      · cases h
      rename_i hft ho
      have hs : info.uncompressedBytes.toNat + file.uncompressedSize.toNat ≤ budget := by
        rw [gt_iff_lt, UInt64.lt_iff_toNat_lt, toNat_remaining hi] at hft
        omega
      have hsm := toNat_add_of_le hs
      obtain ⟨ht, hle, hr⟩ := ih (hsm ▸ hs) h
      rw [if_neg hd]
      refine ⟨?_, hle, fun f hf hfl => ?_⟩
      · rw [ht, hsm, Nat.add_assoc]
      rcases mem_cons.mp hf with rfl | hf
      · exact withinRatio_of_overRatio (by simpa using ho)
      · exact hr f hf hfl

theorem inspectLoop_of_inspect {files : List Header} {info : Info} (h : inspect files = .ok info) :
    inspectLoop files [] ⟨0, 0⟩ = .ok info := by
  unfold inspect at h
  split at h
  · cases h
  split at h
  · cases h
  split at h
  · cases h
  rename_i info' hl
  split at h
  · cases h
  · cases h
    exact hl

theorem reported_of_inspect {files : List Header} {info : Info} (h : inspect files = .ok info) :
    info.uncompressedBytes.toNat = declaredBytes files ∧ declaredBytes files ≤ budget := by
  obtain ⟨ht, hle, -⟩ := inspectLoop_sizes (by decide) (inspectLoop_of_inspect h)
  simp only [UInt64.toNat_zero, Nat.zero_add] at ht
  exact ⟨ht, ht ▸ hle⟩

section Copied

def contentBytes (objects : List (List Bytes × Object Bytes File)) : ℕ :=
  (objects.map fun e => match e.2 with
    | .file content => content.bytes.length
    | _ => 0).sum

theorem contentBytes_append (a b : List (List Bytes × Object Bytes File)) :
    contentBytes (a ++ b) = contentBytes a + contentBytes b := by
  simp [contentBytes]

theorem contentBytes_of_dirs {objects : List (List Bytes × Object Bytes File)}
    (h : ∀ e ∈ objects, e.2 = .dir) : contentBytes objects = 0 := by
  rw [contentBytes, sum_eq_zero]
  intro n hn
  obtain ⟨e, he, rfl⟩ := mem_map.mp hn
  rw [h e he]

theorem toInt_ofNat_of_le {n : ℕ} (h : n ≤ budget + 1) : (Int64.ofNat n).toInt = n := by
  apply Int64.toInt_ofNat_of_lt
  unfold budget at h
  omega

theorem toInt64_remaining {extracted : UInt64} (h : extracted.toNat ≤ budget) :
    (maxUncompressedBytes - extracted).toInt64 = Int64.ofNat (budget - extracted.toNat) ∧
      (maxUncompressedBytes - extracted).toInt64 + 1 = Int64.ofNat (budget - extracted.toNat + 1) := by
  have hr : (maxUncompressedBytes - extracted).toInt64 =
      Int64.ofNat (budget - extracted.toNat) := by
    rw [← toNat_remaining h, ← UInt64.toInt64_ofNat', UInt64.ofNat_toNat]
  refine ⟨hr, ?_⟩
  rw [hr, Int64.ofNat_add]
  rfl

theorem lt_size {n k : ℕ} (h : n ≤ budget - k + 1) : n < UInt64.size := by
  have hsz : UInt64.size = 2 ^ 64 := rfl
  unfold budget at h
  omega

def Wrote (d d' : Disk Bytes File) (n : ℕ) : Prop :=
  ∃ new, d'.objects = new ++ d.objects ∧ contentBytes new = n

theorem Wrote.refl (d : Disk Bytes File) : Wrote d d 0 := ⟨[], rfl, rfl⟩

theorem Wrote.trans {d d' d'' : Disk Bytes File} {m n : ℕ} (h : Wrote d d' m)
    (h' : Wrote d' d'' n) : Wrote d d'' (m + n) := by
  obtain ⟨new, ho, rfl⟩ := h
  obtain ⟨new', ho', rfl⟩ := h'
  refine ⟨new' ++ new, ?_, ?_⟩
  · rw [ho', ho, append_assoc]
  · rw [contentBytes_append, Nat.add_comm]

theorem wrote_mkdirAll (h : Host) (d : Disk Bytes File) (path : Bytes) :
    Wrote d (h.mkdirAll d path).1 0 := by
  obtain ⟨new, ho, hn⟩ := Disk.objects_of_mkdirAll d h.maxLinks (h.start path) (steps path)
    (steps path).length
  exact ⟨new, ho, contentBytes_of_dirs hn⟩

theorem wrote_createFile {h : Host} {d d' : Disk Bytes File} {path : Bytes} {content : File}
    (hc : h.createFile d path content = some d') : Wrote d d' content.bytes.length := by
  obtain ⟨p, ho⟩ := Disk.objects_of_make hc
  exact ⟨[(p, .file content)], ho, by simp [contentBytes]⟩

/-- What a part of an extraction copies: one byte beyond the limit at most, and exactly what was
declared where it succeeds. -/
def Copies (extracted : UInt64) (declared : ℕ) (d : Disk Bytes File)
    (r : Disk Bytes File × Except Problem UInt64) : Prop :=
  ∃ n, Wrote d r.1 n ∧ extracted.toNat + n ≤ budget + 1 ∧
    ∀ total, r.2 = .ok total →
      total.toNat = extracted.toNat + n ∧ total.toNat ≤ budget ∧ n = declared

theorem copies_error {extracted : UInt64} (he : extracted.toNat ≤ budget) (declared : ℕ)
    {d d' : Disk Bytes File} (hw : Wrote d d' 0) (e : Problem) :
    Copies extracted declared d (d', .error e) := ⟨0, hw, by omega, nofun⟩

variable {h : Host} {destination clean target : Bytes} {file : Header} {d : Disk Bytes File}
  {extracted : UInt64}

/-- How an entry is copied, over the natural numbers. -/
theorem copyEntry_eq (he : extracted.toNat ≤ budget) :
    copyEntry h file clean target d extracted =
      match file.stream with
      | none => (d, .error (.openEntry clean))
      | some stream =>
        let copied := stream.data.take (budget - extracted.toNat + 1)
        match h.createFile d target ⟨copied, file.executable⟩ with
        | none => (d, .error (.createFile clean))
        | some d =>
          if stream.fails then (d, .error (.copy clean))
          else if copied.length > budget - extracted.toNat then (d, .error (.size clean))
          else if copied.length ≠ file.uncompressedSize.toNat then (d, .error (.size clean))
          else (d, .ok (extracted + .ofNat copied.length)) := by
  obtain ⟨hr, hl⟩ := toInt64_remaining he
  have hcl : (Int64.ofNat (budget - extracted.toNat) + 1).toNatClampNeg =
      budget - extracted.toNat + 1 := by
    rw [← hr, hl]
    apply Int64.toNatClampNeg_ofNat_of_lt
    unfold budget
    omega
  unfold copyEntry
  cases file.stream with
  | none => rfl
  | some stream =>
    simp only [hr, hcl]
    cases h.createFile d target ⟨stream.data.take (budget - extracted.toNat + 1), file.executable⟩ with
    | none => rfl
    | some d' =>
      dsimp only
      have hln := length_take_le (budget - extracted.toNat + 1) stream.data
      generalize (stream.data.take (budget - extracted.toNat + 1)).length = n at hln ⊢
      have hwr : (Int64.ofNat n).toInt = n := toInt_ofNat_of_le (by omega)
      have hu : (Int64.ofNat n).toUInt64 = .ofNat n := by
        rw [← UInt64.toInt64_ofNat', UInt64.toUInt64_toInt64]
      have hsz : (Int64.ofNat n < 0 || Int64.ofNat n > .ofNat (budget - extracted.toNat)) =
          decide (n > budget - extracted.toNat) := by
        simp only [gt_iff_lt, Int64.lt_iff_toInt_lt, hwr, Int64.toInt_zero,
          toInt_ofNat_of_le (Nat.le_add_right_of_le (Nat.sub_le budget extracted.toNat))]
        grind
      have hne : (UInt64.ofNat n ≠ file.uncompressedSize) = (n ≠ file.uncompressedSize.toNat) := by
        rw [ne_eq, ← UInt64.toNat_inj, UInt64.toNat_ofNat_of_lt' (lt_size hln)]
      simp only [hu, hsz, hne, decide_eq_true_eq]

/-- One file copies what it declares, and one byte beyond the limit at most. -/
theorem copies_copyEntry (he : extracted.toNat ≤ budget) :
    Copies extracted file.uncompressedSize.toNat d (copyEntry h file clean target d extracted) := by
  rw [copyEntry_eq he]
  cases file.stream with
  | none => exact copies_error he _ (.refl d) _
  | some stream =>
    have hln := length_take_le (budget - extracted.toNat + 1) stream.data
    dsimp only
    cases hcr : h.createFile d target
        ⟨stream.data.take (budget - extracted.toNat + 1), file.executable⟩ with
    | none => exact copies_error he _ (.refl d) _
    | some d' =>
      have hw := wrote_createFile hcr
      dsimp only at hw ⊢
      generalize (stream.data.take (budget - extracted.toNat + 1)).length = n at hln hw ⊢
      have hb : extracted.toNat + n ≤ budget + 1 := by omega
      split
      · exact ⟨_, hw, hb, nofun⟩
      split
      · exact ⟨_, hw, hb, nofun⟩
      split
      · exact ⟨_, hw, hb, nofun⟩
      rename_i hi hd
      have hc := UInt64.toNat_ofNat_of_lt' (lt_size hln)
      have hs : (extracted + .ofNat n).toNat = extracted.toNat + n := by
        rw [toNat_add_of_le (by omega), hc]
      refine ⟨_, hw, hb, ?_⟩
      rintro total ⟨⟩
      exact ⟨hs, by omega, not_not.mp hd⟩

/-- So does one entry. -/
theorem copies_extractEntry (he : extracted.toNat ≤ budget) :
    Copies extracted (if file.isDir then 0 else file.uncompressedSize.toNat) d
      (extractEntry h destination file d extracted) := by
  unfold extractEntry
  cases hs : safePath file.name with
  | none => exact copies_error he _ (.refl d) _
  | some clean =>
    dsimp only
    by_cases hd : file.isDir = true
    · rw [if_pos hd, if_pos hd]
      have hw := wrote_mkdirAll h d (joinPath destination clean)
      generalize h.mkdirAll d (joinPath destination clean) = result at hw ⊢
      obtain ⟨d', made⟩ := result
      cases made with
      | false => exact copies_error he _ hw _
      | true =>
        refine ⟨0, hw, by omega, ?_⟩
        rintro total ⟨⟩
        exact ⟨rfl, he, rfl⟩
    · rw [if_neg hd, if_neg hd]
      have hw := wrote_mkdirAll h d (dirPath (joinPath destination clean))
      generalize h.mkdirAll d (dirPath (joinPath destination clean)) = result at hw ⊢
      obtain ⟨d', made⟩ := result
      cases made with
      | false => exact copies_error he _ hw _
      | true =>
        obtain ⟨n, hc, hb, hok⟩ := @copies_copyEntry h clean (joinPath destination clean)
          file d' extracted he
        refine ⟨n, ?_, hb, hok⟩
        simpa using hw.trans hc

/-- So does a whole archive. -/
theorem copies_extractLoop {files : List Header} (he : extracted.toNat ≤ budget) :
    Copies extracted (declaredBytes files) d (extractLoop h destination files d extracted) := by
  induction files generalizing d extracted with
  | nil =>
    refine ⟨0, .refl d, by omega, ?_⟩
    rintro total ⟨⟩
    exact ⟨rfl, he, rfl⟩
  | cons file rest ih =>
    obtain ⟨n, hw, hb, hok⟩ := @copies_extractEntry h destination file d extracted he
    unfold extractLoop
    split
    · rename_i d' e hen
      rw [hen] at hw
      exact ⟨n, hw, hb, nofun⟩
    rename_i d' extracted' hen
    rw [hen] at hw hok
    obtain ⟨ht, hle, hd⟩ := hok extracted' rfl
    obtain ⟨m, hw', hb', hok'⟩ := @ih d' extracted' hle
    refine ⟨n + m, hw.trans hw', by omega, fun total hr => ?_⟩
    obtain ⟨ht', hle', hd'⟩ := hok' total hr
    refine ⟨by omega, hle', ?_⟩
    rw [declaredBytes_cons, hd, hd']

end Copied

/-- For every list of headers and whatever their readers give. In the inspection the total after
any number of entries is the sum of the declared sizes and within the limit, its distance from
the limit does not wrap, and a large file passes only within the ratio over the natural numbers.
In the extraction what remains after any number of entries, and one more than that, are the
numbers they should be; one byte beyond the limit is copied at most; and a success wrote what
the inspection reported. -/
theorem archive_sizes (h : Host) (destination : Bytes) (files : List Header) (d : Disk Bytes File) :
    (∀ k info, inspectLoop (files.take k) [] ⟨0, 0⟩ = .ok info →
      info.uncompressedBytes.toNat = declaredBytes (files.take k) ∧
      info.uncompressedBytes ≤ maxUncompressedBytes ∧
      (maxUncompressedBytes - info.uncompressedBytes).toNat =
        maxUncompressedBytes.toNat - info.uncompressedBytes.toNat ∧
      ∀ file ∈ files.take k, file.isDir = false → 2 ^ 20 < file.uncompressedSize.toNat →
        file.uncompressedSize.toNat ≤ (file.compressedSize.toNat + 1) * 200) ∧
    (∀ k d' extracted, extractLoop h destination (files.take k) d 0 = (d', .ok extracted) →
      extracted ≤ maxUncompressedBytes ∧
      (maxUncompressedBytes - extracted).toInt64.toInt =
        maxUncompressedBytes.toNat - extracted.toNat ∧
      ((maxUncompressedBytes - extracted).toInt64 + 1).toInt =
        maxUncompressedBytes.toNat - extracted.toNat + 1) ∧
    ∃ new, (extract h destination files d).1.objects = new ++ d.objects ∧
      contentBytes new ≤ maxUncompressedBytes.toNat + 1 ∧
      ((extract h destination files d).2 = .ok () → ∃ info, inspect files = .ok info ∧
        contentBytes new = info.uncompressedBytes.toNat ∧
        contentBytes new ≤ maxUncompressedBytes.toNat) := by
  have hzero : (0 : UInt64).toNat ≤ budget := by decide
  refine ⟨?_, ?_, ?_⟩
  · intro k info hinfo
    obtain ⟨htotal, hle, hratio⟩ := inspectLoop_sizes hzero hinfo
    refine ⟨by simpa using htotal, ?_, ?_, hratio⟩
    · rw [UInt64.le_iff_toNat_le, toNat_maxUncompressedBytes]
      exact hle
    · rw [toNat_maxUncompressedBytes]
      exact toNat_remaining hle
  · intro k d' extracted hrun
    obtain ⟨n, -, -, hok⟩ := @copies_extractLoop h destination d 0 (files.take k) hzero
    obtain ⟨-, hle, -⟩ := hok extracted (by rw [hrun])
    obtain ⟨hremaining, hlimit⟩ := toInt64_remaining hle
    rw [UInt64.le_iff_toNat_le, hlimit, hremaining, toNat_maxUncompressedBytes,
      toInt_ofNat_of_le (by omega), toInt_ofNat_of_le (by omega)]
    exact ⟨hle, by omega, by omega⟩
  · rw [toNat_maxUncompressedBytes]
    unfold extract
    split
    · exact ⟨[], rfl, Nat.zero_le _, nofun⟩
    rename_i info hinspect
    split
    · exact ⟨[], rfl, Nat.zero_le _, nofun⟩
    split
    · exact ⟨[], rfl, Nat.zero_le _, nofun⟩
    obtain ⟨n, ⟨new, hobjects, rfl⟩, hbound, hok⟩ :=
      @copies_extractLoop h destination d 0 files hzero
    refine ⟨new, hobjects, by simpa using hbound, fun hresult => ⟨info, hinspect, ?_⟩⟩
    dsimp only at hresult
    cases hloop : (extractLoop h destination files d 0).2 with
    | error e =>
      rw [hloop] at hresult
      cases hresult
    | ok extracted =>
      obtain ⟨htotal, hle, hdeclared⟩ := hok extracted hloop
      rw [(reported_of_inspect hinspect).1, hdeclared]
      refine ⟨rfl, ?_⟩
      rw [← hdeclared]
      simp only [UInt64.toNat_zero, Nat.zero_add] at htotal
      exact htotal ▸ hle

end Orkano.SourceArchive.Zip
