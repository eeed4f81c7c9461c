import Mathlib.Data.List.Nodup
import Mathlib.Data.List.TakeWhile
import Mathlib.Tactic.Common
import Orkano.Operator.GitResolver.Advertisement

/-!
The grammar of an advertisement, in packets and ref lines, and that the parser takes the texts of
the grammar and no others.
-/
namespace Orkano.Operator.GitResolver

open Text List

section Packets

/-- Four hexadecimal digits and the bytes they announce, the digits included; four zeros
are a flush. -/
inductive IsPacket : Bytes → Packet → Prop where
  | flush : IsPacket (bytes "0000") .flush
  | payload {header line : Bytes} : header.length = 4 → parseHex header = some (line.length + 4) →
      IsPacket (header ++ line) (.payload line)

theorem hexDigit_eq_zero {b : UInt8} : hexDigit b = some 0 ↔ b = 0x30 := by
  have ha : ∀ n < 256, hexDigit (UInt8.ofNat n) = some 0 ↔ UInt8.ofNat n = 0x30 := by decide +kernel
  simpa using ha b.toNat b.toNat_lt

/-- Only zeros make up the number zero. -/
theorem foldlM_hex_eq_zero {digits : Bytes} {n : ℕ} :
    digits.foldlM (fun n b => (hexDigit b).map (n * 16 + ·)) n = some 0 ↔
      n = 0 ∧ ∀ b ∈ digits, b = 0x30 := by
  induction digits generalizing n with
  | nil => simp
  | cons b digits ih =>
    rw [foldlM_cons]
    cases hb : hexDigit b with
    | none =>
      have hne : b ≠ 0x30 := fun h => by simp [h, hexDigit] at hb
      simp [hne]
    | some d =>
      have hd : b = 0x30 ↔ d = 0 := by rw [← hexDigit_eq_zero, hb, Option.some.injEq]
      simp only [Option.map_some, Option.bind_eq_bind, Option.bind_some, ih, forall_mem_cons,
        hd]
      constructor
      · rintro ⟨hn, hr⟩
        exact ⟨by omega, by omega, hr⟩
      · rintro ⟨rfl, rfl, hr⟩
        exact ⟨rfl, hr⟩

theorem parseHex_eq_zero {he : Bytes} (h : he.length = 4) :
    parseHex he = some 0 ↔ he = bytes "0000" := by
  have hz : bytes "0000" = List.replicate 4 0x30 := by decide
  rw [parseHex, foldlM_hex_eq_zero, hz, eq_replicate_iff]
  simp [h]

theorem flush_ne_nil : bytes "0000" ≠ [] := by decide

variable {packet : Packet}

/-- A packet is read off the front of a text exactly where the text starts with one. -/
theorem nextPacket_eq_ok {data rest : Bytes} :
    nextPacket data = .ok (packet, rest) ↔ ∃ front, IsPacket front packet ∧ data = front ++ rest :=
    by
  constructor
  · intro h
    simp only [nextPacket] at h
    split at h
    · cases h
    rename_i hsh
    have hh : (data.take 4).length = 4 := by
      rw [length_take]
      omega
    split at h
    · cases h
    rename_i length hl
    split at h
    · rename_i hz
      cases h
      rw [hz, parseHex_eq_zero hh] at hl
      exact ⟨bytes "0000", .flush, by rw [← hl, take_append_drop]⟩
    split at h
    · cases h
    split at h
    · cases h
    rename_i hn hs hb
    cases h
    have hln : ((data.drop 4).take (length - 4)).length + 4 = length := by
      rw [length_take]
      omega
    refine ⟨data.take 4 ++ (data.drop 4).take (length - 4), .payload hh ?_, ?_⟩
    · rw [hln, hl]
    · rw [append_assoc, take_append_drop, take_append_drop]
  · rintro ⟨front, hp, rfl⟩
    cases hp with
    | flush => rfl
    | @payload he line hh hl =>
      have hlg : ¬ (he ++ line ++ rest).length < 4 := by
        simp only [length_append]
        omega
      have ht : (he ++ line ++ rest).take 4 = he := by
        rw [append_assoc, ← hh, take_left]
      have hd : (he ++ line ++ rest).drop 4 = line ++ rest := by
        rw [append_assoc, ← hh, drop_left]
      have hn : ¬ line.length + 4 = 0 := by omega
      have hs : ¬ line.length + 4 < 4 := by omega
      have hr : ¬ line.length > (line ++ rest).length := by
        rw [length_append]
        omega
      simp only [nextPacket, if_neg hlg, ht, hl, hd, if_neg hn, if_neg hs,
        Nat.add_sub_cancel, if_neg hr, take_left, drop_left]

theorem IsPacket.next {front : Bytes} (h : IsPacket front packet) (rest : Bytes) :
    nextPacket (front ++ rest) = .ok (packet, rest) := nextPacket_eq_ok.mpr ⟨front, h, rfl⟩

end Packets

section RefLines

variable {ref : Bytes}

theorem nul_notMem_of_validGitRefName (h : validGitRefName ref = true) : 0 ∉ ref := by
  simp only [validGitRefName, Bool.and_eq_true] at h
  intro hm
  have hc := h.2
  rw [Bool.not_eq_true', any_eq_false] at hc
  exact hc 0 hm (by decide)

/-- A valid name has no NUL, so the capabilities start at the first one. -/
theorem nul_notMem_of_validAdvertisedRef (h : validAdvertisedRef ref = true) : 0 ∉ ref := by
  simp only [validAdvertisedRef] at h
  split at h
  · rename_i hs
    simp only [Bool.or_eq_true, decide_eq_true_eq] at hs
    rcases hs with (rfl | rfl) | rfl <;> decide
  split at h
  · rename_i hp
    obtain ⟨tag, rfl⟩ := hp
    have hl : (tag ++ bytes "^\x7b\x7d").length - 3 = tag.length := by
      have ht : (bytes "^\x7b\x7d").length = 3 := by decide
      rw [length_append, ht, Nat.add_sub_cancel]
    simp only [hl, take_left, Bool.and_eq_true] at h
    intro hm
    rcases mem_append.mp hm with hm | hm
    · exact nul_notMem_of_validGitRefName h.2 hm
    · revert hm
      decide
  · rw [Bool.and_eq_true] at h
    exact nul_notMem_of_validGitRefName h.2

structure RefLine where
  sha : Bytes
  name : Bytes
  capabilities : Option Bytes
  sha_hex : isLowerHexSHA sha = true
  name_valid : validAdvertisedRef name = true

namespace RefLine

def tail (r : RefLine) : Bytes := r.capabilities.elim [] (0 :: ·)

def payload (r : RefLine) : Bytes := r.sha ++ 0x20 :: r.name ++ r.tail ++ [0x0a]

theorem not_special_of_mem_sha (r : RefLine) {c : UInt8} (hc : c ∈ r.sha) : c ≠ 0 ∧ c ≠ 0x20 := by
  have hh := r.sha_hex
  simp only [isLowerHexSHA, Bool.and_eq_true, all_eq_true] at hh
  have hd := hh.2 c hc
  constructor
  · rintro rfl
    revert hd
    decide
  rintro rfl
  revert hd
  decide

theorem takeWhile_payload (r : RefLine) :
    r.payload.dropLast.takeWhile (· ≠ 0) = r.sha ++ 0x20 :: r.name := by
  have hf : ∀ c ∈ r.sha ++ 0x20 :: r.name, decide (c ≠ 0) = true := by
    intro c hc
    rw [decide_eq_true_eq]
    rcases mem_append.mp hc with hc | hc
    · exact (r.not_special_of_mem_sha hc).1
    rcases mem_cons.mp hc with rfl | hc
    · decide
    · exact ne_of_mem_of_not_mem hc (nul_notMem_of_validAdvertisedRef r.name_valid)
  rw [payload, dropLast_concat, takeWhile_append_of_pos hf]
  cases hcp : r.capabilities <;> simp [tail, hcp]

theorem cutBytes_front (r : RefLine) : cutBytes (r.sha ++ 0x20 :: r.name) 0x20 = some (r.sha, r.name) := by
  have hf : ∀ c ∈ r.sha, decide (c ≠ 0x20) = true := by
    intro c hc
    rw [decide_eq_true_eq]
    exact (r.not_special_of_mem_sha hc).2
  rw [cutBytes, if_pos (by simp), takeWhile_append_of_pos hf,
    dropWhile_append_of_pos hf]
  simp

theorem parseRefLine_payload (r : RefLine) : parseRefLine r.payload = .ok (r.name, r.sha) := by
  have hl : ¬ r.payload.getLast? ≠ some 0x0a := by rw [payload, getLast?_concat, not_not]
  rw [parseRefLine, if_neg hl, takeWhile_payload, cutBytes_front]
  simp [r.sha_hex, r.name_valid]

end RefLine

/-- What is cut at a separator was joined with it. -/
theorem append_of_cutBytes {value before after : Bytes} {separator : UInt8}
    (h : cutBytes value separator = some (before, after)) :
    value = before ++ separator :: after := by
  unfold cutBytes at h
  split at h
  · rename_i hm
    cases h
    have hr : (value.dropWhile (· ≠ separator)).head? = some separator := by
      cases hd : value.dropWhile (· ≠ separator) with
      | nil =>
        rw [dropWhile_eq_nil_iff] at hd
        exact absurd rfl (of_decide_eq_true (hd separator hm))
      | cons c rest =>
        have hc := head?_dropWhile_not (· ≠ separator) value
        rw [hd] at hc
        simpa using hc
    have hcn := eq_cons_of_mem_head? hr
    conv_lhs => rw [← @takeWhile_append_dropWhile _ (· ≠ separator) value, hcn]
  · cases h

/-- The lines that parse are the written ones. -/
theorem parseRefLine_eq_ok {line name sha : Bytes} :
    parseRefLine line = .ok (name, sha) ↔ ∃ r : RefLine, r.payload = line ∧ r.name = name ∧ r.sha = sha := by
  constructor
  · intro h
    simp only [parseRefLine] at h
    split at h
    · cases h
    rename_i hls
    rw [ne_eq, not_not] at hls
    split at h
    · cases h
    rename_i sha' name' hct
    split at h
    · cases h
    rename_i hv
    cases h
    simp only [Bool.or_eq_true, Bool.not_eq_true', not_or, Bool.not_eq_false] at hv
    have hf := append_of_cutBytes hct
    obtain ⟨front, rfl⟩ := getLast?_eq_some_iff.mp hls
    rw [dropLast_concat] at hf
    have hl : front = sha ++ 0x20 :: name ++ front.dropWhile (· ≠ 0) := by
      rw [← hf, takeWhile_append_dropWhile]
    cases hr : front.dropWhile (· ≠ 0) with
    | nil =>
      refine ⟨⟨sha, name, none, hv.1, hv.2⟩, ?_, rfl, rfl⟩
      rw [hr] at hl
      rw [hl]
      rfl
    | cons c capabilities =>
      have hc := head?_dropWhile_not (· ≠ 0) front
      rw [hr] at hc
      have hn : c = 0 := by simpa using hc
      refine ⟨⟨sha, name, some capabilities, hv.1, hv.2⟩, ?_, rfl, rfl⟩
      rw [hr, hn] at hl
      rw [hl]
      rfl
  · rintro ⟨r, rfl, rfl, rfl⟩
    exact r.parseRefLine_payload

end RefLines

section Advertisements

def serviceLine : Bytes := bytes "# service=git-upload-pack\n"

inductive RefPackets : Bytes → List RefLine → Prop where
  | nil : RefPackets [] []
  | cons {front rest : Bytes} {r : RefLine} {rs : List RefLine} :
      IsPacket front (.payload r.payload) → RefPackets rest rs → RefPackets (front ++ rest) (r :: rs)

def Consistent (rs : List RefLine) : Prop :=
  ∀ r ∈ rs, ∀ r' ∈ rs, r.name = r'.name → r.sha = r'.sha

structure Advertisement (body : Bytes) (rs : List RefLine) : Prop where
  text : ∃ service refs, IsPacket service (.payload serviceLine) ∧ RefPackets refs rs ∧
    body = service ++ (bytes "0000" ++ (refs ++ bytes "0000"))
  consistent : Consistent rs

def Named (rs : List RefLine) (name sha : Bytes) : Prop := ∃ r ∈ rs, r.name = name ∧ r.sha = sha

variable {rs done : List RefLine} {r : RefLine} {refs : Refs} {name sha data body : Bytes}

/-- The names of ref lines with their object IDs. -/
def table (rs : List RefLine) : Refs := rs.map fun r => (r.name, r.sha)

theorem consistent_reverse : Consistent rs.reverse ↔ Consistent rs := by simp [Consistent]

theorem Consistent.of_cons (h : Consistent (r :: rs)) : Consistent rs :=
  fun a ha b hb => h a (mem_cons_of_mem r ha) b (mem_cons_of_mem r hb)

/-- Where no name has two commits, a lookup finds the commit of the name. -/
theorem lookup_table (h : Consistent rs) :
    (table rs).lookup name = some sha ↔ Named rs name sha := by
  induction rs with
  | nil => simp [table, Named]
  | cons r rs ih =>
    have ih := ih h.of_cons
    have hh := h r mem_cons_self
    by_cases hn : name = r.name
    · subst hn
      simp only [table, map_cons, lookup_cons_self, Option.some.injEq]
      constructor
      · exact fun hs => ⟨r, mem_cons_self, rfl, hs⟩
      · rintro ⟨a, ha, han, rfl⟩
        exact hh a ha han.symm
    · simp only [table, map_cons, lookup_cons, beq_eq_false_iff_ne.mpr hn] at ih ⊢
      simp [ih, Named, Ne.symm hn]

theorem not_repeated_iff (h : Consistent done) :
    ¬ ((table done).lookup r.name).any (· ≠ r.sha) = true ↔ Consistent (r :: done) := by
  simp only [Option.any_eq_true, lookup_table h, decide_eq_true_eq, not_exists, not_and, not_not]
  constructor
  · intro hnw a ha b hb hn
    rcases mem_cons.mp ha with rfl | ha' <;> rcases mem_cons.mp hb with rfl | hb'
    · rfl
    · exact (hnw _ ⟨b, hb', hn.symm, rfl⟩).symm
    · exact hnw _ ⟨a, ha', hn, rfl⟩
    · exact h a ha' b hb' hn
  · rintro hal sha ⟨a, ha, hn, rfl⟩
    exact hal a (mem_cons_of_mem r ha) r mem_cons_self hn

/-- The loop accepts ref packets and a flush, if the lines contradict none before them. -/
theorem parseRefs_eq_ok (h : Consistent done) : parseRefs data (table done) = .ok refs ↔
    ∃ front rs, data = front ++ bytes "0000" ∧ RefPackets front rs ∧
      Consistent (rs.reverse ++ done) ∧ refs = table (rs.reverse ++ done) := by
  constructor
  · intro hok
    generalize ht : table done = start at hok
    fun_induction parseRefs data start generalizing done with
    | case1 | case2 | case4 | case5 | case6 => cases hok
    | case3 data refs hne hp =>
      cases hok
      obtain ⟨front, hfl, hd⟩ := nextPacket_eq_ok.mp hp
      cases hfl
      exact ⟨[], [], by simpa using hd, .nil, h, ht.symm⟩
    | case7 data refs hne line rest hp name sha hl hfr ih =>
      obtain ⟨packet, hfs, rfl⟩ := nextPacket_eq_ok.mp hp
      obtain ⟨r, rfl, rfl, rfl⟩ := parseRefLine_eq_ok.mp hl
      subst ht
      obtain ⟨front, rs, rfl, hpc, hr⟩ := ih ((not_repeated_iff h).mp hfr) rfl hok
      exact ⟨packet ++ front, r :: rs, by simp, .cons hfs hpc, by simpa using hr⟩
  · rintro ⟨front, rs, rfl, hpc, hc, rfl⟩
    induction hpc generalizing done with
    | nil =>
      rw [parseRefs]
      rfl
    | @cons front rest r rs hp _ ih =>
      simp only [reverse_cons, append_assoc, singleton_append] at hc ⊢
      have hf : Consistent (r :: done) := fun a ha b hb =>
        hc a (mem_append_right _ ha) b (mem_append_right _ hb)
      have hne : front ++ (rest ++ bytes "0000") ≠ [] := by simp [flush_ne_nil]
      rw [parseRefs, if_neg hne]
      split <;> rename_i he <;> cases (hp.next _).symm.trans he
      rw [r.parseRefLine_payload]
      dsimp only
      rw [if_neg ((not_repeated_iff h).mpr hf)]
      exact ih hf hc

/-- The parser accepts advertisements, and returns the table of their lines. -/
theorem parseAdvertisement_eq_ok :
    parseAdvertisement body = .ok refs ↔ ∃ rs, Advertisement body rs ∧ refs = table rs.reverse := by
  have hr : ∀ data, parseRefs data [] = .ok refs ↔ ∃ front rs, data = front ++ bytes "0000" ∧
      RefPackets front rs ∧ Consistent rs ∧ refs = table rs.reverse := by
    intro data
    have hl := @parseRefs_eq_ok [] refs data (by simp [Consistent])
    simp only [append_nil, consistent_reverse] at hl
    exact hl
  constructor
  · intro h
    simp only [parseAdvertisement] at h
    split at h
    · rename_i service rest hs
      split at h
      · cases h
      rename_i hln
      rw [ne_eq, not_not] at hln
      split at h
      · rename_i rest' hf
        obtain ⟨first, hfr, rfl⟩ := nextPacket_eq_ok.mp hs
        obtain ⟨_, hsc, rfl⟩ := nextPacket_eq_ok.mp hf
        cases hsc
        obtain ⟨front, rs, rfl, hp, hc, ht⟩ := (hr rest').mp h
        exact ⟨rs, ⟨⟨first, front, by rwa [hln] at hfr, hp, rfl⟩, hc⟩, ht⟩
      · cases h
    · cases h
  · rintro ⟨rs, ⟨⟨service, front, hs, hp, rfl⟩, hc⟩, ht⟩
    simp only [parseAdvertisement, hs.next, IsPacket.flush.next]
    rw [if_neg (by simp [serviceLine]), hr]
    exact ⟨front, rs, rfl, hp, hc, ht⟩

theorem lookup_of_advertisement (hr : parseAdvertisement body = .ok refs)
    (hrs : Advertisement body rs) : refs.lookup name = some sha ↔ Named rs name sha := by
  have ht := parseAdvertisement_eq_ok.mpr ⟨rs, hrs, rfl⟩
  rw [hr, Except.ok.injEq] at ht
  rw [ht, lookup_table (consistent_reverse.mpr hrs.consistent)]
  simp [Named]

end Advertisements

section Encoding

def hexByte (d : ℕ) : UInt8 := (if d < 10 then 0x30 + d else 0x61 + (d - 10)).toUInt8

/-- Four digits, enough for numbers below `2 ^ 16`. -/
def hexLength (n : ℕ) : Bytes := [n / 4096 % 16, n / 256 % 16, n / 16 % 16, n % 16].map hexByte

/-- A line too long for its length to be written has no packet. -/
def encodePacket (line : Bytes) : Option Bytes :=
  if line.length + 4 < 2 ^ 16 then some (hexLength (line.length + 4) ++ line) else none

def encodeAdvertisement (rs : List RefLine) : Option Bytes := do
  let service ← encodePacket serviceLine
  let refs ← rs.mapM fun r => encodePacket r.payload
  return service ++ (bytes "0000" ++ (refs.flatten ++ bytes "0000"))

theorem hexDigit_hexByte {d : ℕ} (h : d < 16) : hexDigit (hexByte d) = some d := by
  have ha : ∀ d < 16, hexDigit (hexByte d) = some d := by decide +kernel
  exact ha d h

theorem parseHex_hexLength {n : ℕ} (h : n < 2 ^ 16) : parseHex (hexLength n) = some n := by
  simp only [parseHex, hexLength, map_cons, map_nil, foldlM_cons, foldlM_nil,
    hexDigit_hexByte (Nat.mod_lt _ (by decide : 0 < 16)), Option.map_some, Option.bind_eq_bind,
    Option.bind_some, Option.pure_def, Option.some.injEq]
  omega

theorem isPacket_of_encodePacket {line packet : Bytes} (h : encodePacket line = some packet) :
    IsPacket packet (.payload line) := by
  unfold encodePacket at h
  split at h
  · rename_i hl
    cases h
    exact .payload rfl (parseHex_hexLength hl)
  · cases h

variable {rs : List RefLine}

theorem refPackets_of_mapM {packets : List Bytes}
    (h : (rs.mapM fun r => encodePacket r.payload) = some packets) :
    RefPackets packets.flatten rs := by
  induction rs generalizing packets with
  | nil =>
    cases h
    exact .nil
  | cons r rs ih =>
    simp only [mapM_cons, Option.bind_eq_bind, Option.bind_eq_some_iff, Option.pure_def,
      Option.some.injEq] at h
    obtain ⟨packet, hp, rest, hr, rfl⟩ := h
    exact .cons (isPacket_of_encodePacket hp) (ih hr)

theorem advertisement_of_encode {body : Bytes} (hc : Consistent rs)
    (h : encodeAdvertisement rs = some body) : Advertisement body rs := by
  simp only [encodeAdvertisement, Option.bind_eq_bind, Option.bind_eq_some_iff, Option.pure_def,
    Option.some.injEq] at h
  obtain ⟨service, hs, packets, hp, rfl⟩ := h
  exact ⟨⟨service, packets.flatten, isPacket_of_encodePacket hs, refPackets_of_mapM hp,
    rfl⟩, hc⟩

theorem consistent_of_nodup (hn : (rs.map RefLine.name).Nodup) : Consistent rs := by
  intro r hr r' hr' hnm
  rw [inj_on_of_nodup_map hn hr hr' hnm]

end Encoding

/-- The parser accepts the texts of the grammar and no others, and returns the names of the
packets with their object IDs. Names with object IDs, written in any order, are so read
back. -/
theorem advertisement_grammar (body : Bytes) :
    ((∃ refs, parseAdvertisement body = .ok refs) ↔ ∃ rs, Advertisement body rs) ∧
    (∀ refs rs, parseAdvertisement body = .ok refs → Advertisement body rs →
      ∀ name sha, refs.lookup name = some sha ↔ Named rs name sha) ∧
    ∀ rs : List RefLine, (rs.map RefLine.name).Nodup → encodeAdvertisement rs = some body →
      ∃ refs, parseAdvertisement body = .ok refs ∧
        ∀ name, refs.lookup name = (table rs).lookup name := by
  refine ⟨?_, fun _ _ hrefs hrs _ _ => lookup_of_advertisement hrefs hrs, ?_⟩
  · constructor
    · rintro ⟨refs, hrefs⟩
      obtain ⟨rs, hrs, -⟩ := parseAdvertisement_eq_ok.mp hrefs
      exact ⟨rs, hrs⟩
    · rintro ⟨rs, hrs⟩
      exact ⟨_, parseAdvertisement_eq_ok.mpr ⟨rs, hrs, rfl⟩⟩
  intro rs hnames hencode
  have hconsistent := consistent_of_nodup hnames
  have hrs := advertisement_of_encode hconsistent hencode
  have hrefs := parseAdvertisement_eq_ok.mpr ⟨rs, hrs, rfl⟩
  refine ⟨_, hrefs, fun name => Option.ext fun sha => ?_⟩
  rw [lookup_of_advertisement hrefs hrs, lookup_table hconsistent]

def sampleSHA (digit : UInt8) : Bytes := List.replicate 40 digit

def sampleRefs : List RefLine :=
  [⟨sampleSHA 0x61, bytes "HEAD", some (bytes "multi_ack agent=git/2"), by decide, by decide⟩,
    ⟨sampleSHA 0x61, bytes "refs/heads/main", none, by decide, by decide⟩,
    ⟨sampleSHA 0x62, bytes "refs/tags/v1", none, by decide, by decide⟩,
    ⟨sampleSHA 0x63, bytes "refs/tags/v1^\x7b\x7d", none, by decide, by decide⟩]

def sampleBody : Bytes := (encodeAdvertisement sampleRefs).getD []

theorem encode_sampleRefs : encodeAdvertisement sampleRefs = some sampleBody := by decide +kernel

/-- An advertisement with a peeled tag, written out and read. -/
theorem sampleRefs_read_back : ∃ refs, parseAdvertisement sampleBody = .ok refs ∧
    ∀ name, refs.lookup name = (table sampleRefs).lookup name :=
  (advertisement_grammar sampleBody).2.2 sampleRefs (by decide) encode_sampleRefs

section Resolution

def Advertises (body name sha : Bytes) : Prop := ∃ rs, Advertisement body rs ∧ Named rs name sha

variable {body sha : Bytes} {refs : Refs}

theorem lookup_iff_advertises (h : parseAdvertisement body = .ok refs) {name : Bytes} :
    refs.lookup name = some sha ↔ Advertises body name sha := by
  constructor
  · intro hs
    obtain ⟨rs, hrs, -⟩ := parseAdvertisement_eq_ok.mp h
    exact ⟨rs, hrs, (lookup_of_advertisement h hrs).mp hs⟩
  · rintro ⟨rs, hrs, hn⟩
    exact (lookup_of_advertisement h hrs).mpr hn

/-- The first of two choices, or the second where the first has none. -/
def Preferring (first second : Bytes → Prop) (sha : Bytes) : Prop :=
  first sha ∨ (∀ sha', ¬ first sha') ∧ second sha

/-- A tag stands for its peeled object, or for its own. -/
def TagRule (body tag : Bytes) : Bytes → Prop :=
  Preferring (Advertises body (tag ++ bytes "^\x7b\x7d")) (Advertises body tag)

theorem or_lookup_iff {o o' : Option Bytes} {first second : Bytes → Prop}
    (ho : ∀ sha, o = some sha ↔ first sha) (ho' : ∀ sha, o' = some sha ↔ second sha) :
    o.or o' = some sha ↔ Preferring first second sha := by
  cases o with
  | none =>
    have hn : ∀ sha', ¬ first sha' := fun sha' h => by cases (ho sha').mpr h
    rw [Option.none_or, ho']
    constructor
    · exact fun h => .inr ⟨hn, h⟩
    rintro (h | h)
    · exact absurd h (hn sha)
    · exact h.2
  | some sha' =>
    have hf : first sha' := (ho sha').mp rfl
    rw [Option.some_or, ho]
    constructor
    · exact .inl
    rintro (h | h)
    · exact h
    · exact absurd hf (h.1 sha')

theorem resolveTag_iff (h : parseAdvertisement body = .ok refs) {tag : Bytes} :
    resolveTag refs tag = some sha ↔ TagRule body tag sha :=
  or_lookup_iff (fun _ => lookup_iff_advertises h) fun _ => lookup_iff_advertises h

def Permitted (name : Bytes) : Prop :=
  name = bytes "HEAD" ∨ bytes "refs/heads/" <+: name ∨ bytes "refs/tags/" <+: name

variable {ref : Bytes}

theorem resolveRef_head (h : ref = [] ∨ ref = bytes "HEAD") :
    resolveRef refs ref = refs.lookup (bytes "HEAD") := by
  simp [resolveRef, h]

theorem not_head_of_start {front : Bytes} (hf : front.head? = some 0x72) (h : front <+: ref) :
    ¬ (decide (ref = []) || decide (ref = bytes "HEAD")) = true := by
  have hh : ref.head? = some 0x72 := by
    obtain ⟨rest, rfl⟩ := h
    simp [head?_append, hf]
  rw [Bool.or_eq_true, decide_eq_true_eq, decide_eq_true_eq]
  rintro (rfl | rfl)
  · cases hh
  · revert hh
    decide

theorem resolveRef_branch (h : bytes "refs/heads/" <+: ref) :
    resolveRef refs ref = refs.lookup ref := by
  rw [resolveRef, if_neg (not_head_of_start (by decide) h), if_pos h]

theorem resolveRef_tag (h : bytes "refs/tags/" <+: ref) :
    resolveRef refs ref = resolveTag refs ref := by
  have hb : ¬ bytes "refs/heads/" <+: ref := by
    intro hb
    have hp := prefix_of_prefix_length_le h hb (by decide)
    revert hp
    decide
  rw [resolveRef, if_neg (not_head_of_start (by decide) h), if_neg hb, if_pos h]

theorem permitted_of_tagRule {tag : Bytes} (ht : bytes "refs/tags/" <+: tag)
    (h : TagRule body tag sha) : ∃ name, Permitted name ∧ Advertises body name sha := by
  rcases h with hp | ⟨-, ho⟩
  · exact ⟨_, .inr (.inr (ht.trans (prefix_append ..))), hp⟩
  · exact ⟨tag, .inr (.inr ht), ho⟩

end Resolution

/-- What an accepted ref is resolved to, in terms of the advertisement: HEAD, the branch, the
tag, or the branch and else the tag of a short name, and no other name's object. -/
theorem resolveRef_advertised {body ref : Bytes} {refs : Refs}
    (hrefs : parseAdvertisement body = .ok refs) (href : validateRef ref = none) (sha : Bytes) :
    (ref = [] ∨ ref = bytes "HEAD" →
      (resolveRef refs ref = some sha ↔ Advertises body (bytes "HEAD") sha)) ∧
    (bytes "refs/heads/" <+: ref → (resolveRef refs ref = some sha ↔ Advertises body ref sha)) ∧
    (bytes "refs/tags/" <+: ref → (resolveRef refs ref = some sha ↔ TagRule body ref sha)) ∧
    (ref ≠ [] → ref ≠ bytes "HEAD" → ¬ bytes "refs/heads/" <+: ref → ¬ bytes "refs/tags/" <+: ref →
      ¬ bytes "refs/" <+: ref ∧ (resolveRef refs ref = some sha ↔
        Preferring (Advertises body (bytes "refs/heads/" ++ ref))
          (TagRule body (bytes "refs/tags/" ++ ref)) sha)) ∧
    (resolveRef refs ref = some sha → ∃ name, Permitted name ∧ Advertises body name sha) := by
  have hshort : ref ≠ [] → ref ≠ bytes "HEAD" → ¬ bytes "refs/heads/" <+: ref →
      ¬ bytes "refs/tags/" <+: ref → (resolveRef refs ref = some sha ↔
        Preferring (Advertises body (bytes "refs/heads/" ++ ref))
          (TagRule body (bytes "refs/tags/" ++ ref)) sha) := by
    intro hempty hhead hbranch htag
    have hresolve : resolveRef refs ref = (refs.lookup (bytes "refs/heads/" ++ ref)).or
        (resolveTag refs (bytes "refs/tags/" ++ ref)) := by
      simp [resolveRef, hempty, hhead, hbranch, htag]
    rw [hresolve]
    exact or_lookup_iff (fun _ => lookup_iff_advertises hrefs) fun _ => resolveTag_iff hrefs
  refine ⟨?_, ?_, ?_, ?_, ?_⟩
  · intro h
    rw [resolveRef_head h, lookup_iff_advertises hrefs]
  · intro h
    rw [resolveRef_branch h, lookup_iff_advertises hrefs]
  · intro h
    rw [resolveRef_tag h, resolveTag_iff hrefs]
  · intro hempty hhead hbranch htag
    refine ⟨fun hfull => ?_, hshort hempty hhead hbranch htag⟩
    simp only [validateRef, hempty, hhead, hbranch, htag, hfull, decide_false, Bool.or_self,
      Bool.false_eq_true, if_false, not_false_eq_true, and_self, if_true] at href
    split at href <;> cases href
  intro h
  by_cases hhead : ref = [] ∨ ref = bytes "HEAD"
  · rw [resolveRef_head hhead, lookup_iff_advertises hrefs] at h
    exact ⟨_, .inl rfl, h⟩
  by_cases hbranch : bytes "refs/heads/" <+: ref
  · rw [resolveRef_branch hbranch, lookup_iff_advertises hrefs] at h
    exact ⟨ref, .inr (.inl hbranch), h⟩
  by_cases htag : bytes "refs/tags/" <+: ref
  · rw [resolveRef_tag htag, resolveTag_iff hrefs] at h
    exact permitted_of_tagRule htag h
  rw [not_or] at hhead
  rcases (hshort hhead.1 hhead.2 hbranch htag).mp h with h | ⟨-, h⟩
  · exact ⟨_, .inr (.inl (prefix_append ..)), h⟩
  · exact permitted_of_tagRule (prefix_append ..) h

/-- A short name that no branch has is an annotated tag's, and stands for what the tag
points to. -/
theorem sample_tag_resolves : ∃ refs, parseAdvertisement sampleBody = .ok refs ∧
    resolveRef refs (bytes "v1") = some (sampleSHA 0x63) := by
  have hadvertisement : Advertisement sampleBody sampleRefs :=
    advertisement_of_encode (consistent_of_nodup (by decide)) encode_sampleRefs
  have hrefs := parseAdvertisement_eq_ok.mpr ⟨sampleRefs, hadvertisement, rfl⟩
  refine ⟨_, hrefs, ?_⟩
  have hspec := (@resolveRef_advertised _ (bytes "v1") _ hrefs (by decide) (sampleSHA 0x63)).2.2.2.1
    (by decide) (by decide) (by decide) (by decide)
  refine hspec.2.mpr (.inr ⟨fun sha hbranch => ?_, .inl ⟨sampleRefs, hadvertisement, ?_⟩⟩)
  · obtain ⟨r, hr, hname, -⟩ := (lookup_of_advertisement hrefs hadvertisement).mp
      ((lookup_iff_advertises hrefs).mpr hbranch)
    have hall : ∀ r ∈ sampleRefs, r.name ≠ bytes "refs/heads/" ++ bytes "v1" := by decide
    exact hall r hr hname
  have hany : ∃ r ∈ sampleRefs, r.name = bytes "refs/tags/" ++ bytes "v1" ++ bytes "^\x7b\x7d" ∧
      r.sha = sampleSHA 0x63 := by decide
  exact hany

end Orkano.Operator.GitResolver
