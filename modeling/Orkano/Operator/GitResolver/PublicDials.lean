import Mathlib.Tactic.Common
import Orkano.Operator.GitResolver.Resolver

/-!
Where a resolution connects to and what it asks for, against surroundings that choose every DNS
answer, every connection and every response.
-/
namespace Orkano.Operator.GitResolver

open Interleave Program Text List

/-- A dial: the address it was for, the answer its own lookup got, and the connections it
tried. -/
structure Dial where
  address : String
  answer : Option (List IPAddr)
  attempts : List Endpoint
deriving DecidableEq, Repr

structure World where
  dials : List Dial
  requests : List Request
deriving DecidableEq, Repr

def World.onDial (f : Dial → Dial) (w : World) : World := { w with dials := w.dials.modifyHead f }

def World.record : (c : Call) → c.Reply → World → World
  | .lookupIP .dial _, some answer, w => w.onDial fun d => { d with answer := some answer }
  | .lookupIP _ _, _, w => w
  | .connect _ endpoint, _, w => w.onDial fun d => { d with attempts := endpoint :: d.attempts }
  | .reuse address, false, w => { w with dials := ⟨address, none, []⟩ :: w.dials }
  | .reuse _, true, w => w
  | .retries, _, w => w
  | .send request, _, w => { w with requests := request :: w.requests }

def adversary : Machine internet World where
  Choice c := c.Reply
  answer c x w := some (x, w.record c x)

@[simp] theorem exec_adversary {c : Call} {x : c.Reply} {w w' : World} :
    adversary.exec c w x w' ↔ w' = w.record c x := by
  simp only [Machine.exec, adversary, Option.some.injEq, Prod.mk.injEq]
  constructor
  · rintro ⟨_, rfl, rfl⟩
    rfl
  · rintro rfl
    exact ⟨x, rfl, rfl⟩

variable {S : Stdlib} {w : World} {d : Dial} {ds : List Dial} {u : URL} {host : String}

/-- An address of an answer that is public, and unmapped is `ip`. -/
def PublicAnswer (a : IPAddr) (ip : Addr) : Prop :=
  a.zone = "" ∧ isPublicIP ip = true ∧ ∃ raw, addrFromSlice a.ip = some raw ∧ ip = raw.unmap

/-- The addresses a dial may use: those of a wholly public answer, or the host itself where
it is an address and nothing is looked up. -/
def Vetted (S : Stdlib) (host : String) : Option (List IPAddr) → Addr → Prop
  | some answer, ip => (∃ a ∈ answer, PublicAnswer a ip) ∧ ∀ a ∈ answer, ∃ ip, PublicAnswer a ip
  | none, ip => isPublicIP ip = true ∧ ∃ literal, S.parseAddr host = some literal ∧
      ip = literal.unmap

theorem Vetted.isPublic {answer : Option (List IPAddr)} {ip : Addr} (h : Vetted S host answer ip) :
    isPublicIP ip = true := by
  cases answer with
  | none => exact h.1
  | some answer =>
    obtain ⟨⟨a, _, ha⟩, _⟩ := h
    exact ha.2.1

theorem vetAnswer_ok {a : IPAddr} {ip : Addr} (h : vetAnswer host a = .ok ip) :
    PublicAnswer a ip := by
  simp only [vetAnswer] at h
  split at h
  · cases h
  case h_2 raw hraw =>
    split at h
    · cases h
    case isFalse hok =>
      cases h
      simp only [ne_eq, Bool.or_eq_true, decide_eq_true_eq, Bool.not_eq_true', not_or,
        not_not, Bool.not_eq_false] at hok
      exact ⟨hok.1, hok.2, raw, hraw, rfl⟩

/-- Everything gathered comes from the answer, and nothing is gathered from an answer with a
part that is not public. -/
theorem vetAnswers_ok {answer : List IPAddr} {gathered ips : List Addr}
    (h : vetAnswers host answer gathered = .ok ips) :
    (∀ ip ∈ ips, ip ∈ gathered ∨ ∃ a ∈ answer, PublicAnswer a ip) ∧
      ∀ a ∈ answer, ∃ ip, PublicAnswer a ip := by
  induction answer generalizing gathered with
  | nil =>
    cases h
    simp
  | cons a rest ih =>
    simp only [vetAnswers] at h
    split at h
    · cases h
    case h_2 addr haddr =>
      have hp := vetAnswer_ok haddr
      obtain ⟨hi, hr⟩ := ih h
      constructor
      · intro ip hip
        rcases hi ip hip with hin | ⟨b, hb, hpb⟩
        · split at hin
          · exact .inl hin
          rcases mem_append.mp hin with hin | hin
          · exact .inl hin
          · rw [mem_singleton] at hin
            exact .inr ⟨a, mem_cons_self, hin ▸ hp⟩
        · exact .inr ⟨b, mem_cons_of_mem _ hb, hpb⟩
      · intro b hb
        rcases mem_cons.mp hb with rfl | hb
        · exact ⟨addr, hp⟩
        · exact hr b hb

theorem ensures_publicIPs_vet :
    Ensures adversary.exec (publicIPs S .vet host) w fun _ w' => w' = w := by
  unfold publicIPs
  split
  · simp only []
    split <;> simp
  simp only [call, perform_bind, ensures_call, exec_adversary]
  rintro x _ rfl
  cases x with
  | none =>
    simp only [pure_eq, ensures_done]
  | some answer =>
    cases answer <;> simp only [pure_eq, ensures_done]

/-- The lookup of a dial goes into that dial's entry, and only vetted addresses come out. -/
theorem ensures_publicIPs_dial (hw : w.dials = d :: ds) (hd : d.answer = none) :
    Ensures adversary.exec (publicIPs S .dial host) w fun result w' =>
      ∃ answer, w' = { w with dials := { d with answer := answer } :: ds } ∧
        ∀ ips, result = .ok ips → ∀ ip ∈ ips, Vetted S host answer ip := by
  have hs : w = { w with dials := { d with answer := none } :: ds } := by
    rw [← hd, ← hw]
  unfold publicIPs
  split
  case h_1 literal hliteral =>
    simp only []
    split
    · simp only [pure_eq, ensures_done]
      exact ⟨none, hs, by rintro _ ⟨⟩⟩
    case isFalse hok =>
      simp only [pure_eq, ensures_done, Except.ok.injEq]
      simp only [ne_eq, Bool.or_eq_true, decide_eq_true_eq, Bool.not_eq_true', not_or,
        not_not, Bool.not_eq_false] at hok
      refine ⟨none, hs, ?_⟩
      rintro ips rfl ip hip
      rw [mem_singleton] at hip
      exact ⟨hip ▸ hok.2, literal, hliteral, hip⟩
  · simp only [call, perform_bind, ensures_call, exec_adversary]
    rintro x _ rfl
    cases x with
    | none =>
      simp only [pure_eq, ensures_done]
      exact ⟨none, hs, by rintro _ ⟨⟩⟩
    | some answer =>
      have hl : w.record (.lookupIP .dial host) (some answer) =
          { w with dials := { d with answer := some answer } :: ds } := by
        simp [World.record, World.onDial, hw]
      rw [hl]
      cases answer with
      | nil =>
        simp only [pure_eq, ensures_done]
        exact ⟨_, rfl, by rintro _ ⟨⟩⟩
      | cons a rest =>
        simp only [pure_eq, ensures_done]
        refine ⟨_, rfl, ?_⟩
        intro ips hi ip hip
        obtain ⟨hf, ha⟩ := vetAnswers_ok hi
        rcases hf ip hip with hn | hsm
        · cases hn
        · exact ⟨hsm, ha⟩

/-- Every connection tried is to port 443 of an address vetted in this dial. -/
def Dial.Safe (S : Stdlib) (d : Dial) : Prop :=
  ∀ e ∈ d.attempts, e.port = "443" ∧
    ∃ host, splitHostPort d.address = some (host, "443") ∧ Vetted S host d.answer e.ip

/-- The addresses tried are those vetted, in their order. -/
theorem ensures_dialEach {network port : String} {ips : List Addr} (hw : w.dials = d :: ds) :
    Ensures adversary.exec (dialEach network host port ips) w fun _ w' =>
      ∃ attempts, w' = { w with dials := { d with attempts := attempts } :: ds } ∧
        ∀ e ∈ attempts, e ∈ d.attempts ∨ e.port = port ∧ e.ip ∈ ips := by
  have hs : w = { w with dials := { d with attempts := d.attempts } :: ds } := by
    rw [← hw]
  induction ips generalizing w d with
  | nil =>
    simp only [dialEach, pure_eq, ensures_done]
    exact ⟨d.attempts, hs, fun e he => .inl he⟩
  | cons ip rest ih =>
    unfold dialEach
    split
    · apply (ih hw hs).mono
      rintro _ _ ⟨attempts, rfl, ha⟩
      refine ⟨attempts, rfl, ?_⟩
      intro e he
      exact (ha e he).imp_right fun h => ⟨h.1, mem_cons_of_mem _ h.2⟩
    simp only [call, perform_bind, ensures_call, exec_adversary]
    rintro x _ rfl
    have hl : w.record (.connect network ⟨ip, port⟩) x =
        { w with dials := { d with attempts := ⟨ip, port⟩ :: d.attempts } :: ds } := by
      simp [World.record, World.onDial, hw]
    rw [hl]
    have hf : ∀ e ∈ Endpoint.mk ip port :: d.attempts,
        e ∈ d.attempts ∨ e.port = port ∧ e.ip ∈ ip :: rest := by
      intro e he
      rcases mem_cons.mp he with rfl | he
      · exact .inr ⟨rfl, mem_cons_self⟩
      · exact .inl he
    cases x with
    | opened | cancelled =>
      simp only [pure_eq, ensures_done]
      exact ⟨_, rfl, hf⟩
    | failed =>
      apply (ih rfl rfl).mono
      rintro _ _ ⟨attempts, rfl, ha⟩
      refine ⟨attempts, rfl, ?_⟩
      intro e he
      rcases ha e he with he | ⟨hp, hip⟩
      · exact hf e he
      · exact .inr ⟨hp, mem_cons_of_mem _ hip⟩

/-- A dial connects to port 443 of vetted addresses only. -/
theorem ensures_dialContext {network address : String} (hw : w.dials = ⟨address, none, []⟩ :: ds) :
    Ensures adversary.exec (dialContext S network address) w fun _ w' =>
      ∃ d, w' = { w with dials := d :: ds } ∧ d.Safe S := by
  have hs : w = { w with dials := ⟨address, none, []⟩ :: ds } := by rw [← hw]
  have hn : Dial.Safe S ⟨address, none, []⟩ := by
    intro e he
    cases he
  unfold dialContext
  split
  · simp only [pure_eq, ensures_done]
    exact ⟨_, hs, hn⟩
  case h_2 host port hsplit =>
    split
    · simp only [pure_eq, ensures_done]
      exact ⟨_, hs, hn⟩
    case isFalse hp =>
      obtain rfl : port = "443" := not_not.mp hp
      apply (ensures_publicIPs_dial hw rfl).bind
      rintro result _ ⟨answer, rfl, hi⟩
      cases result with
      | error e =>
        simp only [pure_eq, ensures_done]
        refine ⟨_, rfl, ?_⟩
        intro e he
        cases he
      | ok ips =>
        apply (ensures_dialEach rfl).mono
        rintro _ _ ⟨attempts, rfl, ha⟩
        refine ⟨_, rfl, ?_⟩
        intro e he
        rcases ha e he with hold | ⟨hp, hip⟩
        · cases hold
        · exact ⟨hp, host, hsplit, hi ips rfl e.ip hip⟩

section Requests

/-- The names of the headers a request may have. -/
def plainHeaders : List String := ["Accept", "User-Agent", "Referer"]

structure Request.Anonymous (q : Request) : Prop where
  https : q.url.scheme = "https"
  noUser : q.url.user = none
  plain : ∀ header ∈ q.headers, header.1 ∈ plainHeaders
  query : parseQuery q.url.rawQuery = [(serviceKey, uploadPack)]
  chain : q.via.length ≤ maxRedirects

structure Clean (S : Stdlib) (w : World) : Prop where
  dials : ∀ d ∈ w.dials, d.Safe S
  requests : ∀ q ∈ w.requests, q.Anonymous

variable {q : Request}

theorem ensures_getConn (hw : Clean S w) :
    Ensures adversary.exec (getConn S u) w fun _ w' => Clean S w' := by
  simp only [getConn, call, perform_bind, ensures_call, exec_adversary]
  rintro x _ rfl
  cases x with
  | true =>
    simp only [↓reduceIte, pure_eq, ensures_done]
    exact hw
  | false =>
    simp only [Bool.false_eq_true, ↓reduceIte]
    apply (ensures_dialContext rfl).mono
    rintro _ _ ⟨d, rfl, hd⟩
    refine ⟨?_, hw.requests⟩
    intro d' hd'
    rcases mem_cons.mp hd' with rfl | hd'
    · exact hd
    · exact hw.dials d' hd'

/-- A request that goes out carries no credentials, over a safe dial. -/
theorem ensures_exchange (hw : Clean S w) (hq : q.Anonymous) :
    Ensures adversary.exec (exchange S q) w fun _ w' => Clean S w' := by
  apply (ensures_getConn hw).bind
  intro result w1 hw1
  cases result with
  | error e =>
    simp only [pure_eq, ensures_done]
    exact hw1
  | ok _ =>
    simp only [call, perform_bind, ensures_call, exec_adversary, pure_eq, ensures_done]
    rintro x _ rfl
    refine ⟨hw1.dials, ?_⟩
    intro q' hq'
    rcases mem_cons.mp hq' with rfl | hq'
    · exact hq
    · exact hw1.requests q' hq'

theorem ensures_roundTrip {attempts : ℕ} (hw : Clean S w) (hq : q.Anonymous) :
    Ensures adversary.exec (roundTrip S q attempts) w fun _ w' => Clean S w' := by
  induction attempts generalizing w with
  | zero =>
    simp only [roundTrip, pure_eq, ensures_done]
    exact hw
  | succ attempts ih =>
    apply (ensures_exchange hw hq).bind
    intro result w1 hw1
    split
    case h_4 => exact ih hw1
    all_goals
      simp only [pure_eq, ensures_done]
      exact hw1

theorem pairs_eq_singleton {α β : Type} [DecidableEq α] {pairs : List (α × β)} {key : α}
    {value : β} (hky : (pairs.map Prod.fst).dedup.length = 1)
    (hvl : (pairs.filter fun pair => pair.1 = key).map Prod.snd = [value]) :
    pairs = [(key, value)] := by
  obtain ⟨only, ho⟩ := length_eq_one_iff.mp hky
  have ha : ∀ pair ∈ pairs, pair.1 = only := by
    intro pair hp
    have hm := mem_dedup.mpr (mem_map_of_mem (f := Prod.fst) hp)
    rw [ho] at hm
    exact mem_singleton.mp hm
  obtain ⟨⟨k, v⟩, hf, hv⟩ := map_eq_singleton_iff.mp hvl
  have hin : (k, v) ∈ pairs.filter fun pair => pair.1 = key := by simp [hf]
  obtain ⟨hm, hk⟩ := mem_filter.mp hin
  have hok : only = key := (ha _ hm).symm.trans (of_decide_eq_true hk)
  have hkp : pairs.filter (fun pair => pair.1 = key) = pairs := by
    rw [filter_eq_self]
    intro pair hp
    simp [ha pair hp, hok]
  rw [← hkp, hf, ← of_decide_eq_true hk, ← hv]

/-- A URL that passes the check of a redirect asks for the one service, as far as its query
decodes. -/
theorem validateURLShape_redirect (h : validateURLShape S u true = none) :
    u.user = none ∧ parseQuery u.rawQuery = [(serviceKey, uploadPack)] := by
  simp only [validateURLShape, Bool.not_true, Bool.false_eq_true, ↓reduceIte] at h
  split at h
  · cases h
  split at h
  · cases h
  case isFalse huser =>
    split at h
    · cases h
    split at h
    · cases h
    split at h
    · cases h
    case isFalse hquery =>
      simp only [ne_eq, Bool.or_eq_true, decide_eq_true_eq, not_or, not_not] at hquery
      refine ⟨by simpa using huser, ?_⟩
      exact pairs_eq_singleton hquery.1 hquery.2

theorem redirectHeaders_plain {he : String × String} {last new : URL}
    (h : he ∈ redirectHeaders S requestHeaders last new) : he.1 ∈ plainHeaders := by
  unfold redirectHeaders at h
  split at h
  · simp only [requestHeaders, mem_cons, not_mem_nil, or_false] at h
    rcases h with rfl | rfl <;> simp [plainHeaders]
  · simp only [requestHeaders, mem_append, mem_cons, not_mem_nil, or_false] at h
    rcases h with (rfl | rfl) | rfl <;> simp [plainHeaders]

/-- A redirect is followed only to a URL of the right shape, and only so often. -/
theorem ensures_checkRedirect (hp : ∀ he ∈ q.headers, he.1 ∈ plainHeaders) :
    Ensures adversary.exec (checkRedirect S q) w fun result w' =>
      w' = w ∧ ∀ next, result = .ok next →
        next.Anonymous ∧ next.via = q.via ∧ q.via.length < maxRedirects := by
  unfold checkRedirect
  split
  · apply ensures_done.mpr
    exact ⟨rfl, nofun⟩
  case isFalse hvia =>
    split
    · apply ensures_done.mpr
      exact ⟨rfl, nofun⟩
    case h_2 hshape =>
      obtain ⟨hu, hq⟩ := validateURLShape_redirect hshape
      apply ensures_publicIPs_vet.bind
      rintro result _ rfl
      cases result with
      | error e =>
        apply ensures_done.mpr
        exact ⟨rfl, nofun⟩
      | ok _ =>
        apply ensures_done.mpr
        refine ⟨rfl, ?_⟩
        intro next hn
        cases hn
        have hl : q.via.length < maxRedirects := by omega
        exact ⟨⟨rfl, hu, hp, hq, hl.le⟩, rfl, hl⟩

/-- What a turn of the client hands on is again a request to be sent. -/
theorem ensures_clientTurn (hw : Clean S w) (hq : q.Anonymous) :
    Ensures adversary.exec (clientTurn S requestHeaders q) w fun result w' =>
      Clean S w' ∧ ∀ next, result = .ok (.inr next) →
        next.Anonymous ∧ next.via = q.via ++ [q.url] ∧ next.via.length < maxRedirects := by
  simp only [clientTurn, call, perform_bind, ensures_call, exec_adversary]
  rintro retries _ rfl
  apply (ensures_roundTrip hw hq).bind
  intro result w1 hw1
  cases result with
  | error e =>
    simp only [pure_eq, ensures_done]
    exact ⟨hw1, by rintro _ ⟨⟩⟩
  | ok resp =>
    simp only []
    split
    · simp only [pure_eq, ensures_done]
      exact ⟨hw1, by rintro _ ⟨⟩⟩
    · simp only [pure_eq, ensures_done]
      exact ⟨hw1, by rintro _ ⟨⟩⟩
    apply (ensures_checkRedirect fun _ => redirectHeaders_plain).bind
    rintro checked _ ⟨rfl, hn⟩
    simp only [pure_eq, ensures_done]
    refine ⟨hw1, ?_⟩
    intro next hc
    cases checked with
    | error e => cases hc
    | ok next' =>
      obtain rfl : next' = next := by simpa [Except.map] using hc
      obtain ⟨ha, hv, hl⟩ := hn _ rfl
      exact ⟨ha, hv, hv ▸ hl⟩

theorem ensures_clientDo {turns : ℕ} (hw : Clean S w) (hq : q.Anonymous) :
    Ensures adversary.exec (clientDo S requestHeaders turns q) w fun _ w' => Clean S w' := by
  induction turns generalizing w q with
  | zero =>
    simp only [clientDo, pure_eq, ensures_done]
    exact hw
  | succ turns ih =>
    apply (ensures_clientTurn hw hq).bind
    rintro result w1 ⟨hw1, hn⟩
    split
    case h_3 next => exact ih hw1 (hn next rfl).1
    all_goals
      simp only [pure_eq, ensures_done]
      exact hw1

end Requests

theorem parseRepositoryURL_ok {raw : String} (h : parseRepositoryURL S raw = .ok u) :
    u.scheme = "https" ∧ u.user = none := by
  simp only [parseRepositoryURL] at h
  split at h
  · cases h
  split at h
  · cases h
  case h_2 parsed _ =>
    split at h
    · cases h
    case h_2 hs =>
      cases h
      simp only [validateURLShape] at hs
      split at hs
      · cases hs
      split at hs
      · cases hs
      case isFalse huser => exact ⟨rfl, by simpa using huser⟩

theorem advertisementURL_anonymous (hs : u.scheme = "https") (hu : u.user = none) :
    Request.Anonymous ⟨advertisementURL u, requestHeaders, []⟩ where
  https := hs
  noUser := hu
  plain := show ∀ he ∈ requestHeaders, he.1 ∈ plainHeaders by decide
  query := show parseQuery "service=git-upload-pack" = _ by decide +kernel
  chain := Nat.zero_le _

/-- The whole resolution dials and asks in that way only. -/
theorem ensures_resolveCommit {repoURL : String} {ref : Bytes} (hw : Clean S w) :
    Ensures adversary.exec (resolveCommit S repoURL ref) w fun _ w' => Clean S w' := by
  unfold resolveCommit
  split
  · simp only [pure_eq, ensures_done]
    exact hw
  split
  · simp only [pure_eq, ensures_done]
    exact hw
  case h_2 repository hrepository =>
    obtain ⟨hs, hu⟩ := parseRepositoryURL_ok hrepository
    apply ensures_publicIPs_vet.bind
    rintro result _ rfl
    cases result with
    | error e =>
      simp only [pure_eq, ensures_done]
      exact hw
    | ok _ =>
      apply (ensures_clientDo hw (advertisementURL_anonymous hs hu)).bind
      intro response w1 hw1
      cases response <;> simpa only [pure_eq, ensures_done] using hw1

def unused : World := ⟨[], []⟩

theorem clean_unused : Clean S unused := ⟨nofun, nofun⟩

def AsksOnlyUploadPack (q : Request) : Prop :=
  ∀ part ∈ queryParts q.url.rawQuery, decodePair part = some (serviceKey, uploadPack)

instance (q : Request) : Decidable (AsksOnlyUploadPack q) :=
  inferInstanceAs (Decidable (∀ part ∈ queryParts q.url.rawQuery, _))

/-- No part of the query is dropped as it is read. -/
def Decodes (rawQuery : String) : Prop :=
  ∀ part ∈ queryParts rawQuery, (decodePair part).isSome = true

instance (rawQuery : String) : Decidable (Decodes rawQuery) :=
  inferInstanceAs (Decidable (∀ part ∈ queryParts rawQuery, _))

theorem asksOnlyUploadPack_iff {q : Request}
    (h : parseQuery q.url.rawQuery = [(serviceKey, uploadPack)]) :
    AsksOnlyUploadPack q ↔ Decodes q.url.rawQuery := by
  constructor
  · intro ha part hp
    rw [ha part hp, Option.isSome_some]
  · intro hd part hp
    obtain ⟨pair, hpair⟩ := Option.isSome_iff_exists.mp (hd part hp)
    have hm : pair ∈ (queryParts q.url.rawQuery).filterMap decodePair :=
      mem_filterMap.mpr ⟨part, hp, hpair⟩
    unfold parseQuery at h
    split at h
    · cases h
    · rw [h, mem_singleton] at hm
      rw [hpair, hm]

/-- Whatever DNS, the network and the servers answer: connections go to port 443 of public
addresses that the dial's own lookup returned, none is tried when that answer has a part
that is not public, and what is sent asks anonymously, over HTTPS and as far as its query
decodes, for the one service, at the end of a bounded chain of redirects. A request asks for
nothing else if and only if every part of its query decodes. -/
theorem resolution_stays_public {S : Stdlib} {repoURL : String} {ref : Bytes}
    {result : Except Problem Bytes} {w : World}
    (h : Runs adversary.exec (resolveCommit S repoURL ref) unused result w) :
    (∀ d ∈ w.dials, ∀ e ∈ d.attempts, e.port = "443" ∧ isPublicIP e.ip = true ∧
      match d.answer with
      | some answer => ∃ a ∈ answer, ∃ raw, addrFromSlice a.ip = some raw ∧ e.ip = raw.unmap
      | none => ∃ host literal, splitHostPort d.address = some (host, "443") ∧
          S.parseAddr host = some literal ∧ e.ip = literal.unmap) ∧
    (∀ d ∈ w.dials, ∀ answer, d.answer = some answer →
      (∃ a ∈ answer, a.zone ≠ "" ∨ ∀ raw, addrFromSlice a.ip = some raw →
        isPublicIP raw.unmap = false) → d.attempts = []) ∧
    (∀ q ∈ w.requests, q.url.scheme = "https" ∧ q.url.user = none ∧
      (∀ header ∈ q.headers, header.1 ∈ plainHeaders) ∧
      parseQuery q.url.rawQuery = [(serviceKey, uploadPack)] ∧
      (AsksOnlyUploadPack q ↔ Decodes q.url.rawQuery)) ∧
    ∀ q ∈ w.requests, q.via.length ≤ maxRedirects := by
  have hclean := (ensures_resolveCommit clean_unused).post result w h
  constructor
  · intro d hd e he
    obtain ⟨hport, host, hsplit, hvetted⟩ := hclean.dials d hd e he
    refine ⟨hport, hvetted.isPublic, ?_⟩
    cases hanswer : d.answer with
    | some answer =>
      rw [hanswer] at hvetted
      obtain ⟨⟨a, ha, _, _, hraw⟩, _⟩ := hvetted
      exact ⟨a, ha, hraw⟩
    | none =>
      rw [hanswer] at hvetted
      obtain ⟨_, literal, hliteral, hip⟩ := hvetted
      exact ⟨host, literal, hsplit, hliteral, hip⟩
  constructor
  · rintro d hd answer hanswer ⟨a, ha, hbad⟩
    apply eq_nil_iff_forall_not_mem.mpr
    intro e he
    obtain ⟨_, host, _, hvetted⟩ := hclean.dials d hd e he
    rw [hanswer] at hvetted
    obtain ⟨ip, hzone, hpublic, raw, hraw, rfl⟩ := hvetted.2 a ha
    rcases hbad with hbad | hbad
    · exact hbad hzone
    · simp [hbad raw hraw] at hpublic
  constructor
  · intro q hq
    have hanon := hclean.requests q hq
    exact ⟨hanon.https, hanon.noUser, hanon.plain, hanon.query,
      asksOnlyUploadPack_iff hanon.query⟩
  · intro q hq
    exact (hclean.requests q hq).chain

def sampleURL (host : String) (path : Bytes) (rawQuery : String) : URL :=
  ⟨"https", "", none, host, path, [], false, rawQuery, ""⟩

def repositoryText : String := "https://git.example/app"

def redirectText : String :=
  "https://mirror.example/app/info/refs?service=git-upload-pack&service=git-receive-pack;"

def sampleStdlib : Stdlib where
  parseURL raw :=
    if raw = repositoryText then some (sampleURL "git.example" (bytes "/app") "") else none
  resolveReference _ reference :=
    if reference = redirectText then
      some (sampleURL "mirror.example" (bytes "/app/info/refs")
        "service=git-upload-pack&service=git-receive-pack;")
    else none
  renderURL _ := "https://git.example/app/info/refs?service=git-upload-pack"
  parseAddr _ := none
  idnaASCII host := host
  trimSpace text := text
  equalFold a b := a = b
  parseMediaType _ := none

/-- Public hosts; the first server redirects and the second knows nothing. -/
def redirectingPick : (c : Call) → World → c.Reply
  | .lookupIP _ _, _ => some [⟨[140, 82, 121, 4], ""⟩]
  | .connect _ _, _ => .opened
  | .reuse _, _ => false
  | .retries, _ => 0
  | .send q, _ =>
    if q.via = [] then .response ⟨302, redirectText, "", some []⟩
    else .response ⟨404, "", "", some []⟩

def redirectedWorld : World :=
  adversary.after redirectingPick (resolveCommit sampleStdlib repositoryText []) unused

theorem runs_redirected : Runs adversary.exec (resolveCommit sampleStdlib repositoryText []) unused
    (.error (.status 404)) redirectedWorld :=
  adversary.runs_after (by decide +kernel)

/-- Both hosts of the run are dialed, at public addresses, and the first is asked for the one
service only. -/
theorem redirected_dials_public : redirectedWorld.dials.length = 2 ∧
    redirectedWorld.requests.length = 2 ∧
    (∀ d ∈ redirectedWorld.dials, ∀ e ∈ d.attempts, e.port = "443" ∧ isPublicIP e.ip = true) ∧
    (∀ q ∈ redirectedWorld.requests, q.via = [] → AsksOnlyUploadPack q) ∧
    ∀ q ∈ redirectedWorld.requests, q.via.length ≤ maxRedirects := by
  obtain ⟨hdials, _, hasks, hchain⟩ := resolution_stays_public runs_redirected
  have hlengths : redirectedWorld.dials.length = 2 ∧ redirectedWorld.requests.length = 2 := by
    decide +kernel
  have hdecodes : ∀ q ∈ redirectedWorld.requests, q.via = [] → Decodes q.url.rawQuery := by
    decide +kernel
  refine ⟨hlengths.1, hlengths.2, ?_, ?_, hchain⟩
  · intro d hd e he
    obtain ⟨hport, hpublic, _⟩ := hdials d hd e he
    exact ⟨hport, hpublic⟩
  · intro q hq hvia
    exact (hasks q hq).2.2.2.2.mpr (hdecodes q hq hvia)

/-- The check of a redirect reads the decoded query only, so a part that does not decode
is sent on. -/
theorem malformed_pair_sent : ∃ S repoURL ref result w,
    Runs adversary.exec (resolveCommit S repoURL ref) unused result w ∧
      ∃ q ∈ w.requests, ¬ AsksOnlyUploadPack q :=
  ⟨_, _, _, _, _, runs_redirected, by decide +kernel⟩

end Orkano.Operator.GitResolver
