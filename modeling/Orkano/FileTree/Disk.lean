import Mathlib.Data.List.Infix
import Mathlib.Data.List.Nodup
import Mathlib.Data.Nat.Notation
import Mathlib.Tactic.Common

/-!
A disk with symbolic links. A path is walked step by step, and a link on the way is replaced by
its target; where no link is below a place, walking down from there stays below.
-/
namespace FileTree

open List

inductive Step (ν : Type) where
  | down (name : ν)
  | up
deriving DecidableEq, Repr

inductive Object (ν κ : Type) where
  | dir
  | file (content : κ)
  /-- The target starts at the root or where the link is. -/
  | link (rooted : Bool) (target : List (Step ν))
deriving DecidableEq, Repr

def Object.isLink {ν κ : Type} : Object ν κ → Bool
  | link _ _ => true
  | _ => false

variable {ν κ : Type} [DecidableEq ν]

/-- What is at a place; the root is always there. -/
def objectAt (objects : List (List ν × Object ν κ)) (p : List ν) : Option (Object ν κ) :=
  if p = [] then some .dir else objects.lookup p

structure Disk (ν κ : Type) [DecidableEq ν] where
  objects : List (List ν × Object ν κ)
  room : ℕ
  parents : ∀ p o, objectAt objects p = some o → objectAt objects p.dropLast = some .dir

namespace Disk

section Objects

def empty (room : ℕ) : Disk ν κ where
  objects := []
  room
  parents p o h := by
    unfold objectAt at h ⊢
    split at h
    · rename_i hp
      rw [hp]
      rfl
    · cases h

def get (d : Disk ν κ) (p : List ν) : Option (Object ν κ) := objectAt d.objects p

@[simp] theorem get_nil (d : Disk ν κ) : d.get [] = some .dir := rfl

def isDir (d : Disk ν κ) (p : List ν) : Bool :=
  match d.get p with
  | some .dir => true
  | _ => false

variable {d : Disk ν κ} {p : List ν}

theorem isDir_iff : d.isDir p = true ↔ d.get p = some .dir := by
  unfold isDir
  split
  · simp [*]
  · simpa using by assumption

variable {objects : List (List ν × Object ν κ)} {o : Object ν κ}

theorem mem_of_lookup (h : objects.lookup p = some o) : (p, o) ∈ objects := by
  obtain ⟨front, back, rfl, -⟩ := lookup_eq_some_iff.mp h
  exact mem_append_right front mem_cons_self

theorem ne_nil_of_get_none (h : d.get p = none) : p ≠ [] := by
  rintro rfl
  cases h

theorem objectAt_cons (hp : p ≠ []) (o : Object ν κ) (q : List ν) :
    objectAt ((p, o) :: objects) q = if q = p then some o else objectAt objects q := by
  by_cases hq : q = p
  · subst hq
    simp [objectAt, hp]
  · simp [objectAt, hq, lookup_cons, beq_eq_false_iff_ne.mpr hq]

def put (d : Disk ν κ) (p : List ν) (o : Object ν κ) (hfree : d.get p = none)
    (hparent : d.get p.dropLast = some .dir) : Disk ν κ where
  objects := (p, o) :: d.objects
  room := d.room - 1
  parents := by
    have hp := ne_nil_of_get_none hfree
    have hdirs : ∀ q, d.get q = some .dir → objectAt ((p, o) :: d.objects) q = some .dir := by
      intro q hq
      have hne : q ≠ p := by
        rintro rfl
        rw [hfree] at hq
        cases hq
      rw [objectAt_cons hp, if_neg hne]
      exact hq
    intro q o' hq
    rw [objectAt_cons hp] at hq
    apply hdirs
    split at hq
    · rename_i heq
      rw [heq]
      exact hparent
    · exact d.parents q o' hq

def insert (d : Disk ν κ) (p : List ν) (o : Object ν κ) : Option (Disk ν κ) :=
  if h : 0 < d.room ∧ (d.get p).isNone = true ∧ d.isDir p.dropLast = true then
    some (d.put p o (Option.isNone_iff_eq_none.mp h.2.1) (isDir_iff.mp h.2.2))
  else none

theorem insert_eq_some {d' : Disk ν κ} (h : d.insert p o = some d') :
    d.get p = none ∧ d'.objects = (p, o) :: d.objects := by
  unfold insert at h
  split at h
  · rename_i hf
    cases h
    exact ⟨Option.isNone_iff_eq_none.mp hf.2.1, rfl⟩
  · cases h

theorem get_of_insert {d' : Disk ν κ} (h : d.insert p o = some d') : d'.get p = some o := by
  obtain ⟨hf, ho⟩ := insert_eq_some h
  rw [get, ho, objectAt_cons (ne_nil_of_get_none hf), if_pos rfl]

/-- In a directory with room an object can be made where nothing is. -/
theorem insert_succeeds (hr : 0 < d.room) (hf : d.get p = none)
    (hp : d.get p.dropLast = some .dir) (o : Object ν κ) :
    ∃ d', d.insert p o = some d' ∧ d.room = d'.room + 1 := by
  have h : 0 < d.room ∧ (d.get p).isNone = true ∧ d.isDir p.dropLast = true :=
    ⟨hr, by simp [hf], isDir_iff.mpr hp⟩
  refine ⟨d.put p o hf hp, by rw [insert, dif_pos h], ?_⟩
  simp only [put]
  omega

def children (d : Disk ν κ) (p : List ν) : List ν :=
  d.objects.filterMap fun e => if e.1.dropLast = p then e.1.getLast? else none

/-- Everything on the way to an object is a directory. -/
theorem dir_of_get_append {rest : List ν} (h : d.get (p ++ rest) = some o) (hr : rest ≠ []) :
    d.get p = some .dir := by
  induction rest using List.reverseRecOn generalizing o with
  | nil => exact absurd rfl hr
  | append_singleton rest name ih =>
    have hp : d.get (p ++ rest) = some .dir := by
      have := d.parents _ _ h
      rwa [← append_assoc, dropLast_concat] at this
    by_cases hr' : rest = []
    · rwa [hr', append_nil] at hp
    · exact ih hp hr'

theorem get_of_children_nil {root rest : List ν} (h : d.children root = []) (hr : rest ≠ []) :
    d.get (root ++ rest) = none := by
  obtain ⟨name, rest, rfl⟩ := exists_cons_of_ne_nil hr
  by_contra hne
  obtain ⟨o, ho⟩ := Option.ne_none_iff_exists'.mp hne
  obtain ⟨o', hname⟩ : ∃ o', d.get (root ++ [name]) = some o' := by
    rw [append_cons] at ho
    by_cases hrest : rest = []
    · rw [hrest, append_nil] at ho
      exact ⟨o, ho⟩
    · exact ⟨_, dir_of_get_append ho hrest⟩
  have hm : (root ++ [name], o') ∈ d.objects := mem_of_lookup (by simpa [get, objectAt] using hname)
  have hc : name ∈ d.children root := mem_filterMap.mpr ⟨_, hm, by simp⟩
  rw [h] at hc
  cases hc

end Objects

section Walking

/-- Steps from a place on, with what becomes of the walk at a link and how many links may
still be followed. -/
def walk (d : Disk ν κ) (jump : List ν → List (Step ν) → Option (List ν × ℕ)) (left : ℕ) :
    List ν → List (Step ν) → Option (List ν × ℕ)
  | here, [] => some (here, left)
  | here, .up :: rest => d.walk jump left here.dropLast rest
  | here, .down name :: rest =>
    match d.get (here ++ [name]) with
    | some .dir => d.walk jump left (here ++ [name]) rest
    | some (.link rooted target) => jump (if rooted then [] else here) (target ++ rest)
    | _ => none

/-- The directory that a path leads to, and the links that may still be followed. -/
def resolve (d : Disk ν κ) : ℕ → List ν → List (Step ν) → Option (List ν × ℕ)
  | 0 => d.walk (fun _ _ => none) 0
  | left + 1 => d.walk (d.resolve left) (left + 1)

theorem resolve_eq_walk (d : Disk ν κ) (left : ℕ) : ∃ jump, d.resolve left = d.walk jump left := by
  cases left with
  | zero | succ => exact ⟨_, rfl⟩

variable {d : Disk ν κ} {left : ℕ}

/-- A walk along two paths is the walk along the first, and then the other. -/
theorem walk_append {jump : List ν → List (Step ν) → Option (List ν × ℕ)}
    {back : List (Step ν)} (hj : ∀ here front, jump here (front ++ back) =
      (jump here front).bind fun r => d.resolve r.2 r.1 back)
    (hl : d.resolve left = d.walk jump left) (here : List ν) (front : List (Step ν)) :
    d.walk jump left here (front ++ back) =
      (d.walk jump left here front).bind fun r => d.resolve r.2 r.1 back := by
  induction front generalizing here with
  | nil =>
    simp only [nil_append, walk, Option.bind_some]
    rw [hl]
  | cons step front ih =>
    cases step with
    | up => exact ih here.dropLast
    | down name =>
      simp only [cons_append, walk]
      cases d.get (here ++ [name]) with
      | none => rfl
      | some o =>
        cases o with
        | dir => exact ih (here ++ [name])
        | file content => rfl
        | link rooted target =>
          dsimp only
          rw [← append_assoc, hj]

theorem resolve_append (d : Disk ν κ) (left : ℕ) (here : List ν) (front back : List (Step ν)) :
    d.resolve left here (front ++ back) =
      (d.resolve left here front).bind fun r => d.resolve r.2 r.1 back := by
  induction left generalizing here front with
  | zero => exact walk_append (fun _ _ => rfl) rfl here front
  | succ left ih => exact walk_append ih rfl here front

variable {r : List ν × ℕ}

/-- What a walk finds, it finds on every disk that has the same objects and more. -/
theorem resolve_mono {d' : Disk ν κ} (h : ∀ p o, d.get p = some o → d'.get p = some o)
    {here : List ν} {steps : List (Step ν)} (hr : d.resolve left here steps = some r) :
    d'.resolve left here steps = some r := by
  have hw : ∀ {left : ℕ} {jump jump' : List ν → List (Step ν) → Option (List ν × ℕ)},
      (∀ here steps, jump here steps = some r → jump' here steps = some r) →
      ∀ {steps here}, d.walk jump left here steps = some r → d'.walk jump' left here steps = some r
        := by
    intro left jump jump' hj steps
    induction steps with
    | nil => exact fun hr => hr
    | cons step steps ih =>
      intro here hr
      cases step with
      | up => exact ih hr
      | down name =>
        simp only [walk] at hr ⊢
        cases ho : d.get (here ++ [name]) with
        | none =>
          rw [ho] at hr
          cases hr
        | some o =>
          rw [ho] at hr
          rw [h _ _ ho]
          cases o with
          | dir => exact ih hr
          | file content => cases hr
          | link rooted target => exact hj _ _ hr
  induction left generalizing here steps with
  | zero => exact hw (fun _ _ hr => hr) hr
  | succ left ih => exact hw (fun _ _ hr => ih hr) hr

def NoLinks (d : Disk ν κ) (root : List ν) : Prop :=
  ∀ rest o, rest ≠ [] → d.get (root ++ rest) = some o → o.isLink = false

/-- Where no link is below, walking down leads where the names say, and to directories only. -/
theorem resolve_down {root : List ν} (h : d.NoLinks root) (names : List ν) :
    d.resolve left root (names.map .down) =
      if names = [] ∨ d.isDir (root ++ names) = true then some (root ++ names, left) else none := by
  obtain ⟨jump, hj⟩ := d.resolve_eq_walk left
  induction names using List.reverseRecOn with
  | nil => simp [hj, walk]
  | append_singleton front name ih =>
    have hne : front ++ [name] ≠ [] := by simp
    rw [map_append, resolve_append, ih]
    split
    · rw [Option.bind_some, hj]
      simp only [map_cons, map_nil, walk, append_assoc, hne, false_or, isDir]
      have hp := h (front ++ [name])
      cases ho : d.get (root ++ (front ++ [name])) with
      | none => simp
      | some o =>
        cases o with
        | dir | file content => simp
        | link rooted target => cases hp _ hne ho
    · rename_i hf
      have ho : d.isDir (root ++ (front ++ [name])) ≠ true := by
        intro ho
        rw [isDir_iff, ← append_assoc] at ho
        exact hf (.inr (isDir_iff.mpr (dir_of_get_append ho (by simp))))
      rw [Option.bind_none, if_neg (not_or.mpr ⟨hne, ho⟩)]

end Walking

section Making

def make (d : Disk ν κ) (left : ℕ) (here : List ν) (steps : List (Step ν)) (o : Object ν κ) :
    Option (Disk ν κ) :=
  match steps.getLast?, d.resolve left here steps.dropLast with
  | some (.down name), some (p, _) => d.insert (p ++ [name]) o
  | _, _ => none

/-- Make the directories of the first steps that are missing; what was made stays when it
fails. Where something else is in the way, a directory cannot be made. -/
def mkdirAll (d : Disk ν κ) (left : ℕ) (here : List ν) (steps : List (Step ν)) : ℕ → Disk ν κ × Bool
  | 0 => (d, true)
  | n + 1 =>
    if (d.resolve left here (steps.take (n + 1))).isSome then (d, true)
    else match d.mkdirAll left here steps n with
    | (d, false) => (d, false)
    | (d, true) =>
      match d.make left here (steps.take (n + 1)) .dir with
      | some d => (d, true)
      | none => (d, (d.resolve left here (steps.take (n + 1))).isSome)

variable {o : Object ν κ}

theorem objects_of_make {d d' : Disk ν κ} {left : ℕ} {here : List ν} {steps : List (Step ν)}
    (h : d.make left here steps o = some d') : ∃ p, d'.objects = (p, o) :: d.objects := by
  unfold make at h
  split at h
  · exact ⟨_, (insert_eq_some h).2⟩
  · cases h

/-- Wherever a path leads, only directories are made on the way. -/
theorem objects_of_mkdirAll (d : Disk ν κ) (left : ℕ) (here : List ν) (steps : List (Step ν))
    (n : ℕ) :
    ∃ new, (d.mkdirAll left here steps n).1.objects = new ++ d.objects ∧ ∀ e ∈ new, e.2 = .dir := by
  induction n with
  | zero => exact ⟨[], rfl, nofun⟩
  | succ n ih =>
    unfold mkdirAll
    split
    · exact ⟨[], rfl, nofun⟩
    obtain ⟨new, ho, hn⟩ := ih
    split
    · rename_i d1 hm
      rw [hm] at ho
      exact ⟨new, ho, hn⟩
    rename_i d1 hm
    rw [hm] at ho
    split
    · rename_i d2 hmk
      obtain ⟨p, hp⟩ := objects_of_make hmk
      refine ⟨(p, .dir) :: new, ?_, fun e he => ?_⟩
      · rw [hp, ho, cons_append]
      rcases mem_cons.mp he with rfl | he
      · rfl
      · exact hn e he
    · exact ⟨new, ho, hn⟩

structure Grown (root : List ν) (d d' : Disk ν κ) (new : List (List ν × Object ν κ)) : Prop where
  objects : d'.objects = new ++ d.objects
  below : ∀ e ∈ new, ∃ rest, rest ≠ [] ∧ e.1 = root ++ rest
  plain : ∀ e ∈ new, e.2.isLink = false
  fresh : ∀ e ∈ new, d.get e.1 = none

variable {root : List ν} {d d' d'' : Disk ν κ} {new new' : List (List ν × Object ν κ)}

theorem Grown.refl (root : List ν) (d : Disk ν κ) : Grown root d d [] := ⟨rfl, nofun, nofun, nofun⟩

variable {p : List ν}

theorem Grown.get_of_get (h : Grown root d d' new) (hp : d.get p = some o) : d'.get p = some o := by
  by_cases hn : p = []
  · rw [hn] at hp ⊢
    exact hp
  have hnn : new.lookup p = none := by
    rw [lookup_eq_none_iff]
    intro e he
    rw [bne_iff_ne]
    rintro rfl
    rw [h.fresh e he] at hp
    cases hp
  simp only [get, objectAt, if_neg hn] at hp ⊢
  rw [h.objects, lookup_append, hnn, Option.none_or, hp]

/-- What is found on a grown disk was there before or is new. -/
theorem Grown.get_cases (h : Grown root d d' new) (hp : d'.get p = some o) :
    d.get p = some o ∨ (p, o) ∈ new := by
  by_cases hnl : p = []
  · rw [hnl] at hp ⊢
    exact .inl hp
  simp only [get, objectAt, if_neg hnl] at hp ⊢
  rw [h.objects, lookup_append] at hp
  cases hn : new.lookup p with
  | none =>
    rw [hn, Option.none_or] at hp
    exact .inl hp
  | some o' =>
    rw [hn] at hp
    cases hp
    exact .inr (mem_of_lookup hn)

/-- Growth in two steps is growth. -/
theorem Grown.trans (h : Grown root d d' new) (h' : Grown root d' d'' new') :
    Grown root d d'' (new' ++ new) where
  objects := by rw [h'.objects, h.objects, append_assoc]
  below e he := by
    rcases mem_append.mp he with he | he
    · exact h'.below e he
    · exact h.below e he
  plain e he := by
    rcases mem_append.mp he with he | he
    · exact h'.plain e he
    · exact h.plain e he
  fresh e he := by
    rcases mem_append.mp he with he | he
    · cases hg : d.get e.1 with
      | none => rfl
      | some o =>
        have hn := h'.fresh e he
        rw [h.get_of_get hg] at hn
        cases hn
    · exact h.fresh e he

theorem Grown.noLinks (h : Grown root d d' new) (hl : d.NoLinks root) : d'.NoLinks root := by
  intro rest o hr ho
  rcases h.get_cases ho with ho | ho
  · exact hl rest o hr ho
  · exact h.plain _ ho

variable {left left' : ℕ} {here : List ν} {base : List (Step ν)}

/-- Below a place that a path leads to, an object is made where the names say. -/
theorem make_down (hl : d.NoLinks root) (hb : d.resolve left here base = some (root, left'))
    {names : List ν} (hn : names ≠ []) :
    d.make left here (base ++ names.map .down) o = d.insert (root ++ names) o := by
  obtain ⟨front, name, rfl⟩ := (eq_nil_or_concat' names).resolve_left hn
  have hls : (base ++ (front ++ [name]).map Step.down).getLast? = some (.down name) := by
    simp
  have hfr : (base ++ (front ++ [name]).map Step.down).dropLast = base ++ front.map .down := by
    simp [← append_assoc]
  unfold make
  rw [hls, hfr, resolve_append, hb, Option.bind_some, resolve_down hl]
  by_cases hd : front = [] ∨ d.isDir (root ++ front) = true
  · simp only [if_pos hd, append_assoc]
  · simp only [if_neg hd]
    have hpr : (root ++ (front ++ [name])).dropLast = root ++ front := by
      rw [← append_assoc, dropLast_concat]
    rw [insert, dif_neg]
    rw [hpr]
    exact fun h => hd (.inr h.2.2)

theorem grown_of_make {names : List ν} (hl : d.NoLinks root)
    (hb : d.resolve left here base = some (root, left')) (hn : names ≠ []) (ho : o.isLink = false)
    (h : d.make left here (base ++ names.map .down) o = some d') :
    Grown root d d' [(root ++ names, o)] := by
  rw [make_down hl hb hn] at h
  obtain ⟨hf, hob⟩ := insert_eq_some h
  refine ⟨hob, ?_, ?_, ?_⟩ <;>
  · intro e he
    rw [mem_singleton] at he
    rw [he]
    first
      | exact ⟨_, hn, rfl⟩
      | exact ho
      | exact hf

/-- Directories are made below the place only, each where the names say. -/
theorem grown_of_mkdirAll (hl : d.NoLinks root)
    (hb : d.resolve left here base = some (root, left')) (names : List ν) (n : ℕ) :
    ∃ new, Grown root d (d.mkdirAll left here (base ++ names.map .down) n).1 new ∧
      ∀ e ∈ new, e.2 = .dir ∧ ∃ front, front <+: names ∧ e.1 = root ++ front := by
  induction n with
  | zero => exact ⟨[], .refl root d, nofun⟩
  | succ n ih =>
    unfold mkdirAll
    split
    · exact ⟨[], .refl root d, nofun⟩
    rename_i hm
    obtain ⟨new, hg, hn⟩ := ih
    split
    · rename_i d1 hmd
      rw [hmd] at hg
      exact ⟨new, hg, hn⟩
    rename_i d1 hmd
    rw [hmd] at hg
    split
    · rename_i d2 hmk
      -- The path up to the place is there, so the missing one goes beyond it.
      have hby : base.length < n + 1 := by
        rw [← not_le]
        intro hle
        apply hm
        have hp := resolve_append d left here (base.take (n + 1)) (base.drop (n + 1))
        rw [take_append_drop, hb] at hp
        rw [take_append_of_le_length hle]
        cases hf : d.resolve left here (base.take (n + 1)) with
        | none =>
          rw [hf] at hp
          cases hp
        | some r => rfl
      have hs : (base ++ names.map Step.down).take (n + 1) =
          base ++ (names.take (n + 1 - base.length)).map .down := by
        rw [take_append, take_of_length_le hby.le, map_take]
      rw [hs] at hm hmk
      have hne : names.take (n + 1 - base.length) ≠ [] := by
        intro hnl
        rw [hnl, map_nil, append_nil, hb] at hm
        exact hm rfl
      have hls := grown_of_make (hg.noLinks hl)
        (resolve_mono (fun _ _ => hg.get_of_get) hb) hne rfl hmk
      refine ⟨_, hg.trans hls, fun e he => ?_⟩
      rcases mem_append.mp he with he | he
      · rw [mem_singleton] at he
        rw [he]
        exact ⟨rfl, _, take_prefix _ _, rfl⟩
      · exact hn e he
    · exact ⟨new, hg, hn⟩

theorem mkdirAll_append {front : List (Step ν)} {n : ℕ} (h : n ≤ front.length)
    (back : List (Step ν)) :
    d.mkdirAll left here (front ++ back) n = d.mkdirAll left here front n := by
  induction n with
  | zero => rfl
  | succ n ih => simp only [mkdirAll, take_append_of_le_length h, ih (Nat.le_of_succ_le h)]

section Below

variable {names : List ν}

theorem isDir_of_resolve (hl : d.NoLinks root) (hb : d.resolve left here base = some (root, left'))
    (hn : names ≠ []) (h : (d.resolve left here (base ++ names.map .down)).isSome = true) :
    d.get (root ++ names) = some .dir := by
  rw [resolve_append, hb, Option.bind_some, resolve_down hl] at h
  split at h
  · rename_i hd
    exact isDir_iff.mp (hd.resolve_left hn)
  · cases h

/-- Where making the directories of a path succeeds, it leads to one. -/
theorem dir_of_mkdirAll (hl : d.NoLinks root) (hb : d.resolve left here base = some (root, left'))
    (hn : names ≠ [])
    (h : d.mkdirAll left here (base ++ names.map .down) (base.length + names.length) = (d', true)) :
    d'.get (root ++ names) = some .dir := by
  obtain ⟨n, hlen⟩ : ∃ n, base.length + names.length = n + 1 :=
    ⟨base.length + names.length - 1, by have := length_pos_iff.mpr hn; omega⟩
  have ht : (base ++ names.map Step.down).take (n + 1) = base ++ names.map .down :=
    take_of_length_le (by simp [hlen])
  obtain ⟨new, hg, -⟩ := grown_of_mkdirAll hl hb names n
  rw [hlen] at h
  simp only [mkdirAll, ht] at h
  split at h
  · rename_i hs
    cases h
    exact isDir_of_resolve hl hb hn hs
  split at h
  · cases h
  rename_i d1 hm
  rw [hm] at hg
  have hl1 := hg.noLinks hl
  have hb1 := resolve_mono (fun _ _ => hg.get_of_get) hb
  split at h
  · rename_i d2 hmk
    cases h
    rw [make_down hl1 hb1 hn] at hmk
    exact get_of_insert hmk
  · injection h with hd hs
    rw [← hd]
    exact isDir_of_resolve hl1 hb1 hn hs

/-- Directories can be made, given room for them, unless a file is in the way. -/
theorem mkdirAll_succeeds (hl : d.NoLinks root) (hd : d.get root = some .dir)
    (hb : d.resolve left here base = some (root, left'))
    (hc : ∀ front, front <+: names → ∀ content, d.get (root ++ front) ≠ some (.file content))
    (hr : names.length ≤ d.room) :
    ∃ d', d.mkdirAll left here (base ++ names.map .down) (base.length + names.length) = (d', true) ∧
      d.room ≤ d'.room + names.length := by
  induction names using List.reverseRecOn with
  | nil =>
    refine ⟨d, ?_, Nat.le_add_right ..⟩
    cases hlen : base.length with
    | zero => rfl
    | succ n =>
      have ht : base.take (n + 1) = base := take_of_length_le hlen.le
      simp [mkdirAll, ht, hb]
  | append_singleton front name ih =>
    have hne : front ++ [name] ≠ [] := by simp
    have hpr : front <+: front ++ [name] := prefix_append ..
    rw [length_append, length_singleton] at hr ⊢
    obtain ⟨d1, hm, hr1⟩ := ih (fun f hf => hc f (hf.trans hpr)) (by omega)
    have ht : (base ++ (front ++ [name]).map Step.down).take (base.length + front.length + 1) =
        base ++ (front ++ [name]).map .down := take_of_length_le (by simp; omega)
    have hm' : d.mkdirAll left here (base ++ (front ++ [name]).map .down)
        (base.length + front.length) = (d1, true) := by
      rw [map_append, ← append_assoc, mkdirAll_append (by simp), hm]
    rw [← Nat.add_assoc]
    simp only [mkdirAll, ht, hm']
    split
    · exact ⟨d, rfl, by omega⟩
    obtain ⟨new, hg, hnew⟩ := grown_of_mkdirAll hl hb front (base.length + front.length)
    rw [hm] at hg
    have hl1 := hg.noLinks hl
    have hb1 := resolve_mono (fun _ _ => hg.get_of_get) hb
    have hfront : d1.get (root ++ front) = some .dir := by
      by_cases hf : front = []
      · rw [hf, append_nil]
        exact hg.get_of_get hd
      · exact dir_of_mkdirAll hl hb hf hm
    rw [make_down hl1 hb1 hne]
    cases ho : d1.get (root ++ (front ++ [name])) with
    | none =>
      have hp : d1.get (root ++ (front ++ [name])).dropLast = some .dir := by
        rwa [← append_assoc, dropLast_concat]
      obtain ⟨d2, hi, hr2⟩ := insert_succeeds (by omega) ho hp .dir
      rw [hi]
      exact ⟨d2, rfl, by omega⟩
    | some o =>
      -- What is there already is a directory, so the path leads to it.
      have hdir : d1.isDir (root ++ (front ++ [name])) = true := by
        rw [isDir_iff, ho]
        rcases hg.get_cases ho with hold | hn
        · cases o with
          | dir => rfl
          | file content => exact absurd hold (hc _ (prefix_refl _) content)
          | link rooted target => cases hl _ _ hne hold
        · exact congrArg some (hnew _ hn).1
      have hi : d1.insert (root ++ (front ++ [name])) .dir = none := by
        rw [insert, dif_neg]
        simp [ho]
      rw [hi, resolve_append, hb1, Option.bind_some, resolve_down hl1, if_pos (.inr hdir)]
      exact ⟨d1, rfl, by omega⟩

end Below

end Making

end Disk
end FileTree
