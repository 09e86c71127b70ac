import Mathlib.Tactic.SplitIfs
import ServerActions.Proofs.Json.Grammar
import ServerActions.Proofs.Text.Reading

/-!
Readers of the layout of JSON texts: white space, items with commas between them, and brackets.  A
reader takes a text of its grammar off the front, provided that what follows cannot continue it.
-/

namespace ServerActions.Json

open Text

abbrev Reader (α : Type) := List Char → Option (α × List Char)

section Layout

variable {α β : Type}

def readMapped (f : α → β) (read : Reader α) : Reader β :=
  fun s => (read s).map fun (a, r) => (f a, r)

def readBoth (read : Reader α) (read' : Reader β) : Reader (α × β) :=
  fun s => do
    let (a, r) ← read s
    let (b, r) ← read' r
    return ((a, b), r)

def readPadded (read : Reader α) : Reader α :=
  fun s => do
    let (a, r) ← read (s.dropWhile isGap)
    return (a, r.dropWhile isGap)

def readListed (read : Reader α) (s : List Char) : Option (List α × List Char) :=
  match read s with
  | none => none
  | some (a, ',' :: r) =>
    if r.length < s.length then (readListed read r).map fun (as, r) => (a :: as, r) else none
  | some (a, r) => some ([a], r)
  termination_by s.length

def readMark (mark : Char) : List Char → Option (List Char)
  | [] => none
  | c :: s => if c = mark then some s else none

def readEnclosed (opening closing : Char) (read : Reader α) : Reader (List α) :=
  fun s => do
    let s ← readMark opening s
    match readMark closing (s.dropWhile isGap) with
    | some r => return ([], r)
    | none =>
      let (as, r) ← readListed read s
      return (as, ← readMark closing r)

end Layout

structure Reads {α : Type} (continues : Char → Bool) (read : Reader α) (g : Grammar α) : Prop where
  sound : ∀ {s r : List Char} {a : α}, read s = some (a, r) → ∃ t, s = t ++ r ∧ g a t
  complete : ∀ {t r : List Char} {a : α}, g a t → Stops continues r → read (t ++ r) = some (a, r)

def anywhere (_ : Char) : Bool := false

theorem stops_anywhere (s : List Char) : Stops anywhere s :=
  fun _ _ => rfl

section Layout

variable {α β : Type} {p q : Char → Bool} {read : Reader α} {read' : Reader β} {g : Grammar α}
  {h : Grammar β}

theorem readMark_eq_some_iff {c : Char} {s r : List Char} :
    readMark c s = some r ↔ s = c :: r := by
  cases s with
  | nil => simp [readMark]
  | cons d s =>
    rw [readMark]
    split_ifs with hd
    · simp [hd]
    · simp [hd]

theorem Reads.mono (hr : Reads p read g) (hpq : ∀ c, q c = false → p c = false) :
    Reads q read g :=
  ⟨hr.sound, fun ht hs => hr.complete ht fun c hc => hpq c (hs c hc)⟩

theorem Reads.mapped (hr : Reads p read g) (f : α → β) :
    Reads p (readMapped f read) (mapped f g) := by
  constructor
  · intro s r b hb
    obtain ⟨⟨a, u⟩, ha, he⟩ := Option.map_eq_some_iff.mp hb
    obtain ⟨rfl, rfl⟩ := Prod.mk.inj he
    obtain ⟨t, hs, ht⟩ := hr.sound ha
    exact ⟨t, hs, a, ht, rfl⟩
  · rintro t r b ⟨a, ha, rfl⟩ hs
    rw [readMapped, hr.complete ha hs]
    rfl

theorem Reads.both (hr : Reads p read g) (hr' : Reads q read' h)
    (hpq : ∀ b u r, h b u → Stops q r → Stops p (u ++ r)) :
    Reads q (readBoth read read') (followed g h) := by
  constructor
  · intro s r ab hab
    obtain ⟨⟨a, u⟩, ha, hab⟩ := Option.bind_eq_some_iff.mp hab
    obtain ⟨⟨b, v⟩, hb, hab⟩ := Option.bind_eq_some_iff.mp hab
    obtain ⟨rfl, rfl⟩ := Prod.mk.inj (Option.some.inj hab)
    obtain ⟨t, rfl, ht⟩ := hr.sound ha
    obtain ⟨t', rfl, ht'⟩ := hr'.sound hb
    exact ⟨t ++ t', (List.append_assoc _ _ _).symm, t, t', rfl, ht, ht'⟩
  · rintro t r ⟨a, b⟩ ⟨u, v, rfl, hu, hv⟩ hs
    rw [List.append_assoc, readBoth, hr.complete hu (hpq b v r hv hs)]
    show (read' (v ++ r)).bind _ = _
    rw [hr'.complete hv hs]
    rfl

theorem dropWhile_gap_append (gap : Gap) {s : List Char} (hs : Stops isGap s) :
    (gap.val ++ s).dropWhile isGap = s := by
  rw [List.dropWhile_append_of_pos gap.property, hs.dropWhile]

theorem exists_gap (s : List Char) : ∃ gap : Gap, s = gap.val ++ s.dropWhile isGap :=
  ⟨⟨s.takeWhile isGap, List.all_eq_true.mp List.all_takeWhile⟩,
    List.takeWhile_append_dropWhile.symm⟩

def isOpening (c : Char) : Bool :=
  c.isDigit || ['-', '"', '[', '\x7b', 't', 'f', 'n'].contains c

theorem isGap_of_isOpening {c : Char} (h : isOpening c = true) : isGap c = false := by
  cases hc : isGap c with
  | false => rfl
  | true =>
    simp only [isGap, Bool.or_eq_true, beq_iff_eq] at hc
    rcases hc with ((rfl | rfl) | rfl) | rfl <;> revert h <;> decide

def Opens (g : Grammar α) : Prop :=
  ∀ a t, g a t → ∃ c s, t = c :: s ∧ isOpening c = true

def OpensPadded (g : Grammar α) : Prop :=
  ∀ a t, g a t →
    ∃ (gap : Gap) (c : Char) (s : List Char), t = gap.val ++ c :: s ∧ isOpening c = true

theorem Opens.padded (hg : Opens g) : OpensPadded (padded g) := by
  rintro a t ⟨before, after, u, rfl, hu⟩
  obtain ⟨c, s, rfl, hc⟩ := hg a u hu
  exact ⟨before, c, s ++ after.val, by simp, hc⟩

theorem OpensPadded.listed (hg : OpensPadded g) : OpensPadded (Listed g) := by
  intro as t ht
  cases ht with
  | last item => exact hg _ _ item
  | cons item _ =>
    obtain ⟨gap, c, s, rfl, hc⟩ := hg _ _ item
    exact ⟨gap, c, _, List.append_assoc _ _ _, hc⟩

def orGap (p : Char → Bool) (c : Char) : Bool :=
  p c || isGap c

theorem Reads.padded (hr : Reads p read g) (hg : Opens g) (hp : ∀ c, isGap c = true → p c = false) :
    Reads (orGap p) (readPadded read) (padded g) := by
  constructor
  · intro s r a ha
    obtain ⟨⟨b, u⟩, hb, hab⟩ := Option.bind_eq_some_iff.mp ha
    obtain ⟨rfl, rfl⟩ := Prod.mk.inj (Option.some.inj hab)
    obtain ⟨t, hs, ht⟩ := hr.sound hb
    obtain ⟨before, hbefore⟩ := exists_gap s
    obtain ⟨after, hafter⟩ := exists_gap u
    refine ⟨before.val ++ t ++ after.val, ?_, before, after, t, rfl, ht⟩
    rw [hbefore, hs, List.append_assoc, List.append_assoc, ← hafter]
  · rintro t r a ⟨before, after, u, rfl, hu⟩ hs
    have hgap : Stops isGap r := fun c hc => (Bool.or_eq_false_iff.mp (hs c hc)).2
    have hopen : Stops isGap (u ++ (after.val ++ r)) := by
      obtain ⟨c, v, rfl, hc⟩ := hg a u hu
      exact stops_cons (isGap_of_isOpening hc)
    -- the item ends where the gap behind it starts, or else what follows
    have hafter : Stops p (after.val ++ r) := by
      obtain ⟨after, hall⟩ := after
      cases after with
      | nil => exact fun c hc => (Bool.or_eq_false_iff.mp (hs c hc)).1
      | cons c after => exact stops_cons (hp c (hall c List.mem_cons_self))
    rw [List.append_assoc, List.append_assoc, readPadded, dropWhile_gap_append before hopen,
      hr.complete hu hafter]
    show some (a, (after.val ++ r).dropWhile isGap) = _
    rw [dropWhile_gap_append after hgap]

def orComma (p : Char → Bool) (c : Char) : Bool :=
  p c || c == ','

theorem Reads.listed (hr : Reads p read g) (hp : p ',' = false) :
    Reads (orComma p) (readListed read) (Listed g) := by
  constructor
  · intro s r as has
    induction hn : s.length using Nat.strongRecOn generalizing s r as with
    | ind n ih =>
      rw [readListed] at has
      split at has
      next => cases has
      next a u ha =>
        obtain ⟨t, rfl, ht⟩ := hr.sound ha
        split_ifs at has with hlt
        obtain ⟨⟨bs, v⟩, hbs, he⟩ := Option.map_eq_some_iff.mp has
        obtain ⟨rfl, rfl⟩ := Prod.mk.inj he
        obtain ⟨w, rfl, hw⟩ := ih u.length (by omega) hbs rfl
        exact ⟨t ++ ',' :: w, by simp, .cons ht hw⟩
      next a u _ ha =>
        obtain ⟨rfl, rfl⟩ := Prod.mk.inj (Option.some.inj has)
        obtain ⟨t, hs, ht⟩ := hr.sound ha
        exact ⟨t, hs, .last ht⟩
  · intro t r as ht hs
    induction ht with
    | last item =>
      have hsp : Stops p r := fun c hc => (Bool.or_eq_false_iff.mp (hs c hc)).1
      rw [readListed, hr.complete item hsp]
      split
      next h => cases h
      next a v h =>
        obtain ⟨-, rfl⟩ := Prod.mk.inj (Option.some.inj h)
        exact absurd (hs ',' rfl) (by simp [orComma])
      next a v _ h =>
        obtain ⟨rfl, rfl⟩ := Prod.mk.inj (Option.some.inj h)
        rfl
    | @cons a as t u item _ ih =>
      have hlt : (u ++ r).length < (t ++ ',' :: (u ++ r)).length := by
        simp only [List.length_append, List.length_cons]
        omega
      rw [List.append_assoc, List.cons_append, readListed, hr.complete item (stops_cons hp)]
      show (if _ then _ else _) = _
      rw [if_pos hlt, ih]
      rfl

theorem Reads.enclosed {opening closing : Char} (hr : Reads p (readListed read) (Listed g))
    (hg : OpensPadded g) (hp : p closing = false) (hgap : isGap closing = false)
    (hopening : isOpening closing = false) :
    Reads anywhere (readEnclosed opening closing read) (Enclosed opening closing g) := by
  constructor
  · intro s r as has
    obtain ⟨u, hu, hread⟩ := Option.bind_eq_some_iff.mp has
    rw [readMark_eq_some_iff.mp hu]
    obtain ⟨gap, hgap⟩ := exists_gap u
    split at hread
    next v hv =>
      obtain ⟨rfl, rfl⟩ := Prod.mk.inj (Option.some.inj hread)
      rw [readMark_eq_some_iff.mp hv] at hgap
      exact ⟨opening :: gap.val ++ [closing], by simp [hgap], .empty gap⟩
    next =>
      obtain ⟨⟨bs, v⟩, hbs, hread⟩ := Option.bind_eq_some_iff.mp hread
      obtain ⟨w, hw, hread⟩ := Option.bind_eq_some_iff.mp hread
      obtain ⟨rfl, rfl⟩ := Prod.mk.inj (Option.some.inj hread)
      obtain rfl := readMark_eq_some_iff.mp hw
      obtain ⟨t, rfl, ht⟩ := hr.sound hbs
      exact ⟨opening :: t ++ [closing], by simp, .listed ht⟩
  · intro t r as ht _
    cases ht with
    | empty gap =>
      have hd : (gap.val ++ closing :: r).dropWhile isGap = closing :: r :=
        dropWhile_gap_append gap (stops_cons hgap)
      simp [readEnclosed, readMark, hd]
    | @listed as t items =>
      -- the first item starts with what is neither white space nor the closing bracket
      obtain ⟨gap, c, s, rfl, hc⟩ := hg.listed _ _ items
      have hne : c ≠ closing := by
        rintro rfl
        rw [hopening] at hc
        cases hc
      have hd : (gap.val ++ c :: (s ++ closing :: r)).dropWhile isGap = c :: (s ++ closing :: r) :=
        dropWhile_gap_append gap (stops_cons (isGap_of_isOpening hc))
      have hitems := hr.complete items (stops_cons hp : Stops p (closing :: r))
      simp only [List.append_assoc, List.cons_append] at hitems
      simp [readEnclosed, readMark, hd, hne, hitems]

end Layout

end ServerActions.Json
