import ServerActions.Proofs.Json.Numbers
import ServerActions.Proofs.Json.Quoted

namespace ServerActions.Json

open Text

def readMember (read : Reader Datum) : Reader (String × Datum) :=
  fun s => do
    let (name, r) ← readPadded readQuoted s
    let (value, r) ← readPadded read (← readMark ':' r)
    return ((name, value), r)

def readNode (inside : Reader Datum) : Reader Datum
  | 'n' :: 'u' :: 'l' :: 'l' :: r => some (.null, r)
  | 't' :: 'r' :: 'u' :: 'e' :: r => some (.boolean true, r)
  | 'f' :: 'a' :: 'l' :: 's' :: 'e' :: r => some (.boolean false, r)
  | '"' :: s => readMapped .text readQuoted ('"' :: s)
  | '[' :: s => readMapped .array (readEnclosed '[' ']' (readPadded inside)) ('[' :: s)
  | '\x7b' :: s => readMapped .object (readEnclosed '\x7b' '\x7d' (readMember inside)) ('\x7b' :: s)
  | s => readMapped .number readNumber s

def readValue : (levels : Nat) → Reader Datum
  | 0 => fun _ => none
  | levels + 1 => readNode (readValue levels)

def decode (levels : Nat) (s : String) : Option Datum :=
  match readPadded (readValue levels) s.toList with
  | some (v, []) => some v
  | _ => none

section Node

variable {read : Reader Datum} {g : Grammar Datum}

theorem continuesNumber_of_isGap {c : Char} (h : isGap c = true) : continuesNumber c = false := by
  simp only [isGap, Bool.or_eq_true, beq_iff_eq] at h
  rcases h with ((rfl | rfl) | rfl) | rfl <;> decide

theorem OpensPadded.member : OpensPadded (IsMember g) := by
  rintro m t ⟨u, v, rfl, hu, -⟩
  obtain ⟨gap, c, s, rfl, hc⟩ := opens_quoted.padded _ _ hu
  exact ⟨gap, c, s ++ ':' :: v, List.append_assoc _ _ _, hc⟩

theorem Reads.member (hr : Reads continuesNumber read g) (hg : Opens g) :
    Reads (orGap continuesNumber) (readMember read) (IsMember g) := by
  have hname := reads_quoted.padded opens_quoted fun _ _ => rfl
  have hvalue := hr.padded hg fun _ => continuesNumber_of_isGap
  constructor
  · intro s r m hm
    obtain ⟨⟨name, u⟩, hu, hm⟩ := Option.bind_eq_some_iff.mp hm
    obtain ⟨v, hv, hm⟩ := Option.bind_eq_some_iff.mp hm
    obtain ⟨⟨value, w⟩, hw, hm⟩ := Option.bind_eq_some_iff.mp hm
    obtain ⟨rfl, rfl⟩ := Prod.mk.inj (Option.some.inj hm)
    obtain rfl := readMark_eq_some_iff.mp hv
    obtain ⟨t, rfl, ht⟩ := hname.sound hu
    obtain ⟨t', rfl, ht'⟩ := hvalue.sound hw
    exact ⟨t ++ ':' :: t', by simp, t, t', rfl, ht, ht'⟩
  · rintro t r ⟨name, value⟩ ⟨u, v, rfl, hu, hv⟩ hs
    have hcolon : Stops (orGap anywhere) (':' :: (v ++ r)) := stops_cons (by decide)
    rw [List.append_assoc, readMember, List.cons_append, hname.complete hu hcolon]
    simp [readMark, hvalue.complete hv hs]

theorem opens_node : Opens (IsNode g) := by
  intro v t ht
  cases ht with
  | number number =>
    obtain ⟨c, s, rfl, hc⟩ := number.exists_cons
    refine ⟨c, s, rfl, ?_⟩
    rcases hc with rfl | hc
    · decide
    · simp [isOpening, hc]
  | text quoted => exact opens_quoted _ _ quoted
  | array listed => cases listed <;> exact ⟨'[', _, rfl, by decide⟩
  | object listed => cases listed <;> exact ⟨'\x7b', _, rfl, by decide⟩
  | _ => exact ⟨_, _, rfl, by decide⟩

theorem reads_array (hr : Reads continuesNumber read g) (hg : Opens g) :
    Reads anywhere (readEnclosed '[' ']' (readPadded read)) (Enclosed '[' ']' (padded g)) :=
  ((hr.padded hg fun _ => continuesNumber_of_isGap).listed (by decide)).enclosed hg.padded
    (by decide) (by decide) (by decide)

theorem reads_object (hr : Reads continuesNumber read g) (hg : Opens g) :
    Reads anywhere (readEnclosed '\x7b' '\x7d' (readMember read))
      (Enclosed '\x7b' '\x7d' (IsMember g)) :=
  ((hr.member hg).listed (by decide)).enclosed .member (by decide) (by decide) (by decide)

theorem readNode_number {c : Char} (hc : c = '-' ∨ c.isDigit = true) (s : List Char) :
    readNode read (c :: s) = readMapped .number readNumber (c :: s) := by
  unfold readNode
  split
  case h_7 => rfl
  all_goals
    next heq =>
      obtain ⟨rfl, -⟩ := List.cons.inj heq
      exact absurd hc (by decide)

theorem Reads.node (hr : Reads continuesNumber read g) (hg : Opens g) :
    Reads continuesNumber (readNode read) (IsNode g) := by
  constructor
  · intro s r v h
    unfold readNode at h
    split at h
    next =>
      obtain ⟨rfl, rfl⟩ := Prod.mk.inj (Option.some.inj h)
      exact ⟨_, rfl, .null⟩
    next =>
      obtain ⟨rfl, rfl⟩ := Prod.mk.inj (Option.some.inj h)
      exact ⟨_, rfl, .true⟩
    next =>
      obtain ⟨rfl, rfl⟩ := Prod.mk.inj (Option.some.inj h)
      exact ⟨_, rfl, .false⟩
    next =>
      obtain ⟨t, hs, text, ht, rfl⟩ := (reads_quoted.mapped Datum.text).sound h
      exact ⟨t, hs, .text ht⟩
    next =>
      obtain ⟨t, hs, items, ht, rfl⟩ := ((reads_array hr hg).mapped Datum.array).sound h
      exact ⟨t, hs, .array ht⟩
    next =>
      obtain ⟨t, hs, members, ht, rfl⟩ := ((reads_object hr hg).mapped Datum.object).sound h
      exact ⟨t, hs, .object ht⟩
    next =>
      obtain ⟨t, hs, value, ht, rfl⟩ := (reads_number.mapped Datum.number).sound h
      exact ⟨t, hs, .number ht⟩
  · intro t r v ht hs
    cases ht with
    | null => rfl
    | true => rfl
    | false => rfl
    | number number =>
      have hread := (reads_number.mapped Datum.number).complete ⟨_, number, rfl⟩ hs
      obtain ⟨c, u, rfl, hc⟩ := number.exists_cons
      rw [List.cons_append] at hread ⊢
      rw [readNode_number hc, hread]
    | text quoted =>
      have hread := (reads_quoted.mapped Datum.text).complete ⟨_, quoted, rfl⟩ (stops_anywhere r)
      obtain ⟨u, rfl, -⟩ := quoted
      exact hread
    | array listed =>
      have hread := ((reads_array hr hg).mapped Datum.array).complete ⟨_, listed, rfl⟩
        (stops_anywhere r)
      cases listed <;> exact hread
    | object listed =>
      have hread := ((reads_object hr hg).mapped Datum.object).complete ⟨_, listed, rfl⟩
        (stops_anywhere r)
      cases listed <;> exact hread

end Node

theorem opens_value (levels : Nat) : Opens (IsValue levels) := by
  cases levels with
  | zero => exact fun _ _ h => h.elim
  | succ => exact opens_node

theorem reads_value (levels : Nat) : Reads continuesNumber (readValue levels) (IsValue levels) := by
  induction levels with
  | zero =>
    constructor
    · intro _ _ _ h
      cases h
    · intro _ _ _ h
      cases h
  | succ levels ih => exact ih.node (opens_value levels)

theorem decode_eq_some_iff {levels : Nat} {s : String} {v : Datum} :
    decode levels s = some v ↔ padded (IsValue levels) v s.toList := by
  have hreads := (reads_value levels).padded (opens_value levels) fun _ => continuesNumber_of_isGap
  constructor
  · intro h
    unfold decode at h
    split at h
    next u hu =>
      obtain rfl := Option.some.inj h
      obtain ⟨t, ht, hv⟩ := hreads.sound hu
      rwa [ht, List.append_nil]
    next => cases h
  · intro h
    have hread := hreads.complete h (stops_nil : Stops _ [])
    rw [List.append_nil] at hread
    rw [decode, hread]

example : decode 2 "[12e1, null ,\"\\ud83d\\ude00\"]" =
    some (.array [.number 120, .null, .text "😀"]) := by
  cbv

end ServerActions.Json
