import ServerActions.Proofs.Json.Layout

namespace ServerActions.Json

open Text

def readDigits (s : List Char) : Option (List Char × List Char) :=
  match s.takeWhile Char.isDigit with
  | [] => none
  | ds => some (ds, s.dropWhile Char.isDigit)

def readSign : Reader Rat
  | '-' :: s => some (-1, s)
  | s => some (1, s)

def readWhole : Reader Nat
  | '0' :: s => some (0, s)
  | s => readMapped natural readDigits s

def readFraction : Reader Rat
  | '.' :: s => readMapped decimals readDigits s
  | s => some (0, s)

def readPower : Reader Rat
  | '+' :: s => readMapped (fun ds => 10 ^ natural ds) readDigits s
  | '-' :: s => readMapped (fun ds => (10 ^ natural ds)⁻¹) readDigits s
  | s => readMapped (fun ds => 10 ^ natural ds) readDigits s

def readExponent : Reader Rat
  | 'e' :: s => readPower s
  | 'E' :: s => readPower s
  | s => some (1, s)

def readNumber : Reader Rat :=
  readMapped scaled (readBoth readSign (readBoth readWhole (readBoth readFraction readExponent)))

theorem readDigits_eq_some_iff {s ds r : List Char} :
    readDigits s = some (ds, r) ↔
      s = ds ++ r ∧ ds ≠ [] ∧ (∀ d ∈ ds, d.isDigit = true) ∧ Stops Char.isDigit r := by
  constructor
  · intro h
    rw [readDigits] at h
    split at h
    next => cases h
    next hne =>
      obtain ⟨rfl, rfl⟩ := Prod.mk.inj (Option.some.inj h)
      exact ⟨List.takeWhile_append_dropWhile.symm, hne, List.all_eq_true.mp List.all_takeWhile,
        stops_dropWhile _ _⟩
  · rintro ⟨rfl, hne, hds, hr⟩
    rw [readDigits, List.takeWhile_append_of_pos hds, hr.takeWhile, List.append_nil,
      List.dropWhile_append_of_pos hds, hr.dropWhile]
    cases ds with
    | nil => exact absurd rfl hne
    | cons d ds => rfl

section Digits

variable {α : Type} {f : List Char → α}

theorem readMapped_digits (ds : Digits) {r : List Char} (hr : Stops Char.isDigit r) :
    readMapped f readDigits (ds.val ++ r) = some (f ds.val, r) := by
  obtain ⟨ds, hne, hds⟩ := ds
  rw [readMapped, readDigits_eq_some_iff.mpr ⟨rfl, hne, hds, hr⟩]
  rfl

theorem exists_digits {s r : List Char} {a : α} (h : readMapped f readDigits s = some (a, r)) :
    ∃ ds : Digits, s = ds.val ++ r ∧ f ds.val = a := by
  obtain ⟨⟨ds, u⟩, hds, he⟩ := Option.map_eq_some_iff.mp h
  obtain ⟨rfl, rfl⟩ := Prod.mk.inj he
  obtain ⟨hs, hne, hdigits, -⟩ := readDigits_eq_some_iff.mp hds
  exact ⟨⟨ds, hne, hdigits⟩, hs, rfl⟩

theorem Digits.exists_cons (ds : Digits) : ∃ d s, ds.val = d :: s ∧ d.isDigit = true := by
  obtain ⟨d, s, hs⟩ := List.exists_cons_of_ne_nil ds.property.1
  exact ⟨d, s, hs, ds.property.2 d (by simp [hs])⟩

end Digits

def continuesFraction (c : Char) : Bool :=
  c.isDigit || c == '.'

def continuesExponent (c : Char) : Bool :=
  c.isDigit || c == 'e' || c == 'E'

def continuesNumber (c : Char) : Bool :=
  c.isDigit || c == '.' || c == 'e' || c == 'E'

theorem reads_sign : Reads (· == '-') readSign IsSign := by
  constructor
  · intro s r a h
    unfold readSign at h
    split at h
    next =>
      obtain ⟨rfl, rfl⟩ := Prod.mk.inj (Option.some.inj h)
      exact ⟨['-'], rfl, .minus⟩
    next =>
      obtain ⟨rfl, rfl⟩ := Prod.mk.inj (Option.some.inj h)
      exact ⟨[], rfl, .plus⟩
  · intro t r a ht hr
    cases ht with
    | minus => rfl
    | plus =>
      unfold readSign
      split
      next heq => exact absurd heq (hr.ne_cons (by decide) _)
      next => rfl

theorem reads_whole : Reads Char.isDigit readWhole IsWhole := by
  constructor
  · intro s r a h
    unfold readWhole at h
    split at h
    next =>
      obtain ⟨rfl, rfl⟩ := Prod.mk.inj (Option.some.inj h)
      exact ⟨['0'], rfl, .zero⟩
    next hs =>
      obtain ⟨ds, rfl, rfl⟩ := exists_digits h
      refine ⟨ds.val, rfl, .digits ds fun hz => ?_⟩
      obtain ⟨d, u, hd, -⟩ := ds.exists_cons
      rw [hd] at hz hs
      obtain rfl := Option.some.inj hz
      exact hs (u ++ r) rfl
  · intro t r a ht hr
    cases ht with
    | zero => rfl
    | digits ds leading =>
      unfold readWhole
      split
      next u heq =>
        obtain ⟨d, v, hd, -⟩ := ds.exists_cons
        rw [hd] at heq leading
        obtain ⟨rfl, -⟩ := List.cons.inj heq
        exact absurd rfl leading
      next => exact readMapped_digits ds hr

theorem reads_fraction : Reads continuesFraction readFraction IsFraction := by
  constructor
  · intro s r a h
    unfold readFraction at h
    split at h
    next =>
      obtain ⟨ds, rfl, rfl⟩ := exists_digits h
      exact ⟨'.' :: ds.val, rfl, .digits ds⟩
    next =>
      obtain ⟨rfl, rfl⟩ := Prod.mk.inj (Option.some.inj h)
      exact ⟨[], rfl, .none⟩
  · intro t r a ht hr
    cases ht with
    | none =>
      unfold readFraction
      split
      next heq => exact absurd heq (hr.ne_cons (by decide) _)
      next => rfl
    | digits ds =>
      exact readMapped_digits ds (hr.of_imp fun c hc => by simp [continuesFraction, hc])

theorem reads_power : Reads Char.isDigit readPower IsPower := by
  constructor
  · intro s r a h
    unfold readPower at h
    split at h
    all_goals obtain ⟨ds, rfl, rfl⟩ := exists_digits h
    · exact ⟨'+' :: ds.val, rfl, .plus ds⟩
    · exact ⟨'-' :: ds.val, rfl, .minus ds⟩
    · exact ⟨ds.val, rfl, .unsigned ds⟩
  · intro t r a ht hr
    cases ht with
    | plus ds => exact @readMapped_digits _ (fun ds => 10 ^ natural ds) ds r hr
    | minus ds => exact @readMapped_digits _ (fun ds => (10 ^ natural ds)⁻¹) ds r hr
    | unsigned ds =>
      obtain ⟨d, s, hd, hdigit⟩ := ds.exists_cons
      have hread := @readMapped_digits Rat (fun ds => 10 ^ natural ds) ds r hr
      rw [hd] at hread ⊢
      unfold readPower
      split
      next heq =>
        obtain ⟨rfl, -⟩ := List.cons.inj heq
        exact absurd hdigit (by decide)
      next heq =>
        obtain ⟨rfl, -⟩ := List.cons.inj heq
        exact absurd hdigit (by decide)
      next => exact hread

theorem reads_exponent : Reads continuesExponent readExponent IsExponent := by
  constructor
  · intro s r a h
    unfold readExponent at h
    split at h
    next =>
      obtain ⟨t, rfl, ht⟩ := reads_power.sound h
      exact ⟨'e' :: t, rfl, .power (.inl rfl) ht⟩
    next =>
      obtain ⟨t, rfl, ht⟩ := reads_power.sound h
      exact ⟨'E' :: t, rfl, .power (.inr rfl) ht⟩
    next =>
      obtain ⟨rfl, rfl⟩ := Prod.mk.inj (Option.some.inj h)
      exact ⟨[], rfl, .none⟩
  · intro t r a ht hr
    cases ht with
    | none =>
      unfold readExponent
      split
      next heq => exact absurd heq (hr.ne_cons (by decide) _)
      next heq => exact absurd heq (hr.ne_cons (by decide) _)
      next => rfl
    | power letter power =>
      have hdigit : Stops Char.isDigit r := hr.of_imp fun c hc => by simp [continuesExponent, hc]
      rcases letter with rfl | rfl
      · exact reads_power.complete power hdigit
      · exact reads_power.complete power hdigit

theorem IsFraction.stops {value : Rat} {t : List Char} (h : IsFraction value t) :
    Stops Char.isDigit t := by
  cases h with
  | none => exact stops_nil
  | digits => exact stops_cons (by decide)

theorem IsExponent.stops {value : Rat} {t : List Char} (h : IsExponent value t) :
    Stops continuesFraction t := by
  cases h with
  | none => exact stops_nil
  | power letter =>
    rcases letter with rfl | rfl <;> exact stops_cons (by decide)

theorem IsSign.eq_nil_or_minus {value : Rat} {t : List Char} (h : IsSign value t) :
    t = [] ∨ t = ['-'] := by
  cases h with
  | plus => exact .inl rfl
  | minus => exact .inr rfl

theorem IsWhole.exists_cons {value : Nat} {t : List Char} (h : IsWhole value t) :
    ∃ d s, t = d :: s ∧ d.isDigit = true := by
  cases h with
  | zero => exact ⟨'0', [], rfl, rfl⟩
  | digits ds => exact ds.exists_cons

theorem reads_number : Reads continuesNumber readNumber IsNumber := by
  have hexponent : Reads continuesNumber readExponent IsExponent :=
    reads_exponent.mono fun c hc => by
      simp only [continuesNumber, continuesExponent, Bool.or_eq_false_iff] at hc ⊢
      exact ⟨⟨hc.1.1.1, hc.1.2⟩, hc.2⟩
  have hfraction := reads_fraction.both hexponent fun _ _ _ ht hr =>
    ht.stops.append (hr.of_imp fun c hc => by
      simp only [continuesNumber, continuesFraction, Bool.or_eq_true] at hc ⊢
      exact .inl (.inl hc))
  have hwhole := reads_whole.both hfraction fun _ _ _ ht hr => by
    obtain ⟨u, v, rfl, hu, hv⟩ := ht
    have hdigit : Stops Char.isDigit v := hv.stops.of_imp fun c hc => by
      simp [continuesFraction, hc]
    exact (hu.stops.append hdigit).append (hr.of_imp fun c hc => by simp [continuesNumber, hc])
  refine (reads_sign.both hwhole ?_).mapped scaled
  rintro _ _ r ⟨u, v, rfl, hu, -⟩ -
  obtain ⟨d, s, rfl, hd⟩ := hu.exists_cons
  apply stops_cons
  apply beq_eq_false_iff_ne.mpr
  rintro rfl
  exact absurd hd (by decide)

theorem IsNumber.exists_cons {value : Rat} {t : List Char} (h : IsNumber value t) :
    ∃ c s, t = c :: s ∧ (c = '-' ∨ c.isDigit = true) := by
  obtain ⟨_, ⟨u, _, rfl, hu, v, w, rfl, hv, -⟩, -⟩ := h
  obtain ⟨d, s, rfl, hd⟩ := hv.exists_cons
  rcases hu.eq_nil_or_minus with rfl | rfl
  · exact ⟨d, s ++ w, rfl, .inr hd⟩
  · exact ⟨'-', d :: s ++ w, rfl, .inl rfl⟩

end ServerActions.Json
