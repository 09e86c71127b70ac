import ServerActions.Proofs.Toml.Layout

namespace ServerActions.Toml

open Text

def continuesDigits (base : Nat) (c : Char) : Bool :=
  (digitIn? base c).isSome || c == '_'

theorem isDigit_of_digitIn {c : Char} {d : Nat} (h : digitIn? 10 c = some d) :
    isDigit c = true := by
  obtain ⟨hd, hlt⟩ := Option.filter_eq_some_iff.mp h
  have hlt : d < 10 := by simpa using hlt
  unfold hexDigit? at hd
  split at hd
  next hc => exact hc
  next =>
    split at hd
    next =>
      have := Option.some.inj hd
      omega
    next =>
      split at hd
      next =>
        have := Option.some.inj hd
        omega
      next => cases hd

theorem IsDigits.exists_cons {base : Nat} {ds : List Nat} {t : List Char}
    (h : IsDigits base ds t) : ∃ c d u, t = c :: u ∧ digitIn? base c = some d := by
  cases h with
  | last digit => exact ⟨_, _, _, rfl, digit⟩
  | next digit => exact ⟨_, _, _, rfl, digit⟩
  | underscore digit => exact ⟨_, _, _, rfl, digit⟩

theorem readMoreDigits_underscore (base : Nat) (s : List Char) :
    readMoreDigits base ('_' :: s) = readDigits base s := by
  cases s <;> rfl

theorem readMoreDigits_cons {base : Nat} {c : Char} (hc : c ≠ '_') (s : List Char) :
    readMoreDigits base (c :: s) =
      match digitIn? base c with
      | none => some ([], c :: s)
      | some d => (readMoreDigits base s).map fun (ds, r) => (d :: ds, r) := by
  rw [readMoreDigits.eq_def]
  split
  next heq => cases heq
  next heq => exact absurd (List.cons.inj heq).1 hc
  next heq =>
    obtain ⟨rfl, rfl⟩ := List.cons.inj heq
    rfl

theorem readMoreDigits_of_stops {base : Nat} {r : List Char} (h : Stops (continuesDigits base) r) :
    readMoreDigits base r = some ([], r) := by
  cases r with
  | nil => rfl
  | cons c r =>
    have hc := h c rfl
    simp only [continuesDigits, Bool.or_eq_false_iff, beq_eq_false_iff_ne,
      Option.isSome_eq_false_iff, Option.isNone_iff_eq_none] at hc
    rw [readMoreDigits_cons hc.2, hc.1]

theorem IsDigits.readMoreDigits_eq {base : Nat} {ds : List Nat} {t : List Char}
    (h : IsDigits base ds t) (r : List Char) :
    readMoreDigits base (t ++ r) = readDigits base (t ++ r) := by
  obtain ⟨c, d, u, rfl, hd⟩ := h.exists_cons
  have hc : c ≠ '_' := by
    rintro rfl
    cases hd
  rw [List.cons_append, readMoreDigits_cons hc, readDigits, hd]

theorem readDigits_append {base : Nat} {ds : List Nat} {t r : List Char} (h : IsDigits base ds t)
    (hr : Stops (continuesDigits base) r) : readDigits base (t ++ r) = some (ds, r) := by
  induction h with
  | last digit =>
    rw [List.singleton_append, readDigits, digit]
    simp [readMoreDigits_of_stops hr]
  | next digit digits ih =>
    rw [List.cons_append, readDigits, digit]
    simp [digits.readMoreDigits_eq, ih]
  | underscore digit digits ih =>
    rw [List.cons_append, List.cons_append, readDigits, digit]
    simp [readMoreDigits_underscore, ih]

def decimals : List Char :=
  ['0', '1', '2', '3', '4', '5', '6', '7', '8', '9']

theorem mem_decimals {c : Char} (h : isDigit c = true) : c ∈ decimals := by
  have hall : ∀ n < 58, 48 ≤ n → Char.ofNat n ∈ decimals := by decide
  simp only [isDigit, Bool.and_eq_true, decide_eq_true_eq] at h
  rw [← Char.ofNat_toNat c]
  exact hall c.toNat (Nat.lt_succ_of_le h.2) h.1

theorem IsDigits.stops {ds : List Nat} {t : List Char} (h : IsDigits 10 ds t) {p : Char → Bool}
    (hp : Avoids decimals p) (r : List Char) : Stops p (t ++ r) := by
  obtain ⟨c, d, u, rfl, hd⟩ := h.exists_cons
  exact stops_cons (hp c (mem_decimals (isDigit_of_digitIn hd)))

theorem IsWhole.stops {ds : List Nat} {t : List Char} (h : IsWhole ds t) {p : Char → Bool}
    (hp : Avoids decimals p) (r : List Char) : Stops p (t ++ r) := by
  cases h with
  | zero => exact stops_cons (hp '0' (by decide))
  | digits digits => exact digits.stops hp r

theorem IsExponent.stops {e : Int} {t : List Char} (h : IsExponent e t) {p : Char → Bool}
    (hp : Avoids ['e', 'E'] p) (r : List Char) : Stops p (t ++ r) := by
  cases h with
  | power letter =>
    apply stops_cons
    rcases letter with rfl | rfl
    · exact hp 'e' (by decide)
    · exact hp 'E' (by decide)

theorem Ends.stops_digits {r : List Char} (h : Ends r) : Stops (continuesDigits 10) r :=
  h.stops (by decide)

def isSign (c : Char) : Bool :=
  c == '+' || c == '-'

theorem readSign_append {negative : Bool} {s r : List Char} (h : IsSign negative s)
    (hr : Stops isSign r) : readSign (s ++ r) = (negative, r) := by
  cases h with
  | none =>
    rw [List.nil_append]
    unfold readSign
    split
    next => exact absurd (hr '+' rfl) (by decide)
    next => exact absurd (hr '-' rfl) (by decide)
    next => rfl
  | plus => rfl
  | minus => rfl

theorem readWhole_append {ds : List Nat} {t r : List Char} (h : IsWhole ds t)
    (hr : Stops (continuesDigits 10) r) : readWhole (t ++ r) = some (ds, r) := by
  cases h with
  | zero => rfl
  | digits digits leading =>
    unfold readWhole
    split
    next heq =>
      obtain ⟨c, d, u, rfl, -⟩ := digits.exists_cons
      obtain rfl : c = '0' := (List.cons.inj heq).1
      exact absurd rfl leading
    next => exact readDigits_append digits hr

theorem readExponent_append {e : Int} {t r : List Char} (h : IsExponent e t)
    (hr : Stops (continuesDigits 10) r) : readExponent (t ++ r) = some (e, r) := by
  cases h with
  | @power mark negative ds s t letter sign digits =>
    have hletter : (decide (mark = 'e') || decide (mark = 'E')) = true := by simpa using letter
    have hs := readSign_append sign (digits.stops (p := isSign) (by decide) r)
    rw [List.cons_append, List.cons_append, List.append_assoc, readExponent, if_pos hletter, hs]
    simp [readDigits_append digits hr]

theorem readFraction_integer {negative : Bool} {whole : List Nat} {n : Number} {r : List Char}
    (value : Number.ofInt? (signed negative (ofDigits 10 whole)) = some n) (hr : Ends r) :
    readFraction negative whole r = some (n, r) := by
  have hstop : Stops (fun c => c == '.' || c == 'e' || c == 'E') r := hr.stops (by decide)
  unfold readFraction
  split
  next => exact absurd (hstop '.' rfl) (by decide)
  next => exact absurd (hstop 'e' rfl) (by decide)
  next => exact absurd (hstop 'E' rfl) (by decide)
  next => rw [value, Option.map_some]

theorem readFraction_power {negative : Bool} {whole : List Nat} {e : Int} {n : Number}
    {t r : List Char} (exponent : IsExponent e t)
    (value : Number.ofDecimal? negative whole e = some n) (hr : Ends r) :
    readFraction negative whole (t ++ r) = some (n, r) := by
  have hread := readExponent_append exponent hr.stops_digits
  cases exponent with
  | power letter =>
    rcases letter with rfl | rfl
    all_goals
      simp only [List.cons_append, List.append_assoc] at hread
      simp [readFraction, hread, value]

theorem readFraction_fraction {negative : Bool} {whole ds : List Nat} {e : Int} {n : Number}
    {u v r : List Char} (digits : IsDigits 10 ds u)
    (exponent : IsExponent e v ∨ (e = 0 ∧ v = []))
    (value : Number.ofDecimal? negative (whole ++ ds) (e - ds.length) = some n) (hr : Ends r) :
    readFraction negative whole ('.' :: (u ++ (v ++ r))) = some (n, r) := by
  have hstop : Stops (continuesDigits 10) (v ++ r) := by
    rcases exponent with exponent | ⟨-, rfl⟩
    · exact exponent.stops (by decide) r
    · exact hr.stops_digits
  have hdigits := readDigits_append digits hstop
  simp only [readFraction, hdigits, Option.bind_eq_bind, Option.bind_some]
  rcases exponent with exponent | ⟨rfl, rfl⟩
  · have hread := readExponent_append exponent hr.stops_digits
    cases exponent with
    | power letter =>
      rcases letter with rfl | rfl
      all_goals
        simp only [List.cons_append, List.append_assoc] at hread ⊢
        simp [hread, value]
  · have hnone : Stops (fun c => c == 'e' || c == 'E') r := hr.stops (by decide)
    rw [List.nil_append]
    split
    next => exact absurd (hnone 'e' rfl) (by decide)
    next => exact absurd (hnone 'E' rfl) (by decide)
    next =>
      rw [Int.zero_sub] at value
      simp [value]

theorem readUnsigned_whole {negative : Bool} {whole : List Nat} {t r : List Char}
    (h : IsWhole whole t) (hr : Stops (continuesDigits 10) r) :
    readUnsigned negative (t ++ r) = readFraction negative whole r := by
  have hread := readWhole_append h hr
  have hfirst : Stops (fun c => c == 'i' || c == 'n') (t ++ r) := h.stops (by decide) r
  unfold readUnsigned
  split
  next heq => exact absurd (hfirst 'i' (by rw [heq]; rfl)) (by decide)
  next heq => exact absurd (hfirst 'n' (by rw [heq]; rfl)) (by decide)
  next => simp [hread]

def Decimal (s : List Char) : Prop :=
  ∀ r, s = '0' :: r → Stops (fun c => c == 'x' || c == 'o' || c == 'b') r

theorem readNumber_decimal {s : List Char} (h : Decimal s) :
    readNumber s = readUnsigned (readSign s).1 (readSign s).2 := by
  unfold readNumber
  split
  next => exact absurd (h _ rfl 'x' rfl) (by decide)
  next => exact absurd (h _ rfl 'o' rfl) (by decide)
  next => exact absurd (h _ rfl 'b' rfl) (by decide)
  next => rfl

theorem IsSign.decimal {negative : Bool} {s : List Char} (h : IsSign negative s) {t : List Char}
    (ht : Decimal t) : Decimal (s ++ t) := by
  cases h with
  | none => exact ht
  | plus => exact fun r he => absurd (List.cons.inj he).1 (by decide)
  | minus => exact fun r he => absurd (List.cons.inj he).1 (by decide)

theorem IsWhole.decimal {whole : List Nat} {t : List Char} (h : IsWhole whole t) {r : List Char}
    (hr : Stops (fun c => c == 'x' || c == 'o' || c == 'b') r) : Decimal (t ++ r) := by
  cases h with
  | zero =>
    intro u he
    rwa [← (List.cons.inj he).2]
  | digits digits leading =>
    intro u he
    obtain ⟨c, d, v, rfl, -⟩ := digits.exists_cons
    obtain rfl : c = '0' := (List.cons.inj he).1
    exact absurd rfl leading

theorem readNumber_append {n : Number} {t r : List Char} (h : IsNumber n t) (hr : Ends r) :
    readNumber (t ++ r) = some (n, r) := by
  cases h with
  | @integer negative ds _ s t sign whole value =>
    have hs := readSign_append sign (whole.stops (p := isSign) (by decide) r)
    have hd := sign.decimal (whole.decimal (r := r) (hr.stops (by decide)))
    rw [List.append_assoc, readNumber_decimal hd, hs, readUnsigned_whole whole hr.stops_digits,
      readFraction_integer value hr]
  | @based mark base ds _ t letter digits value =>
    have hread := readDigits_append digits (r := r) (hr.stops ?_)
    · simp only [List.mem_cons, Prod.mk.injEq, List.not_mem_nil, or_false] at letter
      rcases letter with ⟨rfl, rfl⟩ | ⟨rfl, rfl⟩ | ⟨rfl, rfl⟩
      all_goals simp [readNumber, readInBase, hread, value]
    · simp only [List.mem_cons, Prod.mk.injEq, List.not_mem_nil, or_false] at letter
      rcases letter with ⟨-, rfl⟩ | ⟨-, rfl⟩ | ⟨-, rfl⟩ <;> decide
  | @fraction negative whole ds e _ s t u v sign integral digits exponent value =>
    have hpoint (p : Char → Bool) (hp : p '.' = false) : Stops p ('.' :: (u ++ (v ++ r))) :=
      stops_cons hp
    have hs := readSign_append sign
      (integral.stops (p := isSign) (by decide) ('.' :: (u ++ (v ++ r))))
    have hd := sign.decimal (integral.decimal (hpoint _ (by decide)))
    have happend : s ++ t ++ '.' :: u ++ v ++ r = s ++ (t ++ '.' :: (u ++ (v ++ r))) := by simp
    rw [happend, readNumber_decimal hd, hs, readUnsigned_whole integral (hpoint _ (by decide)),
      readFraction_fraction digits exponent value hr]
  | @power negative whole e _ s t u sign integral exponent value =>
    have hs := readSign_append sign (integral.stops (p := isSign) (by decide) (u ++ r))
    have hd := sign.decimal (integral.decimal (exponent.stops (by decide) r))
    rw [List.append_assoc, List.append_assoc, readNumber_decimal hd, hs,
      readUnsigned_whole integral (exponent.stops (by decide) r),
      readFraction_power exponent value hr]
  | infinite sign => cases sign <;> rfl
  | nan sign => cases sign <;> rfl

end ServerActions.Toml
