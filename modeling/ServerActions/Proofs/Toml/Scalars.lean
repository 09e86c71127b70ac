import ServerActions.Proofs.Toml.Numbers
import ServerActions.Proofs.Toml.Quoted

namespace ServerActions.Toml

open Text

theorem readFixed_append {size v : Nat} {t : List Char} (h : IsFixed size v t) (r : List Char) :
    readFixed size (t ++ r) = some (v, r) := by
  induction h generalizing r with
  | nil => rfl
  | digit front digit ih =>
    rw [List.append_assoc, readFixed, ih]
    simp [digit]

theorem readTwo_append {least greatest v : Nat} {t : List Char} (h : IsTwo least greatest v t)
    (r : List Char) : readTwo least greatest (t ++ r) = some (v, r) := by
  rw [readTwo, readFixed_append h.1]
  simp [h.2]

theorem readChar_cons (c : Char) (r : List Char) : readChar c (c :: r) = some r :=
  if_pos rfl

theorem readDate_append {t : List Char} (h : IsDate t) (r : List Char) :
    readDate (t ++ r) = some r := by
  cases h with
  | date years months days =>
    simp only [List.append_assoc, List.cons_append]
    simp [readDate, readFixed_append years, readChar_cons, readTwo_append months,
      readTwo_append days]

def continuesSeconds (c : Char) : Bool :=
  isDigit c || c == '.'

theorem skipFraction_append {t r : List Char} (h : IsSecondsFraction t)
    (hr : Stops continuesSeconds r) : skipFraction (t ++ r) = r := by
  cases h with
  | none =>
    rw [List.nil_append]
    unfold skipFraction
    split
    next => exact absurd (hr '.' rfl) (by decide)
    next => rfl
  | @digits t some digits =>
    have hstop : Stops isDigit r := hr.of_imp fun c hc => by simp [continuesSeconds, hc]
    obtain ⟨c, t, rfl⟩ := List.exists_cons_of_ne_nil some
    rw [List.forall_mem_cons] at digits
    show (if isDigit c = true then _ else _) = r
    rw [if_pos digits.1]
    show (t ++ r).dropWhile isDigit = r
    rw [List.dropWhile_append_of_pos digits.2, hstop.dropWhile]

theorem readTime_append {t r : List Char} (h : IsTime t) (hr : Stops continuesSeconds r) :
    readTime (t ++ r) = some r := by
  cases h with
  | time hours minutes seconds fraction =>
    simp only [List.append_assoc, List.cons_append]
    simp [readTime, readTwo_append hours, readChar_cons, readTwo_append minutes,
      readTwo_append seconds, skipFraction_append fraction hr]

theorem readOffset_append {t r : List Char} (h : IsOffset t) (hr : Ends r) :
    (readOffset (t ++ r)).getD (t ++ r) = r := by
  cases h with
  | none =>
    rw [List.nil_append]
    cases r with
    | nil => rfl
    | cons c r =>
      have hstop : Stops (fun c => c == 'Z' || c == 'z' || c == '+' || c == '-') (c :: r) :=
        hr.stops (by decide)
      have hc := hstop c rfl
      simp only [Bool.or_eq_false_iff, beq_eq_false_iff_ne] at hc
      simp [readOffset, hc]
  | zero letter => simp [readOffset, letter]
  | @ahead c _ _ h m sign hours minutes =>
    have hzero : ¬ (c = 'Z' ∨ c = 'z') := by rcases sign with rfl | rfl <;> decide
    simp only [List.append_assoc, List.cons_append]
    simp [readOffset, hzero, sign, readTwo_append hours, readChar_cons, readTwo_append minutes]

theorem IsOffset.stops {t r : List Char} (h : IsOffset t) (hr : Ends r) :
    Stops continuesSeconds (t ++ r) := by
  cases h with
  | none => exact hr.stops (by decide)
  | zero letter => exact stops_cons (by rcases letter with rfl | rfl <;> decide)
  | ahead sign => exact stops_cons (by rcases sign with rfl | rfl <;> decide)

theorem readFixed_eq_some {size v : Nat} {s r : List Char} (h : readFixed size s = some (v, r)) :
    ∃ t, s = t ++ r ∧ t.length = size ∧ ∀ c ∈ t, isDigit c = true := by
  induction size generalizing v r with
  | zero =>
    obtain ⟨-, rfl⟩ := Prod.mk.inj (Option.some.inj h)
    exact ⟨[], rfl, rfl, by simp⟩
  | succ size ih =>
    obtain ⟨⟨w, u⟩, hw, hlast⟩ := Option.bind_eq_some_iff.mp h
    obtain ⟨t, rfl, rfl, ht⟩ := ih hw
    dsimp only at hlast
    split at hlast
    next c u =>
      obtain ⟨d, hd, he⟩ := Option.map_eq_some_iff.mp hlast
      obtain ⟨-, rfl⟩ := Prod.mk.inj he
      refine ⟨t ++ [c], by simp, by simp, ?_⟩
      intro e he
      rcases List.mem_append.mp he with he | he
      · exact ht e he
      · rw [List.mem_singleton.mp he]
        exact isDigit_of_digitIn hd
    next => cases hlast

def Undated (marks : List Char) (s : List Char) : Prop :=
  ∃ t r, s = t ++ r ∧ (∀ c ∈ t, isDigit c = true) ∧ Stops isDigit r ∧
    (t = [] ∨ Stops marks.contains r)

theorem readChar_eq_some {c : Char} {s r : List Char} (h : readChar c s = some r) : s = c :: r := by
  cases s with
  | nil => cases h
  | cons d s =>
    rw [readChar] at h
    split at h
    next hc => rw [← hc, Option.some.inj h]
    next => cases h

theorem Undated.readFixed_readChar {marks s : List Char} (h : Undated marks s) {size v : Nat}
    {c : Char} (hc : c ∈ marks) (hd : isDigit c = false) {u : List Char}
    (hs : readFixed (size + 1) s = some (v, u)) : readChar c u = none := by
  obtain ⟨t, r, rfl, ht, hr, hmark⟩ := h
  obtain ⟨t', he, hlength, ht'⟩ := readFixed_eq_some hs
  cases hread : readChar c u with
  | none => rfl
  | some w =>
    obtain rfl := readChar_eq_some hread
    obtain ⟨rfl, rfl⟩ := span_inj ht ht' hr (stops_cons hd) he
    rcases hmark with rfl | hmark
    · cases hlength
    · have hm := hmark c rfl
      simp [hc] at hm

theorem Undated.readDate_eq {marks s : List Char} (h : Undated marks s) (hm : '-' ∈ marks) :
    readDate s = none := by
  rw [readDate]
  cases hs : readFixed 4 s with
  | none => rfl
  | some p => simp [h.readFixed_readChar hm (by decide) hs]

theorem Undated.readTime_eq {marks s : List Char} (h : Undated marks s) (hm : ':' ∈ marks) :
    readTime s = none := by
  rw [readTime, readTwo]
  cases hs : readFixed 2 s with
  | none => rfl
  | some p =>
    have hnone := h.readFixed_readChar hm (by decide) hs
    by_cases hrange : p.1 ≤ 23 <;> simp [hrange, hnone]

theorem undated_of_stops {marks s : List Char} (h : Stops isDigit s) : Undated marks s :=
  ⟨[], s, rfl, by simp, h, .inl rfl⟩

theorem IsFixed.isDigit {size v : Nat} {t : List Char} (h : IsFixed size v t) :
    ∀ c ∈ t, isDigit c = true := by
  induction h with
  | nil => simp
  | digit front digit ih =>
    intro c hc
    rcases List.mem_append.mp hc with hc | hc
    · exact ih c hc
    · rw [List.mem_singleton.mp hc]
      exact isDigit_of_digitIn digit

theorem IsTime.readDate_eq {t : List Char} (h : IsTime t) (r : List Char) :
    readDate (t ++ r) = none := by
  cases h with
  | @time _ _ _ h m s f hours =>
    have hundated : Undated ['-'] (h ++ ':' :: m ++ ':' :: s ++ f ++ r) :=
      ⟨h, ':' :: m ++ ':' :: s ++ f ++ r, by simp, hours.1.isDigit, stops_cons (by decide),
        .inr (stops_cons (by decide))⟩
    exact hundated.readDate_eq (by decide)

theorem readTimeOfDay_of_ends {r : List Char} (h : Ends r) : (readTimeOfDay r).getD r = r := by
  cases r with
  | nil => rfl
  | cons c r =>
    rw [readTimeOfDay]
    split
    next hc =>
      have hspace : c = ' ' := by
        have hstop : Stops (fun c => c == 'T' || c == 't') (c :: r) := h.stops (by decide)
        have hletter := hstop c rfl
        simp only [Bool.or_eq_false_iff, beq_eq_false_iff_ne] at hletter
        simpa [hletter] using hc
      have hends : Ends r := h.of_space (by rw [hspace]; rfl)
      have hundated : Undated [':'] r := undated_of_stops (hends.stops (by decide))
      rw [hundated.readTime_eq (by decide)]
      rfl
    next => rfl

theorem readDateTime_append {t r : List Char} (h : IsDateTime t) (hr : Ends r) :
    readDateTime (t ++ r) = some r := by
  cases h with
  | date date =>
    rw [readDateTime, readDate_append date]
    exact congrArg some (readTimeOfDay_of_ends hr)
  | time time =>
    rw [readDateTime, time.readDate_eq]
    exact readTime_append time (hr.stops (by decide))
  | @both c t u v date mark time offset =>
    have hmark : (decide (c = 'T') || decide (c = 't') || decide (c = ' ')) = true := by
      rcases mark with rfl | rfl | rfl <;> decide
    have htime := readTime_append time (offset.stops hr)
    have happend : t ++ c :: u ++ v ++ r = t ++ (c :: (u ++ (v ++ r))) := by simp
    rw [happend, readDateTime, readDate_append date]
    simp [readTimeOfDay, hmark, htime, readOffset_append offset hr]

theorem IsDigits.undated {ds : List Nat} {t : List Char} (h : IsDigits 10 ds t) {r : List Char}
    (hd : Stops isDigit r) (hr : Stops ['-', ':'].contains r) : Undated ['-', ':'] (t ++ r) := by
  induction h with
  | @last c d digit =>
    exact ⟨[c], r, rfl, by simpa using isDigit_of_digitIn digit, hd, .inr hr⟩
  | @next c d ds t digit digits ih =>
    obtain ⟨u, v, he, hu, hv, hmark⟩ := ih
    refine ⟨c :: u, v, by rw [List.cons_append, he]; rfl, ?_, hv, .inr ?_⟩
    · exact List.forall_mem_cons.mpr ⟨isDigit_of_digitIn digit, hu⟩
    · rcases hmark with rfl | hmark
      · rw [List.nil_append] at he
        rw [← he]
        exact digits.stops (by decide) r
      · exact hmark
  | @underscore c d ds t digit digits ih =>
    exact ⟨[c], '_' :: (t ++ r), rfl, by simpa using isDigit_of_digitIn digit,
      stops_cons (by decide), .inr (stops_cons (by decide))⟩

theorem IsWhole.undated {ds : List Nat} {t : List Char} (h : IsWhole ds t) {r : List Char}
    (hd : Stops isDigit r) (hr : Stops ['-', ':'].contains r) : Undated ['-', ':'] (t ++ r) := by
  cases h with
  | zero => exact ⟨['0'], r, rfl, by simp [isDigit], hd, .inr hr⟩
  | digits digits => exact digits.undated hd hr

theorem IsSign.undated {negative : Bool} {s : List Char} (h : IsSign negative s)
    {marks t : List Char} (ht : Undated marks t) : Undated marks (s ++ t) := by
  cases h with
  | none => exact ht
  | plus => exact undated_of_stops (stops_cons (by decide))
  | minus => exact undated_of_stops (stops_cons (by decide))

theorem IsNumber.undated {n : Number} {t r : List Char} (h : IsNumber n t) (hr : Ends r) :
    Undated ['-', ':'] (t ++ r) := by
  cases h with
  | integer sign whole =>
    rw [List.append_assoc]
    exact sign.undated (whole.undated (hr.stops (by decide)) (hr.stops (by decide)))
  | @based mark base _ _ t letter =>
    have hmark : isDigit mark = false ∧ ['-', ':'].contains mark = false := by
      simp only [List.mem_cons, Prod.mk.injEq, List.not_mem_nil, or_false] at letter
      rcases letter with ⟨rfl, -⟩ | ⟨rfl, -⟩ | ⟨rfl, -⟩ <;> decide
    exact ⟨['0'], mark :: (t ++ r), rfl, by simp [isDigit], stops_cons hmark.1,
      .inr (stops_cons hmark.2)⟩
  | fraction sign integral =>
    simp only [List.append_assoc, List.cons_append]
    exact sign.undated (integral.undated (stops_cons (by decide)) (stops_cons (by decide)))
  | power sign integral exponent =>
    rw [List.append_assoc, List.append_assoc]
    refine sign.undated (integral.undated ?_ ?_) <;> exact exponent.stops (by decide) r
  | infinite sign =>
    rw [List.append_assoc]
    exact sign.undated (undated_of_stops (stops_cons (by decide)))
  | nan sign =>
    rw [List.append_assoc]
    exact sign.undated (undated_of_stops (stops_cons (by decide)))

theorem IsNumber.readDateTime_eq {n : Number} {t r : List Char} (h : IsNumber n t) (hr : Ends r) :
    readDateTime (t ++ r) = none := by
  have hundated := h.undated hr
  rw [readDateTime, hundated.readDate_eq (by decide)]
  exact hundated.readTime_eq (by decide)

def figures : List Char :=
  ['+', '-', 'i', 'n'] ++ decimals

theorem IsSign.stops {negative : Bool} {s t : List Char} (h : IsSign negative s) {p : Char → Bool}
    (hp : Avoids figures p) (ht : Stops p t) : Stops p (s ++ t) := by
  cases h with
  | none => exact ht
  | plus => exact stops_cons (hp '+' (by decide))
  | minus => exact stops_cons (hp '-' (by decide))

theorem IsNumber.stops {n : Number} {t : List Char} (h : IsNumber n t) {p : Char → Bool}
    (hp : Avoids figures p) (r : List Char) : Stops p (t ++ r) := by
  have hd : Avoids decimals p := fun c hc => hp c (List.mem_append_right _ hc)
  cases h with
  | integer sign whole =>
    rw [List.append_assoc]
    exact sign.stops hp (whole.stops hd r)
  | based => exact stops_cons (hd '0' (by decide))
  | fraction sign integral =>
    simp only [List.append_assoc]
    exact sign.stops hp (integral.stops hd _)
  | power sign integral =>
    simp only [List.append_assoc]
    exact sign.stops hp (integral.stops hd _)
  | infinite sign =>
    rw [List.append_assoc]
    exact sign.stops hp (stops_cons (hp 'i' (by decide)))
  | nan sign =>
    rw [List.append_assoc]
    exact sign.stops hp (stops_cons (hp 'n' (by decide)))

theorem IsFixed.stops {size v : Nat} {t : List Char} (h : IsFixed (size + 1) v t)
    {p : Char → Bool} (hp : Avoids decimals p) (r : List Char) : Stops p (t ++ r) := by
  have hd := h.isDigit
  cases h with
  | @digit _ _ _ c t =>
    intro e he
    apply hp e (mem_decimals (hd e ?_))
    cases t with
    | nil =>
      obtain rfl : c = e := Option.some.inj he
      simp
    | cons a t =>
      obtain rfl : a = e := Option.some.inj he
      simp

theorem IsDateTime.stops {t : List Char} (h : IsDateTime t) {p : Char → Bool}
    (hp : Avoids decimals p) (r : List Char) : Stops p (t ++ r) := by
  have hdate {t r : List Char} (h : IsDate t) : Stops p (t ++ r) := by
    cases h with
    | date years =>
      rw [List.append_assoc, List.append_assoc]
      exact years.stops hp _
  cases h with
  | date date => exact hdate date
  | time time =>
    cases time with
    | time hours =>
      simp only [List.append_assoc]
      exact hours.1.stops hp _
  | both date =>
    simp only [List.append_assoc]
    exact hdate date

theorem IsText.stops {cs t : List Char} (h : IsText cs t) {p : Char → Bool}
    (hp : Avoids ['"', '\''] p) (r : List Char) : Stops p (t ++ r) := by
  cases h with
  | basic basic =>
    obtain ⟨u, rfl, -⟩ := basic
    exact stops_cons (hp '"' (by decide))
  | literal literal =>
    obtain ⟨rfl, -⟩ := literal
    exact stops_cons (hp '\'' (by decide))
  | basicBlock block => cases block <;> exact stops_cons (hp '"' (by decide))
  | literalBlock block => cases block <;> exact stops_cons (hp '\'' (by decide))

theorem readScalar_eq {s : List Char} (h : Stops ['t', 'f'].contains s) :
    readScalar s =
      match readText s with
      | some (text, r) => some (.text (String.ofList text), r)
      | none =>
        match readDateTime s with
        | some r => some (.dateTime, r)
        | none => (readNumber s).map fun (n, r) => (.number n, r) := by
  unfold readScalar
  split
  next => exact absurd (h 't' rfl) (by decide)
  next => exact absurd (h 'f' rfl) (by decide)
  next => rfl

theorem readText_eq_none {s : List Char} (h : Stops ['"', '\''].contains s) :
    readText s = none := by
  unfold readText
  split
  next => exact absurd (h '"' rfl) (by decide)
  next => exact absurd (h '\'' rfl) (by decide)
  next =>
    unfold readLineText
    split
    next => exact absurd (h '"' rfl) (by decide)
    next => exact absurd (h '\'' rfl) (by decide)
    next => rfl

theorem readScalar_append {v : Scalar} {t r : List Char} (h : IsScalar v t) (hr : Ends r) :
    readScalar (t ++ r) = some (v, r) := by
  cases h with
  | yes => rfl
  | no => rfl
  | text text => rw [readScalar_eq (text.stops (by decide) r), readText_append text hr]
  | number number =>
    rw [readScalar_eq (number.stops (by decide) r), readText_eq_none (number.stops (by decide) r),
      number.readDateTime_eq hr, readNumber_append number hr]
    rfl
  | dateTime dateTime =>
    rw [readScalar_eq (dateTime.stops (by decide) r),
      readText_eq_none (dateTime.stops (by decide) r), readDateTime_append dateTime hr]

end ServerActions.Toml
