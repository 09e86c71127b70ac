import ServerActions.Proofs.Json.Layout

namespace ServerActions.Json

open Text

def readUnit : Reader Nat
  | '\\' :: 'u' :: a :: b :: c :: d :: s => (Toml.hexValue? [a, b, c, d]).map (·, s)
  | _ => none

def readUnits (s : List Char) : Option (Char × List Char) := do
  let (m, r) ← readUnit s
  if isLead m then
    let (n, r) ← readUnit r
    if isTrail n then some (paired m n, r) else none
  else if isTrail m then none
  else some (Char.ofNat m, r)

def readChar : Reader Char
  | '\\' :: 'u' :: s => readUnits ('\\' :: 'u' :: s)
  | '\\' :: e :: s => (shortEscape? e).map (·, s)
  | c :: s => if c.toNat < 0x20 ∨ c = '"' ∨ c = '\\' then none else some (c, s)
  | [] => none

def readChars (s : List Char) : Option (List Char × List Char) :=
  match s with
  | '"' :: r => some ([], r)
  | s =>
    match readChar s with
    | none => none
    | some (c, r) =>
      if r.length < s.length then (readChars r).map fun (cs, r) => (c :: cs, r) else none
  termination_by s.length

def readQuoted : Reader String
  | '"' :: s => readMapped String.ofList readChars s
  | _ => none

theorem reads_unit : Reads anywhere readUnit IsUnit := by
  constructor
  · intro s r n h
    unfold readUnit at h
    split at h
    next a b c d u =>
      obtain ⟨m, hm, he⟩ := Option.map_eq_some_iff.mp h
      obtain ⟨rfl, rfl⟩ := Prod.mk.inj he
      exact ⟨['\\', 'u', a, b, c, d], rfl, .digits hm⟩
    next => cases h
  · rintro t r n ⟨hvalue⟩ -
    simp [readUnit, hvalue]

theorem readChar_unit {n : Nat} {t : List Char} (h : IsUnit n t) (r : List Char) :
    readChar (t ++ r) = readUnits (t ++ r) := by
  cases h
  rfl

theorem reads_char : Reads anywhere readChar IsChar := by
  constructor
  · intro s r c h
    unfold readChar at h
    split at h
    next u =>
      obtain ⟨⟨m, v⟩, hm, h⟩ := Option.bind_eq_some_iff.mp h
      obtain ⟨t, hs, ht⟩ := reads_unit.sound hm
      rw [hs]
      change (if isLead m then _ else if isTrail m then _ else _) = _ at h
      -- the first half of a pair takes the escape of the second half with it
      split_ifs at h with hlead htrail
      · obtain ⟨⟨n, w⟩, hn, hpair⟩ := Option.bind_eq_some_iff.mp h
        obtain ⟨t', rfl, ht'⟩ := reads_unit.sound hn
        change (if isTrail n then _ else _) = _ at hpair
        split_ifs at hpair with htrail
        obtain ⟨rfl, rfl⟩ := Prod.mk.inj (Option.some.inj hpair)
        exact ⟨t ++ t', by simp, .pair ht ht' hlead htrail⟩
      · obtain ⟨rfl, rfl⟩ := Prod.mk.inj (Option.some.inj h)
        exact ⟨t, rfl, .unit ht (by simpa using hlead) (by simpa using htrail)⟩
    next e u _ =>
      obtain ⟨d, hd, he⟩ := Option.map_eq_some_iff.mp h
      obtain ⟨rfl, rfl⟩ := Prod.mk.inj he
      exact ⟨['\\', e], rfl, .short hd⟩
    next d u _ _ =>
      split_ifs at h with hd
      obtain ⟨rfl, rfl⟩ := Prod.mk.inj (Option.some.inj h)
      simp only [not_or, Nat.not_lt] at hd
      exact ⟨[d], rfl, .plain hd.1 hd.2.1 hd.2.2⟩
    next => cases h
  · intro t r c ht hr
    cases ht with
    | plain high quote backslash =>
      unfold readChar
      split
      next heq => exact absurd (List.cons.inj heq).1 backslash
      next heq => exact absurd (List.cons.inj heq).1 backslash
      next heq =>
        obtain ⟨rfl, rfl⟩ := List.cons.inj heq
        rw [if_neg (by simp [Nat.not_lt.mpr high, quote, backslash])]
        rfl
      next heq => cases heq
    | short escape =>
      unfold readChar
      split
      next heq =>
        obtain ⟨rfl, rfl⟩ := List.cons.inj (List.cons.inj heq).2
        cases escape
      next heq =>
        obtain ⟨rfl, rfl⟩ := List.cons.inj (List.cons.inj heq).2
        rw [escape]
        rfl
      next hnot heq =>
        obtain ⟨rfl, rfl⟩ := List.cons.inj heq
        exact absurd rfl (hnot _ _ rfl)
      next heq => cases heq
    | unit unit lead trail =>
      rw [readChar_unit unit, readUnits, reads_unit.complete unit hr]
      simp [lead, trail]
    | pair first second lead trail =>
      rw [List.append_assoc, readChar_unit first, readUnits,
        reads_unit.complete first (stops_anywhere _)]
      simp [lead, trail, reads_unit.complete second hr]

theorem IsChar.exists_cons {c : Char} {t : List Char} (h : IsChar c t) :
    ∃ d s, t = d :: s ∧ d ≠ '"' := by
  cases h with
  | plain _ quote => exact ⟨c, [], rfl, quote⟩
  | short => exact ⟨'\\', _, rfl, by decide⟩
  | unit unit =>
    cases unit
    exact ⟨'\\', _, rfl, by decide⟩
  | pair first =>
    cases first
    exact ⟨'\\', _, rfl, by decide⟩

theorem readChars_sound {s cs r : List Char} (h : readChars s = some (cs, r)) :
    ∃ t, s = t ++ '"' :: r ∧ IsChars cs t := by
  induction hn : s.length using Nat.strongRecOn generalizing s cs r with
  | ind n ih =>
    rw [readChars.eq_def] at h
    split at h
    next =>
      obtain ⟨rfl, rfl⟩ := Prod.mk.inj (Option.some.inj h)
      exact ⟨[], rfl, .nil⟩
    next =>
      split at h
      next => cases h
      next c u hc =>
        split_ifs at h with hlt
        obtain ⟨⟨ds, v⟩, hds, he⟩ := Option.map_eq_some_iff.mp h
        obtain ⟨rfl, rfl⟩ := Prod.mk.inj he
        obtain ⟨t, hs, ht⟩ := reads_char.sound hc
        obtain ⟨w, rfl, hw⟩ := ih u.length (by omega) hds rfl
        exact ⟨t ++ w, by rw [hs, List.append_assoc], .cons ht hw⟩

theorem readChars_complete {cs t : List Char} (h : IsChars cs t) (r : List Char) :
    readChars (t ++ '"' :: r) = some (cs, r) := by
  induction h with
  | nil =>
    rw [List.nil_append, readChars]
  | @cons c cs t u char chars ih =>
    obtain ⟨d, s, rfl, hd⟩ := char.exists_cons
    have hread := reads_char.complete char (stops_anywhere (u ++ '"' :: r))
    have hlt : (u ++ '"' :: r).length < (d :: s ++ (u ++ '"' :: r)).length := by
      simp only [List.length_append, List.length_cons]
      omega
    rw [List.append_assoc, readChars.eq_def]
    split
    next heq => exact absurd (List.cons.inj heq).1 hd
    next =>
      rw [hread]
      show (if _ then _ else _) = _
      rw [if_pos hlt, ih]
      rfl

theorem reads_quoted : Reads anywhere readQuoted IsQuoted := by
  constructor
  · intro s r text h
    unfold readQuoted at h
    split at h
    next u =>
      obtain ⟨⟨cs, v⟩, hcs, he⟩ := Option.map_eq_some_iff.mp h
      obtain ⟨rfl, rfl⟩ := Prod.mk.inj he
      obtain ⟨t, rfl, ht⟩ := readChars_sound hcs
      exact ⟨'"' :: t ++ ['"'], by simp, t, rfl, by rwa [String.toList_ofList]⟩
    next => cases h
  · rintro t r text ⟨u, rfl, hu⟩ -
    have hread := readChars_complete hu r
    simp [readQuoted, readMapped, hread]

theorem opens_quoted : Opens IsQuoted := by
  rintro text t ⟨u, rfl, -⟩
  exact ⟨'"', u ++ ['"'], rfl, rfl⟩

end ServerActions.Json
