import ServerActions.Text.Occurrence

namespace ServerActions.Text

def Stops (p : Char → Bool) (s : List Char) : Prop :=
  ∀ c ∈ s.head?, p c = false

instance (p : Char → Bool) (s : List Char) : Decidable (Stops p s) :=
  Option.decidableForallMem s.head?

def Avoids (cs : List Char) (p : Char → Bool) : Prop :=
  ∀ c ∈ cs, p c = false

instance (cs : List Char) (p : Char → Bool) : Decidable (Avoids cs p) :=
  List.decidableBAll (fun c => p c = false) cs

theorem stops_nil {p : Char → Bool} : Stops p [] := by
  intro c hc
  cases hc

theorem stops_cons {p : Char → Bool} {c : Char} {s : List Char} (h : p c = false) :
    Stops p (c :: s) := by
  intro d hd
  obtain rfl := Option.some.inj hd
  exact h

theorem Stops.ne_cons {p : Char → Bool} {c : Char} {s : List Char} (hs : Stops p s)
    (hc : p c = true) (r : List Char) : s ≠ c :: r := by
  rintro rfl
  rw [hs c rfl] at hc
  cases hc

theorem Stops.append {p : Char → Bool} {s r : List Char} (hs : Stops p s) (hr : Stops p r) :
    Stops p (s ++ r) := by
  cases s with
  | nil => exact hr
  | cons c s => exact stops_cons (hs c rfl)

theorem Stops.of_imp {p q : Char → Bool} {s : List Char} (h : ∀ c, p c = true → q c = true)
    (hs : Stops q s) : Stops p s := by
  intro c hc
  cases hp : p c with
  | false => rfl
  | true =>
    have hq := h c hp
    rw [hs c hc] at hq
    cases hq

theorem isBlank_of_mem_space : ∀ c ∈ [' '], isBlank c = true :=
  List.forall_mem_singleton.mpr rfl

theorem not_mem_of_isBlank {s : List Char} (hs : ∀ c ∈ s, isBlank c = true) {c : Char}
    (hc : isBlank c = false) : c ∉ s := by
  intro hm
  rw [hs c hm] at hc
  cases hc

theorem Stops.dropWhile {p : Char → Bool} {s : List Char} (h : Stops p s) :
    s.dropWhile p = s := by
  cases s with
  | nil => rfl
  | cons c s =>
    apply List.dropWhile_cons_of_neg
    simp [h c rfl]

theorem Stops.takeWhile {p : Char → Bool} {s : List Char} (h : Stops p s) :
    s.takeWhile p = [] := by
  cases s with
  | nil => rfl
  | cons c s =>
    apply List.takeWhile_cons_of_neg
    simp [h c rfl]

theorem stops_dropWhile (p : Char → Bool) (s : List Char) : Stops p (s.dropWhile p) := by
  intro c hc
  have h := List.head?_dropWhile_not p s
  rw [Option.mem_def.mp hc] at h
  simpa using h

theorem span_inj {p : Char → Bool} {s s' r r' : List Char} (hs : ∀ c ∈ s, p c = true)
    (hs' : ∀ c ∈ s', p c = true) (hr : Stops p r) (hr' : Stops p r') (h : s ++ r = s' ++ r') :
    s = s' ∧ r = r' := by
  have ht : s = s' := by
    have ht := congrArg (List.takeWhile p) h
    simpa [List.takeWhile_append_of_pos hs, List.takeWhile_append_of_pos hs', hr.takeWhile,
      hr'.takeWhile] using ht
  subst ht
  exact ⟨rfl, List.append_cancel_left h⟩

theorem cut_inj {c : Char} {s s' r r' : List Char} (hs : c ∉ s) (hs' : c ∉ s')
    (h : s ++ c :: r = s' ++ c :: r') : s = s' ∧ r = r' := by
  have hp {t : List Char} (ht : c ∉ t) : ∀ d ∈ t, (d != c) = true := by
    intro d hd
    apply bne_iff_ne.mpr
    rintro rfl
    exact ht hd
  have hstop (t : List Char) : Stops (· != c) (c :: t) := stops_cons (by simp)
  obtain ⟨rfl, hr⟩ := span_inj (hp hs) (hp hs') (hstop r) (hstop r') h
  exact ⟨rfl, (List.cons.inj hr).2⟩

theorem afterBlanks_append {t r : List Char} (ht : t ≠ []) (hb : ∀ c ∈ t, isBlank c = true)
    (hr : Stops isBlank r) : afterBlanks? (t ++ r) = some r := by
  cases t with
  | nil => exact absurd rfl ht
  | cons c t =>
    have hd : (t ++ r).dropWhile isBlank = r := by
      rw [List.dropWhile_append_of_pos fun d hd => hb d (List.mem_cons_of_mem _ hd), hr.dropWhile]
    rw [List.cons_append, afterBlanks?, if_pos (hb c List.mem_cons_self), hd]

theorem afterWord_eq_some_iff {f : Char → Char} {w s r : List Char} :
    afterWord? (fun a c => a == f c) w s = some r ↔ ∃ t, t.map f = w ∧ s = t ++ r := by
  induction w generalizing s with
  | nil =>
    simp [afterWord?]
  | cons a w ih =>
    cases s with
    | nil =>
      constructor
      · intro h
        cases h
      · rintro ⟨t, ht, hs⟩
        rw [(List.append_eq_nil_iff.mp hs.symm).1] at ht
        cases ht
    | cons c s =>
      rw [afterWord?]
      constructor
      · intro h
        split at h
        next hac =>
          obtain ⟨t, ht, rfl⟩ := ih.mp h
          exact ⟨c :: t, by rw [List.map_cons, ht, eq_of_beq hac], rfl⟩
        next => cases h
      · rintro ⟨t, ht, hs⟩
        cases t with
        | nil => cases ht
        | cons d t =>
          obtain ⟨rfl, ht'⟩ := List.cons.inj ht
          obtain ⟨rfl, rfl⟩ := List.cons.inj hs
          rw [if_pos (beq_self_eq_true _)]
          exact ih.mpr ⟨t, ht', rfl⟩

theorem afterLetters_eq_some_iff {w s r : List Char} :
    afterWord? sameLetter w s = some r ↔ ∃ t, t.map Char.toLower = w ∧ s = t ++ r :=
  afterWord_eq_some_iff

theorem afterExact_eq_some_iff {w s r : List Char} :
    afterWord? (· == ·) w s = some r ↔ s = w ++ r := by
  have h := afterWord_eq_some_iff (f := id) (w := w) (s := s) (r := r)
  simp only [List.map_id_fun, id_eq, exists_eq_left] at h
  exact h

theorem until_append {stop : Char → Bool} {b r : List Char} {c : Char} (hb : b ≠ [])
    (hs : ∀ d ∈ b, stop d = false) (hc : stop c = true) :
    until? stop (b ++ c :: r) = some (b, r) := by
  have hp : ∀ d ∈ b, (!stop d) = true := by
    intro d hd
    simp [hs d hd]
  have hstops : Stops (!stop ·) (c :: r) := stops_cons (by simp [hc])
  rw [until?, List.takeWhile_append_of_pos hp, List.dropWhile_append_of_pos hp, hstops.takeWhile,
    hstops.dropWhile, List.append_nil]
  cases b with
  | nil => exact absurd rfl hb
  | cons d b => rfl

theorem prefix_of_not_mem {w u s : List Char} {c : Char} (h : w <+: u ++ c :: s) (hc : c ∉ w) :
    w <+: u := by
  have hc' : u ++ [c] <+: u ++ c :: s := ⟨s, by simp⟩
  rcases List.prefix_or_prefix_of_prefix h hc' with hw | hw
  · rcases List.prefix_concat_iff.mp hw with rfl | hw
    · exact absurd (by simp) hc
    · exact hw
  · exact absurd (hw.mem (by simp)) hc

theorem suffix_of_not_mem {w s u : List Char} {c : Char} (h : w <:+ s ++ c :: u) (hc : c ∉ w) :
    w <:+ u := by
  rw [← List.reverse_prefix] at h ⊢
  rw [List.reverse_append, List.reverse_cons, List.append_assoc, List.singleton_append] at h
  exact prefix_of_not_mem h fun hm => hc (List.mem_reverse.mp hm)

theorem infix_of_suffix_concat {w u s t : List Char} {c : Char} (h : w <+: u ++ s) (hu : u ≠ [])
    (ht : u <:+ t ++ [c]) (hc : c ∉ w) : w <:+: t := by
  obtain rfl | ⟨v, rfl, hv⟩ := List.suffix_concat_iff.mp ht
  · exact absurd rfl hu
  · rw [← List.append_cons] at h
    exact (prefix_of_not_mem h hc).isInfix.trans hv.isInfix

theorem infix_of_not_mem {w u s : List Char} {c : Char} (h : w ++ [c] <:+: u ++ s) (hc : c ∉ s) :
    w ++ [c] <:+: u := by
  obtain ⟨a, b, h⟩ := h
  rcases List.append_eq_append_iff.mp h with ⟨t, rfl, -⟩ | ⟨t, ht, rfl⟩
  · exact ⟨a, t, rfl⟩
  · rcases List.eq_nil_or_concat t with rfl | ⟨t, d, rfl⟩
    · exact ⟨a, [], by simpa using ht⟩
    · rw [List.concat_eq_append, ← List.append_assoc, ← List.append_assoc] at ht
      obtain rfl := List.singleton_inj.mp (List.append_inj' ht rfl).2
      simp at hc

end ServerActions.Text
