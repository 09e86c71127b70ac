import ServerActions.Text.Occurrence

/-!
What a scan from left to right finds.  A grammar says which texts stand for a value; a pattern
recognizes it if it reads exactly those texts, whatever follows them.  The occurrences that such a
pattern finds are occurrences of the grammar, do not overlap, and leave out only occurrences that
start inside a found one.
-/

namespace ServerActions.Text

variable {α : Type}

abbrev Grammar (α : Type) := α → List Char → Prop

namespace Grammar

def OccursFrom (G : Grammar α) (start : Nat) (s : List Char) (o : Occurrence α) : Prop :=
  ∃ before t after, s = before ++ t ++ after ∧ o.start = start + before.length ∧
    o.stop = o.start + t.length ∧ G o.value t

def Occurs (G : Grammar α) (s : List Char) (o : Occurrence α) : Prop :=
  ∃ before t after, s = before ++ t ++ after ∧ o.start = before.length ∧
    o.stop = o.start + t.length ∧ G o.value t

theorem occursFrom_zero {G : Grammar α} {s : List Char} {o : Occurrence α} :
    G.OccursFrom 0 s o ↔ G.Occurs s o := by
  simp only [OccursFrom, Occurs, Nat.zero_add]

theorem OccursFrom.prepend {G : Grammar α} {start : Nat} {s : List Char} {o : Occurrence α}
    (t : List Char) (h : G.OccursFrom (start + t.length) s o) : G.OccursFrom start (t ++ s) o := by
  obtain ⟨before, w, after, rfl, hs, he, hG⟩ := h
  refine ⟨t ++ before, w, after, by simp, ?_, he, hG⟩
  rw [hs, List.length_append]
  omega

/-- What a scan from left to right finds: occurrences in order and without overlap, and every other
occurrence starts strictly inside one of them. -/
structure IsScan (G : Grammar α) (s : List Char) (found : List (Occurrence α)) : Prop where
  sound : ∀ o ∈ found, G.Occurs s o
  ordered : found.Pairwise fun o o' => o.start < o'.start ∧ o.stop ≤ o'.start
  complete : ∀ o, G.Occurs s o → o ∈ found ∨ ∃ f ∈ found, f.start < o.start ∧ o.start < f.stop

theorem exists_occurs_iff {G : Grammar α} {s : List Char} :
    (∃ o, G.Occurs s o) ↔ ∃ a t, G a t ∧ t <:+: s := by
  constructor
  · rintro ⟨o, before, t, after, he, -, -, hG⟩
    exact ⟨o.value, t, hG, before, after, he.symm⟩
  · rintro ⟨a, t, hG, before, after, he⟩
    exact ⟨⟨before.length, before.length + t.length, a⟩, before, t, after, he.symm, rfl, rfl, hG⟩

theorem IsScan.eq_nil_iff {G : Grammar α} {s : List Char} {found : List (Occurrence α)}
    (h : G.IsScan s found) : found = [] ↔ ∀ o, ¬ G.Occurs s o := by
  constructor
  · rintro rfl o ho
    rcases h.complete o ho with hm | ⟨f, hf, -⟩
    · cases hm
    · cases hf
  · intro hn
    apply List.eq_nil_iff_forall_not_mem.mpr
    intro o ho
    exact hn o (h.sound o ho)

theorem IsScan.head_least {G : Grammar α} {s : List Char} {first : Occurrence α}
    {rest : List (Occurrence α)} (h : G.IsScan s (first :: rest)) {o : Occurrence α}
    (ho : G.Occurs s o) : o = first ∨ first.start < o.start := by
  have hle : ∀ f ∈ first :: rest, f = first ∨ first.start < f.start := by
    intro f hf
    rcases List.mem_cons.mp hf with rfl | hf
    · exact .inl rfl
    · exact .inr ((List.pairwise_cons.mp h.ordered).1 f hf).1
  rcases h.complete o ho with hm | ⟨f, hf, hlt, -⟩
  · exact hle o hm
  · right
    rcases hle f hf with rfl | hf
    · exact hlt
    · exact Nat.lt_trans hf hlt

end Grammar

namespace Pattern

/-- A pattern reads exactly the texts of a grammar, whatever follows them. -/
def Recognizes (p : Pattern α) (G : Grammar α) : Prop :=
  ∀ s a r, p.read s = some (a, r) ↔ ∃ t, s = t ++ r ∧ G a t

theorem read_nil (p : Pattern α) : p.read [] = none := by
  cases h : p.read [] with
  | none => rfl
  | some ar =>
    obtain ⟨t, ht, he⟩ := p.read_suffix h
    exact absurd (List.append_eq_nil_iff.mp he.symm).1 ht

theorem scan_induction (p : Pattern α) {motive : List Char → Prop} (nil : motive [])
    (skip : ∀ c s, p.read (c :: s) = none → motive s → motive (c :: s))
    (found : ∀ t r a, t ≠ [] → p.read (t ++ r) = some (a, r) → motive r → motive (t ++ r))
    (s : List Char) : motive s := by
  induction hn : s.length using Nat.strongRecOn generalizing s with
  | ind n ih =>
    cases s with
    | nil => exact nil
    | cons c s =>
      cases h : p.read (c :: s) with
      | none =>
        apply skip c s h
        exact ih s.length (by rw [← hn]; simp) s rfl
      | some ar =>
        obtain ⟨a, r⟩ := ar
        obtain ⟨t, ht, he⟩ := p.read_suffix h
        rw [he] at h ⊢
        apply found t r a ht h
        refine ih r.length ?_ r rfl
        have hl := List.length_pos_iff.mpr ht
        rw [← hn, he, List.length_append]
        omega

theorem occurrencesFrom_found {p : Pattern α} {t r : List Char} {a : α} (start : Nat)
    (h : p.read (t ++ r) = some (a, r)) :
    p.occurrencesFrom 0 start (t ++ r) =
      ⟨start, start + t.length, a⟩ :: p.occurrencesFrom 0 (start + t.length) r := by
  have hl : (t ++ r).length - r.length = t.length := by simp
  rw [occurrencesFrom_of_read h, hl]

theorem occurrencesFrom_unread {p : Pattern α} {t s : List Char} (start : Nat)
    (h : ∀ u, u ≠ [] → u <:+ t → p.read (u ++ s) = none) :
    p.occurrencesFrom 0 start (t ++ s) = p.occurrencesFrom 0 (start + t.length) s := by
  induction t generalizing start with
  | nil => rfl
  | cons c t ih =>
    have hc := h (c :: t) (List.cons_ne_nil _ _) List.suffix_rfl
    rw [List.cons_append] at hc ⊢
    rw [occurrencesFrom_of_read_none hc,
      ih (start + 1) fun u hu ht => h u hu (ht.trans (List.suffix_cons c t)), List.length_cons]
    congr 1
    omega

theorem occurrencesFrom_eq_nil {p : Pattern α} {t : List Char} (start : Nat)
    (h : ∀ u, u ≠ [] → u <:+ t → p.read (u ++ []) = none) : p.occurrencesFrom 0 start t = [] := by
  have hn := occurrencesFrom_unread start h
  rw [List.append_nil] at hn
  rw [hn, occurrencesFrom]

section Recognizes

variable {p : Pattern α} {G : Grammar α}

theorem Recognizes.read (h : p.Recognizes G) {a : α} {t : List Char} (ht : G a t)
    (r : List Char) : p.read (t ++ r) = some (a, r) :=
  (h _ _ _).mpr ⟨t, rfl, ht⟩

theorem Recognizes.ne_nil (h : p.Recognizes G) {a : α} {t : List Char} (ht : G a t) :
    t ≠ [] := by
  rintro rfl
  have hr := h.read ht []
  rw [List.append_nil, p.read_nil] at hr
  cases hr

theorem Recognizes.occurrencesFrom_sound (h : p.Recognizes G) (s : List Char) :
    ∀ start, ∀ o ∈ p.occurrencesFrom 0 start s, G.OccursFrom start s o := by
  induction s using p.scan_induction with
  | nil =>
    intro start o ho
    cases ho
  | skip c s hr ih =>
    intro start o ho
    rw [occurrencesFrom_of_read_none hr] at ho
    exact (ih (start + 1) o ho).prepend [c]
  | found t r a ht hr ih =>
    intro start o ho
    rw [occurrencesFrom_found start hr] at ho
    rcases List.mem_cons.mp ho with rfl | ho
    · obtain ⟨w, hw, hG⟩ := (h _ _ _).mp hr
      rw [← List.append_cancel_right hw] at hG
      exact ⟨[], t, r, rfl, rfl, rfl, hG⟩
    · exact (ih (start + t.length) o ho).prepend t

theorem Recognizes.occurrencesFrom_ordered (h : p.Recognizes G) (s : List Char) :
    ∀ start, (p.occurrencesFrom 0 start s).Pairwise
      fun o o' => o.start < o'.start ∧ o.stop ≤ o'.start := by
  induction s using p.scan_induction with
  | nil =>
    intro start
    exact List.Pairwise.nil
  | skip c s hr ih =>
    intro start
    rw [occurrencesFrom_of_read_none hr]
    exact ih (start + 1)
  | found t r a ht hr ih =>
    intro start
    rw [occurrencesFrom_found start hr, List.pairwise_cons]
    refine ⟨?_, ih (start + t.length)⟩
    intro o ho
    obtain ⟨before, w, after, -, hs, -, -⟩ := h.occurrencesFrom_sound r _ o ho
    have hl := List.length_pos_iff.mpr ht
    constructor
    · show start < o.start
      omega
    · show start + t.length ≤ o.start
      omega

theorem Recognizes.occurrencesFrom_complete (h : p.Recognizes G) (s : List Char) :
    ∀ start o, G.OccursFrom start s o → o ∈ p.occurrencesFrom 0 start s ∨
      ∃ f ∈ p.occurrencesFrom 0 start s, f.start < o.start ∧ o.start < f.stop := by
  induction s using p.scan_induction with
  | nil =>
    rintro start o ⟨before, w, after, he, -, -, hG⟩
    have hw := (List.append_eq_nil_iff.mp (List.append_eq_nil_iff.mp he.symm).1).2
    exact absurd hw (h.ne_nil hG)
  | skip c s hr ih =>
    rintro start o ⟨before, w, after, he, hs, hstop, hG⟩
    rw [occurrencesFrom_of_read_none hr]
    cases before with
    | nil =>
      rw [he, List.nil_append, h.read hG after] at hr
      cases hr
    | cons d before =>
      simp only [List.cons_append, List.cons.injEq] at he
      obtain ⟨rfl, rfl⟩ := he
      apply ih (start + 1) o
      refine ⟨before, w, after, rfl, ?_, hstop, hG⟩
      rw [hs, List.length_cons]
      omega
  | found t r a ht hr ih =>
    rintro start o ⟨before, w, after, he, hs, hstop, hG⟩
    rw [occurrencesFrom_found start hr]
    -- what starts behind the occurrence found is left to the rest, the other starts inside it
    by_cases hl : t.length ≤ before.length
    · have hpre : before <+: t ++ r := ⟨w ++ after, by rw [he, List.append_assoc]⟩
      obtain ⟨mid, rfl⟩ := List.prefix_of_prefix_length_le (List.prefix_append t r) hpre hl
      simp only [List.append_assoc, List.append_cancel_left_eq] at he
      have ho : G.OccursFrom (start + t.length) r o := by
        refine ⟨mid, w, after, by rw [he, List.append_assoc], ?_, hstop, hG⟩
        rw [hs, List.length_append]
        omega
      rcases ih (start + t.length) o ho with hm | ⟨f, hf, hlt⟩
      · exact .inl (List.mem_cons_of_mem _ hm)
      · exact .inr ⟨f, List.mem_cons_of_mem _ hf, hlt⟩
    · cases before with
      | nil =>
        -- two texts of the grammar at one place are the same
        rw [List.nil_append] at he
        rw [he, h.read hG after] at hr
        obtain ⟨hv, rfl⟩ := Prod.mk.inj (Option.some.inj hr)
        have ht' := List.append_cancel_right he
        left
        rw [List.mem_cons]
        left
        obtain ⟨_, _, _⟩ := o
        simp only [List.length_nil, Nat.add_zero] at hs hstop hv
        rw [hstop, hs, hv, ht']
      | cons d before =>
        rw [List.length_cons] at hl hs
        right
        refine ⟨_, List.mem_cons_self, ?_, ?_⟩
        · show start < o.start
          omega
        · show o.start < start + t.length
          omega

theorem Recognizes.isScan (h : p.Recognizes G) (s : List Char) : G.IsScan s (p.occurrences s) where
  sound o ho := Grammar.occursFrom_zero.mp (h.occurrencesFrom_sound s 0 o ho)
  ordered := h.occurrencesFrom_ordered s 0
  complete o ho := h.occurrencesFrom_complete s 0 o (Grammar.occursFrom_zero.mpr ho)

theorem Recognizes.exists_of_mem_values (h : p.Recognizes G) {s : List Char} {a : α}
    (ha : a ∈ p.values s) : ∃ t, G a t ∧ t <:+: s := by
  obtain ⟨o, ho, rfl⟩ := List.mem_map.mp ha
  obtain ⟨before, t, after, he, -, -, hG⟩ := (h.isScan s).sound o ho
  exact ⟨t, hG, before, after, he.symm⟩

theorem Recognizes.exists_mem_values_iff (h : p.Recognizes G) {a : α} :
    (∃ content : String, a ∈ p.values content.toList) ↔ ∃ t, G a t := by
  constructor
  · rintro ⟨content, ha⟩
    obtain ⟨t, hG, -⟩ := h.exists_of_mem_values ha
    exact ⟨t, hG⟩
  · rintro ⟨t, hG⟩
    have hfound := occurrencesFrom_found 0 (h.read hG [])
    rw [List.append_nil] at hfound
    refine ⟨String.ofList t, ?_⟩
    rw [String.toList_ofList, values, occurrences, hfound]
    exact List.mem_cons_self

end Recognizes

end Pattern

end ServerActions.Text
