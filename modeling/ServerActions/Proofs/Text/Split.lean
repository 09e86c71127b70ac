import ServerActions.Text.Split

namespace ServerActions.Text

theorem split_eq_splitOnP (sep : Char → Bool) (s : List Char) : split sep s = s.splitOnP sep := by
  induction s with
  | nil => rfl
  | cons c s ih =>
    rw [List.splitOnP_cons_eq_if_modifyHead, split, ih]
    split
    · rfl
    · split
      next h => exact absurd h (List.splitOnP_ne_nil sep s)
      next h =>
        rw [h]
        rfl

theorem mem_split {sep : Char → Bool} {s piece : List Char} (h : piece ∈ split sep s) :
    ∀ c ∈ piece, sep c = false ∧ c ∈ s := by
  induction s generalizing piece with
  | nil =>
    intro c hc
    rw [split, List.mem_singleton] at h
    rw [h] at hc
    cases hc
  | cons d s ih =>
    have ih' : ∀ q ∈ split sep s, ∀ c ∈ q, sep c = false ∧ c ∈ d :: s := fun q hq c hc =>
      ⟨(ih hq c hc).1, List.mem_cons_of_mem d (ih hq c hc).2⟩
    rw [split] at h
    split at h
    · rcases List.mem_cons.mp h with rfl | h
      · intro c hc
        cases hc
      · exact ih' piece h
    next hd =>
      split at h
      next hs => exact absurd hs (split_ne_nil sep s)
      next q qs hs =>
        rw [hs] at ih'
        rcases List.mem_cons.mp h with rfl | h
        · intro c hc
          rcases List.mem_cons.mp hc with rfl | hc
          · exact ⟨Bool.eq_false_iff.mpr hd, List.mem_cons_self⟩
          · exact ih' q List.mem_cons_self c hc
        · exact ih' piece (List.mem_cons_of_mem q h)

theorem split_append {sep : Char → Bool} {c : Char} (hc : sep c = true) (s t : List Char) :
    split sep (s ++ c :: t) = split sep s ++ split sep t := by
  simp only [split_eq_splitOnP, List.splitOnP_append_cons s t hc]

theorem split_eq_singleton {sep : Char → Bool} {s : List Char} (h : ∀ c ∈ s, sep c = false) :
    split sep s = [s] := by
  rw [split_eq_splitOnP, List.splitOnP_eq_singleton h]

theorem head?_split (sep : Char → Bool) (s : List Char) :
    (split sep s).head? = some (s.takeWhile (!sep ·)) := by
  induction s with
  | nil => rfl
  | cons c s ih =>
    rw [split, List.takeWhile_cons]
    by_cases hc : sep c = true
    · simp [hc]
    · cases hs : split sep s with
      | nil => exact absurd hs (split_ne_nil sep s)
      | cons piece pieces =>
        rw [hs] at ih
        simpa [hc] using ih

theorem split_join {c : Char} {pieces : List (List Char)} (hne : pieces ≠ [])
    (h : ∀ piece ∈ pieces, c ∉ piece) : split (· == c) (join c pieces) = pieces := by
  induction pieces with
  | nil => exact absurd rfl hne
  | cons piece pieces ih =>
    have hp : split (· == c) piece = [piece] := by
      apply split_eq_singleton
      intro d hd
      apply beq_eq_false_iff_ne.mpr
      rintro rfl
      exact h piece List.mem_cons_self hd
    by_cases hps : pieces = []
    · rw [hps, join, hp]
    · have hcut : split (· == c) (piece ++ c :: join c pieces) =
          split (· == c) piece ++ split (· == c) (join c pieces) :=
        split_append (by simp) _ _
      rw [join_cons hps, hcut, hp, ih hps (fun q hq => h q (List.mem_cons_of_mem piece hq)),
        List.singleton_append]

theorem cut_induction {c : Char} {motive : List Char → Prop} (piece : ∀ s, c ∉ s → motive s)
    (cut : ∀ s t, motive s → motive t → motive (s ++ c :: t)) (s : List Char) : motive s := by
  induction hn : s.length using Nat.strongRecOn generalizing s with
  | ind n ih =>
    by_cases hc : c ∈ s
    · obtain ⟨t, r, rfl, ht⟩ := List.eq_append_cons_of_mem hc
      have hlength : r.length < n := by
        rw [← hn, List.length_append, List.length_cons]
        omega
      exact cut t r (piece t ht) (ih r.length hlength r rfl)
    · exact piece s hc

theorem join_isPrefix (c : Char) (pieces others : List (List Char)) :
    join c pieces <+: join c (pieces ++ others) := by
  induction pieces with
  | nil => exact List.nil_prefix
  | cons piece pieces ih =>
    by_cases hp : pieces = []
    · subst hp
      cases others with
      | nil => exact List.prefix_rfl
      | cons other others => exact List.prefix_append piece _
    · rw [List.cons_append, join_cons hp, join_cons (by simp [hp]), List.prefix_append_right_inj]
      exact (List.prefix_cons_inj c).mpr ih

end ServerActions.Text
