import ServerActions.Path
import ServerActions.Proofs.Text.Split

/-!
The lead and the pieces of a path.  A path that is put together from them is read back as they are,
so the ancestors of a path are its parent and the ancestors of that.
-/

namespace ServerActions.Path

open Text

structure Spelled (lead : List Char) (up : List (List Char)) : Prop where
  plain : ∀ piece ∈ up, '/' ∉ piece
  first : lead = ['/'] ∨ (lead = ['.'] ∧ ∀ f ∈ up.getLast?, f = []) ∨
    (lead = [] ∧ (up = [[]] ∨ ∀ f ∈ up.getLast?, isFiller f = false))

theorem splitLead_append (s : List Char) : (splitLead s).1 ++ (splitLead s).2 = s := by
  fun_cases splitLead s <;> rfl

theorem splitLead_eq_nil {c : Char} {s : List Char} (hc : c ≠ '/')
    (hs : c = '.' → ∃ d t, s = d :: t ∧ d ≠ '/') : splitLead (c :: s) = ([], c :: s) := by
  by_cases hd : c = '.'
  · obtain ⟨d, t, rfl, ht⟩ := hs hd
    subst hd
    rw [splitLead]
    · simp
    · simp
    · simpa using ht
  · rw [splitLead]
    · simpa using hc
    · simp [hd]
    · simp [hd]

theorem slash_not_mem_of_mem_split {s piece : List Char} (h : piece ∈ split isSeparator s) :
    '/' ∉ piece := by
  intro hc
  have hs := (mem_split h _ hc).1
  simp [isSeparator] at hs

theorem text_eq (p : Path) :
    p.text.toList = p.lead ++ Text.join '/' p.piecesUpward.reverse := by
  have hj : Text.join '/' (split isSeparator (splitLead p.text.toList).2) =
      (splitLead p.text.toList).2 :=
    join_split '/' _
  rw [piecesUpward, List.reverse_reverse, hj, lead, splitLead_append]

theorem spelled (p : Path) : Spelled p.lead p.piecesUpward := by
  constructor
  · intro piece hp
    exact slash_not_mem_of_mem_split (List.mem_reverse.mp hp)
  · rw [lead, piecesUpward, List.getLast?_reverse, head?_split]
    generalize p.text.toList = s
    fun_cases splitLead s with
    | case1 s => exact .inl rfl
    | case2 => exact .inr (.inl ⟨rfl, by simp⟩)
    | case3 s => exact .inr (.inl ⟨rfl, by simp [isSeparator]⟩)
    | case4 s h₁ h₂ h₃ =>
      refine .inr (.inr ⟨rfl, ?_⟩)
      cases s with
      | nil => exact .inl rfl
      | cons c s =>
        right
        have hc : c ≠ '/' := fun hc => h₁ s (by rw [hc])
        cases s with
        | nil =>
          have hd : c ≠ '.' := fun hd => h₂ (by rw [hd])
          simp [isSeparator, isFiller, hc, hd]
        | cons d s =>
          by_cases hd : d = '/'
          · have hd' : c ≠ '.' := fun hd' => h₃ s (by rw [hd, hd'])
            simp [isSeparator, isFiller, hc, hd, hd']
          · simp [isSeparator, isFiller, hc, hd]

theorem Spelled.of_suffix {lead : List Char} {up t : List (List Char)} (h : Spelled lead up)
    (ht : t <:+ up) : Spelled lead t := by
  have hlast : ∀ f ∈ t.getLast?, f ∈ up.getLast? := by
    intro f hf
    obtain ⟨r, rfl⟩ := ht
    rw [List.getLast?_append, Option.mem_def.mp hf]
    rfl
  refine ⟨fun piece hp => h.plain piece (ht.mem hp), ?_⟩
  rcases h.first with hl | ⟨hl, hf⟩ | ⟨hl, hu | hf⟩
  · exact .inl hl
  · exact .inr (.inl ⟨hl, fun f hm => hf f (hlast f hm)⟩)
  · refine .inr (.inr ⟨hl, ?_⟩)
    rw [hu, List.suffix_cons_iff] at ht
    rcases ht with rfl | ht
    · exact .inl rfl
    · right
      rw [List.suffix_nil.mp ht]
      simp
  · exact .inr (.inr ⟨hl, .inr fun f hm => hf f (hlast f hm)⟩)

theorem Spelled.splitLead_eq {lead : List Char} {up : List (List Char)} (h : Spelled lead up) :
    splitLead (lead ++ Text.join '/' (up.dropWhile isFiller).reverse) =
      (lead, Text.join '/' (up.dropWhile isFiller).reverse) := by
  have hsuffix : up.dropWhile isFiller <:+ up := List.dropWhile_suffix _
  have hd := h.of_suffix hsuffix
  have hhead := List.head?_dropWhile_not isFiller up
  generalize up.dropWhile isFiller = down at hd hhead
  rcases hd.first with rfl | ⟨rfl, hf⟩ | ⟨rfl, rfl | hf⟩
  · rfl
  · cases hr : down.reverse with
    | nil => rfl
    | cons f rest =>
      obtain rfl : f = [] := hf f (by rw [← List.head?_reverse, hr]; rfl)
      cases rest with
      | nil =>
        rw [List.reverse_eq_iff.mp hr] at hhead
        simp [isFiller] at hhead
      | cons g rest => rfl
  · simp [isFiller] at hhead
  · cases hr : down.reverse with
    | nil => rfl
    | cons f rest =>
      have hmem : f ∈ down := List.mem_reverse.mp (hr ▸ List.mem_cons_self)
      have hfill : isFiller f = false := hf f (by rw [← List.head?_reverse, hr]; rfl)
      have hslash := hd.plain f hmem
      obtain ⟨x, hx⟩ : ∃ x, Text.join '/' (f :: rest) = f ++ x := by
        cases rest with
        | nil => exact ⟨[], (List.append_nil f).symm⟩
        | cons g rest => exact ⟨_, join_cons (List.cons_ne_nil g rest)⟩
      rw [List.nil_append, hx]
      cases f with
      | nil => cases hfill
      | cons c f =>
        apply splitLead_eq_nil
        · rintro rfl
          exact hslash List.mem_cons_self
        · rintro rfl
          cases f with
          | nil => cases hfill
          | cons d f => exact ⟨d, f ++ x, rfl, fun hd => hslash (by simp [hd])⟩

theorem ofPieces_text (lead : List Char) (up : List (List Char)) :
    (ofPieces lead up).text.toList = lead ++ Text.join '/' (up.dropWhile isFiller).reverse := by
  rw [ofPieces, String.toList_ofList]

theorem Spelled.lead_ofPieces {lead : List Char} {up : List (List Char)} (h : Spelled lead up) :
    (ofPieces lead up).lead = lead := by
  rw [Path.lead, ofPieces_text, h.splitLead_eq]

theorem Spelled.piecesUpward_ofPieces {lead : List Char} {up : List (List Char)}
    (h : Spelled lead up) : (ofPieces lead up).piecesUpward =
      if up.dropWhile isFiller = [] then [[]] else up.dropWhile isFiller := by
  rw [piecesUpward, ofPieces_text, h.splitLead_eq]
  split
  next hd =>
    rw [hd]
    rfl
  next hd =>
    have hj : split isSeparator (Text.join '/' (up.dropWhile isFiller).reverse) =
        (up.dropWhile isFiller).reverse := by
      apply split_join (by simpa using hd)
      intro piece hp
      exact h.plain piece ((List.dropWhile_suffix isFiller).mem (List.mem_reverse.mp hp))
    rw [hj, List.reverse_reverse]

theorem ancestorsOf_dropWhile (lead : List Char) (up : List (List Char)) :
    ancestorsOf lead (up.dropWhile isFiller) = ancestorsOf lead up := by
  induction up with
  | nil => rfl
  | cons piece up ih =>
    by_cases hp : isFiller piece = true
    · rw [List.dropWhile_cons_of_pos hp, ih, ancestorsOf, if_pos hp]
    · rw [List.dropWhile_cons_of_neg hp]

theorem Spelled.ancestors_ofPieces {lead : List Char} {up : List (List Char)}
    (h : Spelled lead up) : (ofPieces lead up).ancestors = ancestorsOf lead up := by
  rw [ancestors, h.lead_ofPieces, h.piecesUpward_ofPieces, ← ancestorsOf_dropWhile lead up]
  split
  next hd => rw [hd]; rfl
  next => rfl

theorem ancestorsOf_eq_cons {lead : List Char} {up : List (List Char)} {q : Path} {qs : List Path}
    (h : ancestorsOf lead up = q :: qs) :
    (lead = ['.'] ∧ (∀ piece ∈ up, isFiller piece = true) ∧ q = ⟨""⟩ ∧ qs = []) ∨
      ∃ fillers piece t, up = fillers ++ piece :: t ∧ (∀ f ∈ fillers, isFiller f = true) ∧
        isFiller piece = false ∧ q = ofPieces lead t ∧ qs = ancestorsOf lead t := by
  induction up with
  | nil =>
    rw [ancestorsOf] at h
    split at h
    next hl =>
      obtain ⟨rfl, rfl⟩ := List.cons.inj h
      exact .inl ⟨hl, by simp, rfl, rfl⟩
    next => cases h
  | cons piece up ih =>
    rw [ancestorsOf] at h
    split at h
    next hp =>
      rcases ih h with ⟨hl, hup, hq⟩ | ⟨fillers, last, t, rfl, hf, hlast⟩
      · exact .inl ⟨hl, List.forall_mem_cons.mpr ⟨hp, hup⟩, hq⟩
      · exact .inr ⟨piece :: fillers, last, t, rfl, List.forall_mem_cons.mpr ⟨hp, hf⟩, hlast⟩
    next hp =>
      obtain ⟨rfl, rfl⟩ := List.cons.inj h
      exact .inr ⟨[], piece, up, rfl, by simp, Bool.eq_false_iff.mpr hp, rfl, rfl⟩

theorem ancestorsOf_eq_nil {lead : List Char} {up : List (List Char)}
    (h : ancestorsOf lead up = []) : lead ≠ ['.'] ∧ ∀ piece ∈ up, isFiller piece = true := by
  induction up with
  | nil => simpa [ancestorsOf] using h
  | cons piece up ih =>
    rw [ancestorsOf] at h
    split at h
    next hp => exact ⟨(ih h).1, List.forall_mem_cons.mpr ⟨hp, (ih h).2⟩⟩
    next => cases h

theorem ancestors_eq_cons {p q : Path} (h : p.parent? = some q) :
    p.ancestors = q :: q.ancestors := by
  obtain ⟨qs, hqs⟩ := List.head?_eq_some_iff.mp h
  rw [hqs]
  rcases ancestorsOf_eq_cons hqs with ⟨-, -, rfl, rfl⟩ | ⟨fillers, piece, t, hup, -, -, rfl, rfl⟩
  · rfl
  · have ht : t <:+ p.piecesUpward := by
      rw [hup]
      exact (List.suffix_cons piece t).trans (List.suffix_append fillers _)
    rw [(p.spelled.of_suffix ht).ancestors_ofPieces]

theorem parent_cases {p q : Path} (h : p.parent? = some q) :
    (p.lead = ['.'] ∧ (∀ piece ∈ p.piecesUpward, isFiller piece = true) ∧ q = ⟨""⟩) ∨
      ∃ fillers piece t, p.piecesUpward = fillers ++ piece :: t ∧
        (∀ f ∈ fillers, isFiller f = true) ∧ isFiller piece = false ∧ Spelled p.lead t ∧
        q = ofPieces p.lead t := by
  obtain ⟨qs, hqs⟩ := List.head?_eq_some_iff.mp h
  rcases ancestorsOf_eq_cons hqs with ⟨hl, hup, hq, -⟩ | ⟨fillers, piece, t, hup, hf, hp, hq, -⟩
  · exact .inl ⟨hl, hup, hq⟩
  · refine .inr ⟨fillers, piece, t, hup, hf, hp, p.spelled.of_suffix ?_, hq⟩
    rw [hup]
    exact (List.suffix_cons piece t).trans (List.suffix_append fillers _)

def leadPieces (lead : List Char) : List (List Char) :=
  if lead = ['.'] then [lead] else []

theorem filter_split_join {keep : List Char → Bool} (hk : keep [] = false)
    {pieces : List (List Char)} (h : ∀ piece ∈ pieces, '/' ∉ piece) :
    (split isSeparator (Text.join '/' pieces)).filter keep = pieces.filter keep := by
  by_cases hp : pieces = []
  · rw [hp]
    simp [Text.join, split, hk]
  · have hj : split isSeparator (Text.join '/' pieces) = pieces := split_join hp h
    rw [hj]

theorem Spelled.filter_split {keep : List Char → Bool} (hk : keep [] = false) {lead : List Char}
    {up : List (List Char)} (h : Spelled lead up) :
    (split isSeparator (lead ++ Text.join '/' up.reverse)).filter keep =
      (leadPieces lead).filter keep ++ up.reverse.filter keep := by
  have hplain : ∀ piece ∈ up.reverse, '/' ∉ piece := fun piece hp =>
    h.plain piece (List.mem_reverse.mp hp)
  have hjoin := filter_split_join hk hplain
  rcases h.first with rfl | ⟨rfl, hf⟩ | ⟨rfl, -⟩
  · have hs : split isSeparator (['/'] ++ Text.join '/' up.reverse) =
        [] :: split isSeparator (Text.join '/' up.reverse) := rfl
    rw [hs, List.filter_cons_of_neg (by simp [hk]), hjoin]
    rfl
  · cases hr : up.reverse with
    | nil => simp [Text.join, leadPieces, split, isSeparator]
    | cons f rest =>
      obtain rfl : f = [] := hf f (by rw [← List.head?_reverse, hr]; rfl)
      rw [hr] at hplain
      have hrest := filter_split_join hk fun piece hp => hplain piece (List.mem_cons_of_mem [] hp)
      by_cases hne : rest = []
      · rw [hne]
        simp [Text.join, leadPieces, split, isSeparator, hk]
      · have hs : split isSeparator (['.'] ++ '/' :: Text.join '/' rest) =
            split isSeparator ['.'] ++ split isSeparator (Text.join '/' rest) :=
          split_append rfl _ _
        rw [join_cons hne, List.nil_append, hs, List.filter_append, hrest,
          List.filter_cons_of_neg (by simp [hk])]
        rfl
  · rw [List.nil_append, hjoin]
    rfl

theorem filter_split {keep : List Char → Bool} (hk : keep [] = false) (p : Path) :
    (split isSeparator p.text.toList).filter keep =
      (leadPieces p.lead).filter keep ++ p.piecesUpward.reverse.filter keep := by
  rw [text_eq, p.spelled.filter_split hk]

theorem Spelled.filter_split_ofPieces {keep : List Char → Bool} (hk : keep [] = false)
    {lead : List Char} {up : List (List Char)} (h : Spelled lead up) :
    (split isSeparator (ofPieces lead up).text.toList).filter keep =
      (leadPieces lead).filter keep ++ (up.dropWhile isFiller).reverse.filter keep := by
  rw [ofPieces_text, (h.of_suffix (List.dropWhile_suffix isFiller)).filter_split hk]

end ServerActions.Path
