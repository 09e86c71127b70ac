import Mathlib.Tactic.SplitIfs
import ServerActions.Proofs.Path.Components

namespace ServerActions.Path

open Text

def stepsOf (pieces : List (List Char)) : List String :=
  (pieces.filter (· != [])).map String.ofList

@[simp] theorem stepsOf_nil : stepsOf [] = [] :=
  rfl

theorem stepsOf_append (a b : List (List Char)) : stepsOf (a ++ b) = stepsOf a ++ stepsOf b := by
  rw [stepsOf, List.filter_append, List.map_append, stepsOf, stepsOf]

theorem stepsOf_cons {piece : List Char} (h : isFiller piece = false) (pieces : List (List Char)) :
    stepsOf (piece :: pieces) = String.ofList piece :: stepsOf pieces := by
  have hne : piece ≠ [] := by
    rintro rfl
    cases h
  rw [stepsOf, List.filter_cons_of_pos (by simpa using hne), List.map_cons, stepsOf]

theorem eq_dot_of_mem_stepsOf {pieces : List (List Char)}
    (h : ∀ piece ∈ pieces, isFiller piece = true) : ∀ step ∈ stepsOf pieces, step = "." := by
  intro step hs
  obtain ⟨piece, hp, rfl⟩ := List.mem_map.mp hs
  obtain ⟨hmem, hne⟩ := List.mem_filter.mp hp
  have hfill := h piece hmem
  simp only [isFiller, Bool.or_eq_true, beq_iff_eq] at hfill
  rw [hfill.resolve_left (by simpa using hne)]

theorem isFiller_of_mem_leadPieces {lead piece : List Char} (h : piece ∈ leadPieces lead) :
    isFiller piece = true := by
  have hf := List.filter_eq_nil_iff.mp (filter_leadPieces lead) piece h
  simpa using hf

theorem steps_eq (p : Path) : p.steps = stepsOf (leadPieces p.lead ++ p.piecesUpward.reverse) := by
  rw [steps, filter_split (by rfl), stepsOf, List.filter_append]

theorem Spelled.steps_ofPieces {lead : List Char} {up : List (List Char)} (h : Spelled lead up) :
    (ofPieces lead up).steps = stepsOf (leadPieces lead ++ (up.dropWhile isFiller).reverse) := by
  rw [steps, h.filter_split_ofPieces (by rfl), stepsOf, List.filter_append]

theorem steps_of_fillers {p : Path} (h : ∀ piece ∈ p.piecesUpward, isFiller piece = true) :
    ∀ step ∈ p.steps, step = "." := by
  rw [steps_eq]
  refine eq_dot_of_mem_stepsOf fun piece hp => ?_
  rcases List.mem_append.mp hp with hp | hp
  · exact isFiller_of_mem_leadPieces hp
  · exact h piece (List.mem_reverse.mp hp)

theorem steps_parent {p q : Path} (h : p.parent? = some q) :
    (q = ⟨""⟩ ∧ ∀ step ∈ p.steps, step = ".") ∨
      ∃ dots name rest, p.steps = q.steps ++ dots ++ name :: rest ∧
        (∀ step ∈ dots, step = ".") ∧ ∀ step ∈ rest, step = "." := by
  rcases parent_cases h with ⟨-, hup, hq⟩ | ⟨fillers, piece, t, hup, hf, hp, ht, rfl⟩
  · exact .inl ⟨hq, steps_of_fillers hup⟩
  · right
    refine ⟨stepsOf (t.takeWhile isFiller).reverse, String.ofList piece, stepsOf fillers.reverse,
      ?_, ?_, ?_⟩
    -- the parent ends where the fillers before the last piece start
    · have ht' : t.reverse = (t.dropWhile isFiller).reverse ++ (t.takeWhile isFiller).reverse := by
        rw [← List.reverse_append, List.takeWhile_append_dropWhile]
      have hr : p.piecesUpward.reverse = t.reverse ++ piece :: fillers.reverse := by
        rw [hup]
        simp
      rw [ht.steps_ofPieces, steps_eq, hr, ht']
      simp only [stepsOf_append, stepsOf_cons hp, List.append_assoc]
    · apply eq_dot_of_mem_stepsOf
      intro f hm
      exact List.all_eq_true.mp List.all_takeWhile f (List.mem_reverse.mp hm)
    · exact eq_dot_of_mem_stepsOf fun f hm => hf f (List.mem_reverse.mp hm)

structure Above (q p : Path) : Prop where
  isPrefix : q.text.toList <+: p.text.toList
  isAbsolute : q.isAbsolute = p.isAbsolute
  steps : ∃ rest, rest ≠ [] ∧ p.steps = q.steps ++ rest

theorem Above.trans {p q r : Path} (h : Above r q) (h' : Above q p) : Above r p := by
  obtain ⟨s, hs, hq⟩ := h.steps
  obtain ⟨t, -, hp⟩ := h'.steps
  refine ⟨h.isPrefix.trans h'.isPrefix, h.isAbsolute.trans h'.isAbsolute, s ++ t, ?_, ?_⟩
  · simp [hs]
  · rw [hp, hq, List.append_assoc]

theorem above_parent {p q : Path} (h : p.parent? = some q) (hq : q.text ≠ "") : Above q p := by
  rcases parent_cases h with ⟨-, -, rfl⟩ | ⟨fillers, piece, t, hup, -, -, ht, hqt⟩
  · exact absurd rfl hq
  constructor
  · let below := (t.takeWhile isFiller).reverse ++ piece :: fillers.reverse
    have hr : p.piecesUpward.reverse = (t.dropWhile isFiller).reverse ++ below := by
      rw [← List.append_assoc, ← List.reverse_append, List.takeWhile_append_dropWhile, hup]
      simp
    rw [hqt, ofPieces_text, text_eq p, hr, List.prefix_append_right_inj]
    exact join_isPrefix '/' _ _
  · rw [Bool.eq_iff_iff, isAbsolute_iff, isAbsolute_iff, hqt, ht.lead_ofPieces]
  · rcases steps_parent h with ⟨rfl, -⟩ | ⟨dots, name, rest, hsteps, -, -⟩
    · exact absurd rfl hq
    · exact ⟨dots ++ name :: rest, by simp, by rw [hsteps, List.append_assoc]⟩

theorem above_of_mem_ancestors {p q : Path} (h : q ∈ p.ancestors) (hq : q.text ≠ "") :
    Above q p := by
  induction hp : p.ancestors generalizing p with
  | nil =>
    rw [hp] at h
    cases h
  | cons r rs ih =>
    have hr : p.parent? = some r := by
      rw [parent?, hp]
      rfl
    obtain rfl : rs = r.ancestors := (List.cons.inj (hp.symm.trans (ancestors_eq_cons hr))).2
    rw [hp] at h
    rcases List.mem_cons.mp h with rfl | h
    · exact above_parent hr hq
    · have hne : r.text ≠ "" := by
        intro he
        rw [show r = ⟨""⟩ from congrArg Path.mk he] at h
        cases h
      exact (ih h rfl).trans (above_parent hr hne)

def Plain (p : Path) : Prop :=
  p.steps.getLast? = some "." → p.steps = ["."]

theorem plain_parent {p q : Path} (h : p.parent? = some q) : q.Plain := by
  intro hlast
  rcases parent_cases h with ⟨-, -, rfl⟩ | ⟨-, -, t, -, -, -, ht, rfl⟩
  · cases hlast
  · rw [ht.steps_ofPieces] at hlast ⊢
    cases hd : t.dropWhile isFiller with
    | nil =>
      rw [hd, List.reverse_nil, List.append_nil, leadPieces] at hlast
      rw [List.reverse_nil, List.append_nil, leadPieces]
      split_ifs at hlast ⊢ with hl
      · rw [hl]
        rfl
      · cases hlast
    | cons piece rest =>
      have hp : isFiller piece = false := by
        have hhead := List.head?_dropWhile_not isFiller t
        simpa [hd] using hhead
      rw [hd, List.reverse_cons, ← List.append_assoc, stepsOf_append, stepsOf_cons hp] at hlast
      have hdot : piece = ['.'] := by
        simpa [← String.toList_inj] using hlast
      rw [hdot] at hp
      cases hp

theorem steps_dropLast {p : Path} (h : p.Plain) :
    (∀ step ∈ p.steps.dropLast, step = ".") ∨
      ∃ q dots, p.parent? = some q ∧ q.text ≠ "" ∧ p.steps.dropLast = q.steps ++ dots ∧
        ∀ step ∈ dots, step = "." := by
  cases hq : p.parent? with
  | none =>
    have hup := (ancestorsOf_eq_nil (List.head?_eq_none_iff.mp hq)).2
    exact .inl fun step hs => steps_of_fillers hup step (List.dropLast_subset _ hs)
  | some q =>
    rcases steps_parent hq with ⟨-, hdots⟩ | ⟨dots, name, rest, hsteps, hdots, hrest⟩
    · exact .inl fun step hs => hdots step (List.dropLast_subset _ hs)
    rcases List.eq_nil_or_concat rest with rfl | ⟨more, last, rfl⟩
    · rw [hsteps, List.dropLast_concat]
      by_cases hempty : q.text = ""
      · left
        rw [show q = ⟨""⟩ from congrArg Path.mk hempty]
        exact hdots
      · exact .inr ⟨q, dots, rfl, hempty, rfl, hdots⟩
    · -- the path ends in a filler, so it is that filler alone
      have hlast : p.steps.getLast? = some last := by
        rw [hsteps, List.concat_eq_append, ← List.cons_append, ← List.append_assoc,
          List.getLast?_concat]
      obtain rfl : last = "." := hrest last (by simp)
      rw [h hlast]
      exact .inl (by simp)

end ServerActions.Path
