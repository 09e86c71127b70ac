import Mathlib.Data.List.TakeWhile
import Mathlib.Tactic.MkIffOfInductiveProp
import ServerActions.Declaration.Names
import ServerActions.Proofs.Text.Reading
import ServerActions.Proofs.Text.Split

namespace ServerActions

namespace Text

theorem Stops.of_isPrefix {p : Char → Bool} {s t : List Char} (h : Stops p s) (ht : t <+: s) :
    Stops p t := by
  cases t with
  | nil =>
    intro c hc
    cases hc
  | cons d t =>
    obtain ⟨r, rfl⟩ := ht
    exact stops_cons (h d rfl)

theorem trim_pad {a s b : List Char} (ha : ∀ c ∈ a, isBlank c = true)
    (hb : ∀ c ∈ b, isBlank c = true) (hl : Stops isBlank s) (ht : Stops isBlank s.reverse) :
    trim (a ++ s ++ b) = s := by
  have hb' : ∀ c ∈ b.reverse, isBlank c = true := fun c hc => hb c (List.mem_reverse.mp hc)
  rw [trim, List.append_assoc, List.dropWhile_append_of_pos ha]
  cases s with
  | nil =>
    rw [List.nil_append, List.dropWhile_eq_nil_iff.mpr hb]
    rfl
  | cons c s =>
    have hs : Stops isBlank (c :: s ++ b) := stops_cons (hl c rfl)
    rw [hs.dropWhile, List.reverse_append, List.dropWhile_append_of_pos hb', ht.dropWhile,
      List.reverse_reverse]

theorem trim_isPrefix (s : List Char) : trim s <+: s.dropWhile isBlank := by
  have h := List.dropWhile_suffix isBlank (l := (s.dropWhile isBlank).reverse)
  rw [← List.reverse_prefix, List.reverse_reverse] at h
  exact h

theorem mem_of_mem_trim {s : List Char} {c : Char} (h : c ∈ trim s) : c ∈ s :=
  (List.dropWhile_sublist isBlank).mem ((trim_isPrefix s).mem h)

theorem stops_trim (s : List Char) : Stops isBlank (trim s) :=
  (stops_dropWhile isBlank s).of_isPrefix (trim_isPrefix s)

theorem stops_reverse_trim (s : List Char) : Stops isBlank (trim s).reverse := by
  rw [trim, List.reverse_reverse]
  exact stops_dropWhile isBlank _

theorem exists_trim (s : List Char) : ∃ a b : List Char, (∀ c ∈ a, isBlank c = true) ∧
    (∀ c ∈ b, isBlank c = true) ∧ s = a ++ trim s ++ b := by
  have hblank (t : List Char) : ∀ c ∈ t.takeWhile isBlank, isBlank c = true :=
    fun c hc => List.all_eq_true.mp List.all_takeWhile c hc
  let r := (s.dropWhile isBlank).reverse
  refine ⟨s.takeWhile isBlank, (r.takeWhile isBlank).reverse, hblank s, ?_, ?_⟩
  · intro c hc
    exact hblank r c (List.mem_reverse.mp hc)
  · have hr : trim s ++ (r.takeWhile isBlank).reverse = s.dropWhile isBlank := by
      rw [trim, ← List.reverse_append, List.takeWhile_append_dropWhile, List.reverse_reverse]
    rw [List.append_assoc, hr, List.takeWhile_append_dropWhile]

end Text

namespace Declaration

open Text

@[mk_iff]
structure IsName (name : String) : Prop where
  ne_nil : name.toList ≠ []
  leading : Stops isBlank name.toList
  trailing : Stops isBlank name.toList.reverse
  no_comma : ',' ∉ name.toList
  no_brace : '}' ∉ name.toList

instance (name : String) : Decidable (IsName name) :=
  decidable_of_iff _ (isName_iff name).symm

@[mk_iff]
structure IsItem (name : String) : Prop where
  ne_nil : name.toList ≠ []
  leading : Stops isBlank name.toList
  trailing : Stops isBlank name.toList.reverse
  no_comma : ',' ∉ name.toList

instance (name : String) : Decidable (IsItem name) :=
  decidable_of_iff _ (isItem_iff name).symm

theorem IsName.isItem {name : String} (h : IsName name) : IsItem name :=
  ⟨h.ne_nil, h.leading, h.trailing, h.no_comma⟩

theorem splitNames_append (s t : List Char) :
    splitNames (s ++ ',' :: t) = splitNames s ++ splitNames t := by
  have h : split (· == ',') (s ++ ',' :: t) = split (· == ',') s ++ split (· == ',') t :=
    split_append rfl s t
  simp only [splitNames, h, List.map_append, List.filter_append]

theorem splitNames_of_not_mem {s : List Char} (h : ',' ∉ s) :
    splitNames s = if trim s = [] then [] else [String.ofList (trim s)] := by
  have hs : ∀ c ∈ s, (c == ',') = false := by
    intro c hc
    apply beq_eq_false_iff_ne.mpr
    rintro rfl
    exact h hc
  rw [splitNames, split_eq_singleton hs, List.map_singleton]
  split
  next ht => rw [ht]; rfl
  next ht => simp [ht]

theorem exists_piece_of_mem_splitNames {s : List Char} {name : String} (h : name ∈ splitNames s) :
    ∃ piece ∈ split (· == ',') s, trim piece ≠ [] ∧ name.toList = trim piece := by
  obtain ⟨t, ht, rfl⟩ := List.mem_map.mp h
  obtain ⟨ht, hne⟩ := List.mem_filter.mp ht
  obtain ⟨piece, hp, rfl⟩ := List.mem_map.mp ht
  exact ⟨piece, hp, by simpa using hne, String.toList_ofList⟩

theorem isItem_of_mem_splitNames {s : List Char} {name : String} (h : name ∈ splitNames s) :
    IsItem name := by
  obtain ⟨piece, hp, hne, he⟩ := exists_piece_of_mem_splitNames h
  constructor <;> rw [he]
  · exact hne
  · exact stops_trim piece
  · exact stops_reverse_trim piece
  · intro hc
    cases (mem_split hp _ (mem_of_mem_trim hc)).1

theorem mem_of_mem_splitNames {s : List Char} {name : String} (h : name ∈ splitNames s) {c : Char}
    (hc : c ∈ name.toList) : c ∈ s := by
  obtain ⟨piece, hp, -, he⟩ := exists_piece_of_mem_splitNames h
  rw [he] at hc
  exact (mem_split hp c (mem_of_mem_trim hc)).2

theorem isName_of_mem_splitNames {s : List Char} {name : String} (hs : '}' ∉ s)
    (h : name ∈ splitNames s) : IsName name := by
  obtain ⟨hne, hl, ht, hc⟩ := isItem_of_mem_splitNames h
  exact ⟨hne, hl, ht, hc, fun hb => hs (mem_of_mem_splitNames h hb)⟩

theorem splitNames_pad_name {n : String} (h : IsItem n) {a b : List Char}
    (ha : ∀ c ∈ a, isBlank c = true) (hb : ∀ c ∈ b, isBlank c = true) :
    splitNames (a ++ n.toList ++ b) = [n] := by
  have hn : ',' ∉ a ++ n.toList ++ b := by
    simp only [List.mem_append, not_or]
    exact ⟨⟨not_mem_of_isBlank ha rfl, h.no_comma⟩, not_mem_of_isBlank hb rfl⟩
  rw [splitNames_of_not_mem hn, trim_pad ha hb h.leading h.trailing, if_neg h.ne_nil,
    String.ofList_toList]

theorem splitNames_blank {s : List Char} (h : ∀ c ∈ s, isBlank c = true) : splitNames s = [] := by
  have ht : trim s = [] := by
    have hn : Stops isBlank [] := by
      intro c hc
      cases hc
    have hp := trim_pad h (b := []) (by simp) hn hn
    simpa using hp
  rw [splitNames_of_not_mem (not_mem_of_isBlank h rfl), if_pos ht]

theorem splitNames_cases {s : List Char} (h : ',' ∉ s) :
    ((∀ c ∈ s, isBlank c = true) ∧ splitNames s = []) ∨
      ∃ (n : String) (a b : List Char), s = a ++ n.toList ++ b ∧ (∀ c ∈ a, isBlank c = true) ∧
        (∀ c ∈ b, isBlank c = true) ∧ IsItem n ∧ splitNames s = [n] := by
  obtain ⟨a, b, ha, hb, he⟩ := exists_trim s
  by_cases ht : trim s = []
  · left
    rw [ht, List.append_nil] at he
    have hs : ∀ c ∈ s, isBlank c = true := by
      intro c hc
      rw [he] at hc
      exact (List.mem_append.mp hc).elim (ha c) (hb c)
    exact ⟨hs, splitNames_blank hs⟩
  · right
    have hs : splitNames s = [String.ofList (trim s)] := by
      rw [splitNames_of_not_mem h, if_neg ht]
    refine ⟨String.ofList (trim s), a, b, ?_, ha, hb, ?_, hs⟩
    · rwa [String.toList_ofList]
    · apply isItem_of_mem_splitNames
      rw [hs]
      exact List.mem_singleton_self _

/-- A text that lists names in any of the ways in which a person may write them. -/
inductive Lists : List String → List Char → Prop
  | blank {s : List Char} : (∀ c ∈ s, isBlank c = true) → Lists [] s
  | name {n : String} {a b : List Char} : IsName n → (∀ c ∈ a, isBlank c = true) →
    (∀ c ∈ b, isBlank c = true) → Lists [n] (a ++ n.toList ++ b)
  | comma {names more : List String} {s t : List Char} : Lists names s → Lists more t →
    Lists (names ++ more) (s ++ ',' :: t)

theorem Lists.splitNames {names : List String} {s : List Char} (h : Lists names s) :
    splitNames s = names := by
  induction h with
  | blank hs => exact splitNames_blank hs
  | name hn ha hb => exact splitNames_pad_name hn.isItem ha hb
  | comma _ _ ihs iht => rw [splitNames_append, ihs, iht]

theorem Lists.not_mem {names : List String} {s : List Char} {c : Char} (h : Lists names s)
    (hb : isBlank c = false) (hc : c ≠ ',') (hn : ∀ n ∈ names, c ∉ n.toList) : c ∉ s := by
  induction h with
  | blank hs => exact not_mem_of_isBlank hs hb
  | name _ hleft hright =>
    simp only [List.mem_append, not_or]
    exact ⟨⟨not_mem_of_isBlank hleft hb, hn _ List.mem_cons_self⟩, not_mem_of_isBlank hright hb⟩
  | comma _ _ ihs iht =>
    simp only [List.mem_append, List.mem_cons, not_or]
    exact ⟨ihs fun n hm => hn n (List.mem_append_left _ hm), hc,
      iht fun n hm => hn n (List.mem_append_right _ hm)⟩

theorem joinNames_cons_cons (n m : String) (names : List String) :
    (joinNames (n :: m :: names)).toList =
      n.toList ++ ',' :: ' ' :: (joinNames (m :: names)).toList := by
  simp [joinNames, String.intercalate_cons_cons]

theorem splitNames_pad_joinNames {names : List String} (h : ∀ n ∈ names, IsItem n)
    {a b : List Char} (ha : ∀ c ∈ a, isBlank c = true) (hb : ∀ c ∈ b, isBlank c = true) :
    splitNames (a ++ (joinNames names).toList ++ b) = names := by
  induction names generalizing a with
  | nil =>
    apply splitNames_blank
    intro c hc
    rcases List.mem_append.mp hc with hc | hc
    · rw [show (joinNames []).toList = [] from rfl, List.append_nil] at hc
      exact ha c hc
    · exact hb c hc
  | cons n names ih =>
    have hn := h n List.mem_cons_self
    cases names with
    | nil =>
      rw [joinNames, String.intercalate_singleton]
      exact splitNames_pad_name hn ha hb
    | cons m names =>
      have he : a ++ (joinNames (n :: m :: names)).toList ++ b =
          (a ++ n.toList ++ []) ++ ',' :: ([' '] ++ (joinNames (m :: names)).toList ++ b) := by
        rw [joinNames_cons_cons]
        simp
      rw [he, splitNames_append, splitNames_pad_name hn ha (by simp),
        ih (fun k hk => h k (List.mem_cons_of_mem n hk)) isBlank_of_mem_space, List.singleton_append]

end Declaration

end ServerActions
