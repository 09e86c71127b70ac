import ServerActions.Proofs.Path.Pieces

namespace ServerActions.Path

open Text

def names (p : Path) : List (List Char) :=
  (split isSeparator p.text.toList).filter (!isFiller ·)

def directory (p : Path) : Path :=
  p.parent?.getD ⟨""⟩

theorem filter_leadPieces (lead : List Char) : (leadPieces lead).filter (!isFiller ·) = [] := by
  rw [leadPieces]
  split
  next h =>
    rw [h]
    rfl
  next => rfl

theorem names_eq (p : Path) : p.names = p.piecesUpward.reverse.filter (!isFiller ·) := by
  rw [names, filter_split (by rfl), filter_leadPieces, List.nil_append]

theorem Spelled.names_ofPieces {lead : List Char} {up : List (List Char)} (h : Spelled lead up) :
    (ofPieces lead up).names = up.reverse.filter (!isFiller ·) := by
  have hd : (up.takeWhile isFiller).filter (!isFiller ·) = [] := by
    rw [List.filter_eq_nil_iff]
    intro f hf
    simp [List.all_eq_true.mp List.all_takeWhile f hf]
  have hu : up.filter (!isFiller ·) = (up.dropWhile isFiller).filter (!isFiller ·) := by
    calc up.filter (!isFiller ·)
        = (up.takeWhile isFiller ++ up.dropWhile isFiller).filter (!isFiller ·) := by
          rw [List.takeWhile_append_dropWhile]
      _ = (up.dropWhile isFiller).filter (!isFiller ·) := by
          rw [List.filter_append, hd, List.nil_append]
  rw [names, h.filter_split_ofPieces (by rfl), filter_leadPieces, List.nil_append,
    List.filter_reverse, List.filter_reverse, hu]

theorem components_eq (p : Path) :
    p.components = leadComponents p.lead ++ p.names.map pieceComponent := by
  rw [components, names_eq, ← List.map_reverse, List.filter_reverse]

theorem lead_cases (p : Path) : p.lead = ['/'] ∨ p.lead = ['.'] ∨ p.lead = [] := by
  rw [lead]
  fun_cases splitLead p.text.toList with
  | case1 => exact .inl rfl
  | case2 => exact .inr (.inl rfl)
  | case3 => exact .inr (.inl rfl)
  | case4 => exact .inr (.inr rfl)

theorem isAbsolute_iff {p : Path} : p.isAbsolute = true ↔ p.lead = ['/'] := by
  rw [isAbsolute, lead]
  generalize p.text.toList = s
  fun_cases splitLead s with
  | case1 s => simp
  | case2 => simp
  | case3 => simp
  | case4 s h =>
    cases s with
    | nil => simp
    | cons c s => simpa using h s

theorem splitLead_append_slash {s : List Char} (hs : s ≠ []) (x : List Char) :
    (splitLead (s ++ '/' :: x)).1 = (splitLead s).1 := by
  fun_cases splitLead s with
  | case1 s => rfl
  | case2 => rfl
  | case3 s => rfl
  | case4 s h₁ h₂ h₃ =>
    cases s with
    | nil => exact absurd rfl hs
    | cons c s =>
      rw [List.cons_append, splitLead_eq_nil]
      · exact fun hc => h₁ s (by rw [hc])
      · rintro rfl
        cases s with
        | nil => exact absurd rfl h₂
        | cons d s => exact ⟨d, s ++ '/' :: x, rfl, fun hd => h₃ s (by rw [hd])⟩

theorem join_text {p q : Path} (hq : q.isAbsolute = false) (hp : p.text ≠ "") :
    ∃ s, (p.join q).text.toList = s ++ '/' :: q.text.toList ∧
      (p.text.toList = s ∨ p.text.toList = s ++ ['/']) := by
  rw [join, hq, if_neg Bool.false_ne_true]
  by_cases hs : p.endsInSeparator = true
  · obtain ⟨s, hs'⟩ : ∃ s, p.text.toList = s ++ ['/'] := by
      apply List.getLast?_eq_some_iff.mp
      simpa [endsInSeparator] using hs
    refine ⟨s, ?_, .inr hs'⟩
    simp [hs, hs']
  · refine ⟨p.text.toList, ?_, .inl rfl⟩
    simp [hs, hp]

theorem names_join {p q : Path} (hq : q.isAbsolute = false) :
    (p.join q).names = p.names ++ q.names := by
  by_cases hp : p.text = ""
  · have hj : p.join q = q := by
      rw [join, hq]
      simp [hp]
    have hn : p.names = [] := by
      rw [names, hp]
      rfl
    rw [hj, hn, List.nil_append]
  · obtain ⟨s, hj, hs⟩ := join_text hq hp
    have hn : p.names = (split isSeparator s).filter (!isFiller ·) := by
      rcases hs with hs | hs
      · rw [names, hs]
      · rw [names, hs, split_append rfl, List.filter_append]
        exact List.append_nil _
    rw [names, hj, split_append rfl, List.filter_append, hn]
    rfl

theorem lead_join {p q : Path} (hq : q.isAbsolute = false) (hp : p.text ≠ "") :
    (p.join q).lead = p.lead := by
  obtain ⟨s, hj, hs⟩ := join_text hq hp
  rw [lead, lead, hj]
  by_cases hn : s = []
  · rcases hs with hs | hs
    · rw [hn] at hs
      exact absurd (String.toList_eq_nil_iff.mp hs) hp
    · rw [hs, hn]
      rfl
  · rw [splitLead_append_slash hn]
    rcases hs with hs | hs
    · rw [hs]
    · rw [hs, splitLead_append_slash hn]

theorem components_join {p q : Path} (hq : q.lead = []) :
    (p.join q).components = p.components ++ q.components := by
  have ha : q.isAbsolute = false := by
    rw [Bool.eq_false_iff, Ne, isAbsolute_iff, hq]
    simp
  by_cases hp : p.text = ""
  · have hj : p.join q = q := by
      rw [join, ha]
      simp [hp]
    have hc : p.components = [] := by
      rw [show p = ⟨""⟩ from congrArg Path.mk hp]
      rfl
    rw [hj, hc, List.nil_append]
  · rw [components_eq, components_eq p, components_eq q, lead_join ha hp, names_join ha, hq,
      List.map_append, List.append_assoc]
    rfl

theorem lead_eq_nil {p : Path} (ns : List String) (h : p.components = ns.map .name) :
    p.lead = [] := by
  have hnames : ∀ c ∈ p.components, ∃ n, c = .name n := by
    intro c hc
    rw [h] at hc
    obtain ⟨n, -, rfl⟩ := List.mem_map.mp hc
    exact ⟨n, rfl⟩
  rw [components_eq] at hnames
  rcases p.lead_cases with hl | hl | hl
  · rw [hl] at hnames
    obtain ⟨n, hn⟩ := hnames .root List.mem_cons_self
    cases hn
  · rw [hl] at hnames
    obtain ⟨n, hn⟩ := hnames .current List.mem_cons_self
    cases hn
  · exact hl

theorem components_eq_name {s : String} (h : '/' ∉ s.toList) (hs : isFiller s.toList = false)
    (hp : s.toList ≠ ['.', '.']) : (⟨s⟩ : Path).components = [.name s] := by
  have hn : names ⟨s⟩ = [s.toList] := by
    have hsplit : split isSeparator s.toList = [s.toList] := by
      apply split_eq_singleton
      intro c hc
      apply beq_eq_false_iff_ne.mpr
      rintro rfl
      exact h hc
    rw [names, hsplit, List.filter_cons_of_pos (by simp [hs]), List.filter_nil]
  have hl : lead ⟨s⟩ = [] := by
    rw [lead]
    generalize s.toList = t at h hs
    fun_cases splitLead t with
    | case1 => simp at h
    | case2 => simp [isFiller] at hs
    | case3 => simp at h
    | case4 => rfl
  rw [components_eq, hn, hl, List.map_singleton, pieceComponent, if_neg hp, String.ofList_toList]
  rfl

def below (s : String) : List Component :=
  (names ⟨s⟩).map pieceComponent

theorem components_step {s : String} (hs : s ≠ "") (t : String) :
    (⟨s ++ "/" ++ t⟩ : Path).components = (⟨s⟩ : Path).components ++ below t := by
  have ht : (s ++ "/" ++ t).toList = s.toList ++ '/' :: t.toList := by simp
  have hn : names ⟨s ++ "/" ++ t⟩ = names ⟨s⟩ ++ names ⟨t⟩ := by
    rw [names, ht, split_append rfl, List.filter_append, names, names]
  have hl : lead ⟨s ++ "/" ++ t⟩ = lead ⟨s⟩ := by
    rw [lead, lead, ht, splitLead_append_slash (fun h => hs (String.toList_eq_nil_iff.mp h))]
  rw [components_eq, components_eq ⟨s⟩, hn, hl, below, List.map_append, List.append_assoc]

theorem mem_below {s : String} {c : Component} (h : c ∈ below s) :
    c = .parent ∨ ∃ n, c = .name n := by
  obtain ⟨piece, -, rfl⟩ := List.mem_map.mp h
  rw [pieceComponent]
  split
  · exact .inl rfl
  · exact .inr ⟨_, rfl⟩

theorem root_not_mem_below (s : String) : .root ∉ below s := by
  intro h
  rcases mem_below h with hc | ⟨n, hc⟩ <;> cases hc

theorem slash_not_mem_of_fileName {p : Path} {name : String} (h : p.fileName? = some name) :
    '/' ∉ name.toList := by
  rw [fileName?] at h
  split at h
  next => cases h
  next piece pieces hd =>
    split at h
    next => cases h
    next =>
      obtain rfl := Option.some.inj h
      rw [String.toList_ofList]
      apply p.spelled.plain
      apply (List.dropWhile_suffix isFiller).mem
      rw [hd]
      exact List.mem_cons_self

theorem slash_not_mem_of_extension {p : Path} {ext : String} (h : p.extension? = some ext) :
    '/' ∉ ext.toList := by
  rw [extension?, Option.bind_eq_some_iff] at h
  obtain ⟨name, hname, h⟩ := h
  obtain ⟨s, hs, rfl⟩ := Option.map_eq_some_iff.mp h
  rw [extensionOf] at hs
  split at hs
  next =>
    obtain rfl := Option.some.inj hs
    intro hc
    apply slash_not_mem_of_fileName hname
    rw [String.toList_ofList, List.mem_reverse] at hc
    exact List.mem_reverse.mp ((List.takeWhile_prefix _).mem hc)
  next => cases hs

theorem filter_reverse_pieces {fillers t : List (List Char)} {piece : List Char}
    (hf : ∀ f ∈ fillers, isFiller f = true) (hp : isFiller piece = false) :
    (fillers ++ piece :: t).reverse.filter (!isFiller ·) =
      t.reverse.filter (!isFiller ·) ++ [piece] := by
  have hfn : fillers.reverse.filter (!isFiller ·) = [] := by
    simpa [List.filter_eq_nil_iff] using hf
  simp [hfn, hp]

theorem components_parent {p q : Path} (h : p.parent? = some q) :
    q.components = p.components.dropLast := by
  rw [components_eq p, names_eq]
  rcases parent_cases h with ⟨hl, hup, rfl⟩ | ⟨fillers, piece, t, hup, hf, hp, ht, rfl⟩
  · have hn : p.piecesUpward.reverse.filter (!isFiller ·) = [] := by
      simpa [List.filter_eq_nil_iff] using hup
    rw [hl, hn]
    rfl
  · rw [components_eq, ht.lead_ofPieces, ht.names_ofPieces, hup, filter_reverse_pieces hf hp,
      List.map_append, ← List.append_assoc, List.map_singleton, List.dropLast_concat]

theorem root_mem_components_iff {p : Path} : .root ∈ p.components ↔ p.isAbsolute = true := by
  have hn : .root ∉ p.names.map pieceComponent := by
    intro h
    obtain ⟨piece, -, hp⟩ := List.mem_map.mp h
    rw [pieceComponent] at hp
    split at hp <;> cases hp
  rw [components_eq, List.mem_append, or_iff_left hn, isAbsolute_iff]
  rcases p.lead_cases with hl | hl | hl <;> simp [hl, leadComponents]

theorem directory_components_subset (p : Path) : p.directory.components ⊆ p.components := by
  rw [directory]
  cases hp : p.parent? with
  | some q =>
    rw [Option.getD_some, components_parent hp]
    exact List.dropLast_subset _
  | none => exact List.nil_subset _

theorem exists_parent {p : Path} {above : List Component} {n : String}
    (h : p.components = above ++ [.name n]) : ∃ q, p.parent? = some q ∧ q.components = above := by
  cases hp : p.parent? with
  | some q => exact ⟨q, rfl, by rw [components_parent hp, h, List.dropLast_concat]⟩
  | none =>
    obtain ⟨hl, hup⟩ := ancestorsOf_eq_nil (List.head?_eq_none_iff.mp hp)
    have hn : p.names = [] := by
      simpa [names_eq, List.filter_eq_nil_iff] using hup
    have hc : leadComponents p.lead = above ++ [.name n] := by
      rw [← h, components_eq, hn, List.map_nil, List.append_nil]
    rcases p.lead_cases with h' | h' | h'
    · rw [h'] at hc
      simp [leadComponents, List.cons_eq_append_iff] at hc
    · exact absurd h' hl
    · rw [h'] at hc
      simp [leadComponents] at hc

theorem components_directory {p : Path} {above : List Component} {n : String}
    (h : p.components = above ++ [.name n]) : p.directory.components = above := by
  obtain ⟨q, hq, hc⟩ := exists_parent h
  rw [directory, hq, Option.getD_some, hc]

theorem fileName_eq {p : Path} {above : List Component} {n : String}
    (h : p.components = above ++ [.name n]) : p.fileName? = some n := by
  obtain ⟨q, hq, -⟩ := exists_parent h
  rw [components_eq, names_eq] at h
  rcases parent_cases hq with ⟨hl, hup, -⟩ | ⟨fillers, piece, t, hup, hf, hp, -, -⟩
  · have hn : p.piecesUpward.reverse.filter (!isFiller ·) = [] := by
      simpa [List.filter_eq_nil_iff] using hup
    rw [hn, hl] at h
    simp [leadComponents, List.cons_eq_append_iff] at h
  · rw [hup, filter_reverse_pieces hf hp, List.map_append, ← List.append_assoc] at h
    have hlast : pieceComponent piece = .name n :=
      List.singleton_inj.mp (List.append_inj' h rfl).2
    have hd : p.piecesUpward.dropWhile isFiller = piece :: t := by
      rw [hup, List.dropWhile_append_of_pos hf, List.dropWhile_cons_of_neg (by simp [hp])]
    rw [fileName?, hd]
    rw [pieceComponent] at hlast
    split at hlast
    next => cases hlast
    next hparent =>
      obtain rfl := Component.name.inj hlast
      exact if_neg hparent

end ServerActions.Path
