import ServerActions.Proofs.FileTree.Walking

/-!
What making directories and writing a file change in a tree.  Main statements:
`makeDirectoryBelow_grows` and `writeBytes_eq_ok`.
-/

namespace ServerActions.FileTree

/-- The second tree is the first with directories at some free places to which the paths lead.  The
places `changed` are left out of account. -/
structure Grows (t u : FileTree) (paths : List Path) (changed : Location → Prop) : Prop where
  workingDirectory : u.workingDirectory = t.workingDirectory
  kept : ∀ l, ¬ changed l → (t.get? l).isSome = true → u.get? l = t.get? l
  added : ∀ l, ¬ changed l → t.get? l = none → (u.get? l).isSome = true →
    u.get? l = some .directory ∧ ∃ q ∈ paths, u.locate q = .ok l

def nowhere (_ : Location) : Prop :=
  False

theorem Grows.refl (t : FileTree) (paths : List Path) : t.Grows t paths nowhere := by
  refine ⟨rfl, fun _ _ _ => rfl, ?_⟩
  intro l _ hn hs
  rw [hn] at hs
  cases hs

theorem Grows.extends {t u : FileTree} {paths : List Path} (h : t.Grows u paths nowhere) :
    t.Extends u := by
  refine ⟨h.workingDirectory, ?_, ?_⟩
  · intro l hl
    rw [h.kept l id (by rw [hl]; rfl), hl]
  · intro l hl
    rw [h.kept l id hl]
    exact hl

theorem Grows.trans {t u v : FileTree} {paths : List Path} {changed : Location → Prop}
    (h : t.Grows u paths nowhere) (h' : u.Grows v paths changed) (huv : u.Extends v) :
    t.Grows v paths changed := by
  refine ⟨h'.workingDirectory.trans h.workingDirectory, ?_, ?_⟩
  · intro l hl hs
    have hu := h.kept l id hs
    rw [h'.kept l hl (by rw [hu]; exact hs), hu]
  · intro l hl hn hs
    cases hu : u.get? l with
    | none => exact h'.added l hl hu hs
    | some e =>
      have hsome : (u.get? l).isSome = true := by
        rw [hu]
        rfl
      obtain ⟨hd, q, hq, hloc⟩ := h.added l id hn hsome
      exact ⟨huv.directory hd, q, hq, huv.locate hloc⟩

theorem Grows.mono {t u : FileTree} {paths paths' : List Path} {changed : Location → Prop}
    (h : t.Grows u paths changed) (hp : paths ⊆ paths') : t.Grows u paths' changed := by
  refine ⟨h.workingDirectory, h.kept, ?_⟩
  intro l hl hn hs
  obtain ⟨hd, q, hq, hloc⟩ := h.added l hl hn hs
  exact ⟨hd, q, hp hq, hloc⟩

theorem locateLast_of_steps {p : Path} {init : List String} {last : String}
    (hp : pathFault? p = none) (hs : p.steps = init ++ [last]) (t : FileTree) :
    t.locateLast p = (t.walk (t.origin p) init).map fun l => (l, last) := by
  rw [locateLast, hp, hs]
  simp only [List.getLast?_concat, List.dropLast_concat]
  cases t.walk (t.origin p) init <;> rfl

theorem locateLast_eq_ok {t : FileTree} {p : Path} {l : Location} {last : String}
    (h : t.locateLast p = .ok (l, last)) :
    pathFault? p = none ∧
      ((p.steps = [] ∧ l = [] ∧ last = ".") ∨
        ∃ init, p.steps = init ++ [last] ∧ t.walk (t.origin p) init = .ok l) := by
  have hf : pathFault? p = none := by
    rw [locateLast] at h
    split at h
    · cases h
    · assumption
  refine ⟨hf, ?_⟩
  rcases List.eq_nil_or_concat p.steps with hnil | ⟨init, last', hs⟩
  · rw [locateLast, hf, hnil] at h
    obtain ⟨rfl, rfl⟩ := Prod.mk.inj (Except.ok.inj h)
    exact .inl ⟨hnil, rfl, rfl⟩
  · rw [List.concat_eq_append] at hs
    rw [locateLast_of_steps hf hs] at h
    cases hw : t.walk (t.origin p) init with
    | error cause =>
      rw [hw] at h
      cases h
    | ok m =>
      rw [hw] at h
      obtain ⟨rfl, rfl⟩ := Prod.mk.inj (Except.ok.inj h)
      exact .inr ⟨init, hs, hw⟩

theorem locate_place {t : FileTree} {p : Path} {l : Location} {last : String}
    (h : t.locateLast p = .ok (l, last)) (hdot : isDotStep last = false)
    (hsize : last.utf8ByteSize ≤ maxNameSize) (e : Entry) (hp hr)
    (hend : p.endsInSeparator = true → e = .directory) :
    (t.place l last e hp hr).locate p = .ok (last :: l) := by
  obtain ⟨hf, ⟨-, -, rfl⟩ | ⟨init, hs, hw⟩⟩ := locateLast_eq_ok h
  · cases hdot
  simp only [isDotStep, Bool.or_eq_false_iff, decide_eq_false_iff_not] at hdot
  have hgrow := t.extends_place l last e hp hr
  have hplaced : (t.place l last e hp hr).get? (last :: l) = some e := by
    rw [get?_place, if_pos rfl]
  have hstep : (t.place l last e hp hr).walk l [last] = .ok (last :: l) := by
    rw [walk, if_pos (hgrow.directory hp), if_neg hdot.1, if_neg hdot.2,
      if_neg (Nat.not_lt.mpr hsize), if_pos (by rw [hplaced]; rfl), walk]
  have hwalk : (t.place l last e hp hr).walk (t.origin p) p.steps = .ok (last :: l) := by
    rw [hs, walk_append, hgrow.walk hw]
    exact hstep
  by_cases hsep : p.endsInSeparator = true
  · exact locate_of_walk hf hwalk (by rw [hplaced, hend hsep])
  · rw [locate, hf]
    simp only [if_neg hsep]
    exact hwalk

theorem grows_place_directory {t : FileTree} {p : Path} {l : Location} {last : String} {hp hr}
    (hfree : t.get? (last :: l) = none)
    (hloc : (t.place l last .directory hp hr).locate p = .ok (last :: l)) :
    t.Grows (t.place l last .directory hp hr) [p] nowhere := by
  refine ⟨rfl, ?_, ?_⟩
  · intro m _ hs
    have hne : last :: l ≠ m := by
      rintro rfl
      rw [hfree] at hs
      cases hs
    rw [get?_place, if_neg hne]
  · intro m _ hn hs
    rw [get?_place] at hs ⊢
    split_ifs at hs ⊢ with hm
    · exact ⟨rfl, p, List.mem_singleton_self p, hm ▸ hloc⟩
    · rw [hn] at hs
      cases hs

theorem grows_place_file (t : FileTree) (l : Location) (last : String) (e : Entry) (hp hr) :
    t.Grows (t.place l last e hp hr) [] (· = last :: l) := by
  refine ⟨rfl, ?_, ?_⟩
  · intro m hm _
    rw [get?_place, if_neg (Ne.symm hm)]
  · intro m hm hn hs
    rw [get?_place, if_neg (Ne.symm hm), hn] at hs
    cases hs

theorem makeDirectory_eq_ok {t u : FileTree} {p : Path} (h : t.makeDirectory p = .ok u) :
    t.Grows u [p] nowhere ∧ u.find p = .ok .directory := by
  rw [makeDirectory] at h
  cases hl : t.locateLast p with
  | error cause =>
    rw [hl] at h
    cases h
  | ok place =>
    obtain ⟨l, last⟩ := place
    rw [hl] at h
    simp only [bind, Except.bind] at h
    split_ifs at h with hp hdot hsize hr
    obtain rfl := Except.ok.inj h
    have hfree : t.get? (last :: l) = none := by simpa using hr
    have hloc := locate_place hl (Bool.eq_false_iff.mpr hdot) (Nat.not_lt.mp hsize) .directory hp
      (by simp [hfree]) fun _ => rfl
    refine ⟨grows_place_directory hfree hloc, find_eq_ok_iff.mpr ⟨_, hloc, ?_⟩⟩
    rw [get?_place, if_pos rfl]

theorem writeBytes_eq_ok {t u : FileTree} {p : Path} {bytes : ByteArray}
    (h : t.writeBytes p bytes = .ok u) :
    ∃ l, u.locate p = .ok l ∧ u.get? l = some (.file bytes) ∧ t.get? l ≠ some .directory ∧
      t.Grows u [] (· = l) ∧ t.Extends u := by
  rw [writeBytes] at h
  cases hl : t.locateLast p with
  | error cause =>
    rw [hl] at h
    cases h
  | ok place =>
    obtain ⟨l, last⟩ := place
    rw [hl] at h
    simp only [bind, Except.bind, Bool.or_eq_true] at h
    split_ifs at h with hp hdot hsize hr
    obtain rfl := Except.ok.inj h
    simp only [not_or] at hdot
    have hloc := locate_place hl (Bool.eq_false_iff.mpr hdot.1) (Nat.not_lt.mp hsize) (.file bytes)
      hp hr fun hsep => absurd hsep hdot.2
    refine ⟨last :: l, hloc, ?_, hr, grows_place_file t l last _ hp hr, ?_⟩
    · rw [get?_place, if_pos rfl]
    · exact extends_place t l last _ hp hr

theorem isDirectory_iff {t : FileTree} {p : Path} :
    t.isDirectory p = true ↔ t.find p = .ok .directory := by
  rw [isDirectory]
  split <;> simp_all

theorem accept_makeDirectory (t : FileTree) (p : Path) :
    t.Grows (t.accept p (t.makeDirectory p)).2 [p] nowhere ∧
      ((t.accept p (t.makeDirectory p)).1 = .ok () →
        (t.accept p (t.makeDirectory p)).2.find p = .ok .directory) := by
  cases h : t.makeDirectory p with
  | ok u =>
    obtain ⟨hg, hf⟩ := makeDirectory_eq_ok h
    exact ⟨hg, fun _ => hf⟩
  | error e =>
    rw [accept]
    split_ifs with hd
    · exact ⟨.refl t [p], fun _ => isDirectory_iff.mp hd⟩
    · exact ⟨.refl t [p], fun ho => by cases ho⟩

theorem makeDirectoryBelow_grows (t : FileTree) (p : Path) (above : List Path) :
    t.Grows (t.makeDirectoryBelow p above).2 (p :: above) nowhere ∧
      ((t.makeDirectoryBelow p above).1 = .ok () → p.text ≠ "" →
        (t.makeDirectoryBelow p above).2.find p = .ok .directory) := by
  induction above generalizing p with
  | nil =>
    rw [makeDirectoryBelow]
    split_ifs with hp
    · exact ⟨.refl t _, fun _ hne => absurd hp hne⟩
    · split
      · exact ⟨.refl t _, fun ho => by cases ho⟩
      · obtain ⟨hg, hf⟩ := accept_makeDirectory t p
        exact ⟨hg, fun ho _ => hf ho⟩
  | cons q above ih =>
    rw [makeDirectoryBelow]
    split_ifs with hp
    · exact ⟨.refl t _, fun _ hne => absurd hp hne⟩
    · split
      · have hq := (ih q).1
        split
        next e u hu =>
          rw [hu] at hq
          exact ⟨hq.mono (List.subset_cons_self p _), fun ho => by cases ho⟩
        next u hu =>
          rw [hu] at hq
          obtain ⟨hg, hf⟩ := accept_makeDirectory u p
          refine ⟨?_, fun ho _ => hf ho⟩
          exact (hq.mono (List.subset_cons_self p _)).trans (hg.mono (by simp)) hg.extends
      · obtain ⟨hg, hf⟩ := accept_makeDirectory t p
        exact ⟨hg.mono (by simp), fun ho _ => hf ho⟩

end ServerActions.FileTree
