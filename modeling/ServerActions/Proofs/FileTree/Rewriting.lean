import ServerActions.Proofs.FileTree.Growing
import ServerActions.Proofs.FileTree.Targets

namespace ServerActions.FileTree

theorem directory_origin (t : FileTree) (p : Path) : t.get? (t.origin p) = some .directory := by
  rw [origin]
  split_ifs
  · exact t.get?_root
  · exact t.working_directory

theorem directory_of_endsInSeparator {t : FileTree} {p : Path} {l : Location}
    (h : t.locate p = .ok l) (hs : p.endsInSeparator = true) : t.get? l = some .directory := by
  rw [locate] at h
  split at h
  · cases h
  · rw [if_pos hs, walk_append] at h
    cases hk : t.walk (t.origin p) p.steps with
    | error cause =>
      rw [hk] at h
      cases h
    | ok k =>
      rw [hk] at h
      obtain ⟨hd, -, hw⟩ := walk_cons_eq_ok_iff.mp h
      obtain rfl : k = l := Except.ok.inj hw
      exact hd

theorem locateLast_of_locate {t : FileTree} {p : Path} {l : Location} (h : t.locate p = .ok l) :
    ∃ m last, t.locateLast p = .ok (m, last) ∧ t.get? m = some .directory ∧
      ((isDotStep last = true ∧ t.get? l = some .directory) ∨
        (isDotStep last = false ∧ last.utf8ByteSize ≤ maxNameSize ∧ l = last :: m ∧
          (t.get? l).isSome = true)) := by
  obtain ⟨hfault, rest, hw⟩ := exists_walk_of_locate h
  have htarget := locate_eq_target h
  rw [← foldl_enterStep_steps] at htarget
  rcases List.eq_nil_or_concat p.steps with hnil | ⟨steps, last, hsteps⟩
  · refine ⟨[], ".", ?_, t.get?_root, .inl ⟨by decide, ?_⟩⟩
    · rw [locateLast, hfault, hnil]
      rfl
    · rw [htarget, hnil]
      exact t.directory_origin p
  · rw [List.concat_eq_append] at hsteps
    rw [hsteps, List.append_assoc, walk_append] at hw
    cases hm : t.walk (t.origin p) steps with
    | error cause =>
      rw [hm] at hw
      cases hw
    | ok m =>
      rw [hm] at hw
      obtain ⟨hd, hstep, -⟩ := walk_cons_eq_ok_iff.mp hw
      rw [hsteps, List.foldl_append, ← walk_eq_foldl hm] at htarget
      obtain rfl : l = enterStep m last := htarget
      refine ⟨m, last, by rw [locateLast_of_steps hfault hsteps, hm]; rfl, hd, ?_⟩
      by_cases hdot : isDotStep last = true
      · exact .inl ⟨hdot, directory_enterStep hd hdot⟩
      · have hdot' := Bool.eq_false_iff.mpr hdot
        obtain ⟨hsize, htaken⟩ := hstep.resolve_left hdot
        rw [enterStep_of_isDotStep hdot']
        exact .inr ⟨hdot', hsize, rfl, htaken⟩

theorem locateLast_of_file {t : FileTree} {p : Path} {bytes : ByteArray}
    (h : t.find p = .ok (.file bytes)) :
    ∃ m last, t.locateLast p = .ok (m, last) ∧ t.get? m = some .directory ∧
      isDotStep last = false ∧ p.endsInSeparator = false ∧ last.utf8ByteSize ≤ maxNameSize ∧
      t.get? (last :: m) = some (.file bytes) := by
  obtain ⟨l, hl, hfile⟩ := find_eq_ok_iff.mp h
  have hne : t.get? l ≠ some .directory := by
    rw [hfile]
    simp
  have hsep : p.endsInSeparator = false := by
    apply Bool.eq_false_iff.mpr
    exact fun hs => hne (directory_of_endsInSeparator hl hs)
  obtain ⟨m, last, hloc, hm, hlast⟩ := locateLast_of_locate hl
  obtain ⟨hdot, hsize, rfl, -⟩ := hlast.resolve_left fun hd => hne hd.2
  exact ⟨m, last, hloc, hm, hdot, hsep, hsize, hfile⟩

theorem makeDirectory_of_find {t : FileTree} {p : Path} (h : t.find p = .ok .directory) :
    t.makeDirectory p = .error .alreadyExists := by
  obtain ⟨l, hl, hd⟩ := find_eq_ok_iff.mp h
  obtain ⟨m, last, hloc, hm, hlast⟩ := locateLast_of_locate hl
  rw [makeDirectory, hloc]
  simp only [bind, Except.bind]
  rw [dif_pos hm]
  rcases hlast with ⟨hdot, -⟩ | ⟨hdot, hsize, rfl, htaken⟩
  · rw [if_pos hdot]
  · rw [if_neg (by simp [hdot]), if_neg (Nat.not_lt.mpr hsize), dif_pos htaken]

theorem makeDirectories_of_find {t : FileTree} {p : Path} (h : t.find p = .ok .directory) :
    t.makeDirectories p = (.ok (), t) := by
  have hd : t.isDirectory p = true := isDirectory_iff.mpr h
  rw [makeDirectories]
  cases p.ancestors <;>
  · rw [makeDirectoryBelow, makeDirectory_of_find h]
    split_ifs
    · rfl
    · simp only [accept, if_pos hd]

theorem place_of_get? {t : FileTree} {parent : Location} {name : String} {e : Entry}
    (h : t.get? (name :: parent) = some e) (hp hr) : t.place parent name e hp hr = t := by
  refine eq_of_get? (workingDirectory_place t parent name e hp hr) fun l => ?_
  rw [get?_place]
  split_ifs with hl
  · rw [← hl, h]
  · rfl

theorem writeBytes_of_find {t : FileTree} {p : Path} {bytes : ByteArray}
    (h : t.find p = .ok (.file bytes)) : t.writeBytes p bytes = .ok t := by
  obtain ⟨m, last, hloc, hm, hdot, hsep, hsize, hfile⟩ := locateLast_of_file h
  rw [writeBytes, hloc]
  simp only [bind, Except.bind]
  rw [dif_pos hm, if_neg (by simp [hdot, hsep]), if_neg (Nat.not_lt.mpr hsize),
    dif_neg (by simp [hfile]), place_of_get? hfile]

end ServerActions.FileTree
