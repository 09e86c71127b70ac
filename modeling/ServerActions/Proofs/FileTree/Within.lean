import ServerActions.Proofs.FileTree.Rewriting

/-!
Trees within larger ones.  A path that leads somewhere in the larger tree leads there in the smaller
one too, unless something on the way is missing; and what is missing can be made.  Main statements:
`makeDirectories_of_within` and `writeBytes_of_within`.
-/

namespace ServerActions.FileTree

variable {t u v : FileTree} {p q : Path} {l m : Location}

structure Within (t u : FileTree) : Prop extends t.Extends u where
  back : ∀ {l}, (t.get? l).isSome = true → u.get? l = some .directory → t.get? l = some .directory

theorem Within.trans (h : t.Within u) (h' : u.Within v) : t.Within v := by
  refine ⟨⟨?_, ?_, ?_⟩, ?_⟩
  · exact h'.workingDirectory.trans h.workingDirectory
  · exact fun hl => h'.directory (h.directory hl)
  · exact fun hl => h'.taken (h.taken hl)
  · exact fun hl hd => h.back hl (h'.back (h.taken hl) hd)

theorem isSome_of_directory (h : t.get? l = some .directory) : (t.get? l).isSome = true := by
  rw [h]
  rfl

theorem get?_target_of_find {e : Entry} (h : u.find q = .ok e) : u.get? (u.target q) = some e := by
  obtain ⟨m, hm, he⟩ := find_eq_ok_iff.mp h
  rw [← locate_eq_target hm]
  exact he

theorem get?_of_find {e : Entry} (h : u.find q = .ok e)
    (hw : u.workingDirectory = t.workingDirectory) (hl : t.locate q = .ok l) :
    u.get? l = some e := by
  rw [locate_eq_target hl, ← target_of_workingDirectory hw]
  exact get?_target_of_find h

theorem text_ne_of_locate (h : t.locate q = .ok l) : q.text ≠ "" := by
  obtain ⟨hfault, -⟩ := exists_walk_of_locate h
  exact (pathFault_eq_none_iff.mp hfault).2.1

theorem Within.of_grows {paths : List Path} {changed : Location → Prop} (h : t.Within u)
    (hg : t.Grows v paths changed)
    (hpaths : ∀ q ∈ paths, q.text ≠ "" → u.find q = .ok .directory)
    (hchanged : ∀ l, changed l →
      ∃ b b', v.get? l = some (.file b) ∧ u.get? l = some (.file b')) : v.Within u := by
  have hw : u.workingDirectory = v.workingDirectory :=
    h.workingDirectory.trans hg.workingDirectory.symm
  -- a place of the grown tree is one of the paths, or changed, or as it was
  have hcases (l : Location) (hl : (v.get? l).isSome = true) :
      (v.get? l = some .directory ∧ u.get? l = some .directory) ∨
        (∃ b b', v.get? l = some (.file b) ∧ u.get? l = some (.file b')) ∨
          ((t.get? l).isSome = true ∧ v.get? l = t.get? l) := by
    by_cases hc : changed l
    · exact .inr (.inl (hchanged l hc))
    cases ht : t.get? l with
    | some e =>
      have hkept := hg.kept l hc (by rw [ht]; rfl)
      exact .inr (.inr ⟨rfl, by rw [hkept, ht]⟩)
    | none =>
      obtain ⟨hd, q, hq, hloc⟩ := hg.added l hc ht hl
      exact .inl ⟨hd, get?_of_find (hpaths q hq (text_ne_of_locate hloc)) hw hloc⟩
  refine ⟨⟨hw, ?_, ?_⟩, ?_⟩
  · intro l hl
    rcases hcases l (isSome_of_directory hl) with ⟨-, hd⟩ | ⟨b, b', hb, -⟩ | ⟨-, hkept⟩
    · exact hd
    · rw [hl] at hb
      cases hb
    · exact h.directory (hkept ▸ hl)
  · intro l hl
    rcases hcases l hl with ⟨-, hd⟩ | ⟨b, b', -, hb'⟩ | ⟨ht, -⟩
    · exact isSome_of_directory hd
    · rw [hb']
      rfl
    · exact h.taken ht
  · intro l hl hd
    rcases hcases l hl with ⟨hv, -⟩ | ⟨b, b', -, hb'⟩ | ⟨ht, hkept⟩
    · exact hv
    · rw [hd] at hb'
      cases hb'
    · exact hkept.trans (h.back ht hd)

theorem walk_cons_of_name {step : String} (hl : t.get? l = some .directory)
    (hdot : isDotStep step = false) (hsize : step.utf8ByteSize ≤ maxNameSize)
    (steps : List String) : t.walk l (step :: steps) =
      if (t.get? (step :: l)).isSome = true then t.walk (step :: l) steps
      else .error .notFound := by
  simp only [isDotStep, Bool.or_eq_false_iff, decide_eq_false_iff_not] at hdot
  rw [walk, if_pos hl, if_neg hdot.1, if_neg hdot.2, if_neg (Nat.not_lt.mpr hsize)]

theorem walk_cons_of_isDotStep {step : String} (hl : t.get? l = some .directory)
    (hdot : isDotStep step = true) (steps : List String) :
    t.walk l (step :: steps) = t.walk (enterStep l step) steps := by
  simp only [isDotStep, Bool.or_eq_true, decide_eq_true_eq] at hdot
  rw [walk, if_pos hl, enterStep]
  rcases hdot with rfl | rfl <;> rfl

theorem walk_dots {dots : List String} (hl : t.get? l = some .directory)
    (hdots : ∀ step ∈ dots, step = ".") : t.walk l dots = .ok l := by
  induction dots with
  | nil => rfl
  | cons step dots ih =>
    obtain ⟨rfl, hrest⟩ := List.forall_mem_cons.mp hdots
    rw [walk, if_pos hl, if_pos rfl]
    exact ih hrest

theorem Within.walk_cases (h : t.Within u) {steps : List String} (hl : (t.get? l).isSome = true)
    (hw : u.walk l steps = .ok m) :
    (t.walk l steps = .ok m ∧ (t.get? m).isSome = true) ∨
      t.walk l steps = .error .notFound := by
  induction steps generalizing l with
  | nil =>
    obtain rfl : l = m := Except.ok.inj hw
    exact .inl ⟨rfl, hl⟩
  | cons step steps ih =>
    obtain ⟨hd, hstep, hrest⟩ := walk_cons_eq_ok_iff.mp hw
    have htd := h.back hl hd
    by_cases hdot : isDotStep step = true
    · rw [walk_cons_of_isDotStep htd hdot]
      exact ih (isSome_of_directory (directory_enterStep htd hdot)) hrest
    · have hname := Bool.eq_false_iff.mpr hdot
      obtain ⟨hsize, -⟩ := hstep.resolve_left hdot
      rw [enterStep_of_isDotStep hname] at hrest
      rw [walk_cons_of_name htd hname hsize]
      split_ifs with htaken
      · exact ih htaken hrest
      · exact .inr rfl

theorem Within.locateLast_cases {last : String} (h : t.Within u)
    (hl : u.locateLast p = .ok (m, last)) (hm : u.get? m = some .directory) :
    (t.locateLast p = .ok (m, last) ∧ t.get? m = some .directory) ∨
      (t.locateLast p = .error .notFound ∧
        t.walk (t.origin p) p.steps.dropLast = .error .notFound) := by
  obtain ⟨hf, ⟨hs, rfl, rfl⟩ | ⟨init, hs, hw⟩⟩ := locateLast_eq_ok hl
  · left
    rw [locateLast, hf, hs]
    exact ⟨rfl, t.get?_root⟩
  · have ho : u.origin p = t.origin p := by
      rw [origin, origin, h.workingDirectory]
    rw [ho] at hw
    rw [locateLast_of_steps hf hs, hs, List.dropLast_concat]
    rcases h.walk_cases (isSome_of_directory (t.directory_origin p)) hw with ⟨hm', hsome⟩ | hmissing
    · rw [hm']
      exact .inl ⟨rfl, h.back hsome hm⟩
    · rw [hmissing]
      exact .inr ⟨rfl, rfl⟩

theorem walk_of_find (h : t.find p = .ok .directory) :
    ∃ l, t.walk (t.origin p) p.steps = .ok l ∧ t.get? l = some .directory := by
  obtain ⟨l, hl, hd⟩ := find_eq_ok_iff.mp h
  rw [locate] at hl
  split at hl
  · cases hl
  split_ifs at hl with hsep
  · obtain ⟨k, hk, hkd⟩ := exists_directory_of_walk (by simp) hl
    exact ⟨k, hk, hkd⟩
  · exact ⟨l, hl, hd⟩

theorem walk_dropLast (hp : p.Plain)
    (h : ∀ q, p.parent? = some q → q.text ≠ "" → t.find q = .ok .directory) :
    ∃ m, t.walk (t.origin p) p.steps.dropLast = .ok m := by
  rcases Path.steps_dropLast hp with hdots | ⟨q, dots, hq, hne, hsteps, hdots⟩
  · exact ⟨_, walk_dots (t.directory_origin p) hdots⟩
  · obtain ⟨l, hl, hd⟩ := walk_of_find (h q hq hne)
    have ho : t.origin p = t.origin q := by
      rw [origin, origin, (Path.above_parent hq hne).isAbsolute]
    refine ⟨l, ?_⟩
    rw [hsteps, walk_append, ho, hl]
    exact walk_dots hd hdots

theorem find_of_locateLast {last : String} (h : t.locateLast p = .ok (m, last))
    (hm : t.get? m = some .directory)
    (hlast : isDotStep last = true ∨
      last.utf8ByteSize ≤ maxNameSize ∧ t.get? (enterStep m last) = some .directory) :
    t.find p = .ok .directory := by
  have hd : t.get? (enterStep m last) = some .directory := by
    rcases hlast with hdot | ⟨-, hd⟩
    · exact directory_enterStep hm hdot
    · exact hd
  have hstep : t.walk m [last] = .ok (enterStep m last) := by
    refine walk_cons_eq_ok_iff.mpr ⟨hm, ?_, rfl⟩
    by_cases hdot : isDotStep last = true
    · exact .inl hdot
    · rw [← enterStep_of_isDotStep (Bool.eq_false_iff.mpr hdot)]
      exact .inr ⟨(hlast.resolve_left hdot).1, isSome_of_directory hd⟩
  obtain ⟨hf, ⟨hs, -⟩ | ⟨init, hs, hw⟩⟩ := locateLast_eq_ok h
  · have hwalk : t.walk (t.origin p) p.steps = .ok (t.origin p) := by
      rw [hs]
      rfl
    have horigin := t.directory_origin p
    exact find_eq_ok_iff.mpr ⟨_, locate_of_walk hf hwalk horigin, horigin⟩
  · have hwalk : t.walk (t.origin p) p.steps = .ok (enterStep m last) := by
      rw [hs, walk_append, hw]
      exact hstep
    exact find_eq_ok_iff.mpr ⟨_, locate_of_walk hf hwalk hd, hd⟩

theorem Within.makeDirectory_cases (h : t.Within u) (hq : u.find q = .ok .directory) :
    (∃ v, t.makeDirectory q = .ok v) ∨ t.find q = .ok .directory ∨
      (t.makeDirectory q = .error .notFound ∧
        t.walk (t.origin q) q.steps.dropLast = .error .notFound) := by
  obtain ⟨l, hl, hd⟩ := find_eq_ok_iff.mp hq
  obtain ⟨m, last, hloc, hm, hlast⟩ := locateLast_of_locate hl
  rcases h.locateLast_cases hloc hm with ⟨hloc', hm'⟩ | ⟨hloc', hw⟩
  · rcases hlast with ⟨hdot, -⟩ | ⟨hdot, hsize, rfl, -⟩
    · exact .inr (.inl (find_of_locateLast hloc' hm' (.inl hdot)))
    · cases ht : t.get? (last :: m) with
      | none =>
        left
        rw [makeDirectory, hloc']
        simp only [bind, Except.bind]
        rw [dif_pos hm', if_neg (by simp [hdot]), if_neg (Nat.not_lt.mpr hsize),
          dif_neg (by simp [ht])]
        exact ⟨_, rfl⟩
      | some e =>
        have hd' := h.back (by rw [ht]; rfl) hd
        rw [← enterStep_of_isDotStep hdot] at hd'
        exact .inr (.inl (find_of_locateLast hloc' hm' (.inr ⟨hsize, hd'⟩)))
  · refine .inr (.inr ⟨?_, hw⟩)
    rw [makeDirectory, hloc']
    rfl

theorem accept_of_within (h : t.Within u) (hq : u.find q = .ok .directory) (hplain : q.Plain)
    (hparent : ∀ r, q.parent? = some r → r.text ≠ "" → t.find r = .ok .directory) :
    (t.accept q (t.makeDirectory q)).1 = .ok () := by
  rcases h.makeDirectory_cases hq with ⟨v, hv⟩ | hfind | ⟨-, hw⟩
  · rw [hv]
    rfl
  · rw [makeDirectory_of_find hfind, accept, if_pos (isDirectory_iff.mpr hfind)]
  · obtain ⟨m, hm⟩ := walk_dropLast hplain hparent
    rw [hm] at hw
    cases hw

theorem find_ancestor_of_find {e : Entry} (h : u.find p = .ok e) :
    ∀ q ∈ p.ancestors, q.text ≠ "" → u.find q = .ok .directory := by
  obtain ⟨l, hl, -⟩ := find_eq_ok_iff.mp h
  exact fun q hq hne => find_ancestor hl hq hne

theorem makeDirectories_of_parent (h : t.Within u) (hq : u.find q = .ok .directory)
    (hplain : q.Plain)
    (hparent : ∀ r, q.parent? = some r → r.text ≠ "" → (t.makeDirectories r).1 = .ok ()) :
    (t.makeDirectories q).1 = .ok () := by
  rcases h.makeDirectory_cases hq with ⟨v, hv⟩ | hfind | ⟨hmissing, hw⟩
  · rw [makeDirectories]
    cases q.ancestors <;>
    · rw [makeDirectoryBelow, hv]
      split_ifs <;> rfl
  · rw [makeDirectories_of_find hfind]
  rcases Path.steps_dropLast hplain with hdots | ⟨r, -, hr, hne, -⟩
  · rw [walk_dots (t.directory_origin q) hdots] at hw
    cases hw
  have hmade : (t.makeDirectoryBelow r r.ancestors).1 = .ok () := hparent r hr hne
  obtain ⟨hgrow, hfound⟩ := t.makeDirectoryBelow_grows r r.ancestors
  rw [makeDirectories, Path.ancestors_eq_cons hr, makeDirectoryBelow, hmissing]
  generalize t.makeDirectoryBelow r r.ancestors = made at hmade hgrow hfound
  obtain ⟨outcome, v⟩ := made
  obtain rfl : outcome = .ok () := hmade
  split_ifs
  · rfl
  have hv : v.Within u := by
    refine h.of_grows hgrow ?_ fun l hl => hl.elim
    rw [← Path.ancestors_eq_cons hr]
    exact find_ancestor_of_find hq
  refine accept_of_within hv hq hplain fun r' hr' _ => ?_
  obtain rfl : r = r' := Option.some.inj (hr.symm.trans hr')
  exact hfound rfl hne

theorem makeDirectories_of_within (h : t.Within u) (hq : u.find q = .ok .directory)
    (hplain : q.Plain) : (t.makeDirectories q).1 = .ok () := by
  -- the directories above are made first, from the outermost on
  induction habove : q.ancestors generalizing q with
  | nil =>
    refine makeDirectories_of_parent h hq hplain fun r hr _ => ?_
    rw [Path.ancestors_eq_cons hr] at habove
    cases habove
  | cons r above ih =>
    refine makeDirectories_of_parent h hq hplain fun r' hr hne => ?_
    have hcons := Path.ancestors_eq_cons hr
    have hfind : u.find r' = .ok .directory :=
      find_ancestor_of_find hq r' (by rw [hcons]; exact List.mem_cons_self) hne
    exact ih hfind (Path.plain_parent hr) (List.cons.inj (hcons.symm.trans habove)).2

theorem plain_of_locateLast {last : String} (h : t.locateLast p = .ok (m, last))
    (hdot : isDotStep last = false) : p.Plain := by
  intro hlast
  obtain ⟨-, ⟨-, -, rfl⟩ | ⟨init, hs, -⟩⟩ := locateLast_eq_ok h
  · cases hdot
  · rw [hs, List.getLast?_concat] at hlast
    obtain rfl := Option.some.inj hlast
    cases hdot

theorem writeBytes_of_within {bytes : ByteArray} (h : t.Within u)
    (hp : u.find p = .ok (.file bytes))
    (hparent : ∀ q, p.parent? = some q → q.text ≠ "" → t.find q = .ok .directory)
    (bytes' : ByteArray) : ∃ v, t.writeBytes p bytes' = .ok v := by
  obtain ⟨m, last, hloc, hm, hdot, hsep, hsize, hfile⟩ := locateLast_of_file hp
  rcases h.locateLast_cases hloc hm with ⟨hloc', hm'⟩ | ⟨-, hw⟩
  · have hne : t.get? (last :: m) ≠ some .directory := by
      intro hd
      rw [h.directory hd] at hfile
      cases hfile
    rw [writeBytes, hloc']
    simp only [bind, Except.bind]
    rw [dif_pos hm', if_neg (by simp [hdot, hsep]), if_neg (Nat.not_lt.mpr hsize), dif_neg hne]
    exact ⟨_, rfl⟩
  · obtain ⟨k, hk⟩ := walk_dropLast (plain_of_locateLast hloc hdot) hparent
    rw [hk] at hw
    cases hw

end ServerActions.FileTree
