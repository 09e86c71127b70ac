import ServerActions.Proofs.FileTree.Within

namespace ServerActions.FileTree

variable {t u : FileTree} {p q : Path} {l m : Location}

def Passes (t : FileTree) (p : Path) (l : Location) : Prop :=
  ∃ first, first <+: p.steps ∧ first.foldl enterStep (t.origin p) = l

theorem passes_target (t : FileTree) (p : Path) : t.Passes p (t.target p) :=
  ⟨p.steps, List.prefix_rfl, foldl_enterStep_steps t p⟩

theorem passes_target_ancestor (hq : q ∈ p.ancestors) (hne : q.text ≠ "") :
    t.Passes p (t.target q) := by
  have habove := Path.above_of_mem_ancestors hq hne
  obtain ⟨rest, -, hsteps⟩ := habove.steps
  refine ⟨q.steps, by rw [hsteps]; exact List.prefix_append _ _, ?_⟩
  rw [← foldl_enterStep_steps, origin, origin, habove.isAbsolute]

theorem Within.exists_missing_of_walk (h : t.Within u) {steps : List String}
    (hl : (t.get? l).isSome = true) (hu : u.walk l steps = .ok m) (ht : t.walk l steps ≠ .ok m) :
    ∃ first, first <+: steps ∧ t.get? (first.foldl enterStep l) = none ∧
      (u.get? (first.foldl enterStep l)).isSome = true := by
  induction steps generalizing l with
  | nil => exact absurd hu ht
  | cons step steps ih =>
    obtain ⟨hd, hstep, hrest⟩ := walk_cons_eq_ok_iff.mp hu
    have htd := h.back hl hd
    by_cases hdot : isDotStep step = true
    · rw [walk_cons_of_isDotStep htd hdot] at ht
      obtain ⟨first, hfirst, hmissing⟩ :=
        ih (isSome_of_directory (directory_enterStep htd hdot)) hrest ht
      exact ⟨step :: first, (List.prefix_cons_inj step).mpr hfirst, hmissing⟩
    · obtain ⟨hsize, htaken⟩ := hstep.resolve_left hdot
      have hname := Bool.eq_false_iff.mpr hdot
      have henter := enterStep_of_isDotStep hname l
      rw [henter] at hrest
      rw [walk_cons_of_name htd hname hsize] at ht
      split_ifs at ht with hsome
      · obtain ⟨first, hfirst, hmissing⟩ := ih hsome hrest ht
        refine ⟨step :: first, (List.prefix_cons_inj step).mpr hfirst, ?_⟩
        rw [List.foldl_cons, henter]
        exact hmissing
      · refine ⟨[step], List.prefix_append [step] steps, ?_⟩
        rw [List.foldl_cons, List.foldl_nil, henter]
        exact ⟨by simpa using hsome, htaken⟩

theorem pathExists_iff : t.pathExists p = true ↔ ∃ e, t.find p = .ok e := by
  rw [pathExists]
  cases t.find p <;> simp [Except.toBool]

theorem Extends.pathExists (h : t.Extends u) (hp : t.pathExists p = true) :
    u.pathExists p = true := by
  obtain ⟨e, he⟩ := pathExists_iff.mp hp
  obtain ⟨l, hl, hg⟩ := find_eq_ok_iff.mp he
  obtain ⟨e', he'⟩ := Option.isSome_iff_exists.mp (h.taken (by rw [hg]; rfl))
  exact pathExists_iff.mpr ⟨e', find_eq_ok_iff.mpr ⟨l, h.locate hl, he'⟩⟩

theorem passes_of_isPrefix {first : List String}
    (h : first <+: if p.endsInSeparator then p.steps ++ ["."] else p.steps) :
    t.Passes p (first.foldl enterStep (t.origin p)) := by
  split_ifs at h
  · rcases List.prefix_concat_iff.mp h with rfl | h
    · -- the step behind a separator at the end leads nowhere else
      refine ⟨p.steps, List.prefix_rfl, ?_⟩
      rw [List.foldl_append]
      rfl
    · exact ⟨first, h, rfl⟩
  · exact ⟨first, h, rfl⟩

theorem Within.passes_missing (h : t.Within u) (hu : u.pathExists p = true)
    (ht : ¬ t.pathExists p = true) :
    ∃ l, t.Passes p l ∧ t.get? l = none ∧ (u.get? l).isSome = true := by
  obtain ⟨e, he⟩ := pathExists_iff.mp hu
  obtain ⟨m, hm, -⟩ := find_eq_ok_iff.mp he
  have ho : u.origin p = t.origin p := by rw [origin, origin, h.workingDirectory]
  have horigin := isSome_of_directory (t.directory_origin p)
  rw [locate] at hm
  split at hm
  · cases hm
  next hfault =>
    rw [ho] at hm
    -- in the smaller tree the walk stops at a place that only the larger tree has
    have hw : t.walk (t.origin p) (if p.endsInSeparator then p.steps ++ ["."] else p.steps) ≠
        .ok m := by
      intro hw
      rcases h.walk_cases horigin hm with ⟨-, hsome⟩ | hmissing
      · obtain ⟨e', he'⟩ := Option.isSome_iff_exists.mp hsome
        have hl : t.locate p = .ok m := by
          rw [locate, hfault]
          exact hw
        exact ht (pathExists_iff.mpr ⟨e', find_eq_ok_iff.mpr ⟨m, hl, he'⟩⟩)
      · rw [hw] at hmissing
        cases hmissing
    obtain ⟨first, hfirst, hmissing⟩ := h.exists_missing_of_walk horigin hm hw
    exact ⟨_, passes_of_isPrefix hfirst, hmissing⟩

theorem foldl_enterStep_of_names {steps : List String}
    (h : ∀ step ∈ steps, isDotStep step = false) (l : Location) :
    steps.foldl enterStep l = steps.reverse ++ l := by
  induction steps generalizing l with
  | nil => rfl
  | cons step steps ih =>
    obtain ⟨hstep, hsteps⟩ := List.forall_mem_cons.mp h
    rw [List.foldl_cons, enterStep_of_isDotStep hstep, ih hsteps]
    simp

theorem eq_workingDirectory_of_passes {a b : String} {as bs : List String}
    (hp : p.isAbsolute = false) (hq : q.isAbsolute = false) (hps : p.steps = a :: as)
    (hqs : q.steps = b :: bs) (hnames : ∀ step ∈ p.steps ++ q.steps, isDotStep step = false)
    (hne : a ≠ b) (hl : t.Passes p l) (hl' : t.Passes q l) : l = t.workingDirectory := by
  obtain ⟨first, hfirst, rfl⟩ := hl
  obtain ⟨first', hfirst', he⟩ := hl'
  have hdots : ∀ step ∈ first, isDotStep step = false :=
    fun step hs => hnames step (List.mem_append_left _ (hfirst.mem hs))
  have hdots' : ∀ step ∈ first', isDotStep step = false :=
    fun step hs => hnames step (List.mem_append_right _ (hfirst'.mem hs))
  have hop : t.origin p = t.workingDirectory := by simp [origin, hp]
  have hoq : t.origin q = t.workingDirectory := by simp [origin, hq]
  rw [hop, hoq, foldl_enterStep_of_names hdots, foldl_enterStep_of_names hdots',
    List.append_left_inj, List.reverse_inj] at he
  rw [hop]
  cases first with
  | nil => rfl
  | cons step first =>
    rw [hps] at hfirst
    rw [he, hqs] at hfirst'
    have ha : step = a := (List.cons_prefix_cons.mp hfirst).1
    have hb : step = b := (List.cons_prefix_cons.mp hfirst').1
    exact absurd (ha.symm.trans hb) hne

end ServerActions.FileTree
