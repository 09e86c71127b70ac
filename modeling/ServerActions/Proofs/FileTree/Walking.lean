import Mathlib.Tactic.SplitIfs
import Mathlib.Tactic.ByContra
import ServerActions.FileTree.Access
import ServerActions.Proofs.Path.Steps

namespace ServerActions.FileTree

structure Extends (t u : FileTree) : Prop where
  workingDirectory : u.workingDirectory = t.workingDirectory
  directory : ∀ {l}, t.get? l = some .directory → u.get? l = some .directory
  taken : ∀ {l}, (t.get? l).isSome = true → (u.get? l).isSome = true

theorem extends_place (t : FileTree) (parent : Location) (name : String) (e : Entry) (hp hr) :
    t.Extends (t.place parent name e hp hr) := by
  refine ⟨rfl, ?_, ?_⟩
  · intro l hl
    have hne : name :: parent ≠ l := by
      rintro rfl
      exact hr hl
    rw [get?_place, if_neg hne, hl]
  · intro l hl
    rw [get?_place]
    split
    · rfl
    · exact hl

theorem walk_append (t : FileTree) (l : Location) (a b : List String) :
    t.walk l (a ++ b) = (t.walk l a).bind fun m => t.walk m b := by
  induction a generalizing l with
  | nil => rfl
  | cons step a ih =>
    rw [List.cons_append, walk, walk]
    split_ifs
    · exact ih l
    · exact ih l.tail
    · rfl
    · exact ih (step :: l)
    · rfl
    · rfl

theorem Extends.walk {t u : FileTree} (h : t.Extends u) {l m : Location} {steps : List String}
    (hw : t.walk l steps = .ok m) : u.walk l steps = .ok m := by
  induction steps generalizing l with
  | nil => exact hw
  | cons step steps ih =>
    rw [FileTree.walk] at hw ⊢
    split_ifs at hw with hd hdot hup hsize htaken
    · rw [if_pos (h.directory hd), if_pos hdot]
      exact ih hw
    · rw [if_pos (h.directory hd), if_neg hdot, if_pos hup]
      exact ih hw
    · rw [if_pos (h.directory hd), if_neg hdot, if_neg hup, if_neg hsize, if_pos (h.taken htaken)]
      exact ih hw

theorem Extends.locate {t u : FileTree} (h : t.Extends u) {p : Path} {l : Location}
    (hl : t.locate p = .ok l) : u.locate p = .ok l := by
  rw [FileTree.locate] at hl ⊢
  split at hl
  · cases hl
  · rw [origin, h.workingDirectory]
    exact h.walk hl

theorem find_eq_ok_iff {t : FileTree} {p : Path} {e : Entry} :
    t.find p = .ok e ↔ ∃ l, t.locate p = .ok l ∧ t.get? l = some e := by
  rw [find]
  cases t.locate p with
  | error cause => simp [bind, Except.bind]
  | ok l =>
    cases hg : t.get? l with
    | none => simp [bind, Except.bind, hg]
    | some e' => simp [bind, Except.bind, hg]

theorem exists_directory_of_walk {t : FileTree} {l m : Location} {a b : List String} (hb : b ≠ [])
    (h : t.walk l (a ++ b) = .ok m) : ∃ k, t.walk l a = .ok k ∧ t.get? k = some .directory := by
  rw [walk_append] at h
  cases hk : t.walk l a with
  | error e =>
    rw [hk] at h
    cases h
  | ok k =>
    rw [hk] at h
    obtain ⟨step, b, rfl⟩ := List.exists_cons_of_ne_nil hb
    refine ⟨k, rfl, ?_⟩
    by_contra hd
    rw [Except.bind, walk, if_neg hd] at h
    cases h

theorem pathFault_eq_none_iff {p : Path} :
    pathFault? p = none ↔
      '\x00' ∉ p.text.toList ∧ p.text ≠ "" ∧ p.text.utf8ByteSize ≤ maxPathSize := by
  rw [pathFault?]
  split_ifs with h₁ h₂ h₃ <;> simp_all

theorem pathFault_of_isPrefix {p q : Path} (h : q.text.toList <+: p.text.toList)
    (hq : q.text ≠ "") (hp : pathFault? p = none) : pathFault? q = none := by
  obtain ⟨hnul, -, hsize⟩ := pathFault_eq_none_iff.mp hp
  refine pathFault_eq_none_iff.mpr ⟨fun hc => hnul (h.mem hc), hq, ?_⟩
  obtain ⟨r, hr⟩ := h
  have ht : p.text = q.text ++ String.ofList r := by
    rw [← String.toList_inj, String.toList_append, String.toList_ofList, hr]
  rw [ht, String.utf8ByteSize_append] at hsize
  omega

theorem locate_of_walk {t : FileTree} {p : Path} {l : Location} (hp : pathFault? p = none)
    (hw : t.walk (t.origin p) p.steps = .ok l) (hd : t.get? l = some .directory) :
    t.locate p = .ok l := by
  rw [locate, hp]
  split_ifs
  · simp only [walk_append, hw, Except.bind, walk, if_pos hd, if_true]
  · exact hw

theorem exists_walk_of_locate {t : FileTree} {p : Path} {l : Location} (h : t.locate p = .ok l) :
    pathFault? p = none ∧ ∃ rest, t.walk (t.origin p) (p.steps ++ rest) = .ok l := by
  rw [locate] at h
  split at h
  · cases h
  next hp =>
    refine ⟨hp, ?_⟩
    split_ifs at h
    · exact ⟨["."], h⟩
    · exact ⟨[], by rwa [List.append_nil]⟩

theorem find_ancestor {t : FileTree} {p q : Path} {l : Location} (h : t.locate p = .ok l)
    (hq : q ∈ p.ancestors) (hne : q.text ≠ "") : t.find q = .ok .directory := by
  have habove := Path.above_of_mem_ancestors hq hne
  obtain ⟨hp, rest, hw⟩ := exists_walk_of_locate h
  obtain ⟨steps, hs, hps⟩ := habove.steps
  rw [hps, List.append_assoc, origin, ← habove.isAbsolute] at hw
  obtain ⟨k, hk, hd⟩ := exists_directory_of_walk (by simp [hs]) hw
  have hq' := pathFault_of_isPrefix habove.isPrefix hne hp
  exact find_eq_ok_iff.mpr ⟨k, locate_of_walk hq' hk hd, hd⟩

end ServerActions.FileTree
