import ServerActions.FileTree.Access

namespace ServerActions.FileTree

theorem fromUTF8?_toUTF8 (s : String) : String.fromUTF8? s.toUTF8 = some s :=
  dif_pos s.isValidUTF8

theorem readText_of_find {t : FileTree} {p : Path} {s : String}
    (h : t.find p = .ok (.file s.toUTF8)) : t.readText p = .ok s := by
  simp only [readText, readBytes, h, bind, Except.bind, fromUTF8?_toUTF8]

theorem toUTF8_of_fromUTF8? {bytes : ByteArray} {s : String}
    (h : String.fromUTF8? bytes = some s) : s.toUTF8 = bytes := by
  rw [String.fromUTF8?] at h
  split at h
  · rw [← Option.some.inj h]
    rfl
  · cases h

theorem readText_eq_ok_iff {t : FileTree} {p : Path} {s : String} :
    t.readText p = .ok s ↔ t.find p = .ok (.file s.toUTF8) := by
  constructor
  · intro h
    rw [readText, readBytes] at h
    cases hf : t.find p with
    | error cause =>
      rw [hf] at h
      cases h
    | ok e =>
      rw [hf] at h
      cases e with
      | directory => cases h
      | file bytes =>
        simp only [bind, Except.bind] at h
        split at h
        next text ht =>
          rw [← Except.ok.inj h, toUTF8_of_fromUTF8? ht]
        next => cases h
  · exact readText_of_find

theorem fromUTF8?_eq_none_iff {bytes : ByteArray} :
    String.fromUTF8? bytes = none ↔ ∀ s : String, s.toUTF8 ≠ bytes := by
  constructor
  · rintro h s rfl
    rw [fromUTF8?_toUTF8] at h
    cases h
  · intro h
    cases hs : String.fromUTF8? bytes with
    | none => rfl
    | some s => exact absurd (toUTF8_of_fromUTF8? hs) (h s)

inductive Unreadable (t : FileTree) (p : Path) : AccessError → Prop
  | unreachable {cause : AccessError} (found : t.find p = .error cause) : Unreadable t p cause
  | directory (found : t.find p = .ok .directory) : Unreadable t p .isDirectory
  | undecodable {bytes : ByteArray} (found : t.find p = .ok (.file bytes))
    (noText : ∀ s : String, s.toUTF8 ≠ bytes) : Unreadable t p .notText

theorem readText_eq_error_iff {t : FileTree} {p : Path} {cause : AccessError} :
    t.readText p = .error cause ↔ t.Unreadable p cause := by
  constructor
  · intro h
    cases hf : t.find p with
    | error e =>
      simp only [readText, readBytes, hf, bind, Except.bind, Except.error.injEq] at h
      subst h
      exact .unreachable hf
    | ok e =>
      cases e with
      | directory =>
        simp only [readText, readBytes, hf, bind, Except.bind, Except.error.injEq] at h
        subst h
        exact .directory hf
      | file bytes =>
        cases hs : String.fromUTF8? bytes with
        | some s =>
          simp only [readText, readBytes, hf, bind, Except.bind, hs] at h
          cases h
        | none =>
          simp only [readText, readBytes, hf, bind, Except.bind, hs, Except.error.injEq] at h
          subst h
          exact .undecodable hf (fromUTF8?_eq_none_iff.mp hs)
  · intro h
    cases h with
    | unreachable hf => simp only [readText, readBytes, hf, bind, Except.bind]
    | directory hf => simp only [readText, readBytes, hf, bind, Except.bind]
    | undecodable hf hs =>
      simp only [readText, readBytes, hf, bind, Except.bind, fromUTF8?_eq_none_iff.mpr hs]

theorem readText_eq_notFound_iff {t : FileTree} {p : Path} :
    t.readText p = .error .notFound ↔ t.find p = .error .notFound := by
  rw [readText_eq_error_iff]
  constructor
  · rintro ⟨hf⟩
    exact hf
  · exact .unreachable

theorem find_of_steps {t : FileTree} {p : Path} {name : String} {e : Entry}
    (hf : pathFault? p = none) (ha : p.isAbsolute = false) (hsep : p.endsInSeparator = false)
    (hs : p.steps = [name]) (hdot : isDotStep name = false) (hsize : name.utf8ByteSize ≤ maxNameSize)
    (hg : t.get? (name :: t.workingDirectory) = some e) : t.find p = .ok e := by
  simp only [isDotStep, Bool.or_eq_false_iff, decide_eq_false_iff_not] at hdot
  have hl : t.locate p = .ok (name :: t.workingDirectory) := by
    rw [locate, hf]
    simp only [hsep, Bool.false_eq_true, if_false, hs, origin, ha]
    rw [walk, if_pos (directory_of_get? hg), if_neg hdot.1, if_neg hdot.2,
      if_neg (Nat.not_lt.mpr hsize), if_pos (by rw [hg]; rfl), walk]
  simp only [find, hl, bind, Except.bind, hg]

def holding (name text : String) : FileTree :=
  (emptyDirectory "project").place ["project"] name (.file text.toUTF8)
    (emptyDirectory "project").working_directory
    (by simp [emptyDirectory, enter, get?, place, empty])

theorem readText_holding {name text : String} (hf : pathFault? ⟨name⟩ = none)
    (ha : Path.isAbsolute ⟨name⟩ = false) (hsep : Path.endsInSeparator ⟨name⟩ = false)
    (hs : Path.steps ⟨name⟩ = [name]) (hdot : isDotStep name = false)
    (hsize : name.utf8ByteSize ≤ maxNameSize) : (holding name text).readText ⟨name⟩ = .ok text := by
  apply readText_of_find
  apply find_of_steps hf ha hsep hs hdot hsize
  exact (get?_place _ _ _ _ _ _ _).trans (if_pos rfl)

end ServerActions.FileTree
