import Std.Data.ExtTreeMap

/-!
A tree of files and directories and the working directory in it.  The tree is the map from the
places that exist to what is there; every place lies in a directory, and the working directory is
one.  Two trees with one working directory are equal when they have the same entries.
-/

namespace ServerActions

abbrev Location := List String

inductive Entry
  | directory
  | file (bytes : ByteArray)

instance (e : Option Entry) : Decidable (e = some .directory) :=
  match e with
  | some .directory => isTrue rfl
  | some (.file _) => isFalse (by simp)
  | none => isFalse (by simp)

@[ext]
structure FileTree where
  entries : Std.ExtTreeMap Location Entry compare
  workingDirectory : Location
  parent_directory : ∀ {name : String} {parent : Location} {entry : Entry},
    entries[name :: parent]? = some entry → entries[parent]? = some Entry.directory
  working_directory : entries[workingDirectory]? = some Entry.directory

namespace FileTree

def get? (t : FileTree) (l : Location) : Option Entry :=
  t.entries[l]?

theorem eq_of_get? {t u : FileTree} (hw : t.workingDirectory = u.workingDirectory)
    (h : ∀ l, t.get? l = u.get? l) : t = u :=
  FileTree.ext (Std.ExtTreeMap.ext_getElem? h) hw

theorem directory_of_get? {t : FileTree} {name : String} {parent : Location} {e : Entry}
    (h : t.get? (name :: parent) = some e) : t.get? parent = some .directory :=
  t.parent_directory h

theorem get?_root (t : FileTree) : t.get? [] = some .directory := by
  suffices ∀ l, t.get? l = some .directory → t.get? [] = some .directory from
    this _ t.working_directory
  intro l
  induction l with
  | nil => exact id
  | cons name parent ih => exact fun h => ih (directory_of_get? h)

def empty : FileTree where
  entries := Std.ExtTreeMap.empty.insert [] .directory
  workingDirectory := []
  parent_directory := by
    intro name parent e h
    rw [Std.ExtTreeMap.getElem?_insert] at h
    simp at h
  working_directory := by simp

def place (t : FileTree) (parent : Location) (name : String) (e : Entry)
    (hp : t.get? parent = some .directory)
    (hr : t.get? (name :: parent) ≠ some .directory) : FileTree where
  entries := t.entries.insert (name :: parent) e
  workingDirectory := t.workingDirectory
  parent_directory := by
    intro n l e' h
    simp only [get?] at hp hr
    rw [Std.ExtTreeMap.getElem?_insert] at h ⊢
    simp only [Std.compare_eq_iff_eq] at h ⊢
    by_cases hl : name :: parent = l
    · subst hl
      rw [if_neg (by simp)] at h
      exact absurd (t.parent_directory h) hr
    · rw [if_neg hl]
      by_cases hn : name :: parent = n :: l
      · obtain ⟨rfl, rfl⟩ := List.cons.inj hn
        exact hp
      · rw [if_neg hn] at h
        exact t.parent_directory h
  working_directory := by
    simp only [get?] at hr
    rw [Std.ExtTreeMap.getElem?_insert]
    simp only [Std.compare_eq_iff_eq]
    rw [if_neg]
    · exact t.working_directory
    · intro h
      exact hr (h ▸ t.working_directory)

theorem get?_place (t : FileTree) (parent : Location) (name : String) (e : Entry) (hp hr)
    (l : Location) :
    (t.place parent name e hp hr).get? l = if name :: parent = l then some e else t.get? l := by
  simp only [get?, place]
  rw [Std.ExtTreeMap.getElem?_insert]
  simp only [Std.compare_eq_iff_eq]

@[simp] theorem workingDirectory_place (t : FileTree) (parent : Location) (name : String)
    (e : Entry) (hp hr) :
    (t.place parent name e hp hr).workingDirectory = t.workingDirectory :=
  rfl

def enter (t : FileTree) (l : Location) (h : t.get? l = some .directory) : FileTree where
  entries := t.entries
  workingDirectory := l
  parent_directory := t.parent_directory
  working_directory := h

def emptyDirectory (name : String) : FileTree :=
  (empty.place [] name .directory (get?_root _) (by simp [get?, empty])).enter [name]
    (by simp [get?_place])

def below (t : FileTree) (l : Location) : List (List String × Entry) :=
  (t.entries.toList.filter fun (m, _) => l.isSuffixOf m && m != l).map fun (m, e) =>
    ((m.take (m.length - l.length)).reverse, e)

def remove (t : FileTree) (l : Location) : FileTree :=
  if h : l <:+ t.workingDirectory then t
  else
    { entries := t.entries.filter fun m _ => !l.isSuffixOf m
      workingDirectory := t.workingDirectory
      parent_directory := by
        intro name parent e hm
        simp only [Std.ExtTreeMap.getElem?_filter', Option.filter_eq_some_iff] at hm ⊢
        refine ⟨t.parent_directory hm.1, ?_⟩
        have hl := hm.2
        simp only [Bool.not_eq_true', ← Bool.not_eq_true, List.isSuffixOf_iff_suffix] at hl ⊢
        exact fun hp => hl (hp.trans (List.suffix_cons _ _))
      working_directory := by
        rw [Std.ExtTreeMap.getElem?_filter', Option.filter_eq_some_iff]
        refine ⟨t.working_directory, ?_⟩
        simpa [← Bool.not_eq_true, List.isSuffixOf_iff_suffix] using h }

end FileTree

end ServerActions
