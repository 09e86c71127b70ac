import ServerActions.Proofs.Declaration.Grammar
import ServerActions.Proofs.Declaration.Names

namespace ServerActions.Declaration

open Text

theorem splitNames_pad_joinNames_iff {names : List String} (a b : Blanks) :
    splitNames (a.val ++ (joinNames names).toList ++ b.val) = names ↔ ∀ n ∈ names, IsItem n := by
  constructor
  · intro h n hn
    rw [← h] at hn
    exact isItem_of_mem_splitNames hn
  · intro h
    exact splitNames_pad_joinNames h a.property b.property

/-- Splitting goes comma by comma; it undoes joining, whatever white space is around the whole,
just for names that can be items, which all names are that come from splitting. -/
theorem splitNames_joinNames :
    (∀ s t, splitNames (s ++ ',' :: t) = splitNames s ++ splitNames t) ∧
    (∀ names (a b : Blanks), splitNames (a.val ++ (joinNames names).toList ++ b.val) = names ↔
      ∀ n ∈ names, IsItem n) ∧
    ∀ s, splitNames (joinNames (splitNames s)).toList = splitNames s := by
  refine ⟨splitNames_append, fun names a b => splitNames_pad_joinNames_iff a b, ?_⟩
  intro s
  have hitems : ∀ n ∈ splitNames s, IsItem n := fun n hn => isItem_of_mem_splitNames hn
  have hjoined := (splitNames_pad_joinNames_iff noBlanks noBlanks).mpr hitems
  simpa [noBlanks] using hjoined

theorem splitNames_joinNames_odd :
    let names := ["a", "b \x7d as\tc", "\x7b;'"]
    (∀ n ∈ names, IsItem n) ∧
      splitNames ("\u3000\n".toList ++ (joinNames names).toList ++ "\u2028 ".toList) = names := by
  intro names
  have hitems : ∀ n ∈ names, IsItem n := by decide +kernel
  obtain ⟨-, hjoin, -⟩ := splitNames_joinNames
  let before : Blanks := ⟨"\u3000\n".toList, List.all_eq_true.mp (by decide +kernel)⟩
  let after : Blanks := ⟨"\u2028 ".toList, List.all_eq_true.mp (by decide +kernel)⟩
  exact ⟨hitems, (hjoin names before after).mpr hitems⟩

example : splitNames ",a, ,\u2003b\n,".toList = ["a", "b"] := by
  decide +kernel

theorem eq_splitNames_iff {f : List Char → List String} :
    f = splitNames ↔ (∀ s t, f (s ++ ',' :: t) = f s ++ f t) ∧
      ∀ names (a b : Blanks), (∀ n ∈ names, IsItem n) →
        f (a.val ++ (joinNames names).toList ++ b.val) = names := by
  constructor
  · rintro rfl
    exact ⟨splitNames_append, fun names a b => (splitNames_pad_joinNames_iff a b).mpr⟩
  · rintro ⟨hcomma, hjoin⟩
    funext s
    induction s using cut_induction (c := ',') with
    | piece s hs =>
      rcases splitNames_cases hs with ⟨hblank, he⟩ | ⟨n, a, b, rfl, ha, hb, hn, he⟩
      · have hf := hjoin [] ⟨s, hblank⟩ noBlanks (List.forall_mem_nil _)
        simpa [noBlanks, joinNames, he] using hf
      · have hf := hjoin [n] ⟨a, ha⟩ ⟨b, hb⟩ (List.forall_mem_singleton.mpr hn)
        rw [he, ← hf, joinNames, String.intercalate_singleton]
    | cut s t ihs iht => rw [hcomma, splitNames_append, ihs, iht]

end ServerActions.Declaration
