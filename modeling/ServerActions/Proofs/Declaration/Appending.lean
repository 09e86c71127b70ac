import Mathlib.Data.List.Basic
import ServerActions.Proofs.Declaration.Scanning

/-!
Text that is added at the end of a declaration file.  What it completes is no statement that another
one stands in, so all that has been found before is found again.  Main statement: `read_append`.
-/

namespace ServerActions

namespace Text

variable {α : Type} {p : Pattern α} {G : Grammar α}

/-- Where a text of the grammar stands in another one, both end together. -/
def Grammar.EndsTogether (G : Grammar α) : Prop :=
  ∀ a b x t y, G a (x ++ t ++ y) → G b t → y = []

namespace Pattern

theorem Recognizes.read_further (h : p.Recognizes G) {s r : List Char} {a : α}
    (hs : p.read s = some (a, r)) (d : List Char) : p.read (s ++ d) = some (a, r ++ d) := by
  obtain ⟨t, rfl, ht⟩ := (h _ _ _).mp hs
  rw [List.append_assoc]
  exact h.read ht (r ++ d)

theorem Recognizes.occurrencesFrom_unfinished (h : p.Recognizes G) (hG : G.EndsTogether)
    {s d r : List Char} {a : α} (hs : p.read s = none) (hd : p.read (s ++ d) = some (a, r))
    (start : Nat) : p.occurrencesFrom 0 start s = [] := by
  obtain ⟨w, hw, ha⟩ := (h _ _ _).mp hd
  obtain ⟨v, hv, rfl⟩ : ∃ v, v ≠ [] ∧ w = s ++ v := by
    rcases List.append_eq_append_iff.mp hw with ⟨v, rfl, -⟩ | ⟨v, rfl, -⟩
    · refine ⟨v, ?_, rfl⟩
      rintro rfl
      have hread := h.read ha []
      rw [List.append_nil, List.append_nil, hs] at hread
      cases hread
    · rw [h.read ha v] at hs
      cases hs
  -- an occurrence before it would end with it, and so not within the first text
  apply occurrencesFrom_eq_nil
  rintro u - ⟨x, rfl⟩
  apply Option.eq_none_iff_forall_ne_some.mpr
  rintro ⟨b, z⟩ hu
  obtain ⟨t, ht, hb⟩ := (h _ _ _).mp hu
  rw [List.append_nil] at ht
  subst ht
  have hend := hG a b x t (z ++ v) (by simpa using ha) hb
  exact hv (List.append_eq_nil_iff.mp hend).2

theorem Recognizes.occurrencesFrom_append_isPrefix (h : p.Recognizes G) (hG : G.EndsTogether)
    (s d : List Char) :
    ∀ start, p.occurrencesFrom 0 start s <+: p.occurrencesFrom 0 start (s ++ d) := by
  induction s using p.scan_induction with
  | nil =>
    intro start
    exact List.nil_prefix
  | skip c s hs ih =>
    intro start
    cases hd : p.read (c :: s ++ d) with
    | none =>
      rw [List.cons_append] at hd ⊢
      rw [occurrencesFrom_of_read_none hs, occurrencesFrom_of_read_none hd]
      exact ih (start + 1)
    | some found =>
      rw [h.occurrencesFrom_unfinished hG hs hd start]
      exact List.nil_prefix
  | found t r a _ hs ih =>
    intro start
    have hd := h.read_further hs d
    rw [List.append_assoc] at hd ⊢
    rw [occurrencesFrom_found start hs, occurrencesFrom_found start hd, List.prefix_cons_inj]
    exact ih (start + t.length)

theorem Recognizes.values_append_isPrefix (h : p.Recognizes G) (hG : G.EndsTogether)
    (s d : List Char) : p.values s <+: p.values (s ++ d) :=
  (h.occurrencesFrom_append_isPrefix hG s d 0).map Occurrence.value

end Pattern

theorem infix_of_cons_infix {c : Char} {w s u : List Char} (h : c :: w <:+: s ++ u) (hc : c ∉ s) :
    c :: w <:+: u := by
  rw [← List.reverse_infix, List.reverse_cons] at h ⊢
  rw [List.reverse_append] at h
  exact infix_of_not_mem h fun hm => hc (List.mem_reverse.mp hm)

end Text

namespace Declaration

open Text

def ImportStatement.opening (i : ImportStatement) : List Char :=
  i.importWord.val ++ i.importGap.val ++ '{' :: i.body.val

def ImportStatement.origin (i : ImportStatement) : List Char :=
  i.bodyGap.val ++ i.fromWord.val ++ i.fromGap.val ++ i.specifier.text

theorem ImportStatement.text_eq (i : ImportStatement) : i.text = i.opening ++ '}' :: i.origin := by
  simp [text, opening, origin, braced]

theorem ImportStatement.brace_not_mem_opening (i : ImportStatement) : '}' ∉ i.opening := by
  simp [opening, i.importWord.not_mem (c := '}') (by decide), i.importGap.not_mem (c := '}') rfl,
    i.body.property.2]

theorem ImportStatement.origin_inj {i j : ImportStatement} {r r' : List Char}
    (h : i.origin ++ r = j.origin ++ r') : r = r' := by
  simp only [origin, List.append_assoc] at h
  obtain ⟨-, h⟩ := gap_inj (stops_fromWord _ _) (stops_fromWord _ _) h
  obtain ⟨-, h⟩ := spelling_inj h
  obtain ⟨-, h⟩ := gap_inj (stops_specifier _ _) (stops_specifier _ _) h
  exact (specifier_inj h).2

theorem QuoteMark.isQuote (m : QuoteMark) : isQuote m.val = true :=
  isQuote_iff.mpr m.property

theorem Unquoted.countP_isQuote (p : Unquoted) : p.val.countP isQuote = 0 := by
  apply List.countP_eq_zero.mpr
  intro c hc
  rw [p.isQuote_eq_false c hc]
  exact Bool.false_ne_true

theorem ImportStatement.not_isInfix_origin (i j : ImportStatement) : ¬ j.text <:+: i.origin := by
  intro h
  let before := i.bodyGap.val ++ i.fromWord.val ++ i.fromGap.val ++ [i.specifier.opening.val]
  let after := i.specifier.path.val ++ [i.specifier.closing.val]
  have horigin : i.origin = before ++ after := by
    simp [before, after, origin, Specifier.text]
  have hbefore : '{' ∉ before := by
    have hopening : '{' ≠ i.specifier.opening.val := by
      rcases i.specifier.opening.property with ho | ho <;> simp [ho]
    simp [before, i.bodyGap.not_mem (c := '{') rfl, i.fromWord.not_mem (c := '{') (by decide),
      i.fromGap.not_mem (c := '{') rfl, hopening]
  have hbraces : '{' :: (j.body.val ++ '}' :: j.origin) <:+: j.text := by
    refine ⟨j.importWord.val ++ j.importGap.val, [], ?_⟩
    simp [text_eq, opening]
  have hspecifier : j.specifier.text <:+: '{' :: (j.body.val ++ '}' :: j.origin) := by
    refine ⟨'{' :: (j.body.val ++ '}' :: (j.bodyGap.val ++ j.fromWord.val ++ j.fromGap.val)), [],
      ?_⟩
    simp [origin]
  rw [horigin] at h
  -- the opening brace can only be in the path, with one quote behind it where two are needed
  have hinside := infix_of_cons_infix (hbraces.trans h) hbefore
  have hcount := (hspecifier.trans hinside).sublist.countP_le (p := isQuote)
  simp [after, Specifier.text, List.countP_append, Unquoted.countP_isQuote,
    QuoteMark.isQuote] at hcount

theorem importGrammar_endsTogether : importGrammar.EndsTogether := by
  rintro a b x t y ⟨i, hi, -⟩ ⟨j, rfl, -⟩
  rw [i.text_eq] at hi
  by_cases hx : '}' ∈ x
  · obtain ⟨u, v, rfl, hu⟩ := List.eq_append_cons_of_mem hx
    have htext : i.opening ++ '}' :: i.origin = u ++ '}' :: (v ++ j.text ++ y) := by simpa using hi
    obtain ⟨-, hv⟩ := cut_inj i.brace_not_mem_opening hu htext
    exact absurd ⟨v, y, hv.symm⟩ (i.not_isInfix_origin j)
  · have htext : i.opening ++ '}' :: i.origin = x ++ j.opening ++ '}' :: (j.origin ++ y) := by
      simpa [j.text_eq] using hi
    have hbefore : '}' ∉ x ++ j.opening := by
      simp [hx, j.brace_not_mem_opening]
    obtain ⟨-, horigin⟩ := cut_inj i.brace_not_mem_opening hbefore htext
    rw [← List.append_nil i.origin] at horigin
    exact (ImportStatement.origin_inj horigin).symm

def FactoryCall.opening (c : FactoryCall) : List Char :=
  c.openGap.val ++ '{' :: c.body.val

def FactoryCall.closing (c : FactoryCall) : List Char :=
  c.closeGap.val ++ [')']

theorem FactoryCall.text_eq (factory : String) (c : FactoryCall) :
    c.text factory = factory.toList ++ '(' :: (c.opening ++ '}' :: c.closing) := by
  simp [text, opening, closing, braced]

theorem FactoryCall.brace_not_mem (c : FactoryCall) : '}' ∉ c.opening ∧ '}' ∉ c.closing := by
  simp [opening, closing, c.openGap.not_mem (c := '}') rfl, c.closeGap.not_mem (c := '}') rfl,
    c.body.property.2]

theorem FactoryCall.closing_inj {c c' : FactoryCall} {y : List Char}
    (h : c.closing = c'.closing ++ y) : y = [] := by
  have hstop (r : List Char) : Stops isBlank (')' :: r) := stops_cons rfl
  have hc : c.closeGap.val ++ ')' :: [] = c'.closeGap.val ++ ')' :: y := by
    simpa [closing] using h
  obtain ⟨-, hr⟩ := span_inj c.closeGap.property c'.closeGap.property (hstop _) (hstop y) hc
  exact (List.cons.inj hr).2.symm

theorem callGrammar_endsTogether (factory : String) : (callGrammar factory).EndsTogether := by
  rintro a b x t y ⟨c, hc, -⟩ ⟨c', rfl, -⟩
  -- both calls have the factory in front, so what follows the parenthesis of one ends the other
  have hsuffix : c'.opening ++ '}' :: (c'.closing ++ y) <:+ c.text factory := by
    refine ⟨x ++ (factory.toList ++ ['(']), ?_⟩
    rw [hc]
    simp [c'.text_eq]
  have hrest : c.opening ++ '}' :: c.closing <:+ c.text factory := by
    refine ⟨factory.toList ++ ['('], ?_⟩
    simp [c.text_eq]
  have hlength := congrArg List.length hc
  obtain ⟨w, hw⟩ := List.suffix_of_suffix_length_le hsuffix hrest (by
    simp only [FactoryCall.text_eq, List.length_append, List.length_cons] at hlength ⊢
    omega)
  have htext : c.opening ++ '}' :: c.closing = w ++ c'.opening ++ '}' :: (c'.closing ++ y) := by
    simpa using hw.symm
  obtain ⟨-, -, hclosing⟩ :=
    (List.append_cons_inj_of_notMem c.brace_not_mem.1 c.brace_not_mem.2).mp htext
  exact FactoryCall.closing_inj hclosing

/-- Text behind a file never changes what is found in it: bindings and calls stay in front, and a
declaration keeps its entry points. -/
theorem read_append (factory content more : String) :
    importsIn content <+: importsIn (content ++ more) ∧
    callsIn factory content <+: callsIn factory (content ++ more) ∧
    ∀ d, read? factory content = some d → ∃ d', read? factory (content ++ more) = some d' ∧
      d'.entryPoints = d.entryPoints ∧ d.imports <+: d'.imports ∧ d.extraCalls ≤ d'.extraCalls := by
  have himports : importsIn content <+: importsIn (content ++ more) := by
    rw [importsIn, importsIn, String.toList_append]
    exact importPattern_recognizes.values_append_isPrefix importGrammar_endsTogether _ _
  have hcalls : callsIn factory content <+: callsIn factory (content ++ more) := by
    rw [callsIn, callsIn, String.toList_append]
    exact (callPattern_recognizes factory).values_append_isPrefix
      (callGrammar_endsTogether factory) _ _
  refine ⟨himports, hcalls, fun d hd => ?_⟩
  obtain ⟨calls, hc, hn, hi⟩ := read_eq_some_iff.mp hd
  rw [hc] at hcalls
  obtain ⟨others, hothers⟩ := hcalls
  refine ⟨⟨importsIn (content ++ more), d.entryPoints, (calls ++ others).length⟩, ?_, rfl, ?_, ?_⟩
  · exact read_eq_some_iff.mpr ⟨calls ++ others, hothers.symm, rfl, rfl⟩
  · rw [hi]
    exact himports
  · rw [hn, List.length_append]
    exact Nat.le_add_right _ _

theorem read_append_unfinished :
    let content :=
      "import \x7b a \x7d from './x'; f(\x7b a \x7d); f(\x7b b \x7d); f(\x7b import \x7b b"
    let more := " \x7d from './y'; f(\x7b c \x7d)"
    read? "f" content = some ⟨[⟨["a"], "./x"⟩], ⟨["a"]⟩, 1⟩ ∧
      read? "f" (content ++ more) = some ⟨[⟨["a"], "./x"⟩, ⟨["b"], "./y"⟩], ⟨["a"]⟩, 2⟩ ∧
      ∃ d, read? "f" (content ++ more) = some d ∧ d.entryPoints = ⟨["a"]⟩ ∧
        [⟨["a"], "./x"⟩] <+: d.imports ∧ 1 ≤ d.extraCalls := by
  intro content more
  have hread : read? "f" content = some ⟨[⟨["a"], "./x"⟩], ⟨["a"]⟩, 1⟩ := by decide +kernel
  have hmore : read? "f" (content ++ more) =
      some ⟨[⟨["a"], "./x"⟩, ⟨["b"], "./y"⟩], ⟨["a"]⟩, 2⟩ := by
    decide +kernel
  obtain ⟨-, -, hstays⟩ := read_append "f" content more
  exact ⟨hread, hmore, hstays _ hread⟩

end Declaration

end ServerActions
