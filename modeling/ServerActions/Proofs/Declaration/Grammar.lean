import ServerActions.Declaration.Statement
import ServerActions.Proofs.Text.Reading
import ServerActions.Proofs.Text.Scan

/-!
The two statements of a declaration file as grammars.  A statement is given by its parts and its
text is the parts one after the other; the readers recognize exactly these texts.
-/

namespace ServerActions.Declaration

open Text

abbrev Spelling (word : String) := {s : List Char // s.map Char.toLower = word.toList}

abbrev Blanks := {s : List Char // ∀ c ∈ s, isBlank c = true}

abbrev Gap := {s : List Char // s ≠ [] ∧ ∀ c ∈ s, isBlank c = true}

abbrev Body := {s : List Char // s ≠ [] ∧ '}' ∉ s}

abbrev QuoteMark := {c : Char // c = '"' ∨ c = '\''}

abbrev Unquoted := {s : List Char // s ≠ [] ∧ '"' ∉ s ∧ '\'' ∉ s}

@[ext]
structure Specifier where
  opening : QuoteMark
  path : Unquoted
  closing : QuoteMark

@[ext]
structure ImportStatement where
  importWord : Spelling "import"
  importGap : Gap
  body : Body
  bodyGap : Gap
  fromWord : Spelling "from"
  fromGap : Gap
  specifier : Specifier

@[ext]
structure FactoryCall where
  openGap : Blanks
  body : Body
  closeGap : Blanks

def braced (b : Body) : List Char :=
  '{' :: (b.val ++ ['}'])

def Specifier.text (q : Specifier) : List Char :=
  q.opening.val :: (q.path.val ++ [q.closing.val])

def ImportStatement.text (i : ImportStatement) : List Char :=
  i.importWord.val ++ i.importGap.val ++ braced i.body ++ i.bodyGap.val ++ i.fromWord.val ++
    i.fromGap.val ++ i.specifier.text

def ImportStatement.binding (i : ImportStatement) : ImportBinding :=
  ⟨splitNames i.body.val, String.ofList i.specifier.path.val⟩

def FactoryCall.text (factory : String) (c : FactoryCall) : List Char :=
  factory.toList ++ '(' :: (c.openGap.val ++ braced c.body ++ c.closeGap.val ++ [')'])

def FactoryCall.entryPoints (c : FactoryCall) : EntryPoints :=
  ⟨splitNames c.body.val⟩

theorem Spelling.not_mem {word : String} (w : Spelling word) {c : Char}
    (h : c.toLower ∉ word.toList) : c ∉ w.val := by
  intro hm
  rw [← w.property] at h
  exact h (List.mem_map_of_mem hm)

theorem Gap.not_mem (g : Gap) {c : Char} (h : isBlank c = false) : c ∉ g.val :=
  not_mem_of_isBlank g.property.2 h

def noBlanks : Blanks :=
  ⟨[], List.forall_mem_nil _⟩

theorem Blanks.not_mem (g : Blanks) {c : Char} (h : isBlank c = false) : c ∉ g.val :=
  not_mem_of_isBlank g.property h

def importGrammar : Grammar ImportBinding :=
  fun b t => ∃ i : ImportStatement, i.text = t ∧ i.binding = b

def callGrammar (factory : String) : Grammar EntryPoints :=
  fun e t => ∃ c : FactoryCall, c.text factory = t ∧ c.entryPoints = e

theorem toLower_eq_of_isBlank {c : Char} (h : isBlank c = true) : c.toLower = c := by
  apply dif_neg
  rintro ⟨h₁, h₂⟩
  have hl : 0x41 ≤ c.toNat := h₁
  have hu : c.toNat ≤ 0x5A := h₂
  simp only [isBlank, Bool.or_eq_true, Bool.and_eq_true, decide_eq_true_eq, beq_iff_eq] at h
  omega

theorem stops_fromWord (w : Spelling "from") (r : List Char) : Stops isBlank (w.val ++ r) := by
  obtain ⟨s, hs⟩ := w
  cases s with
  | nil => cases hs
  | cons c s =>
    apply stops_cons
    have hc : c.toLower = 'f' := (List.cons.inj hs).1
    apply Bool.eq_false_iff.mpr
    intro hb
    rw [toLower_eq_of_isBlank hb] at hc
    subst hc
    cases hb

theorem stops_braced (b : Body) (r : List Char) : Stops isBlank (braced b ++ r) :=
  stops_cons rfl

theorem isQuote_iff {c : Char} : isQuote c = true ↔ c = '"' ∨ c = '\'' := by
  simp [isQuote]

theorem stops_specifier (q : Specifier) (r : List Char) : Stops isBlank (q.text ++ r) := by
  apply stops_cons
  rcases q.opening.property with h | h <;> rw [h] <;> rfl

theorem Unquoted.isQuote_eq_false (p : Unquoted) : ∀ c ∈ p.val, isQuote c = false := by
  intro c hc
  apply Bool.eq_false_iff.mpr
  intro hq
  rcases isQuote_iff.mp hq with rfl | rfl
  · exact p.property.2.1 hc
  · exact p.property.2.2 hc

theorem readBraces_eq_some_iff {s b r : List Char} :
    readBraces s = some (b, r) ↔ ∃ body : Body, body.val = b ∧ s = braced body ++ r := by
  constructor
  · intro h
    obtain ⟨s', hs, hu⟩ := Option.bind_eq_some_iff.mp h
    obtain ⟨hb, hopen, c, hc, rfl⟩ := until_eq_some hu
    rw [afterExact_eq_some_iff.mp hs, eq_of_beq hc]
    have hn : '}' ∉ b := by
      intro hm
      have hf := hopen _ hm
      cases hf
    exact ⟨⟨b, hb, hn⟩, rfl, by simp [braced]⟩
  · rintro ⟨⟨b, hb, hn⟩, rfl, rfl⟩
    have he : braced ⟨b, hb, hn⟩ ++ r = ['{'] ++ (b ++ '}' :: r) := by simp [braced]
    rw [readBraces, afterExact_eq_some_iff.mpr he]
    apply until_append hb _ rfl
    intro c hc
    apply beq_eq_false_iff_ne.mpr
    rintro rfl
    exact hn hc

theorem readQuoted_eq_some_iff {s p r : List Char} :
    readQuoted s = some (p, r) ↔ ∃ q : Specifier, q.path.val = p ∧ s = q.text ++ r := by
  constructor
  · intro h
    cases s with
    | nil => cases h
    | cons c s =>
      rw [readQuoted] at h
      split at h
      next hc =>
        obtain ⟨hp, hopen, d, hd, rfl⟩ := until_eq_some h
        have hq : '"' ∉ p ∧ '\'' ∉ p := by
          constructor
          · intro hm
            cases hopen _ hm
          · intro hm
            cases hopen _ hm
        exact ⟨⟨⟨c, isQuote_iff.mp hc⟩, ⟨p, hp, hq⟩, ⟨d, isQuote_iff.mp hd⟩⟩, rfl,
          by simp [Specifier.text]⟩
      next => cases h
  · rintro ⟨q, rfl, rfl⟩
    have he : q.text ++ r = q.opening.val :: (q.path.val ++ q.closing.val :: r) := by
      simp [Specifier.text]
    rw [he, readQuoted, if_pos (isQuote_iff.mpr q.opening.property)]
    exact until_append q.path.property.1 q.path.isQuote_eq_false
      (isQuote_iff.mpr q.closing.property)

theorem afterBlanks_eq_some_of_gap (g : Gap) {r : List Char} (hr : Stops isBlank r) :
    afterBlanks? (g.val ++ r) = some r :=
  afterBlanks_append g.property.1 g.property.2 hr

theorem readImport_eq_some_iff {s r : List Char} {b : ImportBinding} :
    readImport s = some (b, r) ↔ ∃ i : ImportStatement, i.binding = b ∧ s = i.text ++ r := by
  constructor
  · intro h
    rw [readImport] at h
    obtain ⟨s₁, h₁, h⟩ := Option.bind_eq_some_iff.mp h
    obtain ⟨s₂, h₂, h⟩ := Option.bind_eq_some_iff.mp h
    obtain ⟨⟨b', s₃⟩, h₃, h⟩ := Option.bind_eq_some_iff.mp h
    obtain ⟨s₄, h₄, h⟩ := Option.bind_eq_some_iff.mp h
    obtain ⟨s₅, h₅, h⟩ := Option.bind_eq_some_iff.mp h
    obtain ⟨s₆, h₆, h⟩ := Option.bind_eq_some_iff.mp h
    obtain ⟨⟨p, s₇⟩, h₇, h⟩ := Option.bind_eq_some_iff.mp h
    obtain ⟨rfl, rfl⟩ := Prod.mk.inj (Option.some.inj h)
    obtain ⟨w₁, hw₁, rfl⟩ := afterLetters_eq_some_iff.mp h₁
    obtain ⟨g₁, hg₁, hb₁, rfl⟩ := afterBlanks_eq_some h₂
    obtain ⟨body, rfl, rfl⟩ := readBraces_eq_some_iff.mp h₃
    obtain ⟨g₂, hg₂, hb₂, rfl⟩ := afterBlanks_eq_some h₄
    obtain ⟨w₂, hw₂, rfl⟩ := afterLetters_eq_some_iff.mp h₅
    obtain ⟨g₃, hg₃, hb₃, rfl⟩ := afterBlanks_eq_some h₆
    obtain ⟨q, rfl, rfl⟩ := readQuoted_eq_some_iff.mp h₇
    exact ⟨⟨⟨w₁, hw₁⟩, ⟨g₁, hg₁, hb₁⟩, body, ⟨g₂, hg₂, hb₂⟩, ⟨w₂, hw₂⟩, ⟨g₃, hg₃, hb₃⟩, q⟩, rfl,
      by simp [ImportStatement.text]⟩
  · rintro ⟨⟨w₁, g₁, body, g₂, w₂, g₃, q⟩, rfl, rfl⟩
    simp only [ImportStatement.text, List.append_assoc, readImport, Option.bind_eq_bind]
    rw [afterLetters_eq_some_iff.mpr ⟨_, w₁.property, rfl⟩, Option.bind_some,
      afterBlanks_eq_some_of_gap g₁ (stops_braced _ _), Option.bind_some,
      readBraces_eq_some_iff.mpr ⟨body, rfl, rfl⟩, Option.bind_some,
      afterBlanks_eq_some_of_gap g₂ (stops_fromWord _ _), Option.bind_some,
      afterLetters_eq_some_iff.mpr ⟨_, w₂.property, rfl⟩, Option.bind_some,
      afterBlanks_eq_some_of_gap g₃ (stops_specifier _ _), Option.bind_some,
      readQuoted_eq_some_iff.mpr ⟨q, rfl, rfl⟩, Option.bind_some]
    rfl

theorem dropWhile_isBlank_append (g : Blanks) {r : List Char} (hr : Stops isBlank r) :
    (g.val ++ r).dropWhile isBlank = r := by
  rw [List.dropWhile_append_of_pos g.property, hr.dropWhile]

theorem exists_blanks (s : List Char) : ∃ g : Blanks, s = g.val ++ s.dropWhile isBlank :=
  ⟨⟨s.takeWhile isBlank, fun c hc => List.all_eq_true.mp List.all_takeWhile c hc⟩,
    List.takeWhile_append_dropWhile.symm⟩

theorem readCall_eq_some_iff {factory : String} {s r : List Char} {e : EntryPoints} :
    readCall factory.toList s = some (e, r) ↔
      ∃ c : FactoryCall, c.entryPoints = e ∧ s = c.text factory ++ r := by
  constructor
  · intro h
    rw [readCall] at h
    obtain ⟨s₁, h₁, h⟩ := Option.bind_eq_some_iff.mp h
    obtain ⟨s₂, h₂, h⟩ := Option.bind_eq_some_iff.mp h
    obtain ⟨⟨b, s₃⟩, h₃, h⟩ := Option.bind_eq_some_iff.mp h
    obtain ⟨s₄, h₄, h⟩ := Option.bind_eq_some_iff.mp h
    obtain ⟨rfl, rfl⟩ := Prod.mk.inj (Option.some.inj h)
    obtain rfl := afterExact_eq_some_iff.mp h₁
    obtain rfl := afterExact_eq_some_iff.mp h₂
    obtain ⟨body, rfl, hbody⟩ := readBraces_eq_some_iff.mp h₃
    obtain ⟨g₁, hg₁⟩ := exists_blanks s₂
    obtain ⟨g₂, hg₂⟩ := exists_blanks s₃
    refine ⟨⟨g₁, body, g₂⟩, rfl, ?_⟩
    rw [hg₁, hbody, hg₂, afterExact_eq_some_iff.mp h₄]
    simp [FactoryCall.text]
  · rintro ⟨⟨g₁, body, g₂⟩, rfl, rfl⟩
    have hclose : Stops isBlank ([')'] ++ r) := stops_cons rfl
    have he : FactoryCall.text factory ⟨g₁, body, g₂⟩ ++ r =
        factory.toList ++ (['('] ++ (g₁.val ++ (braced body ++ (g₂.val ++ ([')'] ++ r))))) := by
      simp [FactoryCall.text]
    rw [he]
    simp only [readCall, Option.bind_eq_bind]
    rw [afterExact_eq_some_iff.mpr rfl, Option.bind_some, afterExact_eq_some_iff.mpr rfl,
      Option.bind_some, dropWhile_isBlank_append g₁ (stops_braced _ _),
      readBraces_eq_some_iff.mpr ⟨body, rfl, rfl⟩, Option.bind_some,
      dropWhile_isBlank_append g₂ hclose, afterExact_eq_some_iff.mpr rfl, Option.bind_some]
    rfl

theorem importPattern_recognizes : importPattern.Recognizes importGrammar := by
  intro s b r
  rw [show importPattern.read = readImport from rfl, readImport_eq_some_iff]
  constructor
  · rintro ⟨i, hi, hs⟩
    exact ⟨i.text, hs, i, rfl, hi⟩
  · rintro ⟨t, hs, i, rfl, hi⟩
    exact ⟨i, hi, hs⟩

theorem callPattern_recognizes (factory : String) :
    (callPattern factory).Recognizes (callGrammar factory) := by
  intro s e r
  rw [show (callPattern factory).read = readCall factory.toList from rfl, readCall_eq_some_iff]
  constructor
  · rintro ⟨c, hc, hs⟩
    exact ⟨c.text factory, hs, c, rfl, hc⟩
  · rintro ⟨t, hs, c, rfl, hc⟩
    exact ⟨c, hc, hs⟩

theorem read_eq_none_of_word {s : List Char}
    (h : ∀ w, w.map Char.toLower = "import".toList → ¬ w <+: s) : importPattern.read s = none := by
  apply Option.eq_none_iff_forall_ne_some.mpr
  rintro ⟨b, r⟩ hr
  obtain ⟨i, -, rfl⟩ := readImport_eq_some_iff.mp hr
  apply h i.importWord.val i.importWord.property
  simp only [ImportStatement.text, List.append_assoc]
  exact List.prefix_append _ _

theorem braced_inj {b b' : Body} {r r' : List Char} (h : braced b ++ r = braced b' ++ r') :
    b = b' ∧ r = r' := by
  simp only [braced, List.cons_append, List.append_assoc, List.nil_append, List.cons.injEq,
    true_and] at h
  obtain ⟨hb, hr⟩ := cut_inj b.property.2 b'.property.2 h
  exact ⟨Subtype.ext hb, hr⟩

theorem specifier_inj {q q' : Specifier} {r r' : List Char} (h : q.text ++ r = q'.text ++ r') :
    q = q' ∧ r = r' := by
  have hopen (p : Unquoted) : ∀ c ∈ p.val, (!isQuote c) = true := by
    intro c hc
    rw [p.isQuote_eq_false c hc]
    rfl
  have hs (m : QuoteMark) (r : List Char) : Stops (!isQuote ·) (m.val :: r) := by
    apply stops_cons
    simp [isQuote_iff.mpr m.property]
  simp only [Specifier.text, List.cons_append, List.append_assoc, List.nil_append,
    List.cons.injEq] at h
  obtain ⟨ho, h⟩ := h
  obtain ⟨hp, h⟩ := span_inj (hopen q.path) (hopen q'.path) (hs q.closing r) (hs q'.closing r') h
  obtain ⟨hc, hr⟩ := List.cons.inj h
  exact ⟨Specifier.ext (Subtype.ext ho) (Subtype.ext hp) (Subtype.ext hc), hr⟩

theorem spelling_inj {word : String} {w w' : Spelling word} {r r' : List Char}
    (h : w.val ++ r = w'.val ++ r') : w = w' ∧ r = r' := by
  have hl : w.val.length = w'.val.length := by
    have hm := congrArg List.length (w.property.trans w'.property.symm)
    simpa using hm
  obtain ⟨hw, hr⟩ := List.append_inj h hl
  exact ⟨Subtype.ext hw, hr⟩

theorem gap_inj {g g' : Gap} {r r' : List Char} (hr : Stops isBlank r) (hr' : Stops isBlank r')
    (h : g.val ++ r = g'.val ++ r') : g = g' ∧ r = r' := by
  obtain ⟨hg, he⟩ := span_inj g.property.2 g'.property.2 hr hr' h
  exact ⟨Subtype.ext hg, he⟩

theorem ImportStatement.text_inj {i j : ImportStatement} {r r' : List Char}
    (h : i.text ++ r = j.text ++ r') : i = j := by
  simp only [ImportStatement.text, List.append_assoc] at h
  obtain ⟨h₁, h⟩ := spelling_inj h
  obtain ⟨h₂, h⟩ := gap_inj (stops_braced _ _) (stops_braced _ _) h
  obtain ⟨h₃, h⟩ := braced_inj h
  obtain ⟨h₄, h⟩ := gap_inj (stops_fromWord _ _) (stops_fromWord _ _) h
  obtain ⟨h₅, h⟩ := spelling_inj h
  obtain ⟨h₆, h⟩ := gap_inj (stops_specifier _ _) (stops_specifier _ _) h
  obtain ⟨h₇, -⟩ := specifier_inj h
  exact ImportStatement.ext h₁ h₂ h₃ h₄ h₅ h₆ h₇

end ServerActions.Declaration
