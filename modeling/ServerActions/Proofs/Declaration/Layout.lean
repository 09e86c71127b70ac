import ServerActions.Proofs.Declaration.Names
import ServerActions.Proofs.Declaration.Scanning

namespace ServerActions.Declaration

open Text

structure Filler (factory : String) (s : List Char) : Prop where
  no_import : ¬ "import".toList <:+: s.map Char.toLower
  no_factory : ¬ factory.toList <:+: s

/-- A text that makes some bindings and some calls, each in this order.  From names and paths only
the marks are kept out with which a statement of the other kind opens. -/
inductive Layout (factory : String) : List ImportBinding → List EntryPoints → List Char → Prop
  | filler {f : List Char} : Filler factory f → Layout factory [] [] f
  | imported {f s : List Char} {names : List String} {bindings : List ImportBinding}
    {calls : List EntryPoints} (i : ImportStatement) : Filler factory f →
    Lists names i.body.val → (∀ n ∈ names, '(' ∉ n.toList) → '(' ∉ i.specifier.path.val →
    Layout factory bindings calls s →
    Layout factory (⟨names, String.ofList i.specifier.path.val⟩ :: bindings) calls
      (f ++ i.text ++ s)
  | called {f s : List Char} {names : List String} {bindings : List ImportBinding}
    {calls : List EntryPoints} (c : FactoryCall) : Filler factory f →
    Lists names c.body.val → (∀ n ∈ names, '{' ∉ n.toList) →
    Layout factory bindings calls s →
    Layout factory bindings (⟨names⟩ :: calls) (f ++ c.text factory ++ s)

structure IsFactory (factory : String) : Prop where
  unquoted : '"' ∉ factory.toList ∧ '\'' ∉ factory.toList
  no_parenthesis : '(' ∉ factory.toList
  no_brace : '{' ∉ factory.toList

variable {factory : String} {f s : List Char}

theorem opening_of_readImport {r : List Char} {b : ImportBinding}
    (h : importPattern.read s = some (b, r)) :
    ∃ (w : Spelling "import") (g : Gap), w.val ++ g.val ++ ['{'] <+: s := by
  obtain ⟨i, -, rfl⟩ := readImport_eq_some_iff.mp h
  exact ⟨i.importWord, i.importGap, by simp [ImportStatement.text, braced]⟩

theorem opening_of_readCall {r : List Char} {e : EntryPoints}
    (h : (callPattern factory).read s = some (e, r)) : factory.toList ++ ['('] <+: s := by
  obtain ⟨c, -, rfl⟩ := readCall_eq_some_iff.mp h
  exact ⟨_, by simp [FactoryCall.text]; rfl⟩

theorem Filler.no_import_of_isInfix (hf : Filler factory f) (w : Spelling "import") :
    ¬ w.val <:+: f := by
  intro h
  apply hf.no_import
  rw [← w.property]
  exact h.map _

theorem Filler.unread_import (hf : Filler factory f) (hs : ∀ c ∈ s.head?, c.toLower = 'i') :
    ∀ u, u ≠ [] → u <:+ f → importPattern.read (u ++ s) = none := by
  intro u hu hsuffix
  apply read_eq_none_of_word
  rintro w hw ⟨t, ht⟩
  have hinside : ¬ w <:+: u := fun h =>
    hf.no_import_of_isInfix ⟨w, hw⟩ (h.trans hsuffix.isInfix)
  rcases List.append_eq_append_iff.mp ht with ⟨v, rfl, -⟩ | ⟨v, rfl, rfl⟩
  · exact hinside (List.infix_append [] w v)
  · cases v with
    | nil => exact hinside (by simp)
    | cons c v =>
      -- the keyword would go on behind the filler, but has no second `i`
      obtain ⟨d, u, rfl⟩ := List.exists_cons_of_ne_nil hu
      have htail : (u ++ c :: v).map Char.toLower = "mport".toList := (List.cons.inj hw).2
      have hc : c.toLower ∈ "mport".toList := by
        rw [← htail]
        exact List.mem_map_of_mem (by simp)
      rw [hs c rfl] at hc
      revert hc
      decide

theorem Filler.unread_import_call (hf : Filler factory f) (hfactory : IsFactory factory)
    (c : FactoryCall) (hc : '{' ∉ c.body.val) :
    ∀ u, u ≠ [] → u <:+ f ++ c.text factory → importPattern.read (u ++ s) = none := by
  intro u hu hsuffix
  apply Option.eq_none_iff_forall_ne_some.mpr
  rintro ⟨b, r⟩ hr
  obtain ⟨w, g, hp⟩ := opening_of_readImport hr
  let before := factory.toList ++ '(' :: c.openGap.val
  let after := c.body.val ++ '}' :: c.closeGap.val
  have htext : f ++ c.text factory = f ++ before ++ ['{'] ++ after ++ [')'] := by
    simp [before, after, FactoryCall.text, braced]
  have hopening : '(' ∉ w.val ++ g.val ∧ ')' ∉ w.val ++ g.val ++ ['{'] := by
    simp [w.not_mem (c := '(') (by decide), w.not_mem (c := ')') (by decide),
      g.not_mem (c := '(') rfl, g.not_mem (c := ')') rfl]
  have hbefore : '{' ∉ before := by
    simp [before, hfactory.no_brace, c.openGap.not_mem (c := '{') rfl]
  have hafter : '{' ∉ after := by
    simp [after, hc, c.closeGap.not_mem (c := '{') rfl]
  rw [htext] at hsuffix
  have hinfix := infix_of_suffix_concat hp hu hsuffix hopening.2
  rcases List.infix_concat_iff.mp (infix_of_not_mem hinfix hafter) with h | h
  · -- before the brace of a call there is only white space, up to its parenthesis
    have hgap : w.val ++ g.val <:+ c.openGap.val := by
      obtain ⟨t, ht⟩ := h
      apply suffix_of_not_mem (s := f ++ factory.toList) (c := '(') _ hopening.1
      exact ⟨t, List.append_cancel_right (by simpa [before] using ht)⟩
    obtain ⟨d, hd, hi⟩ : ∃ d ∈ w.val, d.toLower = 'i' := by
      apply List.mem_map.mp
      rw [w.property]
      decide
    have hblank := c.openGap.property d (hgap.mem (List.mem_append_left _ hd))
    rw [← toLower_eq_of_isBlank hblank, hi] at hblank
    cases hblank
  · have hword : w.val <:+: w.val ++ g.val ++ ['{'] := ⟨[], g.val ++ ['{'], by simp⟩
    exact hf.no_import_of_isInfix w (hword.trans (infix_of_not_mem h hbefore))

theorem Filler.unread_call_import (hf : Filler factory f) (hfactory : IsFactory factory)
    (i : ImportStatement) (hbody : '(' ∉ i.body.val) (hpath : '(' ∉ i.specifier.path.val) :
    ∀ u, u ≠ [] → u <:+ f ++ i.text → (callPattern factory).read (u ++ s) = none := by
  intro u hu hsuffix
  apply Option.eq_none_iff_forall_ne_some.mpr
  rintro ⟨e, r⟩ hr
  have hp := opening_of_readCall hr
  let before := i.importWord.val ++ i.importGap.val ++ braced i.body ++ i.bodyGap.val ++
    i.fromWord.val ++ i.fromGap.val ++ i.specifier.opening.val :: i.specifier.path.val
  have htext : f ++ i.text = f ++ before ++ [i.specifier.closing.val] := by
    simp [before, ImportStatement.text, Specifier.text]
  have hbefore : '(' ∉ before := by
    have hopening : '(' ≠ i.specifier.opening.val := by
      rcases i.specifier.opening.property with h | h <;> simp [h]
    simp [before, braced, hbody, hpath, hopening, i.importWord.not_mem (c := '(') (by decide),
      i.importGap.not_mem (c := '(') rfl, i.bodyGap.not_mem (c := '(') rfl,
      i.fromWord.not_mem (c := '(') (by decide), i.fromGap.not_mem (c := '(') rfl]
  have hquote : i.specifier.closing.val ∉ factory.toList ++ ['('] := by
    rcases i.specifier.closing.property with h | h
    · simp [h, hfactory.unquoted.1]
    · simp [h, hfactory.unquoted.2]
  rw [htext] at hsuffix
  have hfiller := infix_of_not_mem (infix_of_suffix_concat hp hu hsuffix hquote) hbefore
  exact hf.no_factory ((List.prefix_append _ _).isInfix.trans hfiller)

theorem Filler.unread_call (hf : Filler factory f) (hfactory : IsFactory factory)
    (hs : s = [] ∨ factory.toList ++ ['('] <+: s) :
    ∀ u, u ≠ [] → u <:+ f → (callPattern factory).read (u ++ s) = none := by
  intro u hu hsuffix
  apply Option.eq_none_iff_forall_ne_some.mpr
  rintro ⟨e, r⟩ hr
  have hinside (t : List Char) : u ≠ factory.toList ++ ['('] ++ t := by
    rintro rfl
    exact hf.no_factory (List.IsInfix.trans ⟨[], ['('] ++ t, by simp⟩ hsuffix.isInfix)
  obtain ⟨t, ht⟩ := opening_of_readCall hr
  rcases List.append_eq_append_iff.mp ht with ⟨v, hv, -⟩ | ⟨v, hv, rfl⟩
  · exact hinside v hv
  rcases List.eq_nil_or_concat v with rfl | ⟨v, d, rfl⟩
  · exact hinside [] (by simpa using hv.symm)
  rw [List.concat_eq_append, ← List.append_assoc] at hv
  obtain ⟨hword, hd⟩ := List.append_inj' hv rfl
  obtain rfl := List.singleton_inj.mp hd
  rcases hs with hs | ⟨z, hs⟩
  · simp at hs
  · -- both calls have the first parenthesis right behind the factory
    have hopen : '(' ∉ v := by
      intro hc
      apply hfactory.no_parenthesis
      rw [hword]
      exact List.mem_append_right u hc
    have hcalls : factory.toList ++ '(' :: z = v ++ '(' :: t := by simpa using hs
    obtain ⟨rfl, -⟩ := cut_inj hfactory.no_parenthesis hopen hcalls
    exact hu (List.self_eq_append_left.mp hword)

theorem Layout.imports {bindings : List ImportBinding} {calls : List EntryPoints}
    (hfactory : IsFactory factory) (h : Layout factory bindings calls s) (start : Nat) :
    (importPattern.occurrencesFrom 0 start s).map Occurrence.value = bindings := by
  induction h generalizing start with
  | filler hf =>
    rw [Pattern.occurrencesFrom_eq_nil start (hf.unread_import (by simp)), List.map_nil]
  | @imported f s names bindings calls i hf hl hnames hpath _ ih =>
    have hread : importPattern.read (i.text ++ s) = some (i.binding, s) :=
      readImport_eq_some_iff.mpr ⟨i, rfl, rfl⟩
    have hhead : ∀ c ∈ (i.text ++ s).head?, c.toLower = 'i' := by
      intro c hc
      have hlower : ((i.text ++ s).map Char.toLower).head? = some 'i' := by
        simp [ImportStatement.text, i.importWord.property]
      rw [List.head?_map, Option.mem_def.mp hc] at hlower
      exact Option.some.inj hlower
    rw [List.append_assoc, Pattern.occurrencesFrom_unread start (hf.unread_import hhead),
      Pattern.occurrencesFrom_found _ hread, List.map_cons, ih, ImportStatement.binding,
      hl.splitNames]
  | called c hf hl hnames _ ih =>
    have hbody : '{' ∉ c.body.val := hl.not_mem rfl (by decide) hnames
    rw [Pattern.occurrencesFrom_unread start (hf.unread_import_call hfactory c hbody), ih]

theorem Layout.calls {bindings : List ImportBinding} {calls : List EntryPoints}
    (hfactory : IsFactory factory) (h : Layout factory bindings calls s) (start : Nat) :
    ((callPattern factory).occurrencesFrom 0 start s).map Occurrence.value = calls := by
  induction h generalizing start with
  | filler hf =>
    rw [Pattern.occurrencesFrom_eq_nil start (hf.unread_call hfactory (.inl rfl)), List.map_nil]
  | imported i hf hl hnames hpath _ ih =>
    have hbody : '(' ∉ i.body.val := hl.not_mem rfl (by decide) hnames
    rw [Pattern.occurrencesFrom_unread start (hf.unread_call_import hfactory i hbody hpath), ih]
  | @called f s names bindings calls c hf hl hnames _ ih =>
    have hread : (callPattern factory).read (c.text factory ++ s) = some (c.entryPoints, s) :=
      readCall_eq_some_iff.mpr ⟨c, rfl, rfl⟩
    have hopening : factory.toList ++ ['('] <+: c.text factory ++ s := by
      simp [FactoryCall.text]
    rw [List.append_assoc,
      Pattern.occurrencesFrom_unread start (hf.unread_call hfactory (.inr hopening)),
      Pattern.occurrencesFrom_found _ hread, List.map_cons, ih, FactoryCall.entryPoints,
      hl.splitNames]

theorem read_layout {content : String} {bindings : List ImportBinding} {first : EntryPoints}
    {others : List EntryPoints} (hfactory : IsFactory factory)
    (h : Layout factory bindings (first :: others) content.toList) :
    read? factory content = some ⟨bindings, first, others.length⟩ :=
  read_eq_some_iff.mpr ⟨others, h.calls hfactory 0, rfl, (h.imports hfactory 0).symm⟩

def loosely : String :=
  "// \x7b 'imp\nIMPORT\t\x7b a,,\x7d\n\nFrom 'y'; \"ort \x7d createT(\ncreateTroute( \x7b,a\x7d\t);"

def tightly : String :=
  "createTroute(\x7ba\x7d)import \x7ba\x7d from \"y\""

theorem layout_loosely : Layout "createTroute" [⟨["a"], "y"⟩] [⟨["a"]⟩] loosely.toList := by
  have ha : IsName "a" := by decide
  have hnone : ∀ c ∈ ([] : List Char), isBlank c = true := by simp
  let i : ImportStatement :=
    { importWord := ⟨"IMPORT".toList, by decide⟩
      importGap := ⟨['\t'], by simp [isBlank]⟩
      body := ⟨" a,,".toList, by decide⟩
      bodyGap := ⟨['\n', '\n'], by simp [isBlank]⟩
      fromWord := ⟨"From".toList, by decide⟩
      fromGap := ⟨[' '], by simp [isBlank]⟩
      specifier := ⟨⟨'\'', .inr rfl⟩, ⟨['y'], by decide⟩, ⟨'\'', .inr rfl⟩⟩ }
  let c : FactoryCall :=
    { openGap := ⟨[' '], isBlank_of_mem_space⟩
      body := ⟨",a".toList, by decide⟩
      closeGap := ⟨['\t'], by simp [isBlank]⟩ }
  have hi : Lists ["a"] i.body.val :=
    .comma (.name ha isBlank_of_mem_space hnone) (.comma (.blank hnone) (.blank hnone))
  have hc : Lists ["a"] c.body.val := .comma (.blank hnone) (.name ha hnone hnone)
  have hopening : Filler "createTroute" "// \x7b 'imp\n".toList := by
    constructor <;> decide +kernel
  have hbetween : Filler "createTroute" "; \"ort \x7d createT(\n".toList := by
    constructor <;> decide +kernel
  have hend : Filler "createTroute" [';'] := by
    constructor <;> decide +kernel
  have hcall := Layout.called c hbetween hc (by decide) (.filler hend)
  have hsplit : loosely.toList = "// \x7b 'imp\n".toList ++ i.text ++
      ("; \"ort \x7d createT(\n".toList ++ c.text "createTroute" ++ [';']) := by
    decide +kernel
  rw [hsplit]
  exact .imported i hopening hi (by decide) (by decide) hcall

theorem layout_tightly : Layout "createTroute" [⟨["a"], "y"⟩] [⟨["a"]⟩] tightly.toList := by
  have ha : IsName "a" := by decide
  have hnone : ∀ c ∈ ([] : List Char), isBlank c = true := by simp
  let i : ImportStatement :=
    { importWord := ⟨"import".toList, by decide⟩
      importGap := ⟨[' '], by simp [isBlank]⟩
      body := ⟨['a'], by decide⟩
      bodyGap := ⟨[' '], by simp [isBlank]⟩
      fromWord := ⟨"from".toList, by decide⟩
      fromGap := ⟨[' '], by simp [isBlank]⟩
      specifier := ⟨⟨'"', .inl rfl⟩, ⟨['y'], by decide⟩, ⟨'"', .inl rfl⟩⟩ }
  let c : FactoryCall := ⟨⟨[], by simp⟩, ⟨['a'], by decide⟩, ⟨[], by simp⟩⟩
  have hlist : Lists ["a"] ['a'] := .name ha hnone hnone
  have hfiller : Filler "createTroute" [] := by
    constructor <;> decide +kernel
  have himport := Layout.imported i hfiller hlist (by decide) (by decide) (.filler hfiller)
  have hsplit : tightly.toList = [] ++ c.text "createTroute" ++ ([] ++ i.text ++ []) := by
    decide +kernel
  rw [hsplit]
  exact .called c hfiller hlist (by decide) himport

end ServerActions.Declaration
