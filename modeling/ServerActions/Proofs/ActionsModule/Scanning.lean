import ServerActions.ActionsModule
import ServerActions.Proofs.Declaration.Grammar
import ServerActions.Proofs.Declaration.Names

/-!
The import statements of a rendered module.  A scan finds its import lines and nothing else, and
what follows the last of them ends in the export statement.
-/

namespace ServerActions.ActionsModule

open Text Declaration

@[mk_iff]
structure Renderable (imports : List ImportBinding) (e : EntryPoints) : Prop where
  names_ne_nil : ∀ i ∈ imports, i.names ≠ []
  isName : ∀ i ∈ imports, ∀ n ∈ i.names, IsName n
  unquoted : ∀ i ∈ imports, '"' ∉ i.path.toList ∧ '\'' ∉ i.path.toList
  isName_entry : ∀ n ∈ e.names, IsName n

instance (imports : List ImportBinding) (e : EntryPoints) : Decidable (Renderable imports e) :=
  decidable_of_iff _ (renderable_iff imports e).symm

def dotted (i : ImportBinding) : ImportBinding :=
  ⟨i.names, "." ++ i.path⟩

def EndsInExport (s : List Char) (names : List String) : Prop :=
  ∃ gap body, s = gap ++ "export ".toList ++ braced body ++ ['\n'] ∧
    (∀ c ∈ gap, c = ';' ∨ c = '\n') ∧ splitNames body.val = names

def afterImports (directive content : String) : List Char :=
  content.toList.drop
    (((importPattern.occurrences content.toList).getLast?.map Occurrence.stop).getD
      (header directive).length)

theorem unread_of_head {t : List Char} (h : ∀ c ∈ t, c.toLower ≠ 'i') (s : List Char) :
    ∀ u, u ≠ [] → u <:+ t → importPattern.read (u ++ s) = none := by
  intro u hu ht
  apply read_eq_none_of_word
  intro w hw hp
  obtain ⟨c, u, rfl⟩ := List.exists_cons_of_ne_nil hu
  cases w with
  | nil => cases hw
  | cons d w =>
    obtain ⟨hd, -⟩ := List.cons.inj hw
    obtain ⟨rfl, -⟩ := List.cons_prefix_cons.mp hp
    exact h d (ht.mem List.mem_cons_self) hd

theorem unread_of_not_isInfix {t : List Char}
    (h : ¬ "import".toList <:+: t.map Char.toLower) (s : List Char) :
    ∀ u, u ≠ [] → u <:+ t → importPattern.read (u ++ '"' :: s) = none := by
  intro u _ ht
  apply read_eq_none_of_word
  intro w hw hp
  have hq : '"' ∉ w := Spelling.not_mem ⟨w, hw⟩ (by decide)
  have hu := prefix_of_not_mem hp hq
  apply h
  rw [← hw]
  exact (hu.isInfix.trans ht.isInfix).map _

def Sealed (s : List Char) : Prop :=
  ∀ pre post, s = pre ++ '}' :: post → ∀ c ∈ post, isBlank c = true

theorem Sealed.of_suffix {s u : List Char} (h : Sealed s) (hu : u <:+ s) : Sealed u := by
  obtain ⟨t, rfl⟩ := hu
  rintro pre post rfl
  exact h (t ++ pre) post (by simp)

theorem Sealed.read_eq_none {s : List Char} (h : Sealed s) : importPattern.read s = none := by
  apply Option.eq_none_iff_forall_ne_some.mpr
  rintro ⟨b, r⟩ hr
  obtain ⟨i, -, rfl⟩ := readImport_eq_some_iff.mp hr
  have hq : isBlank i.specifier.opening.val = true := by
    apply h (i.importWord.val ++ i.importGap.val ++ '{' :: i.body.val)
      (i.bodyGap.val ++ i.fromWord.val ++ i.fromGap.val ++ i.specifier.text ++ r)
    · simp [ImportStatement.text, braced]
    · simp [Specifier.text]
  rcases i.specifier.opening.property with ho | ho <;> rw [ho] at hq <;> cases hq

theorem sealed_of_not_mem {a b : List Char} (ha : '}' ∉ a) (hb : ∀ c ∈ b, isBlank c = true) :
    Sealed (a ++ '}' :: b) := by
  intro pre post he c hc
  apply hb
  rcases List.append_eq_append_iff.mp he with ⟨mid, rfl, hm⟩ | ⟨mid, rfl, hm⟩
  · cases mid with
    | nil =>
      rw [(List.cons.inj hm).2]
      exact hc
    | cons d mid =>
      rw [(List.cons.inj hm).2]
      exact List.mem_append_right mid (List.mem_cons_of_mem _ hc)
  · cases mid with
    | nil =>
      rw [← (List.cons.inj hm).2]
      exact hc
    | cons d mid =>
      rw [← (List.cons.inj hm).1] at ha
      exact absurd (by simp) ha

theorem brace_not_mem_joinNames {names : List String} (h : ∀ n ∈ names, IsName n) :
    '}' ∉ (joinNames names).toList := by
  induction names with
  | nil => simp [joinNames]
  | cons n names ih =>
    have hn := (h n List.mem_cons_self).no_brace
    cases names with
    | nil =>
      rw [joinNames, String.intercalate_singleton]
      exact hn
    | cons m names =>
      have ht := ih fun k hk => h k (List.mem_cons_of_mem n hk)
      rw [joinNames_cons_cons]
      simp [hn, ht]

def listBody (names : List String) (h : ∀ n ∈ names, IsName n) : Body :=
  ⟨' ' :: ((joinNames names).toList ++ [' ']), by simp, by simp [brace_not_mem_joinNames h]⟩

theorem splitNames_listBody {names : List String} (h : ∀ n ∈ names, IsName n) :
    splitNames (listBody names h).val = names :=
  splitNames_pad_joinNames (a := [' ']) (b := [' ']) (fun n hn => (h n hn).isItem)
    isBlank_of_mem_space isBlank_of_mem_space

def space : Gap :=
  ⟨[' '], List.cons_ne_nil _ _, isBlank_of_mem_space⟩

def lineStatement (i : ImportBinding) (hn : ∀ n ∈ i.names, IsName n)
    (hp : '"' ∉ i.path.toList ∧ '\'' ∉ i.path.toList) : ImportStatement where
  importWord := ⟨"import".toList, by decide⟩
  importGap := space
  body := listBody i.names hn
  bodyGap := space
  fromWord := ⟨"from".toList, by decide⟩
  fromGap := space
  specifier := ⟨⟨'"', .inl rfl⟩, ⟨'.' :: i.path.toList, by simp, by simp [hp]⟩, ⟨'"', .inl rfl⟩⟩

theorem lineStatement_text {i : ImportBinding} (hn : ∀ n ∈ i.names, IsName n)
    (hp : '"' ∉ i.path.toList ∧ '\'' ∉ i.path.toList) :
    (importLine i).toList = (lineStatement i hn hp).text ++ [';', '\n'] := by
  have ht : (lineStatement i hn hp).text =
      "import".toList ++ [' '] ++ braced (listBody i.names hn) ++ [' '] ++ "from".toList ++ [' '] ++
        '"' :: ('.' :: i.path.toList ++ ['"']) := rfl
  rw [ht]
  simp [importLine, listBody, braced]

theorem lineStatement_binding {i : ImportBinding} (hn : ∀ n ∈ i.names, IsName n)
    (hp : '"' ∉ i.path.toList ∧ '\'' ∉ i.path.toList) :
    (lineStatement i hn hp).binding = dotted i := by
  have hpath : String.ofList ('.' :: i.path.toList) = "." ++ i.path := by
    apply String.toList_inj.mp
    simp
  have hb : (lineStatement i hn hp).binding =
      ⟨splitNames (listBody i.names hn).val, String.ofList ('.' :: i.path.toList)⟩ := rfl
  rw [hb, splitNames_listBody, hpath, dotted]

theorem exportLine_text {e : EntryPoints} (h : ∀ n ∈ e.names, IsName n) :
    (exportLine e).toList = '\n' :: ("export ".toList ++ braced (listBody e.names h) ++ ['\n']) := by
  simp [exportLine, listBody, braced]

theorem header_text (directive : String) :
    (header directive).toList = ['"'] ++ (directive.toList ++ '"' :: ['\n', '\n']) := by
  simp [header]

theorem render_text (directive : String) (imports : List ImportBinding) (e : EntryPoints) :
    (render directive imports e).toList =
      (header directive).toList ++ (imports.flatMap (fun i => (importLine i).toList) ++
        (exportLine e).toList) := by
  simp [render, List.flatMap_map]

theorem Renderable.tail {i : ImportBinding} {imports : List ImportBinding} {e : EntryPoints}
    (h : Renderable (i :: imports) e) : Renderable imports e where
  names_ne_nil j hj := h.names_ne_nil j (List.mem_cons_of_mem i hj)
  isName j hj := h.isName j (List.mem_cons_of_mem i hj)
  unquoted j hj := h.unquoted j (List.mem_cons_of_mem i hj)
  isName_entry := h.isName_entry

theorem unread_of_gap {gap : List Char} (h : ∀ c ∈ gap, c = ';' ∨ c = '\n') (s : List Char) :
    ∀ u, u ≠ [] → u <:+ gap → importPattern.read (u ++ s) = none := by
  apply unread_of_head
  intro c hc
  rcases h c hc with rfl | rfl <;> decide

theorem occurrencesFrom_exportLine {e : EntryPoints} (h : ∀ n ∈ e.names, IsName n) (start : Nat) :
    importPattern.occurrencesFrom 0 start (exportLine e).toList = [] := by
  have hs : Sealed (exportLine e).toList := by
    have he : (exportLine e).toList =
        ('\n' :: ("export ".toList ++ '{' :: (listBody e.names h).val)) ++ '}' :: ['\n'] := by
      rw [exportLine_text h]
      simp [braced]
    rw [he]
    apply sealed_of_not_mem
    · simp [(listBody e.names h).property.2]
    · exact List.forall_mem_singleton.mpr rfl
  apply Pattern.occurrencesFrom_eq_nil
  intro u _ hu
  rw [List.append_nil]
  exact (hs.of_suffix hu).read_eq_none

theorem scan_lines {imports : List ImportBinding} {e : EntryPoints} (h : Renderable imports e)
    (start : Nat) {gap : List Char} (hgap : ∀ c ∈ gap, c = ';' ∨ c = '\n') :
    let s := gap ++ (imports.flatMap (fun i => (importLine i).toList) ++ (exportLine e).toList)
    let found := importPattern.occurrencesFrom 0 start s
    found.map Occurrence.value = imports.map dotted ∧
      ∃ k, (found.getLast?.map Occurrence.stop).getD start = start + k ∧
        EndsInExport (s.drop k) e.names := by
  intro s found
  -- the gap holds what the line before leaves, so that each line starts with its statement
  induction imports generalizing start gap with
  | nil =>
    have hfound : found = [] := by
      simp only [found, s, List.flatMap_nil, List.nil_append]
      rw [Pattern.occurrencesFrom_unread start (unread_of_gap hgap _)]
      exact occurrencesFrom_exportLine h.isName_entry _
    rw [hfound]
    refine ⟨rfl, 0, rfl, gap ++ ['\n'], listBody e.names h.isName_entry, ?_, ?_, ?_⟩
    · simp [s, exportLine_text h.isName_entry]
    · intro c hc
      rcases List.mem_append.mp hc with hc | hc
      · exact hgap c hc
      · exact .inr (List.mem_singleton.mp hc)
    · exact splitNames_listBody h.isName_entry
  | cons i imports ih =>
    have hn := h.isName i List.mem_cons_self
    have hp := h.unquoted i List.mem_cons_self
    let t := (lineStatement i hn hp).text
    let rest := [';', '\n'] ++
      (imports.flatMap (fun i => (importLine i).toList) ++ (exportLine e).toList)
    have hs : s = gap ++ (t ++ rest) := by
      simp only [s, t, rest, List.flatMap_cons, lineStatement_text hn hp, List.append_assoc]
    have hread : importPattern.read (t ++ rest) = some (dotted i, rest) :=
      readImport_eq_some_iff.mpr ⟨lineStatement i hn hp, lineStatement_binding hn hp, rfl⟩
    have hsep : ∀ c ∈ [';', '\n'], c = ';' ∨ c = '\n' := by simp
    obtain ⟨hv, k, hk, hend⟩ := ih h.tail (start + gap.length + t.length) hsep
    let first : Occurrence ImportBinding :=
      ⟨start + gap.length, start + gap.length + t.length, dotted i⟩
    have hfound : found =
        first :: importPattern.occurrencesFrom 0 (start + gap.length + t.length) rest := by
      simp only [found]
      rw [hs, Pattern.occurrencesFrom_unread start (unread_of_gap hgap _),
        Pattern.occurrencesFrom_found _ hread]
    refine ⟨?_, gap.length + t.length + k, ?_, ?_⟩
    · rw [hfound, List.map_cons, hv, List.map_cons]
    · rw [hfound, List.getLast?_cons, Option.map_some, Option.getD_some,
        ← Option.getD_map Occurrence.stop first]
      exact hk.trans (by omega)
    · have hdrop : s.drop (gap.length + t.length + k) = rest.drop k := by
        rw [hs, Nat.add_assoc, List.drop_length_add_append, List.drop_length_add_append]
      rw [hdrop]
      exact hend

theorem occurrencesFrom_header {directive : String}
    (hd : ¬ "import".toList <:+: directive.toList.map Char.toLower) (s : List Char) :
    importPattern.occurrencesFrom 0 0 ((header directive).toList ++ s) =
      importPattern.occurrencesFrom 0 (header directive).toList.length s := by
  have h₁ := Pattern.occurrencesFrom_unread 0 (unread_of_head (t := ['"']) (by simp)
    (directive.toList ++ '"' :: (['\n', '\n'] ++ s)))
  have h₂ := Pattern.occurrencesFrom_unread (0 + 1)
    (unread_of_not_isInfix hd (['\n', '\n'] ++ s))
  have h₃ := Pattern.occurrencesFrom_unread (0 + 1 + directive.toList.length)
    (unread_of_head (t := ['"', '\n', '\n']) (by simp) s)
  have hs : (header directive).toList ++ s =
      ['"'] ++ (directive.toList ++ '"' :: (['\n', '\n'] ++ s)) := by
    rw [header_text]
    simp
  have hl : (header directive).toList.length = 0 + 1 + directive.toList.length + 3 := by
    rw [header_text]
    simp
    omega
  rw [hs, hl]
  exact h₁.trans (h₂.trans h₃)

theorem scan_render {directive : String}
    (hd : ¬ "import".toList <:+: directive.toList.map Char.toLower)
    {imports : List ImportBinding} {e : EntryPoints} (h : Renderable imports e) :
    importsIn (render directive imports e) = imports.map dotted ∧
      EndsInExport (afterImports directive (render directive imports e)) e.names := by
  have hgap : ∀ c ∈ ([] : List Char), c = ';' ∨ c = '\n' := by simp
  obtain ⟨hv, k, hk, hend⟩ := scan_lines h (header directive).toList.length hgap
  have hfound : importPattern.occurrences (render directive imports e).toList =
      importPattern.occurrencesFrom 0 (header directive).toList.length
        (imports.flatMap (fun i => (importLine i).toList) ++ (exportLine e).toList) := by
    rw [render_text]
    exact occurrencesFrom_header hd _
  rw [List.nil_append] at hv hk hend
  constructor
  · rw [← hv, ← hfound]
    rfl
  · rw [afterImports, hfound, ← String.length_toList, hk, render_text, List.drop_length_add_append]
    exact hend

end ServerActions.ActionsModule
