import ServerActions.Proofs.Settings.Overriding
import ServerActions.Proofs.Toml.Places

namespace ServerActions

open Toml

namespace Field

inductive Accepts : Field → Content → Prop
  | text {f : Field} {value : String} (other : f ≠ .strict) : Accepts f (.scalar (.text value))
  | boolean {value : Bool} : Accepts .strict (.scalar (.boolean value))

def wanted (f : Field) : Wanted :=
  if f = .strict then .boolean else .text

end Field

def Toml.KeyLine.WellTyped (l : KeyLine) : Prop :=
  ∀ f : Field, l.key = f.name → f.Accepts l.content

/-- The first of some lines that is a setting with a value it cannot have. -/
inductive FirstMisfit : List KeyLine → KeyLine → Field → Prop
  | here {l : KeyLine} {f : Field} {more : List KeyLine} (name : l.key = f.name)
      (misfit : ¬ f.Accepts l.content) : FirstMisfit (l :: more) l f
  | later {g l : KeyLine} {f : Field} {more : List KeyLine} (typed : g.WellTyped)
      (rest : FirstMisfit more l f) : FirstMisfit (g :: more) l f

theorem FirstMisfit.not_wellTyped {lines : List KeyLine} {l : KeyLine} {f : Field}
    (h : FirstMisfit lines l f) : ¬ ∀ l ∈ lines, l.WellTyped := by
  induction h with
  | here name misfit => exact fun typed => misfit (typed _ List.mem_cons_self _ name)
  | later _ _ ih => exact fun typed => ih fun l hl => typed l (List.mem_cons_of_mem _ hl)

namespace Settings

variable {s : Settings} {key : Span} {f : Field} {v : Node}

theorem setField_of_accepts (h : f.Accepts v.content) :
    ∃ s', s.setField key f.name v = .ok s' := by
  cases v with
  | scalar span value =>
    cases h with
    | text other => cases f <;> first | exact ⟨_, rfl⟩ | exact absurd rfl other
    | boolean => exact ⟨_, rfl⟩
  | _ => cases h

theorem setField_of_not_accepts (h : ¬ f.Accepts v.content) :
    s.setField key f.name v = .error (.ofNode key v f.wanted) := by
  have htext (hf : f ≠ .strict) : readTextValue key v = .error (.ofNode key v .text) := by
    unfold readTextValue
    split
    · exact absurd (.text hf) h
    · rfl
  have hboolean (hf : f = .strict) : readBoolean key v = .error (.ofNode key v .boolean) := by
    subst hf
    unfold readBoolean
    split
    · exact absurd .boolean h
    · rfl
  cases f with
  | strict =>
    show (do return { s with strict := ← readBoolean key v } : Except Mismatch Settings) = _
    rw [hboolean rfl]
    rfl
  | _ =>
    simp only [setField, Field.name, htext (by decide)]
    rfl

section Lines

variable {document : List Char} {l : KeyLine} {field : Key × Node}

theorem setField_typed (h : ShowsLine document l field) (typed : l.WellTyped) (s : Settings) :
    ∃ s', s.setField field.1.span field.1.name field.2 = .ok s' := by
  by_cases hknown : ∃ f : Field, field.1.name = f.name
  · obtain ⟨f, hf⟩ := hknown
    rw [hf]
    apply setField_of_accepts
    rw [h.content]
    exact typed f (h.name.symm.trans hf)
  · exact ⟨s, setField_other s _ (fun f hf => hknown ⟨f, hf⟩) _⟩

theorem setField_misfit (h : ShowsLine document l field) (name : l.key = f.name)
    (misfit : ¬ f.Accepts l.content) (s : Settings) :
    ∃ m, s.setField field.1.span field.1.name field.2 = .error m ∧ m.wanted = f.wanted ∧
      (Excerpt.ofSpan document m.span).line = l.number := by
  obtain ⟨span, hspan, hline⟩ := h.place
  refine ⟨.ofNode field.1.span field.2 f.wanted, ?_, rfl, ?_⟩
  · rw [h.name.trans name]
    apply setField_of_not_accepts
    rwa [h.content]
  · rw [← hline, Mismatch.ofNode, hspan]
    rfl

end Lines

theorem foldlM_setField_lines {document : List Char} {lines : List KeyLine}
    {fields : List (Key × Node)} (h : List.Forall₂ (ShowsLine document) lines fields)
    (s : Settings) :
    match fields.foldlM (fun s (k, v) => s.setField k.span k.name v) s with
    | .ok _ => ∀ l ∈ lines, l.WellTyped
    | .error m => ∃ l f, FirstMisfit lines l f ∧ m.wanted = f.wanted ∧
        (Excerpt.ofSpan document m.span).line = l.number := by
  induction h generalizing s with
  | nil =>
    intro l hl
    cases hl
  | @cons l field lines fields hshows _ ih =>
    have hstep : (field :: fields).foldlM (fun s (k, v) => s.setField k.span k.name v) s =
        s.setField field.1.span field.1.name field.2 >>= fun s =>
          fields.foldlM (fun s (k, v) => s.setField k.span k.name v) s := rfl
    rw [hstep]
    by_cases htyped : l.WellTyped
    · obtain ⟨s', hs'⟩ := setField_typed hshows htyped s
      have hrest := ih s'
      rw [hs']
      show match fields.foldlM (fun s (k, v) => s.setField k.span k.name v) s' with
        | .ok _ => _
        | .error m => _
      split
      next hok =>
        rw [hok] at hrest
        exact List.forall_mem_cons.mpr ⟨htyped, hrest⟩
      next m herror =>
        rw [herror] at hrest
        obtain ⟨l', f, hfirst, hreport⟩ := hrest
        exact ⟨l', f, .later htyped hfirst, hreport⟩
    · obtain ⟨f, hkey, hmisfit⟩ : ∃ f : Field, l.key = f.name ∧ ¬ f.Accepts l.content := by
        simpa [KeyLine.WellTyped] using htyped
      obtain ⟨m, herror, hreport⟩ := setField_misfit hshows hkey hmisfit s
      rw [herror]
      exact ⟨l, f, .here hkey hmisfit, hreport⟩

theorem parse_of_singleTable {text : String} {k : Key} {span : Option Span}
    {fields : List (Key × Node)}
    (h : read? text = some (.table none .header [(k, .table span .header fields)]))
    (hk : k.name = "generate") :
    parse text = (ofFields fields).mapError fun m =>
      .mismatch (.ofSpan text.toList m.span) m.found m.wanted := by
  rw [parse, h]
  show (ofRoot [(k, .table span .header fields)]).mapError _ = _
  rw [ofRoot, if_pos hk]
  rfl

/-- A table of settings is accepted if and only if every setting in it can have its value; if it is
not, the first line with one that cannot is reported, whatever follows. -/
theorem parse_typing {lines : List KeyLine} {t : List Char}
    (ht : IsSingleTable "generate" lines t) (hkeys : (lines.map KeyLine.key).Nodup) :
    ((∃ s, parse (String.ofList t) = .ok s) ↔ ∀ l ∈ lines, l.WellTyped) ∧
      ∀ fault, parse (String.ofList t) = .error fault →
        ∃ l f place found, FirstMisfit lines l f ∧ fault = .mismatch place found f.wanted ∧
          place.line = l.number := by
  obtain ⟨k, span, fields, hread, hk, hshows⟩ := read_singleTable ht hkeys
  have hparse := parse_of_singleTable hread hk
  have hfields := foldlM_setField_lines hshows {}
  rw [← ofFields] at hfields
  rw [hparse]
  cases hresult : ofFields fields with
  | ok s =>
    rw [hresult] at hfields
    exact ⟨⟨fun _ => hfields, fun _ => ⟨s, rfl⟩⟩, fun fault hfault => by cases hfault⟩
  | error m =>
    rw [hresult] at hfields
    obtain ⟨l, f, hfirst, hwanted, hline⟩ := hfields
    refine ⟨⟨?_, ?_⟩, ?_⟩
    · rintro ⟨s, hs⟩
      cases hs
    · exact fun htyped => absurd htyped hfirst.not_wellTyped
    · intro fault hfault
      refine ⟨l, f, .ofSpan t m.span, m.found, hfirst, ?_, hline⟩
      rw [← Except.error.inj hfault, ← hwanted, String.toList_ofList]

theorem parse_typing_two_misfits :
    ∃ place found,
      parse "[generate] #\no=[true,\n]\nfactory='''\n'''\n\nstrict='no'\nextension=true" =
        .error (.mismatch place found .boolean) ∧ place.line = 7 := by
  let lines : List KeyLine :=
    [⟨"[generate] #\n".toList, "o", .array⟩,
      ⟨"[generate] #\no=[true,\n]\n".toList, "factory", .scalar (.text "")⟩,
      ⟨"[generate] #\no=[true,\n]\nfactory='''\n'''\n\n".toList, "strict", .scalar (.text "no")⟩,
      ⟨"[generate] #\no=[true,\n]\nfactory='''\n'''\n\nstrict='no'\n".toList, "extension",
        .scalar (.boolean true)⟩]
  have nothing : IsSpaces [] := by decide
  have newline (r : List Char) : IsLineEnd ['\n'] r := .newline nothing .none .feed
  have comment (r : List Char) : IsLineEnd [' ', '#', '\n'] r :=
    .newline (by decide : IsSpaces [' ']) (.marked (t := []) (by simp)) .feed
  have blank : IsLayout ['\n'] := .line .none .feed .nil
  have bare (t : List Char) (h : t ≠ [] ∧ t.all isBareKeyChar = true) :
      IsKey (String.ofList t) t :=
    .bare h.1 (List.all_eq_true.mp h.2)
  have array : IsValue nestingLimit .array "[true,\n]".toList :=
    .array ⟨_, rfl, .next .nil (.scalar .yes : IsValue (nestingLimit - 1) _ _) .nil
      (.close blank)⟩
  have block : IsValue nestingLimit (.scalar (.text "")) "'''\n'''".toList :=
    .scalar (.text (.literalBlock (.below .feed (.close (by decide : 0 ≤ 2)))))
  have quoted : IsValue nestingLimit (.scalar (.text "no")) "'no'".toList :=
    .scalar (.text (.literal ⟨rfl, by simp [IsLiteralChar]; decide⟩))
  have body : IsKeyLines [] "[generate] #\n".toList lines
      "o=[true,\n]\nfactory='''\n'''\n\nstrict='no'\nextension=true".toList :=
    .line .nil (bare ['o'] (by decide)) nothing nothing array (newline _)
    (.line .nil (Field.isKey_name .factory) nothing nothing block (newline _)
    (.line blank (Field.isKey_name .strict) nothing nothing quoted (newline _)
    (.line .nil (Field.isKey_name .extension) nothing nothing (.scalar .yes) (.last nothing .none)
      .nil)))
  have table : IsSingleTable "generate" lines
      "[generate] #\no=[true,\n]\nfactory='''\n'''\n\nstrict='no'\nextension=true".toList :=
    .table .nil nothing (bare "generate".toList (by decide)) nothing (comment _) body
      (.void .nil .none)
  obtain ⟨hok, hfault⟩ := parse_typing table (by decide)
  rw [String.ofList_toList] at hok hfault
  have hstrict (typed : (⟨lines[2].front, "strict", .scalar (.text "no")⟩ : KeyLine).WellTyped) :
      False := by
    cases typed .strict rfl with
    | text other => exact other rfl
  cases hparse : parse
      "[generate] #\no=[true,\n]\nfactory='''\n'''\n\nstrict='no'\nextension=true" with
  | ok s => exact (hstrict (hok.mp ⟨s, hparse⟩ lines[2] (by simp [lines]))).elim
  | error fault =>
    obtain ⟨l, f, place, found, hfirst, rfl, hline⟩ := hfault fault hparse
    refine ⟨place, found, ?_⟩
    simp only [lines] at hfirst
    cases hfirst with
    | here name =>
      have hother : "o" ≠ f.name := by cases f <;> decide
      exact absurd name hother
    | later _ hfirst =>
      cases hfirst with
      | here name misfit =>
        obtain rfl := @Field.name_injective .factory f name
        exact absurd (.text (by decide)) misfit
      | later _ hfirst =>
        cases hfirst with
        | here name =>
          obtain rfl := @Field.name_injective .strict f name
          exact ⟨rfl, hline⟩
        | later typed => exact (hstrict typed).elim

end Settings

end ServerActions
