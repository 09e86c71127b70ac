import ServerActions.Proofs.Json.Printing
import ServerActions.Report

namespace ServerActions

open Json

namespace Json

theorem datum_texts (values : List String) : (texts values).datum = .array (values.map .text) := by
  rw [texts, datum, itemData_eq_map, List.map_map]
  rfl

theorem nesting_texts (values : List String) : (texts values).nesting ≤ 1 := by
  apply itemNesting_le
  intro item hitem
  obtain ⟨_, -, rfl⟩ := List.mem_map.mp hitem
  exact Nat.one_pos

theorem texts_inj {values values' : List String} (h : texts values = texts values') :
    values = values' :=
  List.map_injective_iff.mpr (fun _ _ => text.inj) (array.inj h)

end Json

def ImportBinding.reported (i : ImportBinding) : Datum :=
  .object [("names", .array (i.names.map .text)), ("path", .text i.path)]

def Generation.reported (g : Generation) (written : Bool) : List (String × Datum) :=
  [("version", .text version),
    ("declaration", .text g.declaration.text),
    ("output", .text g.output.text),
    ("written", .boolean written),
    ("entry_points", .array (g.entryPoints.names.map .text)),
    ("imports", .array (g.resolution.imports.map ImportBinding.reported)),
    ("dropped_imports", .array (g.resolution.dropped.map .text)),
    ("unbacked", .array (g.resolution.unbacked.map .text)),
    ("extra_factory_calls", .number g.extraCalls)]

theorem ImportBinding.datum_toJson (i : ImportBinding) : i.toJson.datum = i.reported := by
  rw [toJson, datum, memberData, datum_texts]
  rfl

theorem ImportBinding.nesting_toJson (i : ImportBinding) : i.toJson.nesting ≤ 2 := by
  have hnames := nesting_texts i.names
  simp only [toJson, nesting, memberNesting]
  omega

theorem ImportBinding.toJson_injective : Function.Injective toJson := by
  rintro ⟨names, path⟩ ⟨names', path'⟩ h
  simp only [toJson, object.injEq, List.cons.injEq, Prod.mk.injEq, text.injEq, true_and,
    and_true] at h
  rw [texts_inj h.1, h.2]

namespace Generation

theorem nesting_report (g : Generation) (written : Bool) : (g.report written).nesting ≤ 4 := by
  have himports : itemNesting (g.resolution.imports.map ImportBinding.toJson) ≤ 3 := by
    apply itemNesting_le
    intro item hitem
    obtain ⟨i, -, rfl⟩ := List.mem_map.mp hitem
    exact Nat.lt_succ_of_le i.nesting_toJson
  have hentries := nesting_texts g.entryPoints.names
  have hdropped := nesting_texts g.resolution.dropped
  have hunbacked := nesting_texts g.resolution.unbacked
  simp only [report, nesting, memberNesting]
  omega

theorem datum_report (g : Generation) (written : Bool) :
    (g.report written).datum = .object (g.reported written) := by
  have himports : itemData (g.resolution.imports.map ImportBinding.toJson) =
      g.resolution.imports.map ImportBinding.reported := by
    rw [itemData_eq_map, List.map_map]
    exact List.map_congr_left fun i _ => i.datum_toJson
  simp only [report, datum, memberData, datum_texts, himports]
  rfl

theorem report_inj {g g' : Generation} {written written' : Bool}
    (h : g.report written = g'.report written') :
    g.declaration = g'.declaration ∧ g.output = g'.output ∧ written = written' ∧
      g.entryPoints = g'.entryPoints ∧ g.resolution = g'.resolution ∧
      g.extraCalls = g'.extraCalls := by
  obtain ⟨⟨declaration⟩, ⟨output⟩, ⟨names⟩, ⟨imports, dropped, unbacked⟩, calls, _⟩ := g
  obtain ⟨⟨declaration'⟩, ⟨output'⟩, ⟨names'⟩, ⟨imports', dropped', unbacked'⟩, calls', _⟩ := g'
  simp only [report, object.injEq, List.cons.injEq, Prod.mk.injEq, text.injEq, boolean.injEq,
    number.injEq, array.injEq, true_and, and_true] at h
  obtain ⟨rfl, rfl, rfl, hnames, himports, hdropped, hunbacked, rfl⟩ := h
  obtain rfl := texts_inj hnames
  obtain rfl := List.map_injective_iff.mpr ImportBinding.toJson_injective himports
  obtain rfl := texts_inj hdropped
  obtain rfl := texts_inj hunbacked
  exact ⟨rfl, rfl, rfl, rfl, rfl, rfl⟩

/-- The text of a report is a JSON text of one object, whose nine members hold what the report is
on, for every decoder of five levels or more.  So it is the text of no other report. -/
theorem decode_report (g : Generation) (written : Bool) (levels : Nat) :
    let text := (g.report written).pretty
    (∀ value, padded (IsValue (levels + 5)) value text.toList ↔
      value = .object (g.reported written)) ∧
    decode (levels + 5) text = some (.object (g.reported written)) ∧
    ∀ (g' : Generation) (written' : Bool), (g'.report written').pretty = text →
      g'.declaration = g.declaration ∧ g'.output = g.output ∧ written' = written ∧
        g'.entryPoints = g.entryPoints ∧ g'.resolution = g.resolution ∧
        g'.extraCalls = g.extraCalls := by
  intro text
  have hdecode : decode (levels + 5) text = some (.object (g.reported written)) := by
    have hnesting := Nat.le_trans (g.nesting_report written) (Nat.le_add_left 4 levels)
    rw [decode_pretty hnesting, datum_report]
  refine ⟨fun value => ?_, hdecode, fun g' written' h => report_inj (pretty_injective h)⟩
  rw [← decode_eq_some_iff, hdecode, Option.some.injEq, eq_comm]

end Generation

end ServerActions
