import ServerActions.Proofs.Generation.Default
import ServerActions.Proofs.Generation.Outcomes

namespace ServerActions

def Stage.order : List Stage :=
  [.idle, .resolvingPath, .reading, .extracting, .filtering, .synthesizing, .writing, .done,
    .failed]

def stagesOf (events : List Event) : List Stage :=
  events.filterMap Event.stage?

@[simp] theorem stagesOf_append (es es' : List Event) :
    stagesOf (es ++ es') = stagesOf es ++ stagesOf es' :=
  List.filterMap_append

theorem Event.line_failed (reason : Failure) : (Event.failed reason).line =
    "DEBUG Generation failed stage=failed error=" ++ reason.message ++ "\n" := by
  simp [line, stage?, message, fields, Stage.text, ← String.append_assoc]

namespace Generator

open Declaration

def reached : Except Failure Generation → List Stage
  | .ok _ => [.extracting, .filtering, .synthesizing]
  | .error (.unbacked _) => [.extracting, .filtering]
  | .error (.factoryNotCalled _ _) => [.extracting]
  | .error _ => []

theorem reached_sublist (outcome : Except Failure Generation) :
    (reached outcome).Sublist [.extracting, .filtering, .synthesizing] := by
  cases outcome with
  | ok m => exact .refl _
  | error reason => cases reason <;> simp [reached]

theorem synthesizing_mem_reached_iff {outcome : Except Failure Generation} :
    .synthesizing ∈ reached outcome ↔ ∃ m, outcome = .ok m := by
  cases outcome with
  | ok m => simp [reached]
  | error reason => cases reason <;> simp [reached]

theorem stagesOf_unused (modules : List String) : stagesOf (modules.map .unused) = [] := by
  rw [stagesOf, List.filterMap_map]
  exact List.filterMap_eq_nil_iff.mpr fun _ _ => rfl

theorem stagesOf_evaluate (g : Generator) (path : Path) (source : Except AccessError String) :
    stagesOf (g.evaluate path source).1 = reached (g.evaluate path source).2 := by
  cases source with
  | error cause => cases cause <;> rfl
  | ok text =>
    rw [evaluate]
    cases Declaration.read? g.settings.factory text with
    | none => rfl
    | some d =>
      have hresolving (n k l : Nat) (modules : List String) :
          stagesOf ([.extracted n k l, .resolving] ++ modules.map .unused) = [.filtering] := by
        rw [stagesOf_append, stagesOf_unused]
        rfl
      simp only [produce]
      split_ifs
      · exact congrArg (Stage.extracting :: ·) (hresolving _ _ _ _)
      · refine congrArg (Stage.extracting :: ·) ?_
        show stagesOf _ = _
        rw [stagesOf_append, hresolving]
        rfl

variable {g : Generator} {tree : FileTree} {path : Path} {outcome : Except Failure Generation}

theorem Renders.extracting_iff (h : Renders g tree path outcome) :
    .extracting ∈ reached outcome ↔ ∃ text : String, tree.find path = .ok (.file text.toUTF8) := by
  simp only [← FileTree.readText_eq_ok_iff]
  cases h with
  | missing found => simp [reached, FileTree.readText_eq_notFound_iff.mpr found]
  | unreadable source present => simp [reached, FileTree.readText_eq_error_iff.mpr source]
  | uncalled found calls => simp [reached, FileTree.readText_of_find found]
  | refused found declares strict unbacked => simp [reached, FileTree.readText_of_find found]
  | rendered found declares backed => simp [reached, FileTree.readText_of_find found]

theorem Renders.filtering_iff (h : Renders g tree path outcome) :
    .filtering ∈ reached outcome ↔ ∃ text : String, tree.find path = .ok (.file text.toUTF8) ∧
      ∃ c : FactoryCall, c.text g.settings.factory <:+: text.toList := by
  simp only [← FileTree.readText_eq_ok_iff]
  cases h with
  | missing found => simp [reached, FileTree.readText_eq_notFound_iff.mpr found]
  | unreadable source present => simp [reached, FileTree.readText_eq_error_iff.mpr source]
  | uncalled found calls => simp [reached, FileTree.readText_of_find found, calls]
  | refused found declares strict unbacked =>
    simpa [reached, FileTree.readText_of_find found] using exists_declares_iff.mp ⟨_, declares⟩
  | rendered found declares backed =>
    simpa [reached, FileTree.readText_of_find found] using exists_declares_iff.mp ⟨_, declares⟩

theorem Renders.synthesizing_iff (h : Renders g tree path outcome) :
    .synthesizing ∈ reached outcome ↔ .filtering ∈ reached outcome ∧ (g.strict = false ∨
      ∃ (text : String) (d : Declaration), tree.find path = .ok (.file text.toUTF8) ∧
        Declares g.settings.factory text.toList d ∧
        ∀ n ∈ d.entryPoints.names, ∃ i ∈ d.imports, n ∈ i.names) := by
  simp only [← FileTree.readText_eq_ok_iff]
  cases h with
  | missing found => simp [reached]
  | unreadable source present => simp [reached]
  | uncalled found calls => simp [reached]
  | @refused text d found declares strict unbacked =>
    have hread := read_eq_some_iff_declares.mpr declares
    simpa [reached, strict, FileTree.readText_of_find found, ← read_eq_some_iff_declares, hread]
      using unbacked
  | @rendered text d found declares backed =>
    cases hstrict : g.strict with
    | false => simp [reached]
    | true =>
      have hbacked : ∃ (text : String) (d : Declaration), tree.readText path = .ok text ∧
          Declares g.settings.factory text.toList d ∧
          ∀ n ∈ d.entryPoints.names, ∃ i ∈ d.imports, n ∈ i.names :=
        ⟨text, d, FileTree.readText_of_find found, declares, backed hstrict⟩
      exact iff_of_true (by simp [reached]) ⟨by simp [reached], .inr hbacked⟩

end Generator

end ServerActions
