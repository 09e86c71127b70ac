import ServerActions.Proofs.CommandLine.Stages

namespace ServerActions.CommandLine

def Command.writes : Command → Bool
  | generate _ _ dryRun _ => !dryRun
  | check _ _ => false

section Ending

variable [PatternEngine]

/-- How a run that is to write ends: without a module, with one that cannot be written, or with one
that is in the tree. -/
inductive Ending (a : Arguments) (tree after : FileTree) : Except Failure Unit → Prop
  | unrendered {reason : Failure} (rendering : a.rendering tree = .error reason)
    (unchanged : after = tree) : Ending a tree after (.error reason)
  | unwritten {g : Generation} {q : Path} {cause : AccessError}
    (rendering : a.rendering tree = .ok g)
    (writing : (runIn tree (writeModule g.output g.content)).1 = .error (.access q cause))
    (grows : tree.Grows after g.output.ancestors FileTree.nowhere) :
    Ending a tree after (.error (.access q cause))
  | written {g : Generation} (rendering : a.rendering tree = .ok g)
    (written : tree.Written after g.output g.content) : Ending a tree after (.ok ())

end Ending

theorem Command.complete_tree {c : Command} (hc : c.writes = false) (g : Generation) (s : Session) :
    (c.complete g s).2.tree = s.tree := by
  cases c with
  | generate path lenient dryRun json =>
    cases dryRun
    · cases hc
    · rfl
  | check path lenient =>
    rw [complete, Generator.comparing_apply]
    rfl

variable [PatternEngine] (tree : FileTree) (a : Arguments)

theorem runArguments_tree {a : Arguments} (ha : a.command.writes = false) :
    (runArguments tree a).2.2 = tree := by
  rw [runArguments_eq, Arguments.runIn_produce]
  cases a.rendering tree with
  | error reason => rfl
  | ok g => exact Command.complete_tree ha g _

theorem runArguments_ending {a : Arguments} (ha : a.command.writes = true) :
    Ending a tree (runArguments tree a).2.2 (runArguments tree a).1 := by
  rw [runArguments_eq, Arguments.runIn_produce]
  cases hr : a.rendering tree with
  | error reason => exact .unrendered hr rfl
  | ok g =>
    cases hc : a.command with
    | check path lenient =>
      rw [hc] at ha
      cases ha
    | generate path lenient dryRun json =>
      rw [hc, Command.writes, Bool.not_eq_true'] at ha
      subst ha
      simp only [Command.complete, Generator.writing_apply, Session.tree_logged]
      rcases writeModule_cases tree g.output g.content with
        ⟨q, cause, u, hw, -, hgrow⟩ | ⟨u, hw, hwritten⟩
      · have hw₁ : (runIn tree (writeModule g.output g.content)).1 =
            .error (.access q cause) := by
          rw [hw]
        rw [hw]
        exact .unwritten hr hw₁ hgrow
      · rw [hw]
        exact .written hr hwritten

theorem runArguments_outcome :
    ((runArguments tree a).2.1.code = 0 ∧ (runArguments tree a).1 = .ok ()) ∨
      ((runArguments tree a).2.1.code = 1 ∧ (runArguments tree a).2.1.out = "" ∧
        ∃ reason, (runArguments tree a).1 = .error reason) := by
  rw [runArguments_eq]
  obtain ⟨reason | g, s⟩ := runIn tree a.produce
  · exact .inr ⟨rfl, rfl, reason, rfl⟩
  · exact .inl ⟨rfl, rfl⟩

theorem runArguments_code_eq_zero_iff :
    (runArguments tree a).2.1.code = 0 ↔ (runArguments tree a).1 = .ok () := by
  rcases runArguments_outcome tree a with ⟨hcode, hr⟩ | ⟨hcode, -, reason, hr⟩
  · simp [hcode, hr]
  · simp [hcode, hr]

/-- Every run is a transaction: only one that is to write changes the tree, and if it fails the tree
has got at most directories above the output, which it gets in the writing step only. -/
theorem run_transaction (tree : FileTree) (args : List String) :
    let outcome := (run tree args).1
    let after := (run tree args).2
    (outcome.code = 2 → after = tree) ∧ (outcome.code = 1 → outcome.out = "") ∧
      match parse args with
      | .error _ => after = tree
      | .ok a =>
        if a.command.writes then
          (outcome.code = 0 ∧ (runArguments tree a).1 = .ok () ∧ Ending a tree after (.ok ())) ∨
          (outcome.code = 1 ∧ ∃ reason, (runArguments tree a).1 = .error reason ∧
            Ending a tree after (.error reason))
        else after = tree := by
  rw [run]
  cases hp : parse args with
  | error notice =>
    refine ⟨fun _ => rfl, ?_, rfl⟩
    intro h
    cases notice with
    | help topic => cases h
    | version => cases h
    | misuse error => cases error <;> cases h
  | ok a =>
    have houtcome := runArguments_outcome tree a
    refine ⟨?_, ?_, ?_⟩
    · intro h
      rcases houtcome with ⟨hcode, -⟩ | ⟨hcode, -⟩ <;> simp [h] at hcode
    · intro h
      rcases houtcome with ⟨hcode, -⟩ | ⟨-, hout, -⟩
      · simp [h] at hcode
      · exact hout
    · simp only
      split_ifs with hw
      · have hend := runArguments_ending tree hw
        rcases houtcome with ⟨hcode, hr⟩ | ⟨hcode, -, reason, hr⟩
        · exact .inl ⟨hcode, hr, hr ▸ hend⟩
        · exact .inr ⟨hcode, reason, hr, hr ▸ hend⟩
      · exact runArguments_tree tree (Bool.eq_false_iff.mpr hw)

end ServerActions.CommandLine
