import ServerActions.Proofs.FileTree.Growing
import ServerActions.Proofs.FileTree.Reading
import ServerActions.Proofs.Generation.Rendering
import ServerActions.Proofs.Workspace.Sessions

namespace ServerActions

namespace FileTree

/-- The second tree has a text in the file to which the path leads, and is otherwise the first with
all the directories above that file. -/
structure Written (t u : FileTree) (p : Path) (text : String) : Prop where
  find : u.find p = .ok (.file text.toUTF8)
  grows : t.Grows u p.ancestors (fun l => u.locate p = .ok l)
  replaced : ∀ l, u.locate p = .ok l → t.get? l ≠ some .directory
  above : ∀ q ∈ p.ancestors, q.text ≠ "" → u.find q = .ok .directory

end FileTree

theorem logs_makeParent (p : Path) :
    Logs (makeParent p : StateM Session (Except Failure Unit)) := by
  rw [makeParent]
  split
  · exact (observes_pure _).logs
  · split_ifs
    · exact (observes_pure _).logs
    · exact (logs_makeDirectories _).bind fun _ => (observes_pure _).logs

theorem logs_writeModule (p : Path) (text : String) :
    Logs (writeModule p text : StateM Session (Except Failure Unit)) := by
  refine (logs_makeParent p).bind ?_
  rintro (reason | _)
  · exact (observes_pure _).logs
  · exact (logs_writeText p text).bind fun _ => (observes_pure _).logs

theorem makeParent_grows (t : FileTree) (p : Path) :
    t.Grows (runIn t (makeParent p)).2.tree p.ancestors FileTree.nowhere ∧
      (runIn t (makeParent p)).2.events = [] ∧
      ∀ reason, (runIn t (makeParent p)).1 = .error reason →
        ∃ q cause, p.parent? = some q ∧ reason = .access q cause := by
  rw [makeParent]
  cases hp : p.parent? with
  | none => exact ⟨.refl t _, rfl, fun reason h => by cases h⟩
  | some q =>
    simp only
    split_ifs with hq
    · exact ⟨.refl t _, rfl, fun reason h => by cases h⟩
    · have hgrow := (t.makeDirectoryBelow_grows q q.ancestors).1
      rw [← Path.ancestors_eq_cons hp] at hgrow
      refine ⟨hgrow, rfl, ?_⟩
      intro reason h
      have hr : (t.makeDirectories q).1.mapError (Failure.access q) = .error reason := h
      cases hd : (t.makeDirectories q).1 with
      | ok _ =>
        rw [hd] at hr
        cases hr
      | error cause =>
        rw [hd] at hr
        exact ⟨q, cause, rfl, (Except.error.inj hr).symm⟩

theorem FileTree.Written.of_writeBytes {t u v : FileTree} {p : Path} {text : String}
    (h : t.Grows v p.ancestors FileTree.nowhere) (hw : v.writeBytes p text.toUTF8 = .ok u) :
    t.Written u p text := by
  obtain ⟨l, hloc, hget, hnew, hgrow, hext⟩ := FileTree.writeBytes_eq_ok hw
  have hl : (fun m => u.locate p = .ok m) = (· = l) := by
    funext m
    rw [hloc, Except.ok.injEq, eq_iff_iff, eq_comm]
  constructor
  · exact FileTree.find_eq_ok_iff.mpr ⟨l, hloc, hget⟩
  · rw [hl]
    exact h.trans (hgrow.mono (List.nil_subset _)) hext
  · intro m hm hd
    rw [hloc] at hm
    obtain rfl := Except.ok.inj hm
    exact hnew (h.extends.directory hd)
  · exact fun q hq hne => FileTree.find_ancestor hloc hq hne

theorem runIn_writeModule (t : FileTree) (p : Path) (text : String) :
    runIn t (writeModule p text) =
      let made := runIn t (makeParent p)
      match made.1 with
      | .error reason => (.error reason, ⟨made.2.tree, []⟩)
      | .ok () =>
        let written := runIn made.2.tree (Workspace.writeText p text)
        (written.1.mapError (.access p), written.2) := by
  obtain ⟨-, hevents, -⟩ := makeParent_grows t p
  have hmade : (makeParent p : StateM Session (Except Failure Unit)) ⟨t, []⟩ =
      ((runIn t (makeParent p)).1, ⟨(runIn t (makeParent p)).2.tree, []⟩) := by
    have hrun := (logs_makeParent p).runIn_eq t
    rwa [hevents] at hrun
  rw [runIn, writeModule, bind_apply, hmade]
  dsimp only
  rcases (runIn t (makeParent p)).1 with reason | _ <;> rfl

theorem writeModule_cases (t : FileTree) (p : Path) (text : String) :
    (∃ q cause u, runIn t (writeModule p text) = (.error (.access q cause), ⟨u, []⟩) ∧
      (q = p ∨ p.parent? = some q) ∧ t.Grows u p.ancestors FileTree.nowhere) ∨
    ∃ u, runIn t (writeModule p text) = (.ok (), ⟨u, []⟩) ∧ t.Written u p text := by
  obtain ⟨hgrow, -, hfail⟩ := makeParent_grows t p
  have hrun := runIn_writeModule t p text
  simp only at hrun
  cases ho : (runIn t (makeParent p)).1 with
  | error reason =>
    obtain ⟨q, cause, hq, rfl⟩ := hfail reason ho
    rw [ho] at hrun
    exact .inl ⟨q, cause, _, hrun, .inr hq, hgrow⟩
  | ok _ =>
    rw [ho] at hrun
    generalize (runIn t (makeParent p)).2.tree = v at hgrow hrun
    simp only [runIn_writeText] at hrun
    cases hw : v.writeBytes p text.toUTF8 with
    | error cause =>
      rw [hw] at hrun
      exact .inl ⟨p, cause, v, hrun, .inl rfl, hgrow⟩
    | ok u =>
      rw [hw] at hrun
      exact .inr ⟨u, hrun, .of_writeBytes hgrow hw⟩

namespace Generator

variable (g : Generator) (path : Path)

theorem observes_render :
    Observes (g.render path : StateM Session (Except Failure Generation)) := by
  let result (t : FileTree) := g.evaluate path (t.readText path)
  exact .of_adds (fun t => ((result t).2,
    [.reading path] ++ (result t).1 ++ failureEvents (result t).2)) (render_apply g path)

def writingEvents : Except Failure Unit → List Event
  | .error reason => [.failed reason]
  | .ok _ => [.generated]

def afterWriting (generation : Generation) (outcome : Except Failure Unit) :
    StateM Session (Except Failure Generation) := do
  logFailure outcome
  match outcome with
  | .error reason => return .error reason
  | .ok () =>
    Workspace.log .generated
    return .ok generation

theorem afterWriting_apply (generation : Generation) (outcome : Except Failure Unit) (s : Session) :
    afterWriting generation outcome s =
      (outcome.map fun _ => generation,
        s.logged (writingEvents outcome)) := by
  cases outcome <;> rfl

def writing (generation : Generation) : StateM Session (Except Failure Generation) := do
  Workspace.log (.writing generation.output)
  afterWriting generation (← writeModule generation.output generation.content)

theorem logs_writing (generation : Generation) : Logs (writing generation) := by
  refine (observes_log _).logs.bind fun _ => (logs_writeModule _ _).bind fun outcome => ?_
  exact (Observes.of_adds (fun _ => (outcome.map fun _ => generation, writingEvents outcome))
    (afterWriting_apply generation outcome)).logs

theorem events_writeModule (t : FileTree) (p : Path) (text : String) :
    (runIn t (writeModule p text)).2.events = [] := by
  rcases writeModule_cases t p text with ⟨q, cause, u, hw, -⟩ | ⟨u, hw, -⟩
  · rw [hw]
    rfl
  · rw [hw]
    rfl

theorem writing_apply (generation : Generation) (s : Session) :
    writing generation s =
      let written := runIn s.tree (writeModule generation.output generation.content)
      (written.1.map fun _ => generation,
        Session.logged { s with tree := written.2.tree }
          ([.writing generation.output] ++ writingEvents written.1)) := by
  rw [writing, bind_apply, Session.log_apply, bind_apply, logs_writeModule, afterWriting_apply]
  simp only [Session.tree_logged, events_writeModule, Session.logged_nil, ← Session.logged_logged]
  rfl

theorem generate_apply (s : Session) :
    (g.generate path : StateM Session (Except Failure Generation)) s =
      match (g.render path : StateM Session (Except Failure Generation)) s with
      | (.error reason, s') => (.error reason, s')
      | (.ok generation, s') => writing generation s' := by
  rw [generate, bind_apply]
  rcases (g.render path : StateM Session (Except Failure Generation)) s with
    ⟨reason | generation, s'⟩ <;> rfl

def comparing (generation : Generation) : StateM Session (Except Failure Generation) := do
  match ← readModule generation.output with
  | .error reason => return .error reason
  | .ok existing =>
    if existing = some generation.content then
      Workspace.log (.upToDate generation.output)
      return .ok generation
    else return .error (.stale generation.output)

def compared (generation : Generation) :
    Except AccessError String → Except Failure Generation × List Event
  | .ok existing =>
    if existing = generation.content then (.ok generation, [.upToDate generation.output])
    else (.error (.stale generation.output), [])
  | .error .notFound => (.error (.stale generation.output), [])
  | .error cause => (.error (.access generation.output cause), [])

theorem readModule_apply (p : Path) (s : Session) :
    (readModule p : StateM Session (Except Failure (Option String))) s =
      (match s.tree.readText p with
        | .ok content => .ok (some content)
        | .error .notFound => .ok none
        | .error cause => .error (.access p cause), s) := by
  rw [readModule, bind_apply, readText_apply]
  cases s.tree.readText p with
  | ok content => rfl
  | error cause => cases cause <;> rfl

theorem comparing_apply (generation : Generation) (s : Session) :
    comparing generation s =
      let result := compared generation (s.tree.readText generation.output)
      (result.1, s.logged result.2) := by
  rw [comparing, bind_apply, readModule_apply]
  cases s.tree.readText generation.output with
  | error cause => cases cause <;> exact congrArg (Prod.mk _) s.logged_nil.symm
  | ok existing =>
    simp only [compared, Option.some.injEq]
    split_ifs
    · rfl
    · exact congrArg (Prod.mk _) s.logged_nil.symm

theorem observes_comparing (generation : Generation) : Observes (comparing generation) :=
  .of_adds (fun t => compared generation (t.readText generation.output))
    (comparing_apply generation)

theorem check_apply (s : Session) :
    (g.check path : StateM Session (Except Failure Generation)) s =
      match (g.render path : StateM Session (Except Failure Generation)) s with
      | (.error reason, s') => (.error reason, s')
      | (.ok generation, s') => comparing generation s' := by
  rw [check, bind_apply]
  rcases (g.render path : StateM Session (Except Failure Generation)) s with
    ⟨reason | generation, s'⟩ <;> rfl

theorem compared_eq_ok_iff {t : FileTree} {generation result : Generation} :
    (compared generation (t.readText generation.output)).1 = .ok result ↔
      t.find generation.output = .ok (.file generation.content.toUTF8) ∧ result = generation := by
  rw [← FileTree.readText_eq_ok_iff]
  cases t.readText generation.output with
  | error cause => cases cause <;> simp [compared]
  | ok existing =>
    simp only [compared, Except.ok.injEq]
    split_ifs with h <;> simp [h, eq_comm]

end Generator

end ServerActions
