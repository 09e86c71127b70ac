import ServerActions.Proofs.FileTree.Targets
import ServerActions.Proofs.Generation.Writing

namespace ServerActions

namespace FileTree

variable {t u : FileTree} {p q : Path} {paths : List Path} {text : String} {e : Entry}

theorem Grows.find (h : t.Grows u paths nowhere) (hq : t.find q = .ok e) : u.find q = .ok e := by
  obtain ⟨l, hl, he⟩ := find_eq_ok_iff.mp hq
  have hkept := h.kept l id (by rw [he]; rfl)
  exact find_eq_ok_iff.mpr ⟨l, h.extends.locate hl, hkept.trans he⟩

theorem Written.extends (h : t.Written u p text) : t.Extends u := by
  refine ⟨h.grows.workingDirectory, ?_, ?_⟩
  · intro l hl
    have hold : ¬ u.locate p = .ok l := fun hp => h.replaced l hp hl
    rw [h.grows.kept l hold (by rw [hl]; rfl), hl]
  · intro l hl
    by_cases hp : u.locate p = .ok l
    · obtain ⟨m, hm, hfile⟩ := find_eq_ok_iff.mp h.find
      obtain rfl := Except.ok.inj (hm.symm.trans hp)
      rw [hfile]
      rfl
    · rw [h.grows.kept l hp hl]
      exact hl

theorem Written.locate (h : t.Written u p text) (hq : t.find q = .ok e) :
    u.locate q = .ok (t.target q) := by
  obtain ⟨l, hl, -⟩ := find_eq_ok_iff.mp hq
  rw [← locate_eq_target hl]
  exact h.extends.locate hl

theorem Written.locate_self (h : t.Written u p text) : u.locate p = .ok (t.target p) := by
  obtain ⟨l, hl, -⟩ := find_eq_ok_iff.mp h.find
  rw [← target_of_workingDirectory h.grows.workingDirectory, ← locate_eq_target hl]
  exact hl

theorem Written.find_eq (h : t.Written u p text) (hq : t.find q = .ok e) :
    u.find q = if t.target p = t.target q then .ok (.file text.toUTF8) else .ok e := by
  have hlocate := h.locate hq
  split_ifs with hp
  · rw [← h.find, FileTree.find, FileTree.find, h.locate_self, hlocate, hp]
  · obtain ⟨l, hl, he⟩ := find_eq_ok_iff.mp hq
    obtain rfl := locate_eq_target hl
    have hold : ¬ u.locate p = .ok (t.target q) := by
      rw [h.locate_self]
      exact fun hc => hp (Except.ok.inj hc)
    have hkept := h.grows.kept _ hold (by rw [he]; rfl)
    exact find_eq_ok_iff.mpr ⟨_, hlocate, hkept.trans he⟩

theorem Written.readText (h : t.Written u p text) {content : String}
    (hq : t.readText q = .ok content) (hne : t.target p ≠ t.target q) :
    u.readText q = .ok content := by
  have hkept := h.find_eq (readText_eq_ok_iff.mp hq)
  rw [if_neg hne] at hkept
  exact readText_of_find hkept

end FileTree

namespace Generator

inductive Operation
  | render
  | generate
  | check

def perform (g : Generator) (path : Path) : Operation → StateM Session (Except Failure Generation)
  | .render => g.render path
  | .generate => g.generate path
  | .check => g.check path

def Operation.finish (generation : Generation) :
    Operation → StateM Session (Except Failure Generation)
  | .render => return .ok generation
  | .generate => writing generation
  | .check => comparing generation

variable (g : Generator) (path : Path)

theorem perform_apply (op : Operation) (s : Session) :
    g.perform path op s =
      match (g.render path : StateM Session (Except Failure Generation)) s with
      | (.error reason, s') => (.error reason, s')
      | (.ok generation, s') => op.finish generation s' := by
  cases op with
  | render =>
    rw [perform]
    rcases (g.render path : StateM Session (Except Failure Generation)) s with
      ⟨reason | generation, s'⟩ <;> rfl
  | generate => exact g.generate_apply path s
  | check => exact g.check_apply path s

variable {g path}

theorem perform_of_error {s : Session} {reason : Failure}
    (h : (g.evaluate path (s.tree.readText path)).2 = .error reason) (op : Operation) :
    (g.perform path op s).1 = .error reason ∧ (g.perform path op s).2.tree = s.tree := by
  rw [perform_apply, render_apply]
  simp only [h, Session.tree_logged, and_self]

theorem perform_of_ok {s : Session} {generation : Generation}
    (h : (g.evaluate path (s.tree.readText path)).2 = .ok generation) (op : Operation) :
    ∃ messages, g.perform path op s = op.finish generation ⟨s.tree, messages⟩ := by
  rw [perform_apply, render_apply]
  simp only [h]
  exact ⟨_, rfl⟩

theorem writing_fst (generation : Generation) (s : Session) :
    (writing generation s).1 =
      (runIn s.tree (writeModule generation.output generation.content)).1.map
        fun _ => generation := by
  rw [writing_apply]

theorem writing_tree (generation : Generation) (s : Session) :
    (writing generation s).2.tree =
      (runIn s.tree (writeModule generation.output generation.content)).2.tree := by
  rw [writing_apply]
  rfl

theorem generate_cases (g : Generator) (path : Path) (s : Session) :
    let outcome := (g.perform path .generate s).1
    let after := (g.perform path .generate s).2.tree
    (∃ reason, (g.evaluate path (s.tree.readText path)).2 = .error reason ∧
      outcome = .error reason ∧ after = s.tree) ∨
    ∃ generation, (g.evaluate path (s.tree.readText path)).2 = .ok generation ∧
      ((∃ q cause, outcome = .error (.access q cause) ∧
          s.tree.Grows after generation.output.ancestors FileTree.nowhere) ∨
        (outcome = .ok generation ∧
          s.tree.Written after generation.output generation.content)) := by
  intro outcome after
  cases h : (g.evaluate path (s.tree.readText path)).2 with
  | error reason => exact .inl ⟨reason, rfl, perform_of_error h .generate⟩
  | ok generation =>
    obtain ⟨messages, hrun⟩ := perform_of_ok h .generate
    refine .inr ⟨generation, rfl, ?_⟩
    simp only [outcome, after, hrun, Operation.finish, writing_fst, writing_tree]
    rcases writeModule_cases s.tree generation.output generation.content with
      ⟨q, cause, u, hw, -, hgrow⟩ | ⟨u, hw, hwritten⟩
    · rw [hw]
      exact .inl ⟨q, cause, rfl, hgrow⟩
    · rw [hw]
      exact .inr ⟨rfl, hwritten⟩

theorem generate_eq_ok {s : Session} {generation : Generation}
    (h : (g.perform path .generate s).1 = .ok generation) :
    (g.evaluate path (s.tree.readText path)).2 = .ok generation ∧
      s.tree.Written (g.perform path .generate s).2.tree generation.output generation.content := by
  rcases g.generate_cases path s with ⟨reason, -, hr, -⟩ | ⟨generation', heval, hr⟩
  · rw [h] at hr
    cases hr
  rcases hr with ⟨q, cause, hr, -⟩ | ⟨hr, hwritten⟩
  · rw [h] at hr
    cases hr
  · obtain rfl := Except.ok.inj (h.symm.trans hr)
    exact ⟨heval, hwritten⟩

theorem generate_of_writeModule {s : Session} {generation : Generation} {u : FileTree}
    (h : (g.evaluate path (s.tree.readText path)).2 = .ok generation)
    (hw : runIn s.tree (writeModule generation.output generation.content) = (.ok (), ⟨u, []⟩)) :
    (g.perform path .generate s).1 = .ok generation ∧
      (g.perform path .generate s).2.tree = u := by
  obtain ⟨messages, hrun⟩ := perform_of_ok h .generate
  rw [hrun, Operation.finish, writing_fst, writing_tree, hw]
  exact ⟨rfl, rfl⟩

end Generator

end ServerActions
