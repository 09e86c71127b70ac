import Mathlib.Tactic.SplitIfs
import ServerActions.CommandLine.Run

/-!
One run in two workspaces.  The program does to its surroundings only what a workspace offers, so a
relation between the actions of two workspaces that holds for each of these, and that is kept when
one action follows another, holds between the runs.
-/

namespace ServerActions

open Workspace

variable {m n : Type → Type} [Monad m] [Workspace m] [Monad n] [Workspace n]

/-- A relation between the actions of two workspaces that all that a workspace offers has. -/
structure Simulates (R : ∀ ⦃α : Type⦄, m α → n α → Prop) : Prop where
  pure {α : Type} (a : α) : R (Pure.pure a) (Pure.pure a)
  bind {α β : Type} {x : m α} {y : n α} {f : α → m β} {g : α → n β} :
    R x y → (∀ a, R (f a) (g a)) → R (x >>= f) (y >>= g)
  pathExists (p : Path) : R (Workspace.pathExists p) (Workspace.pathExists p)
  readText (p : Path) : R (Workspace.readText p) (Workspace.readText p)
  makeDirectories (p : Path) : R (Workspace.makeDirectories p) (Workspace.makeDirectories p)
  writeText (p : Path) (text : String) : R (Workspace.writeText p text) (Workspace.writeText p text)
  log (e : Event) : R (Workspace.log e) (Workspace.log e)
  warn (text : String) : R (Workspace.warn text) (Workspace.warn text)
  print (text : String) : R (Workspace.print text) (Workspace.print text)

namespace Simulates

variable {R : ∀ ⦃α : Type⦄, m α → n α → Prop} (h : Simulates R)

include h

theorem logAll (es : List Event) : R (logAll es) (logAll es) := by
  induction es with
  | nil => exact h.pure ()
  | cons e es ih => exact h.bind (h.log e) fun _ => ih

theorem warnAll (texts : List String) : R (warnAll texts) (warnAll texts) := by
  induction texts with
  | nil => exact h.pure ()
  | cons text texts ih => exact h.bind (h.warn text) fun _ => ih

theorem findSettings (config : Option Path) : R (Settings.find config) (Settings.find config) := by
  have hload (path : Path) : R (Settings.load path) (Settings.load path) :=
    h.bind (h.readText path) fun _ => h.pure _
  cases config with
  | some path => exact hload path
  | none =>
    refine h.bind (h.pathExists Settings.fileName) fun found => ?_
    split_ifs
    · exact hload Settings.fileName
    · exact h.pure _

theorem findDeclaration (root : Path) (path : Option Path) (settings : Settings) :
    R (findDeclaration root path settings) (findDeclaration root path settings) := by
  have hdefault : R (defaultDeclaration root settings) (defaultDeclaration root settings) := by
    refine h.bind (h.log _) fun _ => h.bind (h.pathExists _) fun found => ?_
    split_ifs <;> exact h.pure _
  cases path with
  | none => exact hdefault
  | some p =>
    rw [ServerActions.findDeclaration, ServerActions.findDeclaration]
    split_ifs
    · exact hdefault
    · exact h.pure _

theorem logFailure {α : Type} (outcome : Except Failure α) :
    R (Generator.logFailure outcome) (Generator.logFailure outcome) := by
  cases outcome with
  | error reason => exact h.log _
  | ok a => exact h.pure ()

theorem render (g : Generator) (path : Path) : R (g.render path) (g.render path) := by
  refine h.bind (h.log _) fun _ => h.bind (h.readText path) fun source => ?_
  exact h.bind (h.logAll _) fun _ => h.bind (h.logFailure _) fun _ => h.pure _

theorem writeModule (path : Path) (text : String) :
    R (writeModule path text) (writeModule path text) := by
  have hparent : R (makeParent path) (makeParent path) := by
    rw [makeParent, makeParent]
    split
    · exact h.pure _
    · split_ifs
      · exact h.pure _
      · exact h.bind (h.makeDirectories _) fun _ => h.pure _
  refine h.bind hparent fun outcome => ?_
  cases outcome with
  | error reason => exact h.pure _
  | ok _ => exact h.bind (h.writeText path text) fun _ => h.pure _

theorem generate (g : Generator) (path : Path) : R (g.generate path) (g.generate path) := by
  refine h.bind (h.render g path) fun outcome => ?_
  cases outcome with
  | error reason => exact h.pure _
  | ok generation =>
    refine h.bind (h.log _) fun _ => h.bind (h.writeModule _ _) fun written => ?_
    refine h.bind (h.logFailure written) fun _ => ?_
    cases written with
    | error reason => exact h.pure _
    | ok _ => exact h.bind (h.log _) fun _ => h.pure _

theorem readModule (path : Path) : R (readModule path) (readModule path) := by
  refine h.bind (h.readText path) fun source => ?_
  rcases source with cause | content
  · cases cause <;> exact h.pure _
  · exact h.pure _

theorem check (g : Generator) (path : Path) : R (g.check path) (g.check path) := by
  refine h.bind (h.render g path) fun outcome => ?_
  cases outcome with
  | error reason => exact h.pure _
  | ok generation =>
    refine h.bind (h.readModule _) fun existing => ?_
    cases existing with
    | error reason => exact h.pure _
    | ok content =>
      dsimp only
      split_ifs
      · exact h.bind (h.log _) fun _ => h.pure _
      · exact h.pure _

open CommandLine

theorem announce (output : Generation → String) (outcome : Except Failure Generation) :
    R (announce output outcome) (announce output outcome) := by
  cases outcome with
  | error reason => exact h.pure _
  | ok g => exact h.bind (h.warnAll _) fun _ => h.bind (h.print _) fun _ => h.pure _

variable [PatternEngine]

theorem command (settings : Settings) (c : Command) :
    R (c.perform settings) (c.perform settings) := by
  cases c with
  | generate path lenient dryRun json =>
    refine h.bind (h.findDeclaration _ _ _) fun declaration => ?_
    cases Generator.make settings with
    | error reason => exact h.pure _
    | ok g =>
      cases dryRun
      · exact h.bind (h.generate _ _) fun _ => h.announce _ _
      · exact h.bind (h.render _ _) fun _ => h.announce _ _
  | check path lenient =>
    refine h.bind (h.findDeclaration _ _ _) fun declaration => ?_
    cases Generator.make settings with
    | error reason => exact h.pure _
    | ok g => exact h.bind (h.check _ _) fun _ => h.announce _ _

theorem perform (a : Arguments) : R a.perform a.perform := by
  refine h.bind (h.log _) fun _ => h.bind (h.findSettings _) fun found => ?_
  cases found with
  | error reason => exact h.pure _
  | ok settings => exact h.command settings a.command

theorem execute (a : Arguments) : R a.execute a.execute := by
  refine h.bind (h.perform a) fun result => ?_
  cases result with
  | error reason => exact h.bind (h.warn _) fun _ => h.pure _
  | ok _ => exact h.bind (h.pure _) fun _ => h.pure _

end Simulates

end ServerActions
