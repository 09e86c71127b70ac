import ServerActions.Workspace

/-!
Actions in a session.  An action that only logs adds to the messages, so its outcome and the tree
after it depend on the tree before it alone; an action that observes leaves the tree as it is.
-/

namespace ServerActions

variable {α β : Type}

theorem map_eq_ok_iff {ε : Type} {x : Except ε α} {f : α → β} {b : β} :
    x.map f = .ok b ↔ ∃ a, x = .ok a ∧ f a = b := by
  cases x <;> simp [Except.map]

namespace Session

def logged (s : Session) (es : List Event) : Session :=
  { s with messages := s.messages ++ es.map .event }

@[simp] theorem tree_logged (s : Session) (es : List Event) : (s.logged es).tree = s.tree :=
  rfl

@[simp] theorem logged_nil (s : Session) : s.logged [] = s := by
  rw [logged, List.map_nil, List.append_nil]

@[simp] theorem logged_logged (s : Session) (es es' : List Event) :
    (s.logged es).logged es' = s.logged (es ++ es') := by
  simp only [logged, List.append_assoc, List.map_append]

theorem event?_map (es : List Event) : (es.map Message.event).filterMap Message.event? = es := by
  rw [List.filterMap_map]
  exact List.filterMap_some

@[simp] theorem events_logged (s : Session) (es : List Event) :
    (s.logged es).events = s.events ++ es := by
  rw [events, logged, List.filterMap_append, event?_map, events]

theorem say_apply (m : Message) (s : Session) :
    say m s = ((), { s with messages := s.messages ++ [m] }) :=
  rfl

theorem log_apply (e : Event) (s : Session) :
    (Workspace.log e : StateM Session Unit) s = ((), s.logged [e]) :=
  rfl

theorem bind_apply (x : StateM Session α) (f : α → StateM Session β) (s : Session) :
    (x >>= f) s = f (x s).1 (x s).2 :=
  rfl

theorem logAll_apply (es : List Event) (s : Session) :
    (Workspace.logAll es : StateM Session Unit) s = ((), s.logged es) := by
  induction es generalizing s with
  | nil =>
    rw [logged_nil]
    rfl
  | cons e es ih =>
    rw [Workspace.logAll, bind_apply, log_apply, ih, logged_logged, List.singleton_append]

theorem warnAll_apply (texts : List String) (s : Session) :
    (Workspace.warnAll texts : StateM Session Unit) s =
      ((), { s with messages := s.messages ++ texts.map .warning }) := by
  induction texts generalizing s with
  | nil =>
    rw [List.map_nil, List.append_nil]
    rfl
  | cons text texts ih =>
    rw [Workspace.warnAll, bind_apply, ih, List.map_cons, List.append_cons]
    rfl

end Session

export Session (bind_apply)

def Logs (x : StateM Session α) : Prop :=
  ∀ s, x s = ((runIn s.tree x).1,
    { s.logged (runIn s.tree x).2.events with tree := (runIn s.tree x).2.tree })

structure Observes (x : StateM Session α) : Prop where
  logs : Logs x
  keeps : ∀ t, (runIn t x).2.tree = t

theorem Logs.runIn_eq {x : StateM Session α} (h : Logs x) (t : FileTree) :
    runIn t x = ((runIn t x).1, ⟨(runIn t x).2.tree, (runIn t x).2.events.map .event⟩) :=
  h ⟨t, []⟩

theorem Observes.apply {x : StateM Session α} (h : Observes x) (s : Session) :
    x s = ((runIn s.tree x).1, s.logged (runIn s.tree x).2.events) := by
  rw [h.logs s, h.keeps]
  rfl

theorem runIn_bind (t : FileTree) (x : StateM Session α) {f : α → StateM Session β}
    (hf : ∀ a, Logs (f a)) :
    runIn t (x >>= f) =
      let first := runIn t x
      let second := runIn first.2.tree (f first.1)
      (second.1, { first.2.logged second.2.events with tree := second.2.tree }) :=
  hf _ _

theorem events_runIn_bind (t : FileTree) (x : StateM Session α) {f : α → StateM Session β}
    (hf : ∀ a, Logs (f a)) :
    (runIn t (x >>= f)).2.events =
      (runIn t x).2.events ++ (runIn (runIn t x).2.tree (f (runIn t x).1)).2.events := by
  rw [runIn_bind t x hf]
  exact Session.events_logged _ _

theorem Logs.bind {x : StateM Session α} {f : α → StateM Session β} (hx : Logs x)
    (hf : ∀ a, Logs (f a)) : Logs (x >>= f) := by
  intro s
  rw [bind_apply, hx s, hf, events_runIn_bind _ _ hf, runIn_bind _ _ hf]
  simp only [Session.logged, List.map_append, List.append_assoc]

theorem Observes.bind {x : StateM Session α} {f : α → StateM Session β} (hx : Observes x)
    (hf : ∀ a, Observes (f a)) : Observes (x >>= f) := by
  refine ⟨hx.logs.bind fun a => (hf a).logs, fun t => ?_⟩
  rw [runIn_bind _ _ fun a => (hf a).logs]
  simp only [(hf _).keeps, hx.keeps]

theorem Observes.runIn_bind_fst {x : StateM Session α} {f : α → StateM Session β}
    (hx : Observes x) (hf : ∀ a, Observes (f a)) (t : FileTree) :
    (runIn t (x >>= f)).1 = (runIn t (f (runIn t x).1)).1 := by
  rw [runIn_bind t x fun a => (hf a).logs]
  simp only [hx.keeps]

theorem Observes.runIn_bind_events {x : StateM Session α} {f : α → StateM Session β}
    (hx : Observes x) (hf : ∀ a, Observes (f a)) (t : FileTree) :
    (runIn t (x >>= f)).2.events =
      (runIn t x).2.events ++ (runIn t (f (runIn t x).1)).2.events := by
  rw [events_runIn_bind t x fun a => (hf a).logs, hx.keeps]

theorem Observes.of_adds {x : StateM Session α} (f : FileTree → α × List Event)
    (h : ∀ s, x s = ((f s.tree).1, s.logged (f s.tree).2)) : Observes x := by
  have hevents (t : FileTree) : (runIn t x).2.events = (f t).2 := by
    rw [runIn, h, Session.events_logged]
    rfl
  constructor
  · intro s
    rw [hevents, runIn, h, h]
    rfl
  · intro t
    rw [runIn, h]
    rfl

theorem Observes.of_keeps {x : StateM Session α} (f : FileTree → α)
    (h : ∀ s, x s = (f s.tree, s)) : Observes x := by
  apply Observes.of_adds fun t => (f t, [])
  intro s
  rw [h, Session.logged_nil]

theorem observes_pure (a : α) : Observes (pure a : StateM Session α) :=
  .of_keeps (fun _ => a) fun _ => rfl

theorem observes_log (e : Event) : Observes (Workspace.log e : StateM Session Unit) :=
  .of_adds (fun _ => ((), [e])) fun _ => rfl

theorem observes_pathExists (p : Path) : Observes (Workspace.pathExists p : StateM Session Bool) :=
  .of_keeps (·.pathExists p) fun _ => rfl

theorem readText_apply (p : Path) (s : Session) :
    (Workspace.readText p : StateM Session (Except AccessError String)) s =
      (s.tree.readText p, s) :=
  rfl

theorem observes_readText (p : Path) :
    Observes (Workspace.readText p : StateM Session (Except AccessError String)) :=
  .of_keeps (·.readText p) (readText_apply p)

theorem makeDirectories_apply (p : Path) (s : Session) :
    (Workspace.makeDirectories p : StateM Session (Except AccessError Unit)) s =
      ((s.tree.makeDirectories p).1, { s with tree := (s.tree.makeDirectories p).2 }) :=
  rfl

theorem writeText_apply (p : Path) (text : String) (s : Session) :
    (Workspace.writeText p text : StateM Session (Except AccessError Unit)) s =
      match s.tree.writeBytes p text.toUTF8 with
      | .ok tree => (.ok (), { s with tree })
      | .error cause => (.error cause, s) :=
  rfl

theorem Logs.of_changes {x : StateM Session α} (f : FileTree → α × FileTree)
    (h : ∀ s, x s = ((f s.tree).1, { s with tree := (f s.tree).2 })) : Logs x := by
  intro s
  rw [runIn, h, h]
  show _ = (_, ({ s.logged [] with tree := _ } : Session))
  rw [Session.logged_nil]

theorem logs_makeDirectories (p : Path) :
    Logs (Workspace.makeDirectories p : StateM Session (Except AccessError Unit)) :=
  .of_changes (·.makeDirectories p) (makeDirectories_apply p)

theorem logs_writeText (p : Path) (text : String) :
    Logs (Workspace.writeText p text : StateM Session (Except AccessError Unit)) := by
  refine .of_changes (fun t => match t.writeBytes p text.toUTF8 with
    | .ok tree => (.ok (), tree)
    | .error cause => (.error cause, t)) fun s => ?_
  rw [writeText_apply]
  cases s.tree.writeBytes p text.toUTF8 <;> rfl

theorem runIn_writeText (t : FileTree) (p : Path) (text : String) :
    runIn t (Workspace.writeText p text) =
      match t.writeBytes p text.toUTF8 with
      | .ok u => (.ok (), ⟨u, []⟩)
      | .error cause => (.error cause, ⟨t, []⟩) :=
  writeText_apply p text ⟨t, []⟩

end ServerActions
