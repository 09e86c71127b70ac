import ServerActions.CommandLine.Run
import ServerActions.Proofs.Workspace.Sessions

namespace ServerActions.CommandLine

variable {verbose : Bool}

theorem traceText_cons (e : Event) (es : List Event) :
    traceText verbose (e :: es) = (Message.event e).err verbose ++ traceText verbose es := by
  cases verbose with
  | false => rfl
  | true => exact String.join_cons

theorem traceText_append (es es' : List Event) :
    traceText verbose (es ++ es') = traceText verbose es ++ traceText verbose es' := by
  cases verbose with
  | false => rfl
  | true => simp [traceText]

theorem errText_append (ms ms' : List Message) :
    errText verbose (ms ++ ms') = errText verbose ms ++ errText verbose ms' := by
  simp [errText]

theorem outText_append (ms ms' : List Message) :
    outText (ms ++ ms') = outText ms ++ outText ms' := by
  simp [outText]

theorem errText_events (es : List Event) :
    errText verbose (es.map .event) = traceText verbose es := by
  induction es with
  | nil => cases verbose <;> rfl
  | cons e es ih =>
    rw [traceText_cons, ← ih]
    exact String.join_cons

theorem outText_map {α : Type} {message : α → Message} (h : ∀ x, (message x).out = "")
    (xs : List α) : outText (xs.map message) = "" := by
  induction xs with
  | nil => rfl
  | cons x xs ih =>
    rw [List.map_cons, outText, List.map_cons, String.join_cons, ← outText, ih, h]
    rfl

theorem outText_events (es : List Event) : outText (es.map .event) = "" :=
  outText_map (fun _ => rfl) es

def closing (output : Generation → String) : Except Failure Generation → List Message
  | .ok m => (diagnostics m).map .warning ++ [.output (output m)]
  | .error reason => [.warning reason.message]

def warnings : Except Failure Generation → String
  | .ok m => String.join ((diagnostics m).map warningLine)
  | .error reason => warningLine reason.message

def printed (output : Generation → String) : Except Failure Generation → String
  | .ok m => output m
  | .error _ => ""

theorem events_closing (output : Generation → String) (outcome : Except Failure Generation) :
    (closing output outcome).filterMap Message.event? = [] := by
  rw [List.filterMap_eq_nil_iff]
  intro m hm
  cases outcome with
  | error reason =>
    obtain rfl := List.mem_singleton.mp hm
    rfl
  | ok g =>
    simp only [closing, List.mem_append, List.mem_map, List.mem_singleton] at hm
    rcases hm with ⟨text, -, rfl⟩ | rfl <;> rfl

theorem errText_closing (output : Generation → String) (outcome : Except Failure Generation) :
    errText verbose (closing output outcome) = warnings outcome := by
  cases outcome with
  | error reason => exact String.empty_append
  | ok m =>
    rw [closing, errText_append, errText, List.map_map]
    exact String.append_empty

theorem outText_closing (output : Generation → String) (outcome : Except Failure Generation) :
    outText (closing output outcome) = printed output outcome := by
  cases outcome with
  | error reason => rfl
  | ok m =>
    rw [closing, outText_append, outText_map fun _ => rfl, String.empty_append]
    exact String.empty_append

theorem announce_apply (output : Generation → String) (outcome : Except Failure Generation)
    (s : Session) :
    (announce output outcome >>= fun result => do
      warnFailure result
      return result : StateM Session (Except Failure Unit)) s =
        (outcome.map fun _ => (), { s with messages := s.messages ++ closing output outcome }) := by
  cases outcome with
  | error reason => rfl
  | ok m =>
    have hsaid : (announce output (.ok m) >>= fun result => do
        warnFailure result
        return result : StateM Session (Except Failure Unit)) s =
      (.ok (), ((Workspace.print (output m) : StateM Session Unit)
        ((Workspace.warnAll (diagnostics m) : StateM Session Unit) s).2).2) := rfl
    rw [hsaid, Session.warnAll_apply, closing, ← List.append_assoc]
    rfl

end ServerActions.CommandLine
