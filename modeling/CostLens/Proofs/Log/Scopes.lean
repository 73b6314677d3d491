import CostLens.Command.Execute
import CostLens.Proofs.Files.Frame
import CostLens.Proofs.Run.Basic
import CostLens.Proofs.Text.Utf8
import CostLens.Report.Render

/-! # Contexts as scopes

Contexts, observed operations, messages, failures and handlers of failures can stand within each
other in any way. Whatever they are, each context is left as it was entered, also by a failure, and
what stands in front of a message is decided by the changes around it alone: for each field the
innermost one that gives it counts.
-/
namespace CostLens

/-- An operation with messages about its start and its end, in the context of a language or of
none. -/
def Run.operation (label : Text) (language : Option Text) (body : Run Unit) : Run Unit :=
  Run.within { language := some (language.getD []) } do
    Run.message .debug ("Starting " ++ label)
    Run.onFailure body fun f =>
      Run.message .error ("Failed " ++ label ++ " after 0.000s: " ++ f.message)
    Run.message .debug ("Completed " ++ label ++ " in 0.000s")

theorem Command.observed_eq (i : Invocation) (o : Options) :
    observed i o = Run.operation (i.command.name ++ "_command") o.language (work i o) := rfl

/-- Programs that log messages and fail within contexts. -/
inductive Scoped
  | done
  | andThen (first second : Scoped)
  | within (change : ContextChange) (body : Scoped)
  | operation (label : Text) (language : Option Text) (body : Scoped)
  | log (level : Level) (fields : ContextChange) (text : Text)
  | fail (f : Failure)
  | attempt (body : Scoped) (handle : Failure → Scoped)

/-- A message within changes of the context, the innermost one first. -/
structure Message where
  level : Level
  scopes : List ContextChange
  text : Text

namespace Scoped

def run : Scoped → Run Unit
  | done => pure ()
  | andThen p q => do p.run; q.run
  | within change p => Run.within change p.run
  | operation label language p => Run.operation label language p.run
  | log level fields text => Run.messageWith fields level text
  | fail f => Run.fail f
  | attempt p handle => tryCatch p.run fun f => (handle f).run

/-! ## What is expected -/

/-- How a program ends, whatever the world is. -/
def result : Scoped → Except Failure Unit
  | done => .ok ()
  | andThen p q =>
    match p.result with
    | .ok () => q.result
    | .error f => .error f
  | within _ p => p.result
  | operation _ _ p => p.result
  | log _ _ _ => .ok ()
  | fail f => .error f
  | attempt p handle =>
    match p.result with
    | .ok () => .ok ()
    | .error f => (handle f).result

/-- The last message of an operation. -/
def closing (label : Text) (scopes : List ContextChange) : Except Failure Unit → Message
  | .ok () => ⟨.debug, scopes, "Completed " ++ label ++ " in 0.000s"⟩
  | .error f => ⟨.error, scopes, "Failed " ++ label ++ " after 0.000s: " ++ f.message⟩

/-- The messages of a program within changes of the context. -/
def messages : Scoped → List ContextChange → List Message
  | done, _ => []
  | andThen p q, scopes =>
    match p.result with
    | .ok () => p.messages scopes ++ q.messages scopes
    | .error _ => p.messages scopes
  | within change p, scopes => p.messages (change :: scopes)
  | operation label language p, scopes =>
    let inner := { language := some (language.getD []) } :: scopes
    ⟨.debug, inner, "Starting " ++ label⟩ :: p.messages inner ++ [closing label inner p.result]
  | log level fields text, scopes => [⟨level, fields :: scopes, text⟩]
  | fail _, _ => []
  | attempt p handle, scopes =>
    match p.result with
    | .ok () => p.messages scopes
    | .error f => p.messages scopes ++ (handle f).messages scopes

end Scoped

namespace Context

/-- The fields of a context within changes, the innermost one first: each is the first one that is
given, or the one of the context itself. -/
def merged (base : Context) (scopes : List ContextChange) : Context where
  document := (scopes.findSome? (·.document)).getD base.document
  function := (scopes.findSome? (·.function)).getD base.function
  language := (scopes.findSome? (·.language)).getD base.language

theorem apply_merged (base : Context) (scopes : List ContextChange) (change : ContextChange) :
    (base.merged scopes).apply change = base.merged (change :: scopes) := by
  obtain ⟨document, function, language⟩ := change
  cases document <;> cases function <;> cases language <;> rfl

/-- A field in front of a message, unless it stands for nothing. -/
def shownField (name value : Text) : List Text :=
  if value = [] then [] else [name ++ "=" ++ value]

/-- What stands in front of a message. -/
def front (c : Context) : Text :=
  match shownField "document" c.document ++ shownField "function" c.function ++
    shownField "language" c.language with
  | [] => []
  | shown => "[" ++ joinWith ", " shown ++ "] "

theorem text_eq_front (c : Context) : c.text = c.front := by
  obtain ⟨document, function, language⟩ := c
  cases document <;> cases function <;> cases language <;> rfl

/-- The change in between hides the function, and what is innermost gives nothing. -/
example : (merged {} [{}, { function := some [] },
    { document := some "d", function := some "f" }]).front = "[document=d] " := by decide

end Context

/-- The name of a level in eight columns. -/
def Level.column : Level → Text
  | debug => "DEBUG   "
  | info => "INFO    "
  | warning => "WARNING "
  | error => "ERROR   "

namespace Message

/-- A message in a line of a log file. -/
def fileLine (start : Text) (base : Context) (m : Message) : Text :=
  start ++ m.level.column ++ " " ++ (base.merged m.scopes).front ++ m.text ++ "\n"

end Message

namespace Log

theorem line_eq (level : Level) (context message : Text) :
    line level context message = level.column ++ " " ++ context ++ message ++ "\n" := by
  cases level <;> rfl

/-- Whether a message is shown on the console. -/
def shows (l : Log) (m : Message) : Bool :=
  match l.channel with
  | .console least _ => decide (least.rank ≤ m.level.rank)
  | _ => false

/-- A message as it is shown on the console, if it is. -/
def shown? (l : Log) (base : Context) (m : Message) : Option Event :=
  if l.shows m then some (.log m.level (base.merged m.scopes).front m.text) else none

/-- The files with a message in the log file, if there is one. -/
def written (l : Log) (start : Text) (base : Context) (fs : FileSystem) (m : Message) :
    FileSystem :=
  match l.channel with
  | .console _ (some names) => Run.appendLine fs names (m.fileLine start base)
  | _ => fs

section File
variable {l : Log} {least : Level} {names : List Text} {fs : FileSystem} {content : Bytes}

end File

theorem ensured_ensured (l : Log) : l.ensured.ensured = l.ensured := by
  unfold ensured
  split <;> rfl

@[simp] theorem contexts_ensured (l : Log) : l.ensured.contexts = l.contexts := by
  unfold ensured
  split <;> rfl

@[simp] theorem current_ensured (l : Log) : l.ensured.current = l.current := by
  rw [current, contexts_ensured, current]

@[simp] theorem current_enter (l : Log) (change : ContextChange) :
    (l.enter change).current = l.current.apply change := rfl

theorem ensured_enter (l : Log) (change : ContextChange) :
    (l.enter change).ensured = l.ensured.enter change := by
  have hchannel : (l.enter change).channel = l.channel := by rfl
  unfold ensured
  rw [hchannel]
  split <;> rfl

end Log

/-- The world after messages: the console shows those from its level on, the log file has all of
them, and nothing else is changed. -/
def World.heard (w : World) (base : Context) (ms : List Message) : World :=
  { w with
    log := if ms.isEmpty then w.log else w.log.ensured
    events := w.events ++ ms.filterMap (w.log.ensured.shown? base)
    files := ms.foldl (w.log.ensured.written w.lineStart base) w.files }

namespace World

variable {w : World} {base : Context} {scopes : List ContextChange}

theorem heard_nil (w : World) (base : Context) : w.heard base [] = w := by
  simp [heard]

theorem ensured_heard (w : World) (base : Context) (ms : List Message) :
    (w.heard base ms).log.ensured = w.log.ensured := by
  unfold heard
  cases ms with
  | nil => rfl
  | cons m ms => exact w.log.ensured_ensured

theorem contexts_heard (w : World) (base : Context) (ms : List Message) :
    (w.heard base ms).log.contexts = w.log.contexts := by
  rw [← Log.contexts_ensured, ensured_heard, Log.contexts_ensured]

theorem current_heard (w : World) (base : Context) (ms : List Message) :
    (w.heard base ms).log.current = w.log.current := by
  rw [Log.current, contexts_heard, Log.current]

theorem heard_append (w : World) (base : Context) (ms ms' : List Message) :
    (w.heard base ms).heard base ms' = w.heard base (ms ++ ms') := by
  have hensured := ensured_heard w base ms
  have hlog : (if ms'.isEmpty then (w.heard base ms).log else w.log.ensured) =
      if (ms ++ ms').isEmpty then w.log else w.log.ensured := by
    cases ms <;> cases ms' <;> rfl
  rw [heard, hensured, hlog]
  simp [heard, List.filterMap_append, List.foldl_append]

theorem logged_eq (h : w.log.current = base.merged scopes) (level : Level) (text : Text) :
    Run.logged w level text = w.heard base [⟨level, scopes, text⟩] := by
  have hfront : w.log.ensured.current.text = (base.merged scopes).front := by
    rw [Log.current_ensured, h, Context.text_eq_front]
  have hline : w.lineStart ++ Log.line level (base.merged scopes).front text =
      Message.fileLine w.lineStart base ⟨level, scopes, text⟩ := by
    simp only [Log.line_eq, Message.fileLine, List.append_assoc]
  rw [Run.logged, hfront]
  simp only [hline]
  cases hchannel : w.log.ensured.channel with
  | unset => simp [heard, Log.shown?, Log.shows, Log.written, hchannel]
  | silent => simp [heard, Log.shown?, Log.shows, Log.written, hchannel]
  | console least file =>
    cases file <;> by_cases hrank : least.rank ≤ level.rank <;>
      simp [heard, Log.shown?, Log.shows, Log.written, hchannel, hrank]

theorem leave_heard_enter (w : World) (base : Context) (change : ContextChange)
    (ms : List Message) :
    let after := World.heard { w with log := w.log.enter change } base ms
    { after with log := after.log.leave } = w.heard base ms := by
  have hlog : (if ms.isEmpty then w.log.enter change else w.log.ensured.enter change).leave =
      if ms.isEmpty then w.log else w.log.ensured := by
    cases ms <;> rfl
  simp only [heard, Log.ensured_enter, hlog]
  rfl

end World

/-- Steps that end in one way and log the same messages wherever they are taken within changes. -/
def Logs (base : Context) (scopes : List ContextChange) (x : Run Unit) (r : Except Failure Unit)
    (ms : List Message) : Prop :=
  ∀ w : World, w.log.current = base.merged scopes → x w = (r, w.heard base ms)

namespace Logs

variable {base : Context} {scopes : List ContextChange} {x y : Run Unit} {f : Failure}
  {r : Except Failure Unit} {ms ms' : List Message}

theorem done : Logs base scopes (pure ()) (.ok ()) [] := by
  intro w _
  rw [World.heard_nil, Run.pure_apply]

theorem fail (f : Failure) : Logs base scopes (Run.fail f) (.error f) [] := by
  intro w _
  rw [World.heard_nil, Run.fail_apply]

theorem message (level : Level) (text : Text) :
    Logs base scopes (Run.message level text) (.ok ()) [⟨level, scopes, text⟩] := by
  intro w h
  rw [Run.message_apply, World.logged_eq h]

theorem within {change : ContextChange} (hx : Logs base (change :: scopes) x r ms) :
    Logs base scopes (Run.within change x) r ms := by
  intro w h
  have hinner : (w.log.enter change).current = base.merged (change :: scopes) := by
    rw [Log.current_enter, h, Context.apply_merged]
  rw [Run.within, hx { w with log := w.log.enter change } hinner]
  exact congrArg (Prod.mk r) (World.leave_heard_enter w base change ms)

theorem andThen (hx : Logs base scopes x (.ok ()) ms) (hy : Logs base scopes y r ms') :
    Logs base scopes (do x; y) r (ms ++ ms') := by
  intro w h
  rw [Run.bind_of_ok (hx w h), hy _ ((World.current_heard ..).trans h), World.heard_append]

theorem andThen_of_error (hx : Logs base scopes x (.error f) ms) :
    Logs base scopes (do x; y) (.error f) ms := by
  intro w h
  exact Run.bind_of_error (hx w h)

theorem tryCatch_of_ok {handle : Failure → Run Unit} (hx : Logs base scopes x (.ok ()) ms) :
    Logs base scopes (tryCatch x handle) (.ok ()) ms := by
  intro w h
  rw [Run.tryCatch_apply, hx w h]

theorem tryCatch_of_error {handle : Failure → Run Unit} (hx : Logs base scopes x (.error f) ms)
    (hf : Logs base scopes (handle f) r ms') :
    Logs base scopes (tryCatch x handle) r (ms ++ ms') := by
  intro w h
  rw [Run.tryCatch_apply, hx w h]
  exact (hf _ ((World.current_heard ..).trans h)).trans (by rw [World.heard_append])

theorem operation {label : Text} {language : Option Text}
    (hx : Logs base ({ language := some (language.getD []) } :: scopes) x r ms) :
    Logs base scopes (Run.operation label language x) r
      (⟨.debug, { language := some (language.getD []) } :: scopes, "Starting " ++ label⟩ :: ms ++
        [Scoped.closing label ({ language := some (language.getD []) } :: scopes) r]) := by
  apply within
  apply (message .debug ("Starting " ++ label)).andThen
  cases r with
  | ok u => exact hx.tryCatch_of_ok.andThen (message .debug _)
  | error f => exact (hx.tryCatch_of_error ((message .error _).andThen (fail f))).andThen_of_error

end Logs

namespace Scoped

theorem logs (p : Scoped) (base : Context) (scopes : List ContextChange) :
    Logs base scopes p.run p.result (p.messages scopes) := by
  induction p generalizing scopes with
  | done => exact Logs.done
  | fail f => exact Logs.fail f
  | within change p ih => exact (ih (change :: scopes)).within
  | log level fields text => exact (Logs.message level text).within
  | andThen p q ihp ihq =>
    have hp := ihp scopes
    rw [run, result, messages]
    cases hr : p.result with
    | ok u => exact (hr ▸ hp).andThen (ihq scopes)
    | error f => exact (hr ▸ hp).andThen_of_error
  | attempt p handle ihp ihh =>
    have hp := ihp scopes
    rw [run, result, messages]
    cases hr : p.result with
    | ok u => exact (hr ▸ hp).tryCatch_of_ok
    | error f => exact (hr ▸ hp).tryCatch_of_error (ihh f scopes)
  | operation label language p ih => exact (ih _).operation

end Scoped

end CostLens
