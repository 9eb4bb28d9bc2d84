import StateEngine.Proofs.Logging.Writing

/-! What a whole history of logging requests writes. A record is written by the configuration in force when
it was logged, whether at once or through the queue, and by no other. A listener that has stopped leaves its
queue at the root: what is logged from then on is taken by nobody until the next configuration. -/
namespace StateEngine.Logging

/-- What can be asked of logging. -/
inductive Request where
  | configure (o : Settings.LoggingOptions)
  | setup (env : Settings.Environment)
  | shutdown
  | log (level : Int) (r : LogRecord) (extras : List (Value × Value))

/-- Serves a request. A record that is refused leaves everything as it was. -/
def Pipeline.serve (p : Pipeline) : Request → Except Fault Unit × Pipeline
  | .configure o => p.configure o
  | .setup env => p.setup env
  | .shutdown => (.ok (), p.shutdown)
  | .log level r extras =>
    match p.log level r extras with
    | .ok q => (.ok (), q)
    | .error f => (.error f, p)

def Pipeline.serveAll (p : Pipeline) (requests : List Request) : Pipeline :=
  requests.foldl (fun p request => (p.serve request).2) p

/-- A configuration: the least level it lets through, the layout of the console, and a file, if there is
one, with its layout. -/
structure Setup where
  level : Int
  console : Layout
  file : Option (Path × Layout)

namespace Setup

/-- The path that an option names, if any. -/
def pathOf (path : Value) : Except Fault (Option Path) :=
  if !path.truthy then .ok none
  else match path.text? with
    | none => .error .wrongType
    | some s => .ok (some (Path.resolve (Path.components s)))

/-- What options ask for. -/
def ofOptions (o : Settings.LoggingOptions) : Except Fault Setup := do
  let word ← Pipeline.levelWord o.levelName
  let console ← Pipeline.layoutOf o.consoleFormat
  let path ← pathOf o.filePath
  let file ← path.mapM (fun path => (Pipeline.layoutOf o.fileFormat).map (path, ·))
  let level ← Pipeline.levelOf word
  return ⟨level, console, file⟩

/-- How a record comes to the handlers: as it is, or by the queue of a file. -/
def carried (s : Setup) (r : LogRecord) : Except Fault LogRecord :=
  match s.file with
  | none => .ok r
  | some _ => Pipeline.prepared r

end Setup

/-- A plain line is the same by either way: the queue fills the message in, and so does the line. -/
theorem Setup.plainLine_carried {s : Setup} {r q : LogRecord} (h : s.carried r = .ok q) (time : String) :
    q.plainLine time = r.plainLine time := by
  obtain ⟨least, console, _ | file⟩ := s
  · cases h
    rfl
  · simp only [carried, Pipeline.prepared] at h
    cases ht : r.fullMessage with
    | error f => rw [ht] at h; cases h
    | ok text =>
      rw [ht] at h
      cases h
      -- The extra that would take the place of the message is not there, since the message could be filled in.
      have own : r.extras.any (fun e => e.1.same (.text "getMessage")) = false := by
        refine Bool.eq_false_iff.mpr (fun taken => ?_)
        simp only [LogRecord.fullMessage, LogRecord.message, taken] at ht
        cases ht
      have filled : LogRecord.fullMessage { r with template := .text text, arguments := .null, exception := .none } =
          .ok text := by
        simp only [LogRecord.fullMessage, LogRecord.message, own]
        rfl
      rw [LogRecord.plainLine, LogRecord.plainLine, filled, ht]

/-- How logging stands: without any handler, with a configuration in force, or with a configuration whose
listener has stopped while its queue is still there. -/
inductive Regime where
  | bare (level : Int)
  | inForce (s : Setup)
  | cut (level : Int)

namespace Regime

def level : Regime → Int
  | bare n | cut n => n
  | inForce s => s.level

/-- The handlers at the root. -/
def handlers : Regime → List Handler
  | bare _ => []
  | inForce s => if s.file.isSome then [.queue] else [.direct (.console s.console)]
  | cut _ => [.queue]

/-- The sinks of the listener that runs, if one does. -/
def listener : Regime → Option (List Sink)
  | inForce s => s.file.map (fun file => [.console s.console, .file file.1 file.2])
  | _ => none

/-- Where a stop leads: a configuration for the console alone has no listener and stays in force. -/
def stopped : Regime → Regime
  | inForce s => if s.file.isSome then cut s.level else inForce s
  | g => g

/-- Where a configuration leads. One that fails has stopped the listener before it, and at times has taken
the handlers away as well. -/
def configured (g : Regime) (o : Settings.LoggingOptions) : Except Fault Unit × Pipeline → Regime
  | (.ok _, _) =>
    match Setup.ofOptions o with
    | .ok s => inForce s
    | .error _ => g.stopped
  | (.error _, p) => if p.handlers.isEmpty then bare g.level else g.stopped

/-- Where a request with its outcome leads. The environment counts only where there is no handler. -/
def after (g : Regime) (request : Request) (outcome : Except Fault Unit × Pipeline) : Regime :=
  match request with
  | .configure o => g.configured o outcome
  | .setup env =>
    match g, env.loggingOptions with
    | bare _, .ok o => g.configured o outcome
    | _, _ => g
  | .shutdown => g.stopped
  | .log .. => g

/-- The root level lets through what is at it or above it, but nothing from zero down. -/
def lets (g : Regime) (level : Int) : Prop := 0 < level ∧ g.level ≤ level

instance (g : Regime) (level : Int) : Decidable (g.lets level) := inferInstanceAs (Decidable (_ ∧ _))

end Regime

/-- A record that was let through, with the level and the regime that it was logged under. -/
structure Logged where
  regime : Regime
  level : Int
  record : LogRecord

namespace Logged

/-- What the console shows of a record: its line in the layout of the configuration in force, or its
message alone where nothing was configured and it is a warning or worse. -/
def onConsole (time : String) (e : Logged) : String :=
  match e.regime with
  | .bare _ => if e.level < 30 then "" else ended e.record.fullMessage
  | .inForce s => ended (s.carried e.record >>= s.console.write time)
  | .cut _ => ""

/-- What a file has of a record: its line, if the configuration in force names that file. -/
def onFile (time : String) (path : Path) (e : Logged) : String :=
  match e.regime with
  | .inForce s =>
    match s.file with
    | some (file, layout) => if file = path then ended (s.carried e.record >>= layout.write time) else ""
    | none => ""
  | _ => ""

end Logged

/-- The record that a request logs, if it is one that is let through. Extras under a record's own names
are refused. -/
def Request.logged (g : Regime) : Request → List Logged
  | .log level r extras =>
    if g.lets level ∧ ¬ extras.any (fun e => e.1.text?.any reservedNames.contains) then
      [⟨g, level, extras.foldl (fun r e => r.setAttribute e.1 e.2) r⟩]
    else []
  | _ => []

/-- The records that requests log, in their order. -/
def Pipeline.ledger (p : Pipeline) (g : Regime) : List Request → List Logged
  | [] => []
  | request :: rest =>
    request.logged g ++ (p.serve request).2.ledger (g.after request (p.serve request)) rest

/-- Where requests lead one after the other. -/
def Pipeline.regime (p : Pipeline) (g : Regime) : List Request → Regime
  | [] => g
  | request :: rest => (p.serve request).2.regime (g.after request (p.serve request)) rest

/-- A request that keeps a configuration in force. A stop does so where there is no file. -/
def Request.Keeps (s : Setup) : Request → Prop
  | .configure _ => False
  | .shutdown => s.file = none
  | .setup _ | .log .. => True

namespace Pipeline

/-- A pipeline stands as a regime says. -/
structure Follows (p : Pipeline) (g : Regime) : Prop where
  level : p.level = g.level
  handlers : p.handlers = g.handlers
  listener : p.listener = g.listener

theorem Follows.shutdown {p : Pipeline} {g : Regime} (h : p.Follows g) : p.shutdown.Follows g.stopped := by
  obtain ⟨-, level, handlers, listener⟩ := p.shutdown_keeps
  have stopped : g.stopped.level = g.level ∧ g.stopped.handlers = g.handlers ∧
      g.stopped.listener = none := by
    cases g with
    | bare n => exact ⟨rfl, rfl, rfl⟩
    | cut n => exact ⟨rfl, rfl, rfl⟩
    | inForce s => cases hf : s.file <;> simp [Regime.stopped, Regime.level, Regime.handlers, Regime.listener, hf]
  exact ⟨by rw [level, h.level, stopped.1], by rw [handlers, h.handlers, stopped.2.1],
    by rw [listener, stopped.2.2]⟩

theorem preparePath_ok {files made : Files} {v : Value} {path : Option Path}
    (h : preparePath files v = .ok (path, made)) : Setup.pathOf v = .ok path ∧ files.Extends made := by
  simp only [preparePath, Files.makeDirectory] at h
  unfold Setup.pathOf
  split at h
  · cases h
    exact ⟨by simp [*], .refl _⟩
  · cases hs : v.text? with
    | none => simp [hs] at h
    | some s =>
      simp only [hs] at h
      cases hm : Files.makeAlong files [] (Path.components s).dropLast with
      | error f =>
        rw [hm] at h
        cases h
      | ok made =>
        rw [hm] at h
        cases h
        exact ⟨by simp [*], Files.makeAlong_extends hm⟩

/-- How a configuration can end: it fails with the handlers as they were or with none, or what the options
ask for is in force. -/
theorem configure_cases (p : Pipeline) (o : Settings.LoggingOptions) :
    ∃ files, p.shutdown.files.Extends files ∧
      ((∃ f handlers, (handlers = p.shutdown.handlers ∨ handlers = []) ∧
          p.configure o = (.error f, { p.shutdown with files := files, handlers := handlers })) ∨
        ∃ s, Setup.ofOptions o = .ok s ∧ p.configure o =
          (.ok (), ({ p.shutdown with files := files } : Pipeline).install s.level (.console s.console)
            (s.file.map (fun file => .file file.1 file.2)))) := by
  simp only [configure, Setup.ofOptions]
  cases levelWord o.levelName with
  | error f => exact ⟨_, .refl _, .inl ⟨f, _, .inl rfl, rfl⟩⟩
  | ok word =>
    cases layoutOf o.consoleFormat with
    | error f => exact ⟨_, .refl _, .inl ⟨f, _, .inl rfl, rfl⟩⟩
    | ok layout =>
      cases hp : preparePath p.shutdown.files o.filePath with
      | error f => exact ⟨_, .refl _, .inl ⟨f, _, .inl rfl, rfl⟩⟩
      | ok prepared =>
        obtain ⟨path, files⟩ := prepared
        obtain ⟨hpath, hmade⟩ := preparePath_ok hp
        refine ⟨files, hmade, ?_⟩
        simp only [hpath, bind, Except.bind, pure, Except.pure]
        -- The handlers go between the formatters and the level.
        cases path with
        | none =>
          cases levelOf word with
          | error f => exact .inl ⟨f, [], .inr rfl, rfl⟩
          | ok level => exact .inr ⟨⟨level, layout, none⟩, rfl, rfl⟩
        | some path =>
          cases layoutOf o.fileFormat with
          | error f => exact .inl ⟨f, _, .inl rfl, rfl⟩
          | ok fileLayout =>
            cases levelOf word with
            | error f => exact .inl ⟨f, [], .inr rfl, rfl⟩
            | ok level => exact .inr ⟨⟨level, layout, some (path, fileLayout)⟩, rfl, rfl⟩

/-- A configuration writes nothing by itself, and leads where its regime says. -/
theorem configure_grows {p : Pipeline} {g : Regime} (h : p.Follows g) (o : Settings.LoggingOptions) :
    (p.configure o).2.Follows (g.configured o (p.configure o)) ∧
      p.shutdown.Grows (p.configure o).2.shutdown "" (fun _ => "") := by
  have stopped := h.shutdown
  have idle : p.shutdown.listener = none := p.shutdown_keeps.2.2.2
  obtain ⟨files, hfiles, ⟨f, handlers, which, ho⟩ | ⟨s, hs, ho⟩⟩ := p.configure_cases o
  · rw [ho]
    refine ⟨?_, ?_⟩
    · by_cases hn : handlers.isEmpty = true
      · simp only [Regime.configured, hn, if_true]
        exact ⟨p.shutdown_keeps.2.1.trans h.level, List.isEmpty_iff.mp hn, idle⟩
      · simp only [Regime.configured, hn]
        obtain rfl | rfl := which
        · exact ⟨stopped.level, stopped.handlers, stopped.listener⟩
        · exact absurd rfl hn
    · exact Grows.idle (.nothing rfl rfl hfiles.texts hfiles.directories) idle
  · rw [ho]
    obtain ⟨level, console, file⟩ := s
    simp only [Regime.configured, hs]
    cases file with
    | none =>
      exact ⟨⟨rfl, rfl, idle⟩, Grows.idle (.nothing rfl rfl hfiles.texts hfiles.directories) idle⟩
    | some file =>
      -- The queue is a new one, so the listener has nothing to take.
      exact ⟨⟨rfl, rfl, rfl⟩, .nothing rfl rfl hfiles.texts hfiles.directories⟩

/-- A record that is let through is written as its regime says. -/
theorem emit_grows {p : Pipeline} {g : Regime} (h : p.Follows g) {level : Int} (hl : g.lets level)
    (r : LogRecord) :
    (p.emit level r).Follows g ∧ p.shutdown.Grows (p.emit level r).shutdown
      ((Logged.mk g level r).onConsole p.time) (fun path => (Logged.mk g level r).onFile p.time path) := by
  have enabled : p.enabled level = true := by
    simpa [Pipeline.enabled, h.level] using And.intro hl.1 hl.2
  have idle (hn : g.listener = none) : p.shutdown = p := shutdown_of_idle (h.listener.trans hn)
  simp only [emit, enabled, Bool.not_true, Bool.false_eq_true, if_false]
  have handlers := h.handlers
  cases g with
  | bare n =>
    rw [handlers, idle rfl]
    simp only [Regime.handlers, List.isEmpty_nil, if_true, lastResort, Logged.onConsole, Logged.onFile]
    by_cases low : level < 30
    · simp only [low, if_true]
      exact ⟨h, .idle (.same rfl rfl rfl) h.listener⟩
    · simp only [low, if_false]
      cases r.fullMessage with
      | error f => exact ⟨h, .idle (.same rfl rfl rfl) h.listener⟩
      | ok text =>
        exact ⟨⟨h.level, handlers, h.listener⟩,
          .idle ⟨rfl, by simp [ended, String.append_assoc], fun _ h => h, fun _ _ => by simp⟩ h.listener⟩
  | cut n =>
    rw [handlers, idle rfl]
    simp only [Regime.handlers, List.isEmpty_cons, Bool.false_eq_true, if_false, List.foldl_cons,
      List.foldl_nil, handle]
    cases prepared r with
    | error f => exact ⟨h, .idle (.same rfl rfl rfl) h.listener⟩
    | ok carried => exact ⟨⟨h.level, handlers, h.listener⟩, .idle (.same rfl rfl rfl) h.listener⟩
  | inForce s =>
    obtain ⟨least, console, _ | ⟨file, layout⟩⟩ := s
    · rw [handlers, idle rfl]
      simp only [Regime.handlers, Option.isSome_none, Bool.false_eq_true, if_false, List.isEmpty_cons,
        List.foldl_cons, List.foldl_nil, handle]
      obtain ⟨text, files, hw⟩ := writeTo_writes r p (.console console)
      have listener : (p.writeTo r (.console console)).listener = none := by
        rw [hw]
        exact h.listener
      exact ⟨⟨by rw [hw]; exact h.level, by rw [hw]; exact handlers, listener⟩,
        (writeTo_console r p console).idle listener⟩
    · rw [handlers]
      simp only [Regime.handlers, Option.isSome_some, if_true, List.isEmpty_cons, Bool.false_eq_true, if_false,
        List.foldl_cons, List.foldl_nil, handle, Logged.onConsole, Logged.onFile, Setup.carried]
      cases prepared r with
      | error f =>
        exact ⟨h, by simpa [ended, bind, Except.bind] using Grows.same (p := p.shutdown) rfl rfl rfl⟩
      | ok carried => exact ⟨⟨h.level, handlers, h.listener⟩, queue_grows h.listener carried⟩

/-- The environment counts only where there is no handler. -/
theorem setup_grows {p : Pipeline} {g : Regime} (h : p.Follows g) (env : Settings.Environment) :
    (p.setup env).2.Follows (g.after (.setup env) (p.setup env)) ∧
      p.shutdown.Grows (p.setup env).2.shutdown "" (fun _ => "") := by
  have handlers := h.handlers
  have unchanged (hs : (p.setup env).2 = p) (hg : g.after (.setup env) (p.setup env) = g) :
      (p.setup env).2.Follows (g.after (.setup env) (p.setup env)) ∧
        p.shutdown.Grows (p.setup env).2.shutdown "" (fun _ => "") := by
    rw [hg, hs]
    exact ⟨h, .same rfl rfl rfl⟩
  cases g with
  | cut n => exact unchanged (by simp [setup, handlers, Regime.handlers]) rfl
  | inForce s =>
    exact unchanged (by cases hf : s.file <;> simp [setup, handlers, Regime.handlers, hf]) rfl
  | bare n =>
    have empty : p.handlers.isEmpty = true := by rw [handlers]; rfl
    cases ho : env.loggingOptions with
    | error f => exact unchanged (by simp [setup, empty, ho]) (by simp [Regime.after, ho])
    | ok o =>
      have configured : p.setup env = p.configure o := by simp [setup, empty, ho]
      simp only [Regime.after, ho, configured]
      exact configure_grows h o

theorem log_grows {p : Pipeline} {g : Regime} (h : p.Follows g) (level : Int) (r : LogRecord)
    (extras : List (Value × Value)) :
    (p.serve (.log level r extras)).2.Follows g ∧
      p.shutdown.Grows (p.serve (.log level r extras)).2.shutdown
        (joined (((Request.log level r extras).logged g).map (fun e => e.onConsole p.time)))
        (fun path => joined (((Request.log level r extras).logged g).map (fun e => e.onFile p.time path))) := by
  have enabled : p.enabled level = decide (g.lets level) := by
    simp only [Pipeline.enabled, h.level]
    rfl
  simp only [serve, log, enabled, Request.logged]
  by_cases lets : g.lets level
  · by_cases reserved : extras.any (fun e => e.1.text?.any reservedNames.contains) = true
    · simp only [lets, reserved]
      exact ⟨h, .same rfl rfl rfl⟩
    · simpa [lets, reserved, joined] using emit_grows h lets (extras.foldl (fun r e => r.setAttribute e.1 e.2) r)
  · simp only [lets]
    exact ⟨h, .same rfl rfl rfl⟩

/-- One request writes what it logs, and leads where its regime says. -/
theorem serve_grows {p : Pipeline} {g : Regime} (h : p.Follows g) (request : Request) :
    (p.serve request).2.Follows (g.after request (p.serve request)) ∧
      p.shutdown.Grows (p.serve request).2.shutdown
        (joined ((request.logged g).map (fun e => e.onConsole p.time)))
        (fun path => joined ((request.logged g).map (fun e => e.onFile p.time path))) := by
  cases request with
  | configure o => exact configure_grows h o
  | setup env => exact setup_grows h env
  | shutdown =>
    refine ⟨h.shutdown, ?_⟩
    rw [show (p.serve .shutdown).2 = p.shutdown from rfl, shutdown_shutdown]
    exact .same rfl rfl rfl
  | log level r extras => exact log_grows h level r extras

theorem serveAll_grows {p : Pipeline} {g : Regime} (h : p.Follows g) (requests : List Request) :
    p.shutdown.Grows (p.serveAll requests).shutdown
      (joined ((p.ledger g requests).map (fun e => e.onConsole p.time)))
      (fun path => joined ((p.ledger g requests).map (fun e => e.onFile p.time path))) := by
  induction requests generalizing p g with
  | nil => exact .same rfl rfl rfl
  | cons request rest ih =>
    obtain ⟨follows, step⟩ := serve_grows h request
    have run := ih follows
    have time : (p.serve request).2.time = p.time := by
      have := step.time
      rwa [(shutdown_keeps _).1, (shutdown_keeps _).1] at this
    rw [time] at run
    simpa only [ledger, serveAll, List.foldl_cons, List.map_append, joined_append] using step.trans run

end Pipeline

/-- A message of one logger at the middle level. -/
def note (text : String) : Request :=
  .log 20 (.make (.text "app") (.text "INFO") (.text text) [] .none) []

end StateEngine.Logging
