import StateEngine.Proofs.Logging.Delivery

/-! What a configuration that fails leaves behind. -/
namespace StateEngine.Logging

/-- The level name is that of something in logging that is no level: the format of lines, or the table of styles. -/
def NamesNoLevel (level : Value) : Prop :=
  ∃ s, level.text? = some s ∧ (Text.upper s = "BASIC_FORMAT" ∨ Text.upper s = "_STYLES")

/-- A request that logs a record. -/
def Request.Logs : Request → Prop
  | .log .. => True
  | _ => False

/-- A regime that no listener runs in is not changed by a stop. -/
theorem Regime.stopped_of_idle {g : Regime} (h : g.listener = none) : g.stopped = g := by
  cases g with
  | bare n | cut n => rfl
  | inForce s =>
    have : s.file = none := by simpa [listener] using h
    simp [stopped, this]

/-- With its listener a configuration loses everything: its queue is left at the root. -/
theorem Regime.stopped_of_listening {g : Regime} (h : g.listener ≠ none) : g.stopped = cut g.level := by
  cases g with
  | bare n | cut n => exact absurd rfl h
  | inForce s =>
    have : s.file.isSome = true := by
      rw [Option.isSome_iff_ne_none]
      intro hn
      exact h (by simp [listener, hn])
    simp [stopped, this, level]

namespace Pipeline

/-- Only two words are refused as levels. -/
theorem namesNoLevel_of_refused {level : Value} {word : String} {f : Fault} (hw : levelWord level = .ok word)
    (hl : levelOf word = .error f) : NamesNoLevel level := by
  have refused : word = "BASIC_FORMAT" ∨ word = "_STYLES" := by
    unfold levelOf at hl
    split at hl
    · exact .inl rfl
    · exact .inr rfl
    · cases hl
  unfold levelWord at hw
  split at hw
  · cases hw
  · cases hs : level.text? with
    | none => simp [hs] at hw
    | some s =>
      have : Text.upper s = word := by simpa [hs] using hw
      exact ⟨s, hs, this ▸ refused⟩

/-- How a configuration fails: the listener has been stopped and directories may have been made, and the handlers
are as they were, unless it is the level that is refused, which comes after they have gone. -/
theorem configure_error {p q : Pipeline} {o : Settings.LoggingOptions} {f : Fault}
    (h : p.configure o = (.error f, q)) :
    ∃ files handlers, p.shutdown.files.Extends files ∧
      q = { p.shutdown with files := files, handlers := handlers } ∧
      (handlers = p.handlers ∨ handlers = [] ∧ NamesNoLevel o.levelName) := by
  have kept : p.shutdown.handlers = p.handlers := p.shutdown_keeps.2.2.1
  simp only [configure] at h
  cases hw : levelWord o.levelName with
  | error e =>
    rw [hw] at h
    cases h
    exact ⟨_, _, .refl _, rfl, .inl kept⟩
  | ok word =>
    cases hc : layoutOf o.consoleFormat with
    | error e =>
      rw [hw, hc] at h
      cases h
      exact ⟨_, _, .refl _, rfl, .inl kept⟩
    | ok layout =>
      cases hp : preparePath p.shutdown.files o.filePath with
      | error e =>
        rw [hw, hc, hp] at h
        cases h
        exact ⟨_, _, .refl _, rfl, .inl kept⟩
      | ok prepared =>
        obtain ⟨path, files⟩ := prepared
        have made := (preparePath_ok hp).2
        simp only [hw, hc, hp, bind, Except.bind, pure, Except.pure] at h
        split at h
        · cases h
          exact ⟨files, _, made, rfl, .inl kept⟩
        · next hl =>
          cases h
          exact ⟨files, [], made, rfl, .inr ⟨rfl, namesNoLevel_of_refused hw hl⟩⟩
        · cases h

/-- Records are all logged under the regime that stands when the first one is. -/
theorem ledger_of_logs {records : List Request} (h : ∀ request ∈ records, request.Logs) (p : Pipeline)
    (g : Regime) : p.ledger g records = records.flatMap (Request.logged g) := by
  induction records generalizing p with
  | nil => rfl
  | cons request rest ih =>
    obtain ⟨hr, hrest⟩ := List.forall_mem_cons.mp h
    have kept : g.after request (p.serve request) = g := by
      cases request with
      | log level r extras => rfl
      | configure o | setup env | shutdown => exact hr.elim
    rw [ledger, kept, ih hrest, List.flatMap_cons]

/-- Behind the same records two pipelines have the same on the console, and the same in every file. -/
structure WriteAlike (p q : Pipeline) (records : List Request) : Prop where
  console : (q.serveAll records).shutdown.console = (p.serveAll records).shutdown.console
  file : ∀ path, (p.serveAll records).shutdown.files.isDirectory path = false →
    (q.serveAll records).shutdown.files.isDirectory path = false →
    (q.serveAll records).shutdown.files.text path = (p.serveAll records).shutdown.files.text path

/-- Nothing of records is written anywhere. -/
structure Swallows (q : Pipeline) (records : List Request) : Prop where
  console : (q.serveAll records).shutdown.console = q.console
  file : ∀ path, (q.serveAll records).shutdown.files.isDirectory path = false →
    (q.serveAll records).shutdown.files.text path = q.files.text path

theorem joined_of_empty {texts : List String} (h : ∀ text ∈ texts, text = "") : joined texts = "" := by
  induction texts with
  | nil => rfl
  | cons text rest ih =>
    obtain ⟨rfl, hrest⟩ := List.forall_mem_cons.mp h
    simpa [joined] using ih hrest

theorem regime_of_logged {g : Regime} {records : List Request} {e : Logged}
    (h : e ∈ records.flatMap (Request.logged g)) : e.regime = g := by
  obtain ⟨request, -, he⟩ := List.mem_flatMap.mp h
  cases request with
  | log level r extras =>
    simp only [Request.logged] at he
    split at he
    · rw [List.mem_singleton.mp he]
    · cases he
  | configure o | setup env | shutdown => cases he

/-- Where the listener has stopped and its queue is still at the root, records are lost. -/
theorem Follows.swallows {q : Pipeline} {n : Int} (h : q.Follows (.cut n)) {records : List Request}
    (logs : ∀ request ∈ records, request.Logs) : q.Swallows records := by
  have grows := serveAll_grows h records
  rw [ledger_of_logs logs, shutdown_of_idle h.listener] at grows
  have silent (write : Logged → String) (hw : ∀ level r, write ⟨.cut n, level, r⟩ = "") :
      joined ((records.flatMap (Request.logged (.cut n))).map write) = "" := by
    refine joined_of_empty (fun text ht => ?_)
    obtain ⟨⟨g, level, r⟩, he, rfl⟩ := List.mem_map.mp ht
    obtain rfl : g = .cut n := regime_of_logged he
    exact hw level r
  refine ⟨?_, fun path hp => ?_⟩
  · rw [grows.console, silent _ (fun _ _ => rfl), String.append_empty]
  · rw [grows.file path hp, silent _ (fun _ _ => rfl), String.append_empty]

/-- Two pipelines that stand alike without a listener and have written the same write the same of all records. -/
theorem Follows.writeAlike {p q : Pipeline} {g : Regime} (hp : p.Follows g) (hq : q.Follows g)
    (idle : g.listener = none) (time : q.time = p.time) (console : q.console = p.console)
    (files : p.files.Extends q.files) {records : List Request} (logs : ∀ request ∈ records, request.Logs) :
    p.WriteAlike q records := by
  have first := serveAll_grows hp records
  have second := serveAll_grows hq records
  rw [ledger_of_logs logs, shutdown_of_idle (hp.listener.trans idle)] at first
  rw [ledger_of_logs logs, shutdown_of_idle (hq.listener.trans idle), time] at second
  refine ⟨by rw [first.console, second.console, console], fun path hd hd' => ?_⟩
  rw [first.file path hd, second.file path hd', Files.text, Files.text, files.texts]

/-- A configuration that fails leaves the root level. It leaves the handlers too, unless the level is what is refused,
and what has been written. Where no listener was running, and the handlers are left, all records go on to where
they went before. A listener that was running has been stopped, though: it has written what was waiting for it, but
what is logged from then on is lost. -/
theorem failed_configuration_leaves_what_has_no_listener {p q : Pipeline} {g : Regime} (follows : p.Follows g)
    {o : Settings.LoggingOptions} {f : Fault} (failed : p.configure o = (.error f, q)) :
    q.level = p.level ∧ q.listener = none ∧
      (q.handlers = p.handlers ∨ q.handlers = [] ∧ NamesNoLevel o.levelName) ∧
      q.console = p.shutdown.console ∧ p.shutdown.files.Extends q.files ∧
      ∀ records, (∀ request ∈ records, request.Logs) → q.handlers = p.handlers →
        (p.listener = none → p.WriteAlike q records) ∧ (p.listener ≠ none → q.Swallows records) := by
  obtain ⟨files, handlers, made, rfl, left⟩ := configure_error failed
  obtain ⟨time, level, kept, idle⟩ := p.shutdown_keeps
  refine ⟨level, idle, left, rfl, made, fun records logs same => ?_⟩
  have stopped := follows.shutdown
  have stands : ({ p.shutdown with files := files, handlers := handlers } : Pipeline).Follows g.stopped :=
    ⟨stopped.level, (same.trans kept.symm).trans stopped.handlers, stopped.listener⟩
  constructor
  · intro none
    have still := shutdown_of_idle none
    rw [Regime.stopped_of_idle (follows.listener ▸ none)] at stands
    rw [still] at made
    exact follows.writeAlike stands (follows.listener ▸ none) time (by rw [still]) made logs
  · intro running
    rw [Regime.stopped_of_listening (follows.listener ▸ running)] at stands
    exact stands.swallows logs

end Pipeline

/-- A pipeline that writes to the console alone, next to a file that is there. -/
def ashore : Pipeline :=
  { handlers := [.direct (.console .plain)], level := 20, time := "T"
    files := { texts := ({} : Table Path String).insert ["run.log"] "" } }

/-- A configuration for a file below another file, for which no directory can be made. -/
def sunken : Settings.LoggingOptions := { filePath := .text "run.log/deep/x.log", levelName := .text "debug" }

theorem sunken_file_leaves_console :
    ashore.Follows (.inForce ⟨20, .plain, none⟩) ∧
      (∃ f, ashore.configure sunken = (.error f, (ashore.configure sunken).2)) ∧
      (ashore.configure sunken).2.level = 20 ∧
      (ashore.configure sunken).2.handlers = [.direct (.console .plain)] ∧
      ashore.WriteAlike (ashore.configure sunken).2 [note "after"] ∧
      ((ashore.configure sunken).2.serveAll [note "after"]).shutdown.console =
        "T INFO app: after\n" := by
  have follows : ashore.Follows (.inForce ⟨20, .plain, none⟩) := ⟨rfl, rfl, rfl⟩
  have refused : (ashore.configure sunken).1.isOk = false := by decide +kernel
  obtain ⟨f, failed⟩ : ∃ f, ashore.configure sunken = (.error f, (ashore.configure sunken).2) := by
    rcases h : ashore.configure sunken with ⟨f | _, q⟩
    · exact ⟨f, rfl⟩
    · rw [h] at refused
      cases refused
  obtain ⟨level, -, -, -, -, written⟩ :=
    Pipeline.failed_configuration_leaves_what_has_no_listener follows failed
  have alike := (written [note "after"] (by simp [note, Request.Logs]) rfl).1 rfl
  exact ⟨follows, ⟨f, failed⟩, level, rfl, alike, alike.console.trans (by decide +kernel)⟩

/-- A configuration that fails stops the listener that was running, and what is logged from then on is lost. One
whose level is refused leaves no handler at all. -/
theorem sunken_file_stops_listener :
    let p := ({ time := "T" } : Pipeline).serveAll [.configure { filePath := .text "run.log" }, note "kept"]
    let q := (p.configure sunken).2
    let bridge := ({ time := "T" } : Pipeline).serveAll [.configure {}]
    (p.configure sunken).1.isOk = false ∧ p.listener.isSome = true ∧ q.listener.isSome = false ∧
      (q.serveAll [note "lost"]).shutdown.console = "T INFO app: kept\n" ∧
      (q.serveAll [note "lost"]).shutdown.files.text ["run.log"] =
        "\x7b\"ts\":\"T\",\"level\":\"INFO\",\"logger\":\"app\",\"msg\":\"kept\"\x7d\n" ∧
      (bridge.configure { levelName := .text "basic_format" }).1.isOk = false ∧
      bridge.handlers.isEmpty = false ∧
      (bridge.configure { levelName := .text "basic_format" }).2.handlers.isEmpty = true := by
  decide +kernel

end StateEngine.Logging
