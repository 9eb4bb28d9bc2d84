import StateEngine.Logging.Pipeline

/-! What the pipeline writes: lines on the console and in files, at once or when the listener takes what
waits for it. -/
namespace StateEngine.Logging

/-- A line with its end, and nothing for what has no text. -/
def ended : Except Fault String → String
  | .ok line => line ++ "\n"
  | .error _ => ""

/-- Texts one behind the other. -/
def joined (texts : List String) : String := texts.foldr (· ++ ·) ""

theorem joined_append (front back : List String) : joined (front ++ back) = joined front ++ joined back := by
  induction front with
  | nil => simp [joined]
  | cons text front ih =>
    simp only [joined, List.cons_append, List.foldr_cons] at ih ⊢
    rw [ih, String.append_assoc]

namespace Files

/-- The text of a file. One that is not there has none. -/
def text (files : Files) (path : Path) : String := (files.texts.find? path).getD ""

theorem isDirectory_appendLine (files : Files) (file path : Path) (line : String) :
    (files.appendLine file line).isDirectory path = files.isDirectory path := by
  unfold appendLine
  split <;> rfl

theorem text_appendLine {files : Files} {file path : Path} (line : String)
    (h : files.isDirectory path = false) :
    (files.appendLine file line).text path =
      files.text path ++ if file = path then line ++ "\n" else "" := by
  unfold appendLine text
  by_cases same : file = path
  · subst same
    simp [h, String.append_assoc]
  · split
    · simp
    · simp [same]

/-- The same files, and no directory less. -/
structure Extends (files made : Files) : Prop where
  texts : made.texts = files.texts
  directories : ∀ path, files.isDirectory path = true → made.isDirectory path = true

theorem Extends.refl (files : Files) : files.Extends files := ⟨rfl, fun _ h => h⟩

theorem makeAlong_extends {components : List String} {files made : Files} {done : Path}
    (h : makeAlong files done components = .ok made) : files.Extends made := by
  induction components generalizing files done with
  | nil =>
    cases h
    exact .refl _
  | cons c rest ih =>
    simp only [makeAlong] at h
    generalize (if c = ".." then done.dropLast else done ++ [c]) = path at h
    split at h
    · cases h
    · split at h
      · exact ih h
      · obtain ⟨texts, directories⟩ := ih h
        refine ⟨texts, fun other hother => directories other ?_⟩
        simp only [isDirectory, Bool.or_eq_true, List.contains_eq_mem, List.mem_append,
          decide_eq_true_eq] at hother ⊢
        exact hother.imp_right .inl

end Files

namespace Pipeline

/-- What a pipeline writes on the way to another one: a text on the console, and one into each file that is
no directory in the end. -/
structure Grows (p q : Pipeline) (console : String) (file : Path → String) : Prop where
  time : q.time = p.time
  console : q.console = p.console ++ console
  directories : ∀ path, p.files.isDirectory path = true → q.files.isDirectory path = true
  file : ∀ path, q.files.isDirectory path = false →
    q.files.text path = p.files.text path ++ file path

theorem Grows.trans {p q r : Pipeline} {c d : String} {f g : Path → String} (h : p.Grows q c f)
    (k : q.Grows r d g) : p.Grows r (c ++ d) (fun path => f path ++ g path) where
  time := k.time.trans h.time
  console := by rw [k.console, h.console, String.append_assoc]
  directories path hp := k.directories path (h.directories path hp)
  file path hp := by
    have before : q.files.isDirectory path = false :=
      Bool.eq_false_iff.mpr (fun hq => by simp [k.directories path hq] at hp)
    rw [k.file path hp, h.file path before, String.append_assoc]

/-- A pipeline that has the same console and files has written nothing. -/
theorem Grows.nothing {p q : Pipeline} (time : q.time = p.time) (console : q.console = p.console)
    (texts : q.files.texts = p.files.texts)
    (directories : ∀ path, p.files.isDirectory path = true → q.files.isDirectory path = true) :
    p.Grows q "" (fun _ => "") where
  time := time
  console := by simp [console]
  directories := directories
  file path _ := by simp [Files.text, texts]

theorem Grows.same {p q : Pipeline} (time : q.time = p.time) (console : q.console = p.console)
    (files : q.files = p.files) : p.Grows q "" (fun _ => "") :=
  .nothing time console (by rw [files]) (fun path h => by rw [files]; exact h)

theorem writeTo_console (r : LogRecord) (p : Pipeline) (layout : Layout) :
    p.Grows (p.writeTo r (.console layout)) (ended (layout.write p.time r)) (fun _ => "") := by
  simp only [writeTo, Sink.layout]
  cases layout.write p.time r with
  | error f => exact .same rfl rfl rfl
  | ok line => exact ⟨rfl, by simp [ended, String.append_assoc], fun _ h => h, fun _ _ => by simp⟩

theorem writeTo_file (r : LogRecord) (p : Pipeline) (file : Path) (layout : Layout) :
    p.Grows (p.writeTo r (.file file layout)) ""
      (fun path => if file = path then ended (layout.write p.time r) else "") := by
  simp only [writeTo, Sink.layout]
  cases layout.write p.time r with
  | error f => simpa [ended] using Grows.same (p := p) (q := p) rfl rfl rfl
  | ok line =>
    refine ⟨rfl, by simp, fun path h => ?_, fun path h => ?_⟩
    · rw [← h]
      exact Files.isDirectory_appendLine ..
    · exact Files.text_appendLine line ((Files.isDirectory_appendLine ..).symm.trans h)

/-- Nothing but the console and the files differs. -/
def Writes (p q : Pipeline) : Prop := ∃ console files, q = { p with console := console, files := files }

theorem foldl_writes {α : Type} {f : Pipeline → α → Pipeline} (h : ∀ p a, Writes p (f p a))
    (p : Pipeline) (as : List α) : p.Writes (as.foldl f p) := by
  induction as generalizing p with
  | nil => exact ⟨p.console, p.files, rfl⟩
  | cons a as ih =>
    obtain ⟨console, files, hq⟩ := h p a
    obtain ⟨console', files', hr⟩ := ih (f p a)
    exact ⟨console', files', by rw [List.foldl_cons, hr, hq]⟩

theorem writeTo_writes (r : LogRecord) (p : Pipeline) (sink : Sink) : p.Writes (p.writeTo r sink) := by
  unfold writeTo
  split
  · exact ⟨_, _, rfl⟩
  · exact ⟨_, _, rfl⟩
  · exact ⟨_, _, rfl⟩

theorem deliver_writes (sinks : List Sink) (p : Pipeline) (r : LogRecord) :
    p.Writes (deliver sinks p r) := foldl_writes (writeTo_writes r) p sinks

theorem shutdown_of_idle {p : Pipeline} (h : p.listener = none) : p.shutdown = p := by
  rw [shutdown, h]

theorem shutdown_of_listening {p : Pipeline} {sinks : List Sink} (h : p.listener = some sinks) :
    p.shutdown = { p.waiting.foldl (deliver sinks) p with listener := none, waiting := [] } := by
  rw [shutdown, h]

theorem Grows.idle {p q : Pipeline} {c : String} {f : Path → String} (h : p.Grows q c f)
    (hq : q.listener = none) : p.Grows q.shutdown c f := by rwa [shutdown_of_idle hq]

/-- A stop leaves the time, the level and the handlers, and no listener. -/
theorem shutdown_keeps (p : Pipeline) : p.shutdown.time = p.time ∧ p.shutdown.level = p.level ∧
    p.shutdown.handlers = p.handlers ∧ p.shutdown.listener = none := by
  cases h : p.listener with
  | none => rw [shutdown_of_idle h]; exact ⟨rfl, rfl, rfl, h⟩
  | some sinks =>
    obtain ⟨console, files, hw⟩ := foldl_writes (deliver_writes sinks) p p.waiting
    rw [shutdown_of_listening h, hw]
    exact ⟨rfl, rfl, rfl, rfl⟩

theorem shutdown_shutdown (p : Pipeline) : p.shutdown.shutdown = p.shutdown :=
  shutdown_of_idle p.shutdown_keeps.2.2.2

/-- What a listener delivers does not depend on what else waits for it. -/
theorem foldl_deliver_with (sinks : List Sink) (p : Pipeline) (records waiting : List LogRecord) :
    records.foldl (deliver sinks) { p with waiting := waiting } =
      { records.foldl (deliver sinks) p with waiting := waiting } := by
  have written (r : LogRecord) (p : Pipeline) (sink : Sink) :
      ({ p with waiting := waiting } : Pipeline).writeTo r sink =
        { p.writeTo r sink with waiting := waiting } := by
    simp only [writeTo]
    split <;> rfl
  have delivered (p : Pipeline) (r : LogRecord) :
      deliver sinks { p with waiting := waiting } r = { deliver sinks p r with waiting := waiting } := by
    induction sinks generalizing p with
    | nil => rfl
    | cons sink rest ih =>
      simp only [deliver, List.foldl_cons] at ih ⊢
      rw [written, ih]
  induction records generalizing p with
  | nil => rfl
  | cons r rest ih => rw [List.foldl_cons, List.foldl_cons, delivered, ih]

/-- The console's and the file's line of one record, from the listener. -/
theorem deliver_grows (p : Pipeline) (r : LogRecord) (console : Layout) (file : Path) (layout : Layout) :
    p.Grows (deliver [.console console, .file file layout] p r) (ended (console.write p.time r))
      (fun path => if file = path then ended (layout.write p.time r) else "") := by
  have first := writeTo_console r p console
  have second := writeTo_file r (p.writeTo r (.console console)) file layout
  rw [first.time] at second
  simpa [deliver] using first.trans second

/-- The listener takes a new record after all that waits, so that a stop writes it last. -/
theorem shutdown_queued {p : Pipeline} {sinks : List Sink} (h : p.listener = some sinks) (r : LogRecord) :
    ({ p with waiting := p.waiting ++ [r] } : Pipeline).shutdown =
      { deliver sinks (p.waiting.foldl (deliver sinks) p) r with listener := none, waiting := [] } := by
  have all := foldl_deliver_with sinks p (p.waiting ++ [r]) (p.waiting ++ [r])
  rw [shutdown_of_listening (by exact h), all, List.foldl_append, List.foldl_cons, List.foldl_nil]

theorem queue_grows {p : Pipeline} {console : Layout} {file : Path} {layout : Layout}
    (h : p.listener = some [.console console, .file file layout]) (r : LogRecord) :
    p.shutdown.Grows ({ p with waiting := p.waiting ++ [r] } : Pipeline).shutdown
      (ended (console.write p.time r))
      (fun path => if file = path then ended (layout.write p.time r) else "") := by
  have time := p.shutdown_keeps.1
  rw [shutdown_queued h]
  rw [shutdown_of_listening h] at time ⊢
  have last := deliver_grows (p.waiting.foldl (deliver [.console console, .file file layout]) p) r console
    file layout
  rw [show (p.waiting.foldl (deliver [.console console, .file file layout]) p).time = p.time from time] at last
  exact ⟨last.time, last.console, last.directories, last.file⟩

end Pipeline

end StateEngine.Logging
