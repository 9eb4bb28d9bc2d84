import StateEngine.Settings.Environment

/-! What a blank variable does to the options that an environment gives. -/
namespace StateEngine.Settings.Environment

instance (s : String) : Decidable (Text.Blank s) :=
  decidable_of_iff (s.toList.all Text.isBlank = true) List.all_eq_true

/-- The environment in which one variable is not set. -/
def without (env : Environment) (key : String) : Environment := env.filter (fun e => e.1 != key)

theorem lookup_without (env : Environment) (key other : String) :
    (env.without key).lookup other = if other = key then none else env.lookup other := by
  induction env with
  | nil => simp [without]
  | cons e rest ih =>
    unfold without at ih ⊢
    by_cases hn : e.1 = key
    · rw [List.filter_cons_of_neg (by simpa using hn), ih]
      split
      · rfl
      · next ho => rw [List.lookup_cons, show (other == e.1) = false by simpa [hn] using ho]
    · rw [List.filter_cons_of_pos (by simpa using hn), List.lookup_cons, List.lookup_cons, ih]
      split
      · next ho => rw [if_neg (by rw [eq_of_beq ho]; exact hn)]
      · rfl

section
variable {env : Environment} {key raw : String} (set : env.lookup key = some raw) (blank : Text.Blank raw)
include set blank

/-- A switch that is off by default takes a blank variable for an unset one. -/
theorem switch_without (name : String) {default : Bool} (off : name = key → default = false) :
    env.switch name default = (env.without key).switch name default := by
  by_cases hn : name = key
  · subst hn
    rw [switch_of_blank set blank, off rfl]
    simp [switch, lookup_without]
  · simp [switch, lookup_without, hn]

theorem word_without (name : String) : env.word name = (env.without key).word name := by
  by_cases hn : name = key
  · subst hn
    rw [word_of_blank set blank]
    simp [word, lookup_without]
  · simp [word, lookup_without, hn]

theorem oneOf_without {choices : List String} (proper : "" ∉ choices) (name default : String) :
    env.oneOf name choices default = (env.without key).oneOf name choices default := by
  by_cases hn : name = key
  · subst hn
    rw [oneOf_of_blank set blank proper]
    simp [oneOf, lookup_without]
  · simp [oneOf, lookup_without, hn]

end

/-- Whether the level is taken from a variable: the engine's own one, or the common one where that is not
set. -/
def NamesLevel (env : Environment) (key : String) : Prop :=
  key = "TRIGGERFLOW_LOG_LEVEL" ∨ key = "LOG_LEVEL" ∧ env.lookup "TRIGGERFLOW_LOG_LEVEL" = none

instance (env : Environment) (key : String) : Decidable (env.NamesLevel key) :=
  inferInstanceAs (Decidable (_ ∨ _))

/-- The level name is the text of some variable or the default, stripped and in upper case, so there always is
one. -/
theorem levelName_text (env : Environment) : ∃ s, env.levelName = .ok (.text s) := by
  unfold levelName
  cases (env.lookup "TRIGGERFLOW_LOG_LEVEL").or (env.lookup "LOG_LEVEL") with
  | none => exact ⟨_, rfl⟩
  | some raw => exact ⟨_, rfl⟩

theorem levelName_of_blank {env : Environment} {key raw : String} (set : env.lookup key = some raw)
    (blank : Text.Blank raw) (names : env.NamesLevel key) : env.levelName = .ok (.text "") := by
  have given : (env.lookup "TRIGGERFLOW_LOG_LEVEL").or (env.lookup "LOG_LEVEL") = some raw := by
    rcases names with rfl | ⟨rfl, own⟩
    · simp [set]
    · simp [own, set]
  simp [levelName, given, Value.text?, Text.strip_of_blank blank, Text.upper]

theorem levelName_without {env : Environment} {key : String} (unread : ¬ env.NamesLevel key) :
    env.levelName = (env.without key).levelName := by
  obtain ⟨own, common⟩ := not_or.mp unread
  have given : ((env.without key).lookup "TRIGGERFLOW_LOG_LEVEL").or ((env.without key).lookup "LOG_LEVEL") =
      (env.lookup "TRIGGERFLOW_LOG_LEVEL").or (env.lookup "LOG_LEVEL") := by
    rw [lookup_without, lookup_without, if_neg (Ne.symm own)]
    by_cases hk : "LOG_LEVEL" = key
    · have : env.lookup "TRIGGERFLOW_LOG_LEVEL" ≠ none := fun h => common ⟨hk.symm, h⟩
      obtain ⟨level, hl⟩ := Option.ne_none_iff_exists'.mp this
      simp [hl]
    · rw [if_neg hk]
  simp only [levelName, given]

/-- A variable that is set to nothing but white space gives the same options as one that is not set, but in two
places: the automatic transitions are off, though they are on by default, and the level has no name, where
one that is not set leaves it to the common variable or the default. -/
theorem blank_counts_as_unset {env : Environment} {key raw : String} (set : env.lookup key = some raw)
    (blank : Text.Blank raw) (name initial : Value) :
    env.machineOptions name initial =
        (let unset := (env.without key).machineOptions name initial
        if key = "TRIGGERFLOW_AUTO_TRANSITIONS" then { unset with autoTransitions := .bool false } else unset) ∧
      ∃ unset, (env.without key).loggingOptions = .ok unset ∧
        env.loggingOptions =
          .ok (if env.NamesLevel key then { unset with levelName := .text "" } else unset) := by
  constructor
  · simp only [machineOptions, word_without set blank,
      switch_without set blank "TRIGGERFLOW_SEND_EVENT" (fun _ => rfl),
      switch_without set blank "TRIGGERFLOW_IGNORE_INVALID_TRIGGERS" (fun _ => rfl),
      switch_without set blank "TRIGGERFLOW_QUEUED" (fun _ => rfl)]
    by_cases auto : key = "TRIGGERFLOW_AUTO_TRANSITIONS"
    · subst auto
      rw [if_pos rfl, switch_of_blank set blank]
    · rw [if_neg auto, switch_without set blank _ (fun h => absurd h.symm auto)]
  · obtain ⟨level, hl⟩ := (env.without key).levelName_text
    simp only [loggingOptions, word_without set blank, oneOf_without set blank (by decide : "" ∉ ["text", "json"])]
    by_cases names : env.NamesLevel key
    · simp only [levelName_of_blank set blank names, hl, if_pos names]
      exact ⟨_, rfl, rfl⟩
    · simp only [levelName_without names, hl, if_neg names]
      exact ⟨_, rfl, rfl⟩

/-- A queued machine whose attribute is left blank. -/
def hall : Environment :=
  [("TRIGGERFLOW_QUEUED", " Yes"), ("TRIGGERFLOW_MODEL_ATTRIBUTE", " \t"), ("LOG_LEVEL", "debug")]

theorem hall_stands_in_state :
    hall.lookup "TRIGGERFLOW_MODEL_ATTRIBUTE" = some " \t" ∧ Text.Blank " \t" ∧
      hall.machineOptions .null .null = (hall.without "TRIGGERFLOW_MODEL_ATTRIBUTE").machineOptions .null .null ∧
      hall.machineOptions .null .null =
        { initial := .null, queued := .bool true, modelAttribute := .text "state" } ∧
      ∃ unset, (hall.without "TRIGGERFLOW_MODEL_ATTRIBUTE").loggingOptions = .ok unset ∧
        hall.loggingOptions = .ok unset := by
  have set : hall.lookup "TRIGGERFLOW_MODEL_ATTRIBUTE" = some " \t" := rfl
  have blank : Text.Blank " \t" := by decide
  obtain ⟨machine, logging⟩ := blank_counts_as_unset set blank .null .null
  exact ⟨set, blank, machine, rfl, logging⟩

/-- The two places in which a blank variable is not an unset one: it switches automatic transitions off, and it
takes the level's name away from the common variable. -/
theorem blank_takes_transitions_and_level :
    let gate : Environment := [("TRIGGERFLOW_AUTO_TRANSITIONS", "")]
    let lamp : Environment := [("TRIGGERFLOW_LOG_LEVEL", " "), ("LOG_LEVEL", "debug")]
    Text.Blank "" ∧ Text.Blank " " ∧
      gate.machineOptions.autoTransitions = .bool false ∧
      (gate.without "TRIGGERFLOW_AUTO_TRANSITIONS").machineOptions.autoTransitions = .bool true ∧
      lamp.loggingOptions.map LoggingOptions.levelName = .ok (.text "") ∧
      (lamp.without "TRIGGERFLOW_LOG_LEVEL").loggingOptions.map LoggingOptions.levelName =
        .ok (.text "DEBUG") := by
  have upper : Text.upper (Text.strip "debug") = "DEBUG" := by decide +kernel
  exact ⟨by decide, by decide, rfl, rfl, rfl,
    congrArg (fun word => Except.ok (Value.text word)) upper⟩

end StateEngine.Settings.Environment
