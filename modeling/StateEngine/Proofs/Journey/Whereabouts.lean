import StateEngine.Proofs.Journey.Underway

/-! Where a model is, as queries tell it: one asks for the state of a model and goes by the name that its value
registers under, the other asks whether the model is in a state and compares values. The two agree unless two states
are one text for a reader of values, as a textual member and a name can be. -/
namespace StateEngine
open Act World

/-- Two states are the same text for a reader of values. -/
def State.SameText (s d : State) : Prop := ∃ t : String, s.value.text? = some t ∧ d.value.text? = some t

namespace Value

/-- Values that register under different texts are equal only as texts. -/
theorem same_iff_text_of_names {v u : Value} {a b : String} (hv : v.registrationName = .text a)
    (hu : u.registrationName = .text b) (hab : a ≠ b) :
    v.same u = true ↔ ∃ t : String, u.text? = some t ∧ v.text? = some t := by
  have alike : v.same u = v.sameAtom u := by
    cases v <;> first | simp only [same] | cases hv
  have amountless {z : Value} {c : String} (hz : z.registrationName = .text c) : z.amount? = none := by
    cases z <;> first | rfl | cases hz
  rw [alike]
  unfold sameAtom
  rw [amountless hv, amountless hu]
  cases htv : v.text? with
  | some t =>
    cases htu : u.text? with
    | some t' => simp
    | none => simp
  | none =>
    cases htu : u.text? with
    | some t' => simp
    | none =>
      -- neither is a text, so both are members, and under the same name only they could be equal
      cases v with
      | member e n textual own =>
        cases u with
        | member e' n' textual' own' =>
          cases hv
          cases hu
          simp [hab]
        | text b => cases htu
        | _ => cases hu
      | text a => cases htv
      | _ => cases hv

/-- What registers under a text equals itself. -/
theorem same_self_of_name {v : Value} {a : String} (hv : v.registrationName = .text a) : v.same v = true := by
  cases v with
  | text b => simp
  | member e n textual own => cases textual <;> cases own <;> simp [same, sameAtom, amount?, text?]
  | _ => cases hv

end Value

variable {E : Engine} {m : MachineId} {x a : String} {s : StateId} {w : World}

namespace World

/-- Of a model that is in a state the machine tells this state. -/
theorem In.currentState (h : w.In m x a s) :
    (E.perform (.currentState m (.model x)) w).1 = .ok (.state (w.states.get s)) := by
  obtain ⟨history, asked⟩ := h.asked (E := E)
  exact congrArg Prod.fst (bind_of_ok asked)

/-- Whether a model that is in a state is in another one, the machine tells by the values of both. -/
theorem In.isIn {n : String} {d : StateId} (h : w.In m x a s) (hd : w.lookupState m (.text n) = .ok d) :
    (E.perform (.isIn m (.model x) (.text n)) w).1 =
      .ok (.value (.bool ((w.states.get s).value.same (w.states.get d).value))) := by
  obtain ⟨history, read⟩ := Engine.readState_holds (E := E) h.held
  have asked : (ask (fun w => w.lookupState m (.text n)) : Run StateId) { w with history := history } =
      (.ok d, { w with history := history }) := by
    rw [ask_apply, show ({ w with history := history } : World).lookupState m (.text n) = _ from hd]
    rfl
  exact (congrArg Prod.fst (bind_of_ok read)).trans (congrArg Prod.fst (bind_of_ok asked))

/-- What no state is registered under, no model is in. -/
theorem In.isIn_unregistered {n : String} {f : Fault} (h : w.In m x a s)
    (hd : w.lookupState m (.text n) = .error f) :
    (E.perform (.isIn m (.model x) (.text n)) w).1 = .error (.fault f) := by
  obtain ⟨history, read⟩ := Engine.readState_holds (E := E) h.held
  have asked : (ask (fun w => w.lookupState m (.text n)) : Run StateId) { w with history := history } =
      (.error (.fault f), { w with history := history }) := by
    rw [ask_apply, show ({ w with history := history } : World).lookupState m (.text n) = _ from hd]
    rfl
  exact (congrArg Prod.fst (bind_of_ok read)).trans (congrArg Prod.fst (bind_of_error asked))

/-- The states in which a model is by their values: its own one, and those that are the same text. -/
theorem In.same_iff {n : String} {d : StateId} (h : w.In m x a s) (hw : w.Regular) (hn : w.PlainNames m)
    (hd : w.lookupState m (.text n) = .ok d) :
    (w.states.get s).value.same (w.states.get d).value = true ↔
      n = a ∨ (w.states.get d).SameText (w.states.get s) := by
  by_cases hna : n = a
  · subst hna
    obtain rfl : d = s := Except.ok.inj (hd.symm.trans h.found)
    exact ⟨fun _ => .inl rfl, fun _ => Value.same_self_of_name h.named⟩
  · have named : (w.states.get d).value.registrationName = .text n := name_of_lookup hw hn hd
    rw [Value.same_iff_text_of_names h.named named (fun same => hna same.symm)]
    exact ⟨.inr, fun either => either.resolve_left hna⟩

end World

/-- What a model has for its state is the value of a state that its machine has registered under a name, and all
names of the machine are texts. Then asking for the state of the model gives this state, and asking whether the model
is in a state, for any registered name, gives an answer, which is yes for the name of this state and for those whose
states are the same text as this one for a reader of values. So it is yes for exactly one name if no other state is
the same text as this one. -/
theorem World.shown_in_states_of_same_text (hw : w.Reachable) (hn : w.PlainNames m)
    (found : w.lookupState m (.text a) = .ok s) (held : w.Holds m x (w.states.get s).value) :
    (E.perform (.currentState m (.model x)) w).1 = .ok (.state (w.states.get s)) ∧
      (w.states.get s).name = .text a ∧
      (∀ n d, w.lookupState m (.text n) = .ok d → ∃ b,
        (E.perform (.isIn m (.model x) (.text n)) w).1 = .ok (.value (.bool b)) ∧
          (b = true ↔ n = a ∨ (w.states.get d).SameText (w.states.get s))) ∧
      ((∀ n d, w.lookupState m (.text n) = .ok d → (w.states.get d).SameText (w.states.get s) → n = a) →
        ∀ n, (E.perform (.isIn m (.model x) (.text n)) w).1 = .ok (.value (.bool true)) ↔ n = a) := by
  have named := name_of_lookup hw.regular hn found
  have here : w.In m x a s := ⟨named, found, held⟩
  refine ⟨here.currentState, named, fun n d hd => ⟨_, here.isIn hd, here.same_iff hw.regular hn hd⟩, fun apart n => ?_⟩
  cases hd : w.lookupState m (.text n) with
  | error f =>
    rw [here.isIn_unregistered hd]
    refine ⟨fun h => (by cases h), fun h => ?_⟩
    rw [h, found] at hd
    cases hd
  | ok d =>
    have equal := here.same_iff hw.regular hn hd
    rw [here.isIn hd]
    simp only [Except.ok.injEq, Reply.value.injEq, Value.bool.injEq]
    exact equal.trans ⟨fun either => either.elim id (apart n d hd), .inl⟩

/-- A lamp whose red is a textual member that reads as the name of its green. -/
def lampPlan : Blueprint where
  options := { initial := .member "Colour" "red" true (.text "green"), autoTransitions := .bool false }
  states := .list [.member "Colour" "red" true (.text "green"), .text "green", .member "Mode" "dark" false (.int 0)]
  models := .model "lamp"

def lampHost : Host where
  behaviour := fun _ _ _ _ => .done .null

def lampEngine : Engine := Engine.ofHost lampHost 4 2

def lampWorld : World := (lampEngine.perform (.create "lamps" lampPlan) {}).2

theorem lampWorld_reachable : lampWorld.Reachable := by
  have checked : lampHost.Within Operation.Checked := fun _ _ _ _ => trivial
  exact World.Reachable.perform ⟨{}, ⟨rfl, rfl, rfl, rfl⟩, .refl⟩ checked 4 2 trivial

/-- The lamp as its machine has it. -/
theorem lampWorld_facts :
    (lampWorld.machine 0).states.keys = [.text "red", .text "green", .text "dark"] ∧
      lampWorld.lookupState 0 (.text "red") = .ok 0 ∧ lampWorld.lookupState 0 (.text "green") = .ok 1 ∧
      lampWorld.lookupState 0 (.text "dark") = .ok 2 ∧
      (lampWorld.states.get 0).value = .member "Colour" "red" true (.text "green") ∧
      (lampWorld.states.get 1).value = .text "green" ∧
      (lampWorld.states.get 2).value = .member "Mode" "dark" false (.int 0) ∧
      (lampWorld.machine 0).accessor = .field "state" ∧
      (lampWorld.model "lamp").properties.find? "state" = none ∧
      (lampWorld.model "lamp").attributes.find? "state" = some (.member "Colour" "red" true (.text "green")) := by
  -- the world is evaluated once for all that is looked up in it
  have look : (some lampWorld).map (fun w => ((w.machine 0).states.keys, w.lookupState 0 (.text "red"),
      w.lookupState 0 (.text "green"), w.lookupState 0 (.text "dark"), (w.states.get 0).value, (w.states.get 1).value,
      (w.states.get 2).value, (w.machine 0).accessor, (w.model "lamp").properties.find? "state",
      (w.model "lamp").attributes.find? "state")) =
      some ([.text "red", .text "green", .text "dark"], .ok 0, .ok 1, .ok 2,
        .member "Colour" "red" true (.text "green"), .text "green", .member "Mode" "dark" false (.int 0),
        .field "state", none, some (.member "Colour" "red" true (.text "green"))) := by cbv
  simpa only [Option.map_some, Option.some.injEq, Prod.mk.injEq] using look

theorem lampWorld_held : lampWorld.Holds 0 "lamp" (lampWorld.states.get 0).value := by
  obtain ⟨-, -, -, -, red, -, -, accessor, free, state⟩ := lampWorld_facts
  unfold World.Holds
  rw [accessor, red]
  exact ⟨free, state⟩

theorem lampWorld_plainNames : lampWorld.PlainNames 0 := by
  obtain ⟨keys, -⟩ := lampWorld_facts
  intro k hk
  rw [keys] at hk
  simp only [List.mem_cons, List.not_mem_nil, or_false] at hk
  rcases hk with rfl | rfl | rfl <;> exact ⟨_, rfl⟩

/-- The lamp has been put into its red by the machine, which tells this of it, and tells as well that it is in
green. -/
theorem red_lamp_shows_green :
    lampWorld.Reachable ∧ lampWorld.Holds 0 "lamp" (lampWorld.states.get 0).value ∧
      lampWorld.lookupState 0 (.text "red") = .ok 0 ∧ lampWorld.lookupState 0 (.text "green") = .ok 1 ∧
      (lampEngine.perform (.currentState 0 (.model "lamp")) lampWorld).1 = .ok (.state (lampWorld.states.get 0)) ∧
      (lampEngine.perform (.isIn 0 (.model "lamp") (.text "red")) lampWorld).1 = .ok (.value (.bool true)) ∧
      (lampEngine.perform (.isIn 0 (.model "lamp") (.text "green")) lampWorld).1 = .ok (.value (.bool true)) := by
  obtain ⟨-, red, green, -, redValue, greenValue, -⟩ := lampWorld_facts
  have named : (lampWorld.states.get 0).name = .text "red" := by rw [State.name, redValue]; rfl
  have here : lampWorld.In 0 "lamp" "red" 0 := ⟨named, red, lampWorld_held⟩
  have same {n : String} {d : StateId} (hd : lampWorld.lookupState 0 (.text n) = .ok d) :=
    here.same_iff lampWorld_reachable.regular lampWorld_plainNames hd
  have text : (lampWorld.states.get 1).SameText (lampWorld.states.get 0) :=
    ⟨"green", by rw [greenValue]; rfl, by rw [redValue]; rfl⟩
  refine ⟨lampWorld_reachable, lampWorld_held, red, green, here.currentState, ?_, ?_⟩
  · rw [here.isIn red, (same red).mpr (.inl rfl)]
  · rw [here.isIn green, (same green).mpr (.inr text)]

/-- Of the dark the lamp in its red is told apart, as the dark is no text. -/
theorem red_lamp_is_not_dark :
    lampWorld.Reachable ∧ lampWorld.PlainNames 0 ∧ lampWorld.Holds 0 "lamp" (lampWorld.states.get 0).value ∧
      (lampEngine.perform (.currentState 0 (.model "lamp")) lampWorld).1 = .ok (.state (lampWorld.states.get 0)) ∧
      (lampEngine.perform (.isIn 0 (.model "lamp") (.text "red")) lampWorld).1 = .ok (.value (.bool true)) ∧
      (lampEngine.perform (.isIn 0 (.model "lamp") (.text "dark")) lampWorld).1 = .ok (.value (.bool false)) := by
  obtain ⟨-, red, -, dark, -, -, darkValue, -⟩ := lampWorld_facts
  obtain ⟨told, -, answers, -⟩ := World.shown_in_states_of_same_text (E := lampEngine) lampWorld_reachable
    lampWorld_plainNames red lampWorld_held
  refine ⟨lampWorld_reachable, lampWorld_plainNames, lampWorld_held, told, ?_, ?_⟩
  · obtain ⟨b, answer, yes⟩ := answers "red" 0 red
    rw [answer, yes.mpr (.inl rfl)]
  · obtain ⟨b, answer, yes⟩ := answers "dark" 2 dark
    have no : b ≠ true := fun h => by
      rcases yes.mp h with same | ⟨t, textual, -⟩
      · exact absurd same (by decide)
      · rw [darkValue] at textual
        cases textual
    rw [answer, Bool.eq_false_iff.mpr no]

end StateEngine
