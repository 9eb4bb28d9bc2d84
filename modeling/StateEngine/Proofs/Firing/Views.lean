import StateEngine.Proofs.Journey.Underway
import StateEngine.Proofs.Registry.Listing

/-! The views of what can be fired on a model in a state: the triggers that its machine lists for the state, the
transitions that it selects for it, and the triggers that it processes there instead of turning them away. -/
namespace StateEngine
open Act World

namespace Engine

variable {E : Engine} {m : MachineId} {x a : String} {s : StateId} {e : EventId} {args : List Value} {named : Named}
  {w : World}

/-- What a caller does whose task an idle line has taken up: it runs the task, and on a queue whatever comes behind
it. -/
def attend (E : Engine) (m : MachineId) (task : Task) : Run Value := do
  let machine := (← get).machine m
  match machine.line with
  | .queued _ => (E.setting m machine.label).drain E.bound
  | .direct _ =>
    let ended ← (E.runTask task).attempt
    (E.setting m machine.label).store (.direct false)
    Act.ofExcept ended

/-- A task that comes to a machine with nothing in flight is taken up at once. -/
theorem submit_eq_attend {task : Task} (hidle : (w.machine m).line.inFlight = false) :
    E.submit m task w = E.attend m task (w.taking m task) := by
  have machine : (w.taking m task).machine m = { w.machine m with line := (w.machine m).line.begun task } := by
    rw [taking, machine_updateMachine, if_pos rfl]
  unfold submit attend
  rw [bind_of_ok (get_apply w), bind_of_ok (get_apply _), machine]
  cases hline : (w.machine m).line with
  | direct busy =>
    have free : busy = false := by simpa [hline, Line.inFlight] using hidle
    subst free
    unfold Line.Setting.submit
    rw [bind_of_ok (get_apply w), show (E.setting m (w.machine m).label).slot.read w = .direct false from hline]
    rw [taking, hline]
    rfl
  | queued tasks =>
    have empty : tasks = [] := by simpa [hline, Line.inFlight] using hidle
    subst empty
    have taken : w.taking m task = (E.setting m (w.machine m).label).slot.write (.queued [task]) w := by
      rw [taking, hline]
      rfl
    rw [taken]
    exact Line.Setting.submit_queued (S := E.setting m (w.machine m).label) hline

/-- A registered trigger that is fired on a machine with nothing in flight is taken up at once. -/
theorem trigger_eq_attend {model name : Value} (hw : w.Reachable) (hidle : (w.machine m).line.inFlight = false)
    (hargs : clashes reservedNames named = false) (he : w.eventOf? m name = .ok (some e)) :
    E.trigger m model name args named w =
      E.attend m (.fire e model args named) (w.taking m (.fire e model args named)) := by
  have owner : (w.events.get e).machine = m := by
    unfold eventOf? at he
    split at he
    · obtain ⟨k, -, hmem⟩ := Table.mem_of_find? (Except.ok.inj he)
      exact (hw.regular.owned m _ hmem).2
    · cases he
  have asked : ask (fun w => w.eventOf? m name) w = (.ok (some e), w) := by rw [ask_apply, he]; rfl
  unfold trigger
  rw [if_neg (by simp [hargs]), bind_of_ok asked]
  simp only []
  rw [bind_of_ok (get_apply w), owner]
  exact submit_eq_attend hidle

/-- A task is processed: a firing is opened for it and goes all the way, from the preparation of its machine to its
finalising callbacks. -/
def Processes (E : Engine) (task : Task) (firing : Firing) (w : World) : Prop :=
  ∃ history, E.runTask task w =
    E.processFiring w.firings.next (({ w with history := history } : World).opened firing)

/-- A task is turned away: it is ignored or refused, and leaves nothing but entries of the history. -/
def TurnsAway (E : Engine) (task : Task) (event state : Value) (w : World) : Prop :=
  ((E.runTask task w).1 = .ok (.bool false) ∨
      ∃ message, (E.runTask task w).1 = .error (.fault (.invalidTrigger message event state))) ∧
    ∃ history, (E.runTask task w).2 = { w with history := history }

/-- An event with an entry for the state of a model is processed. -/
theorem processes_of_entry (here : w.In m x a s) (owner : (w.events.get e).machine = m)
    (entry : (w.events.get e).candidates.contains (.text a) = true) :
    E.Processes (.fire e (.model x) args named)
      { state := s, event := e, machine := m, model := .model x, args := args, named := named } w := by
  obtain ⟨history, asked⟩ := here.asked (E := E)
  refine ⟨history, ?_⟩
  simp only [runTask]
  unfold fireNow
  rw [bind_of_ok (get_apply w)]
  simp only [owner]
  rw [bind_of_ok asked, bind_of_ok (get_apply _)]
  simp only [here.named, entry, if_true]
  exact bind_of_ok (set_apply _ _)

/-- An event without one is turned away. -/
theorem turnsAway_of_no_entry (here : w.In m x a s) (owner : (w.events.get e).machine = m)
    (missing : (w.events.get e).candidates.contains (.text a) = false) :
    E.TurnsAway (.fire e (.model x) args named) (w.events.get e).name (.text a) w := by
  obtain ⟨history, asked⟩ := here.asked (E := E)
  unfold TurnsAway
  simp only [runTask]
  unfold fireNow
  rw [bind_of_ok (get_apply w)]
  simp only [owner]
  rw [bind_of_ok asked, bind_of_ok (get_apply _)]
  simp only [here.named, missing, if_false, Bool.false_eq_true]
  split
  · exact ⟨.inl rfl, _, rfl⟩
  · exact ⟨.inr ⟨_, rfl⟩, _, rfl⟩

end Engine

section Views

variable {m : MachineId} {t a : String} {s : StateId} {w : World}

theorem World.In.taking {x : String} (h : w.In m x a s) (task : Task) : (w.taking m task).In m x a s := by
  have machine : (w.taking m task).machine m = { w.machine m with line := (w.machine m).line.begun task } := by
    rw [World.taking, machine_updateMachine, if_pos rfl]
  refine ⟨h.named, ?_, h.held.of_same (by rw [machine]) rfl (fun _ => rfl)⟩
  rw [← h.found]
  unfold lookupState
  rw [machine]
  rfl

/-- The triggers listed for several states are those listed for one of them, in order of registration. -/
theorem World.triggersFrom_union (h : w.ListsOnce m) (names : List String) :
    ∃ ts, w.triggersFrom m (names.map .text) = .ok ts ∧ ts.Sublist (w.machine m).events.keys ∧
      ts.Pairwise (fun k k' => (k == k') = false) ∧
      ∀ k, k ∈ ts ↔ ∃ a ∈ names, ∃ us, w.triggersFrom m [.text a] = .ok us ∧ k ∈ us := by
  refine ⟨_, triggersFrom_texts names, List.filter_sublist.map _, ?_, fun k => ?_⟩
  · exact List.pairwise_map.mpr (List.Pairwise.filter _ h)
  · have single (a : String) := triggersFrom_texts (w := w) (m := m) [a]
    simp only [List.mem_map, List.mem_filter, List.any_eq_true]
    constructor
    · rintro ⟨x, ⟨hx, a, ha, entry⟩, rfl⟩
      refine ⟨a, ha, _, single a, List.mem_map_of_mem (List.mem_filter.mpr ⟨hx, ?_⟩)⟩
      simpa using entry
    · rintro ⟨a, ha, us, hus, hk⟩
      obtain rfl := Except.ok.inj (hus.symm.trans (single a))
      obtain ⟨x, hx, rfl⟩ := List.mem_map.mp hk
      obtain ⟨hx, entry⟩ := List.mem_filter.mp hx
      exact ⟨x, ⟨hx, a, ha, by simpa using entry⟩, rfl⟩

/-- The views of what can be fired in a registered state. A trigger is listed for the state if and only if
transitions are selected for it there, or its event has an entry for the state without a transition; and such an
entry is what a firing of the event in this state has left that looked for candidates in vain. The trigger is taken up
at once when it is fired on a model in the state with nothing in flight; then it is processed if it is listed for the
state, and turned away if it is not. For several states the triggers are listed that are for one of them, in order of
registration and each of them once. -/
theorem triggers_listed_are_processed (hw : w.Reachable) (hn : w.PlainNames m) (ht : t ≠ "") (ha : a ≠ "*")
    (found : w.lookupState m (.text a) = .ok s) :
    (∃ ts, w.triggersFrom m [.text a] = .ok ts ∧
      ((Value.text t).isIn ts = true ↔
        (∃ us, w.select m (.text t) (.text a) everyState = .ok us ∧ us ≠ []) ∨
          ∃ e, w.eventOf? m (.text t) = .ok (some e) ∧ w.Hollow e (.text a)) ∧
      (∀ (E : Engine) (x : String) (e : EventId) (args : List Value) (named : Named) (task : Task),
        w.Holds m x (w.states.get s).value → (w.machine m).line.inFlight = false →
        Engine.clashes Engine.reservedNames named = false → w.eventOf? m (.text t) = .ok (some e) →
        task = .fire e (.model x) args named →
        E.trigger m (.model x) (.text t) args named w = E.attend m task (w.taking m task) ∧
          ((Value.text t).isIn ts = true → E.Processes task
            { state := s, event := e, machine := m, model := .model x, args := args, named := named }
            (w.taking m task)) ∧
          ((Value.text t).isIn ts = false →
            E.TurnsAway task (w.events.get e).name (.text a) (w.taking m task)))) ∧
      (∀ e, w.Hollow e (.text a) → w.SoughtInVain e (.text a)) ∧
      ∀ names : List String, ∃ ts, w.triggersFrom m (names.map .text) = .ok ts ∧
        ts.Sublist (w.machine m).events.keys ∧ ts.Pairwise (fun k k' => (k == k') = false) ∧
        ∀ k, k ∈ ts ↔ ∃ a ∈ names, ∃ us, w.triggersFrom m [.text a] = .ok us ∧ k ∈ us := by
  have tidy := hw.tidy
  have event : w.eventOf? m (.text t) = .ok ((w.machine m).events.find? (.text t)) := by simp [eventOf?]
  have owned {e : EventId} (he : (w.machine m).events.find? (.text t) = some e) : (w.events.get e).machine = m := by
    obtain ⟨k, -, hmem⟩ := Table.mem_of_find? he
    exact (hw.regular.owned m _ hmem).2
  refine ⟨⟨_, triggersFrom_texts [a], ?_, fun E x e args named task held hidle hargs he htask => ?_⟩,
    fun e => tidy.hollow e _, triggersFrom_union (tidy.once m)⟩
  · rw [isIn_triggersFrom_iff (tidy.once m) (triggersFrom_texts [a]), select_text ht ha, event]
    cases hfind : (w.machine m).events.find? (.text t) with
    | none => simp
    | some e => simp [contains_iff hw (owned hfind) hn]
  · rw [event] at he
    have hfind := Except.ok.inj he
    have here : w.In m x a s := ⟨name_of_lookup hw.regular hn found, found, held⟩
    have listed := isIn_triggersFrom_iff (t := t) (tidy.once m) (triggersFrom_texts [a])
    subst htask
    refine ⟨Engine.trigger_eq_attend hw hidle hargs (event.trans he), fun hl => ?_, fun hl => ?_⟩
    · obtain ⟨e', he', entry⟩ := listed.mp hl
      obtain rfl := Option.some.inj (hfind.symm.trans he')
      exact Engine.processes_of_entry (here.taking _) (owned hfind) entry
    · refine Engine.turnsAway_of_no_entry (here.taking _) (owned hfind) (Bool.eq_false_iff.mpr (fun entry => ?_))
      rw [listed.mpr ⟨e, hfind, entry⟩] at hl
      cases hl

end Views

/-- Before anything else a push of the bolt takes away what a push does while the bolt is shut. -/
def boltHost : Host where
  behaviour := fun _ _ _ _ => .perform "remove_transition"
    (fun _ => .ok (.disconnect 0 (.text "push") (.text "shut") everyState)) (fun _ => .done .null)

/-- A bolt that a push opens and another push shuts. -/
def boltPlan : Blueprint where
  options := { initial := .text "shut", autoTransitions := .bool false }
  states := .list [.text "shut", .text "open"]
  transitions := .list [
    .list [.text "push", .text "shut", .text "open"], .list [.text "push", .text "open", .text "shut"]]
  models := .model "bolt"
  prepareEvent := .callback "drop"

def boltEngine : Engine := Engine.ofHost boltHost 4 2

def boltWorld : World := (boltEngine.perform (.create "bolts" boltPlan) {}).2

/-- The bolt after it has been pushed. -/
def boltTried : World := (boltEngine.perform (.trigger 0 (.model "bolt") (.text "push") [] []) boltWorld).2

theorem boltTried_reachable : boltTried.Reachable := by
  have checked : boltHost.Within Operation.Checked := by
    refine fun _ _ _ _ => ⟨fun w op h => ?_, fun _ => trivial⟩
    cases h
    trivial
  have made : boltWorld.Reachable := World.Reachable.perform ⟨{}, ⟨rfl, rfl, rfl, rfl⟩, .refl⟩ checked 4 2 trivial
  exact made.perform checked 4 2 trivial

theorem boltTried_facts :
    (boltTried.machine 0).states.keys = [.text "shut", .text "open"] ∧
      boltTried.lookupState 0 (.text "shut") = .ok 0 ∧ (boltTried.states.get 0).value = .text "shut" ∧
      boltTried.eventOf? 0 (.text "push") = .ok (some 0) ∧
      boltTried.triggersFrom 0 [.text "shut"] = .ok [.text "push"] ∧
      boltTried.select 0 (.text "push") (.text "shut") everyState = .ok [] ∧
      (boltTried.machine 0).line.inFlight = false ∧ (boltTried.machine 0).accessor = .field "state" ∧
      (boltTried.model "bolt").properties.find? "state" = none ∧
      (boltTried.model "bolt").attributes.find? "state" = some (.text "shut") := by
  -- the world is evaluated once for all that is looked up in it
  have look : (some boltTried).map (fun w => ((w.machine 0).states.keys, w.lookupState 0 (.text "shut"),
      (w.states.get 0).value, w.eventOf? 0 (.text "push"), w.triggersFrom 0 [.text "shut"],
      w.select 0 (.text "push") (.text "shut") everyState, (w.machine 0).line.inFlight, (w.machine 0).accessor,
      (w.model "bolt").properties.find? "state", (w.model "bolt").attributes.find? "state")) =
      some ([.text "shut", .text "open"], .ok 0, .text "shut", .ok (some 0), .ok [.text "push"], .ok [], false,
        .field "state", none, some (.text "shut")) := by cbv
  simpa only [Option.map_some, Option.some.injEq, Prod.mk.injEq] using look

theorem boltTried_plainNames : boltTried.PlainNames 0 := by
  obtain ⟨keys, -⟩ := boltTried_facts
  intro k hk
  rw [keys] at hk
  simp only [List.mem_cons, List.not_mem_nil, or_false] at hk
  rcases hk with rfl | rfl <;> exact ⟨_, rfl⟩

/-- No transition of a push leads from where the bolt is, and yet a push is listed there. -/
theorem idle_push_stays_listed :
    boltTried.Reachable ∧ boltTried.PlainNames 0 ∧ boltTried.lookupState 0 (.text "shut") = .ok 0 ∧
      boltTried.triggersFrom 0 [.text "shut"] = .ok [.text "push"] ∧
      boltTried.select 0 (.text "push") (.text "shut") everyState = .ok [] := by
  obtain ⟨-, shut, -, -, listed, selected, -⟩ := boltTried_facts
  exact ⟨boltTried_reachable, boltTried_plainNames, shut, listed, selected⟩

/-- A push of the bolt is listed, as an earlier one has looked for candidates in vain, and so the next one is
processed. -/
theorem idle_push_was_sought :
    boltTried.Reachable ∧ boltTried.PlainNames 0 ∧ boltTried.SoughtInVain 0 (.text "shut") ∧
      boltEngine.Processes (.fire 0 (.model "bolt") [] [])
        { state := 0, event := 0, machine := 0, model := .model "bolt" }
        (boltTried.taking 0 (.fire 0 (.model "bolt") [] [])) := by
  obtain ⟨-, shut, value, event, listed, selected, idle, accessor, free, state⟩ := boltTried_facts
  have held : boltTried.Holds 0 "bolt" (boltTried.states.get 0).value := by
    unfold World.Holds
    rw [accessor, value]
    exact ⟨free, state⟩
  obtain ⟨⟨ts, hts, agree, fired⟩, sought, -⟩ := triggers_listed_are_processed (t := "push") boltTried_reachable
    boltTried_plainNames (by decide) (by decide) shut
  obtain rfl := Except.ok.inj (hts.symm.trans listed)
  have pushed : (Value.text "push").isIn [.text "push"] = true := by simp [Value.isIn]
  refine ⟨boltTried_reachable, boltTried_plainNames, ?_, ?_⟩
  · rcases agree.mp pushed with ⟨us, hus, some_left⟩ | ⟨e, he, hollow⟩
    · rw [selected] at hus
      exact absurd (Except.ok.inj hus).symm some_left
    · rw [event] at he
      obtain rfl := Option.some.inj (Except.ok.inj he)
      exact sought 0 hollow
  · exact (fired boltEngine "bolt" 0 _ _ _ held idle rfl event rfl).2.1 pushed

end StateEngine
