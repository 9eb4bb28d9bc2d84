import StateEngine.Proofs.Journey.Whereabouts
import StateEngine.Proofs.Standing.Requests

/-! Over a whole history of operations the models bound to a machine are in states that it has registered. -/
namespace StateEngine
open Act Relation World

variable {m : MachineId} {w v : World}

/-- One operation of a host that minds what it asks for, as its callbacks do. It may end in any way. -/
def World.Minded (m : MachineId) (w v : World) : Prop :=
  ∃ (host : Host) (bound depth : Nat) (op : Operation), host.Asks (Minds m) ∧ w.Minds m op ∧
    v = ((Engine.ofHost host bound depth).perform op w).2

theorem checked_of_minds {op : Operation} (h : w.Minds m op) : op.Checked := by
  cases op with
  | adopt n trigger t => exact h
  | _ => trivial

/-- Callbacks that mind what they ask for keep bound models in registered states. -/
theorem lasting_ofHost {host : Host} (h : host.Asks (Minds m)) (bound depth : Nat) :
    (Engine.ofHost host bound depth).Goes True (Lasting m (fun _ => True)) ∧
      (Engine.ofHost host bound depth).Walks Change := by
  have checked : host.Within Operation.Checked := fun callback call w count =>
    (h callback call w count).within (fun _ _ => checked_of_minds)
  have changes := Engine.changes_ofHost checked bound
  refine ⟨?_, changes depth⟩
  -- operations rest on the registries changing by steps at every depth of calls
  refine (Engine.goes_ofHost (P := Minds m) (R := Lasting m (fun _ => True)) ?_ h bound ?_ depth)
  · exact (grants_lasting_of (K := fun _ _ => False) stable_true (fun _ _ _ hk => hk.elim)).log
  · exact fun depth hE _ _ hop => goesFrom_minds hE (changes depth) hop

theorem World.Standing.minded (hw : Standing m w) (h : World.Minded m w v) : Standing m v := by
  obtain ⟨host, bound, depth, op, asks, allowed, rfl⟩ := h
  obtain ⟨hE, hC⟩ := lasting_ofHost asks bound depth
  exact (Under.steps (goesFrom_minds hE hC allowed).all ⟨hw, trivial⟩).2.1

/-- A bound model is always in a registered state. From a world in which nothing has been made, operations follow that
may bind and unbind models in any initial state, place them by name, member or state object, fire triggers, register
and settle on states, from within callbacks too, and end normally or with an error. Nobody but machines writes where
they keep the states of models, and no other machine keeps them where this one does; and for the state of a model no
state object is given that the machine has not registered. Then whatever is bound to the machine is a model that has
the value of a state registered under a name, and asking for its state gives this state. Operations that are cut short
count too, so this holds in their midst. -/
theorem bound_models_stand_in_registered_states {start : World} (blank : start.Blank)
    (history : ReflTransGen (World.Minded m) start w) (made : m < w.machines.next) (sheltered : w.Sheltered m) :
    ∀ y ∈ w.boundModels m, ∃ (x a : String) (s : StateId), y = .model x ∧ w.In m x a s ∧
      ∀ E : Engine, (E.perform (.currentState m y) w).1 = .ok (.state (w.states.get s)) := by
  have standing : Standing m w := by
    clear made sheltered
    induction history with
    | refl => exact blank.standing m
    | tail _ step ih => exact ih.minded step
  intro y hy
  obtain ⟨x, a, s, rfl, here⟩ := standing.bound made sheltered y hy
  exact ⟨x, a, s, rfl, here, fun E => here.currentState⟩

/-- A vent that is about to open settles on being open at first, and then fails. -/
def ventHost : Host where
  behaviour := fun _ _ _ _ => .perform "initial"
    (fun w => if 0 < w.machines.next then .ok (.setInitial 0 (.text "open")) else .error .wrongType)
    (fun _ => .fail (.raised .value "stuck"))

def ventPlan : Blueprint where
  options := { initial := .text "shut", autoTransitions := .bool false }
  states := .list [.text "shut", .text "open"]
  transitions := .list [.list [.text "push", .text "shut", .text "open", .null, .null, .callback "draught"]]
  models := .model "vent"

def ventEngine : Engine := Engine.ofHost ventHost 8 3

def ventStart : World := (ventEngine.perform (.create "vents" ventPlan) {}).2

/-- The vent after it has been pushed. -/
def ventStuck : World := (ventEngine.perform (.trigger 0 (.model "vent") (.text "push") [] []) ventStart).2

theorem ventHost_minds : ventHost.Asks (Minds 0) := by
  refine fun _ _ _ _ => ⟨fun w op h => ?_, fun _ => trivial⟩
  simp only [] at h
  split at h
  · rename_i made
    cases h
    exact made
  · cases h

theorem ventStuck_facts : (ventStuck.machines.next = 1 ∧ ventStuck.boundModels 0 = [.model "vent"] ∧
    (ventStuck.machine 0).states.keys = [.text "shut", .text "open"] ∧
      ventStuck.transitions.cells.toList.map (·.dest) = [.text "open"]) ∧
    (ventStuck.machine 0).initial = .text "open" ∧ (ventStuck.machine 0).accessor = .field "state" ∧
      (ventStuck.model "vent").properties.find? "state" = none ∧
        (ventStuck.model "vent").attributes.find? "state" = some (.text "shut") := by
  have look : (some ventStuck).map (fun w => ((w.machines.next, w.boundModels 0, (w.machine 0).states.keys,
      w.transitions.cells.toList.map (·.dest)), (w.machine 0).initial, (w.machine 0).accessor,
      (w.model "vent").properties.find? "state", (w.model "vent").attributes.find? "state")) =
      some ((1, [.model "vent"], [.text "shut", .text "open"], [.text "open"]), .text "open", .field "state", none,
        some (.text "shut")) := by cbv
  simpa only [Option.map_some, Option.some.injEq, Prod.mk.injEq] using look

theorem ventStuck_sheltered : ventStuck.Sheltered 0 := by
  obtain ⟨⟨count, -, keys, dests⟩, -⟩ := ventStuck_facts
  refine ⟨⟨fun k hk => ?_, fun t s => ?_⟩, fun n hn hne => ?_⟩
  · rw [keys] at hk
    simp only [List.mem_cons, List.not_mem_nil, or_false] at hk
    rcases hk with rfl | rfl <;> exact ⟨_, rfl⟩
  · refine Heap.forall_get (P := fun x : Transition => x.dest ≠ .state s) (fun x hx => ?_) (fun h => by cases h) t
    have listed : x.dest ∈ ventStuck.transitions.cells.toList.map (·.dest) := List.mem_map_of_mem hx.val
    rw [dests, List.mem_singleton] at listed
    rw [listed]
    nofun
  · rw [count] at hn
    exact absurd (Nat.lt_one_iff.mp hn) hne

/-- The vent is shut, although its machine has settled on being open and then failed. -/
theorem stuck_vent_stands_shut : World.Blank {} ∧ ReflTransGen (World.Minded 0) {} ventStuck ∧
    0 < ventStuck.machines.next ∧ ventStuck.Sheltered 0 ∧ (ventStuck.machine 0).initial = .text "open" ∧
      ∃ s, ventStuck.In 0 "vent" "shut" s ∧
        ∀ E : Engine, (E.perform (.currentState 0 (.model "vent")) ventStuck).1 =
          .ok (.state (ventStuck.states.get s)) := by
  obtain ⟨⟨count, bound, -⟩, initial, accessor, free, state⟩ := ventStuck_facts
  have blank : World.Blank {} := ⟨rfl, rfl, rfl, rfl⟩
  have made : World.Minded 0 {} ventStart := by
    refine ⟨ventHost, 8, 3, .create "vents" ventPlan, ventHost_minds, fun y hy => ⟨"vent", ?_⟩, rfl⟩
    exact List.mem_singleton.mp hy
  have pushed : World.Minded 0 ventStart ventStuck :=
    ⟨ventHost, 8, 3, .trigger 0 (.model "vent") (.text "push") [] [], ventHost_minds, trivial, rfl⟩
  have history : ReflTransGen (World.Minded 0) {} ventStuck := .tail (.single made) pushed
  have one : 0 < ventStuck.machines.next := by
    rw [count]
    exact Nat.one_pos
  refine ⟨blank, history, one, ventStuck_sheltered, initial, ?_⟩
  obtain ⟨x, a, s, hx, here, asked⟩ := bound_models_stand_in_registered_states blank history one ventStuck_sheltered
    (.model "vent") (by rw [bound]; exact List.mem_singleton_self _)
  cases hx
  have shut : ventStuck.Holds 0 "vent" (.text "shut") := by
    unfold World.Holds
    rw [accessor]
    exact ⟨free, state⟩
  have named := here.named
  rw [State.name, here.held.unique shut] at named
  cases named
  exact ⟨s, here, asked⟩

/-- Beside the vent a state object is made that nobody adds to its machine. -/
def ventBeside : World := (ventEngine.perform (.makeState "s" (.text "ajar") .null .null .null) ventStart).2

/-- The vent is put into this state. -/
def ventAjar : World := (ventEngine.perform (.place 0 (.state 2) (.model "vent")) ventBeside).2

/-- A state object that was never added is not refused where a model is placed: the model has its value then, and is in
no registered state any more, so that asking for its state fails. -/
theorem ajar_vent_stands_nowhere :
    (ventBeside.states.get 2).name = .text "ajar" ∧ ventBeside.owns 0 2 = false ∧
      (ventEngine.perform (.place 0 (.state 2) (.model "vent")) ventBeside).1 = .ok (.value .null) ∧
        ventAjar.boundModels 0 = [.model "vent"] ∧ ventAjar.Holds 0 "vent" (.text "ajar") ∧
          (ventEngine.perform (.currentState 0 (.model "vent")) ventAjar).1 =
            .error (.fault (.unregisteredState (.text "ajar"))) := by
  have before : (some ventBeside).map (fun w => ((w.states.get 2).name, w.owns 0 2,
      (ventEngine.perform (.place 0 (.state 2) (.model "vent")) w).1)) =
      some (.text "ajar", false, .ok (.value .null)) := by cbv
  have after : (some ventAjar).map (fun w => (w.boundModels 0, (w.machine 0).accessor,
      (w.model "vent").properties.find? "state", (w.model "vent").attributes.find? "state",
      (ventEngine.perform (.currentState 0 (.model "vent")) w).1)) =
      some ([.model "vent"], .field "state", none, some (.text "ajar"),
        .error (.fault (.unregisteredState (.text "ajar")))) := by cbv
  simp only [Option.map_some, Option.some.injEq, Prod.mk.injEq] at before after
  obtain ⟨named, foreign, placed⟩ := before
  obtain ⟨bound, accessor, free, state, asked⟩ := after
  refine ⟨named, foreign, placed, bound, ?_, asked⟩
  unfold World.Holds
  rw [accessor]
  exact ⟨free, state⟩

end StateEngine
