import StateEngine.Proofs.Firing.Views
import StateEngine.Proofs.Routes.Moving

/-! Over a whole history of operations the routes of a machine are complete, and the trigger of a state moves models
there from any other one. -/
namespace StateEngine
open Act Relation World

variable {host : Host} {m : MachineId} {j : Option FiringId} {w v : World}

/-- Callbacks that ask for what is admitted keep the routes of a machine complete. -/
theorem tending_ofHost (h : host.Asks (Admits m)) (bound depth : Nat) :
    (Engine.ofHost host bound depth).Goes False (Tending host m j) :=
  Engine.goes_ofHost (P := Admits m) grants_tending.log h bound (fun _ hE _ _ hop => goesFrom_admits hE hop) depth

theorem Host.Asks.checked (h : host.Asks (Admits m)) : host.Within Operation.Checked := fun callback call w count =>
  (h callback call w count).within (fun w op hop => by
    cases op with
    | adopt => exact hop
    | _ => trivial)

/-- One operation of a host that is admitted and comes to an end, in any way. -/
def Host.Admitted (host : Host) (m : MachineId) (w v : World) : Prop :=
  ∃ (bound depth : Nat) (op : Operation) (r : Except Fault Reply), w.Admits m op ∧
    (Engine.ofHost host bound depth).perform op w = (r.mapError .fault, v)

namespace World

theorem Blank.tended (h : w.Blank) (hg : w.Gentle host) : w.Tended host m none where
  reachable := ⟨w, h, .refl⟩
  auto := by
    rw [h.machine]
    rfl
  gentle := hg
  opened _ hi := by cases hi
  linked _ := by
    refine ⟨fun b hb => ?_, fun b _ => ?_⟩
    · rw [h.machine] at hb
      cases hb
    · rw [h.machine]
      rfl

theorem Tended.admitted (hw : w.Tended host m none) (asks : host.Asks (Admits m)) (h : host.Admitted m w v) :
    v.Tended host m none := by
  obtain ⟨bound, depth, op, r, admitted, ran⟩ := h
  exact (Under.steps ((goesFrom_admits (tending_ofHost asks bound depth) admitted).steps ran) hw).2

end World

namespace Engine

variable {E : Engine} {i : FiringId} {x b : String} {d : StateId} {xs ys : List Moment} {u : World}

/-- What came behind a moment was conducted from where it had ended. -/
theorem Conducts.behind {y : Moment} (h : E.Conducts m i w (xs ++ y :: ys) u) : E.Conducts m i y.after ys u := by
  generalize hxs : xs ++ y :: ys = zs at h
  induction h generalizing xs with
  | done w => cases xs <;> cases hxs
  | quiet _ _ ih => exact ih hxs
  | moment hx rest ih =>
    cases xs with
    | nil =>
      cases hxs
      exact rest
    | cons z xs =>
      cases hxs
      exact ih rfl

/-- A model stays in its state where none of the callbacks takes it out of there. -/
theorem Conducts.stays (h : E.Conducts m i w xs u) (here : w.In m x b d)
    (hx : ∀ z ∈ xs, z.before.In m x b d → z.after.In m x b d) : u.In m x b d := by
  induction h with
  | done w => exact here
  | quiet hq _ ih =>
    have rest := hq.rest
    refine ih ⟨?_, ?_, ?_⟩ hx
    · rw [rest]
      exact here.named
    · rw [rest]
      exact here.found
    · rw [rest]
      exact here.held
  | moment _ _ ih =>
    exact ih (hx _ List.mem_cons_self here) (fun z hz => hx z (List.mem_cons_of_mem _ hz))

/-- A model that was moved is in its new state in the end, if no callback takes it out of there. -/
theorem Conducts.arrives (h : E.Conducts m i w xs u) (hx : Crosses m x b xs)
    (stay : ∀ z ∈ xs, z.Rung → ∀ d, z.before.In m x b d → z.after.In m x b d) : ∃ d, u.In m x b d := by
  obtain ⟨before, y, behind, d, rfl, -, rung, -, -, here⟩ := hx
  refine ⟨d, Conducts.stays (Conducts.behind h) here (fun z hz => ?_)⟩
  exact stay z (List.mem_append_right _ (List.mem_cons_of_mem _ hz)) (rung z hz) d

/-- Firing the trigger of a state on a machine that has taken it up, for a model in some state. -/
theorem fireNow_crosses {bound depth : Nat} {a : String} {s : StateId} {e : EventId} {args : List Value} {named : Named}
    {r : Except Stop Value} (asks : host.Asks (Admits m)) (hw : w.Tended host m none) (here : w.In m x a s)
    (hb : .text b ∈ (w.machine m).states.keys) (he : (w.machine m).events.find? (toTrigger b) = some e)
    (hr : (ofHost host bound depth).fireNow e (.model x) args named w = (r, u)) (ended : r ≠ .error .exhausted)
    (hn : u.WellNamed m) :
    ∃ (v : World) (xs : List Moment) (verdict : Except Fault Value), r = verdict.mapError .fault ∧
      (ofHost host bound depth).Conducts m v.firings.next
        (v.opened { state := s, event := e, machine := m, model := .model x, args := args, named := named }) xs u ∧
      ((∃ c, verdict = .ok c) ∧ Crosses m x b xs ∨ ∃ f, verdict = .error f ∧ ∃ z ∈ xs, z.Failed f) := by
  have walks : (ofHost host bound depth).Walks Change := changes_ofHost asks.checked bound depth
  have later : w.WellNamed m := hn.earlier ((walks.fireNow permits_checked e _ args named).steps hr)
  obtain ⟨c, hc, -, hmem⟩ := lookupState_text later.plain here.found
  cases hc
  obtain ⟨t, found⟩ := lookupState_key hb
  obtain ⟨history, asked⟩ := here.asked (E := ofHost host bound depth)
  obtain ⟨k, -, listed⟩ := Table.mem_of_find? he
  obtain ⟨v, hv⟩ : ∃ v, v = ({ w with history := history } : World) := ⟨_, rfl⟩
  obtain ⟨firing, hf⟩ : ∃ firing : Firing,
    firing = { state := s, event := e, machine := m, model := .model x, args := args, named := named } := ⟨_, rfl⟩
  rw [← hv] at asked
  -- reading the state of the model and opening the firing change nothing that is registered
  have headed : (v.opened firing).Headed host m x a b v.firings.next e := by
    have opened : (v.opened firing).firings.get v.firings.next = firing := by simp [World.opened]
    have tended : (v.opened firing).Tended host m none :=
      hw.beside ⟨by rw [hv]; rfl, by rw [hv]; rfl, by rw [hv]; rfl, by rw [hv]; rfl⟩ (fun _ => by rw [hv]; rfl)
        (fun _ hi => by cases hi)
    refine ⟨⟨tended.reachable, tended.auto, tended.gentle, fun i hi => ?_, tended.linked⟩, ?_, ?_, ?_, ?_, ?_, ?_, ?_,
      ⟨t, ?_, ?_⟩, ?_⟩
    · rw [← Option.mem_some_iff.mp hi]
      simp [World.opened]
    · rw [opened, hf]
    · rw [opened, hf]
    · rw [opened, hf]
    · rw [opened, hf, hv]
      exact here.named
    · rw [hv]
      exact he
    · rw [hv]
      exact mem_keys hmem
    · rw [hv]
      exact hb
    · rw [hv]
      exact found
    · rw [hv]
      exact name_of_lookup hw.reachable.regular later.plain found
    · rw [hv]
      exact here.held.writable
  have candidates : (v.events.get e).candidates.contains (v.states.get s).name = true := by
    obtain ⟨e', he', spans⟩ := (hw.linked later).leads b hb
    obtain rfl : e = e' := Option.some.inj (he.symm.trans he')
    obtain ⟨t', only, -⟩ := spans.found a (mem_keys hmem)
    rw [hv, Table.contains, here.named, only]
    rfl
  rw [fireNow_opened (hw.reachable.regular.owned m _ listed).2 asked candidates, ← hf] at hr
  obtain ⟨xs, verdict, hverdict, conducts, came⟩ :=
    processFiring_crosses (tending_ofHost asks bound depth) walks headed hr ended hn
  exact ⟨v, xs, verdict, hverdict, hf ▸ conducts, came⟩

end Engine

/-- The routes of a machine are complete over a whole history of operations. From a world in which nothing has been made,
operations follow that make the machine and add states in any way, singly or several at once, by settling on an initial
state, from within callbacks, and also where an addition is refused midway; that bind models, fire triggers and connect
any others than those that lead to states; and each of them ends, normally or with an error. The machine is to connect
its states from the start on, its states are texts that stand for nothing else, what reads attributes of models runs
no operation of a machine and fails for want of an attribute alone. Then the trigger of every registered state has exactly one
transition from every one, which leads there without guards and callbacks, and none besides. And on an idle machine it
moves a model from the state in which it is to this one: when the task is taken up, a callback fails, or the model is
moved there, once, and is in this state in the end unless a callback takes it out. -/
theorem every_state_is_reached_by_its_trigger {host : Host} (asks : host.Asks (Admits m)) {start : World}
    (blank : start.Blank) (gentle : start.Gentle host) (history : ReflTransGen (host.Admitted m) start w)
    (wellNamed : w.WellNamed m) :
    w.Linked m ∧ ∀ (bound depth : Nat) (x a b : String) (s : StateId) (args : List Value) (named : Named),
      w.In m x a s → .text b ∈ (w.machine m).states.keys → (w.machine m).line.inFlight = false →
      Engine.clashes Engine.reservedNames named = false → ∃ e, (w.machine m).events.find? (toTrigger b) = some e ∧
        (Engine.ofHost host bound depth).trigger m (.model x) (toTrigger b) args named w =
          (Engine.ofHost host bound depth).attend m (.fire e (.model x) args named)
            (w.taking m (.fire e (.model x) args named)) ∧
        ∀ r u, (Engine.ofHost host bound depth).fireNow e (.model x) args named
            (w.taking m (.fire e (.model x) args named)) = (r, u) →
          r ≠ .error .exhausted → u.WellNamed m →
          ∃ (v : World) (xs : List Moment) (verdict : Except Fault Value), r = verdict.mapError .fault ∧
            (Engine.ofHost host bound depth).Settles m (.fire e (.model x) args named)
              (w.taking m (.fire e (.model x) args named)) u verdict ∧
            (Engine.ofHost host bound depth).Conducts m v.firings.next (v.opened
              { state := s, event := e, machine := m, model := .model x, args := args, named := named }) xs u ∧
            ((∃ c, verdict = .ok c) ∧ Crosses m x b xs ∧
                ((∀ z ∈ xs, z.Rung → ∀ d, z.before.In m x b d → z.after.In m x b d) → ∃ d, u.In m x b d) ∨
              ∃ f, verdict = .error f ∧ ∃ z ∈ xs, z.Failed f) := by
  have tended : w.Tended host m none := by
    clear wellNamed
    induction history with
    | refl => exact blank.tended gentle
    | tail _ step ih => exact ih.admitted asks step
  have linked := tended.linked wellNamed
  refine ⟨linked, fun bound depth x a b s args named here hb idle free => ?_⟩
  obtain ⟨e, he, -⟩ := linked.leads b hb
  have looked : w.eventOf? m (toTrigger b) = .ok (some e) := by
    rw [World.eventOf?, if_pos (show (toTrigger b).hashable = true from Value.hashable_text _), he]
  refine ⟨e, he, Engine.trigger_eq_attend tended.reachable idle free looked, fun r u hr ended hn => ?_⟩
  obtain ⟨task, htask⟩ : ∃ task, task = Task.fire e (.model x) args named := ⟨_, rfl⟩
  rw [← htask] at hr ⊢
  have machine : (w.taking m task).machine m = { w.machine m with line := (w.machine m).line.begun task } := by
    rw [taking, machine_updateMachine, if_pos rfl]
  have busy : ((w.taking m task).machine m).line.inFlight = true := by
    rw [machine]
    show ((w.machine m).line.begun task).inFlight = true
    cases (w.machine m).line <;> rfl
  have taken : ReflTransGen (Tending host m none) w (w.taking m task) :=
    tuned_tending (fun _ => ⟨rfl, rfl, rfl⟩) (fun _ h => h)
  have tended' : (w.taking m task).Tended host m none := (Under.steps taken tended).2
  have here' : (w.taking m task).In m x a s := by
    have found : (w.taking m task).lookupState m (.text a) = w.lookupState m (.text a) :=
      lookupState_congr (v := w.taking m task) (w := w) rfl machine (.text a)
    refine ⟨here.named, found.trans here.found, ?_⟩
    have held := here.held
    unfold Holds at held ⊢
    rw [machine]
    exact held
  have hb' : Value.text b ∈ ((w.taking m task).machine m).states.keys := by
    rw [machine]
    exact hb
  have he' : ((w.taking m task).machine m).events.find? (toTrigger b) = some e := by
    rw [machine]
    exact he
  obtain ⟨v, xs, verdict, hverdict, conducts, came⟩ := Engine.fireNow_crosses asks tended' here' hb' he' hr ended hn
  have ran : (Engine.ofHost host bound depth).runTask task (w.taking m task) = (verdict.mapError .fault, u) := by
    rw [htask] at hr ⊢
    exact hverdict ▸ hr
  have stays : ((w.taking m task).machine m).line.Stays (u.machine m).line := by
    have walks := Engine.holding_ofHost host m bound depth
    exact holding_of_steps ((walks.runTask (permits_holding (fun _ => True) m) task).steps ran) busy
  refine ⟨v, xs, verdict, hverdict, Engine.settles_of_run ran stays, conducts, ?_⟩
  exact came.imp_left (fun h => ⟨h.1, h.2, conducts.arrives h.2⟩)

/-- A host whose callbacks add a state. -/
def signalHost : Host where
  behaviour := fun _ _ _ _ => .perform "more" (fun _ => .ok (.addStates 0 (.text "amber") {})) (fun _ => .done .null)

def signalPlan : Blueprint where
  options := { initial := .text "red" }
  states := .list [.text "red", .text "green"]
  transitions := .list [.list [.text "shift", .text "red", .text "green", .null, .null, .callback "extend"]]
  models := .model "signal"

def signalEngine : Engine := Engine.ofHost signalHost 16 3

def signalStart : World := (signalEngine.perform (.create "signals" signalPlan) {}).2

/-- The signal has turned green, and a callback has added a state meanwhile. -/
def signalShifted : World := (signalEngine.perform (.trigger 0 (.model "signal") (.text "shift") [] []) signalStart).2

/-- Two more states are asked for, one of them again. -/
def signalMore : Operation := .addStates 0 (.list [.text "blue", .text "red"]) {}

def signalWorld : World := (signalEngine.perform signalMore signalShifted).2

/-- The signal about to turn blue. -/
def signalTaken : World := signalWorld.taking 0 (.fire 4 (.model "signal") [] [])

def signalBlue : World := (signalEngine.fireNow 4 (.model "signal") [] [] signalTaken).2

theorem signalHost_admits : signalHost.Asks (Admits 0) := by
  refine fun _ _ _ _ => ⟨fun w op h => ?_, fun _ => trivial⟩
  cases h
  trivial

theorem signalPlan_leaves_routes : ∀ definition ∈ signalPlan.transitions.items, ∀ trigger,
    definition.Defines trigger → ¬ trigger.Aims := by
  intro definition hd trigger defines aims
  obtain rfl := List.mem_singleton.mp hd
  obtain ⟨rest, bound⟩ := defines
  cases bound
  obtain ⟨b, hb⟩ := aims
  have text : "shift".toList = ("to_" ++ b).toList := congrArg String.toList (Option.some.inj hb)
  rw [String.toList_append] at text
  cases text

theorem signal_answers : (signalEngine.perform (.create "signals" signalPlan) {}).1 = .ok (.value .null) ∧
    (signalEngine.perform (.trigger 0 (.model "signal") (.text "shift") [] []) signalStart).1 =
        .ok (.value (.bool true)) ∧
      (signalEngine.perform signalMore signalShifted).1 = .error (.fault (.duplicateState (.text "red"))) := by
  refine ⟨?_, ?_, ?_⟩ <;> cbv

set_option maxRecDepth 2000 in
theorem signalWorld_facts : ((signalWorld.machine 0).states.keys =
      [.text "red", .text "green", .text "amber", .text "blue"] ∧ (signalWorld.machine 0).accessor = .field "state" ∧
        (signalWorld.machine 0).line.inFlight = false ∧
          (signalWorld.machine 0).events.find? (toTrigger "blue") = some 4) ∧
    signalWorld.lookupState 0 (.text "green") = .ok 1 ∧ (signalWorld.states.get 1).value = .text "green" ∧
      (signalWorld.model "signal").properties.find? "state" = none ∧
        (signalWorld.model "signal").attributes.find? "state" = some (.text "green") := by
  have look : (some signalWorld).map (fun w => (((w.machine 0).states.keys, (w.machine 0).accessor,
      (w.machine 0).line.inFlight, (w.machine 0).events.find? (toTrigger "blue")), w.lookupState 0 (.text "green"),
      (w.states.get 1).value, (w.model "signal").properties.find? "state",
      (w.model "signal").attributes.find? "state")) =
      some (([.text "red", .text "green", .text "amber", .text "blue"], .field "state", false, some 4), .ok 1,
        .text "green", none, some (.text "green")) := by cbv
  simpa only [Option.map_some, Option.some.injEq, Prod.mk.injEq] using look

set_option maxRecDepth 2000 in
theorem signalBlue_facts : (signalEngine.fireNow 4 (.model "signal") [] [] signalTaken).1 = .ok (.bool true) ∧
    (signalBlue.machine 0).states.keys = [.text "red", .text "green", .text "amber", .text "blue"] ∧
      (signalBlue.machine 0).accessor = .field "state" := by
  unfold signalBlue
  have look : (some (signalEngine.fireNow 4 (.model "signal") [] [] signalTaken)).map (fun p =>
      (p.1, (p.2.machine 0).states.keys, (p.2.machine 0).accessor)) =
      some (.ok (.bool true), [.text "red", .text "green", .text "amber", .text "blue"], .field "state") := by cbv
  simpa only [Option.map_some, Option.some.injEq, Prod.mk.injEq] using look

theorem wellNamed_of_colours {w : World} (hk : (w.machine 0).states.keys =
    [.text "red", .text "green", .text "amber", .text "blue"]) (ha : (w.machine 0).accessor = .field "state") :
    w.WellNamed 0 := by
  intro k hk'
  rw [hk] at hk'
  rw [ha]
  simp only [List.mem_cons, List.not_mem_nil, or_false] at hk'
  rcases hk' with rfl | rfl | rfl | rfl <;> exact ⟨_, rfl, by decide, by decide, by decide⟩

/-- The signal has been given its states one by one, within a callback and by an addition that was refused midway, and
still there are all routes between them: it turns blue when it is told to. -/
theorem signal_turns_blue : World.Blank {} ∧ ReflTransGen (signalHost.Admitted 0) {} signalWorld ∧
    (signalEngine.perform signalMore signalShifted).1 = .error (.fault (.duplicateState (.text "red"))) ∧
      signalWorld.WellNamed 0 ∧ signalWorld.Linked 0 ∧ signalWorld.In 0 "signal" "green" 1 ∧
        ∃ (v : World) (xs : List Moment), signalEngine.Conducts 0 v.firings.next
            (v.opened { state := 1, event := 4, machine := 0, model := .model "signal" }) xs signalBlue ∧
          Crosses 0 "signal" "blue" xs := by
  obtain ⟨⟨keys, accessor, idle, found⟩, lookup, value, free, state⟩ := signalWorld_facts
  obtain ⟨ended, keys', accessor'⟩ := signalBlue_facts
  obtain ⟨created, turned, refused⟩ := signal_answers
  have blank : World.Blank {} := ⟨rfl, rfl, rfl, rfl⟩
  have gentle : World.Gentle signalHost {} := fun x name callback h => by cases h
  have made : signalHost.Admitted 0 {} signalStart :=
    ⟨16, 3, .create "signals" signalPlan, .ok (.value .null), fun _ => ⟨rfl, signalPlan_leaves_routes⟩,
      Prod.ext created rfl⟩
  have shifted : signalHost.Admitted 0 signalStart signalShifted :=
    ⟨16, 3, .trigger 0 (.model "signal") (.text "shift") [] [], .ok (.value (.bool true)), trivial,
      Prod.ext turned rfl⟩
  have more : signalHost.Admitted 0 signalShifted signalWorld :=
    ⟨16, 3, signalMore, .error (.duplicateState (.text "red")), trivial, Prod.ext refused rfl⟩
  have history : ReflTransGen (signalHost.Admitted 0) {} signalWorld := .tail (.tail (.single made) shifted) more
  have wellNamed := wellNamed_of_colours keys accessor
  have here : signalWorld.In 0 "signal" "green" 1 := by
    refine ⟨by rw [State.name, value]; rfl, lookup, ?_⟩
    unfold Holds
    rw [accessor, value]
    exact ⟨free, state⟩
  obtain ⟨linked, moves⟩ := every_state_is_reached_by_its_trigger signalHost_admits blank gentle history wellNamed
  obtain ⟨e, he, -, fires⟩ := moves 16 3 "signal" "green" "blue" 1 [] [] here (by simp [keys]) idle rfl
  obtain rfl : 4 = e := Option.some.inj (found.symm.trans he)
  obtain ⟨v, xs, verdict, hverdict, -, conducts, came⟩ := fires (.ok (.bool true)) signalBlue (Prod.ext ended rfl)
    (fun h => by cases h) (wellNamed_of_colours keys' accessor')
  refine ⟨blank, history, refused, wellNamed, linked, here, v, xs, conducts, ?_⟩
  rcases came with ⟨-, crosses, -⟩ | ⟨f, rfl, -⟩
  · exact crosses
  · cases hverdict

end StateEngine
