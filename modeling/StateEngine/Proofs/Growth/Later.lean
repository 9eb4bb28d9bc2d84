import StateEngine.Proofs.Firing.Commit
import StateEngine.Proofs.Growth.Deciding
import StateEngine.Proofs.Growth.Hosts
import StateEngine.Proofs.Line.Lockstep

/-! Later registrations take nothing over: a trigger that was decided by a candidate, or by something raised before all
of them had declined, is decided in the same way when more has been registered. -/
namespace StateEngine
open Act World Relation

namespace World

variable {m : MachineId} {e : EventId} {w v : World} {name : Value}

/-- A machine and what it has grown into set out from the same, where its models have stayed in their states. -/
theorem Grown.apace (h : Grown m w v) (models : v.models = w.models) (ledgers : v.ledgers = w.ledgers) :
    Apace m (w.machine m).line w v w v := by
  obtain ⟨states, events, machine⟩ := h.machine
  exact ⟨⟨h.firings, h.rosters, ledgers, models, id, [], by simp, by simp⟩, ⟨rfl, rfl, rfl⟩, ⟨rfl, rfl, rfl⟩,
    ⟨rfl, by rw [machine]⟩, fun _ _ => ⟨rfl, rfl⟩⟩

theorem Grown.eventOf? (h : Grown m w v) (he : w.eventOf? m name = .ok (some e)) : v.eventOf? m name = .ok (some e) := by
  unfold World.eventOf? at he ⊢
  split at he
  · rename_i hash
    rw [if_pos hash, h.listed name e (Except.ok.inj he)]
  · cases he

/-- The event of a trigger is one of the machine. -/
theorem Reachable.owned_eventOf? (hw : w.Reachable) (he : w.eventOf? m name = .ok (some e)) :
    e < w.events.next ∧ (w.events.get e).machine = m := by
  unfold World.eventOf? at he
  split at he
  · obtain ⟨k, -, hmem⟩ := Table.mem_of_find? (Except.ok.inj he)
    exact hw.regular.owned m (k, e) hmem
  · cases he

end World

namespace Engine

variable {E : Engine} {m : MachineId} {e : EventId} {w v u u' : World} {model name : Value} {args : List Value}
  {named : Named} {line : Line Task} {task : Task}

theorem apace_setting (label : String) : (E.setting m label).Keeps (fun line => Apace m line w v) where
  read h := ⟨congrArg Machine.line h.machine.1, congrArg Machine.line h.machine.2⟩
  write line' h := h.updateLine line'
  remark _ := .change (fun _ _ h => h.record _)

theorem Aloof.sameModels (hE : E.Aloof) : E.Walks SameModels :=
  ⟨fun label callback call w => .single (hE.models label callback call w), fun _ _ => .single ⟨rfl, rfl⟩⟩

/-- On a machine with nothing in flight, a trigger that decides goes the same way once the machine has grown. -/
theorem apace_trigger (hw : w.Reachable) (hn : w.PlainNames m) (grown : Grown m w v) (models : v.models = w.models)
    (ledgers : v.ledgers = w.ledgers) (hidle : (w.machine m).line.inFlight = false)
    (hargs : clashes reservedNames named = false) (he : w.eventOf? m name = .ok (some e))
    (hE : E.Repeats m ((w.machine m).line.begun (.fire e model args named)) w v)
    (decides : E.Decides m e model args named (w.taking m (.fire e model args named))) :
    InStepAt (fun u u' => ∃ line, Apace m line w v u u') w v (E.trigger m model name args named)
      (E.trigger m model name args named) := by
  obtain ⟨made, owned⟩ := hw.owned_eventOf? he
  have hg := grown.outgrown hw hn made owned
  have apace := grown.apace models ledgers
  have owned' : (v.events.get e).machine = m := hg.owner.2.trans owned
  have label : (v.machine m).label = (w.machine m).label := apace.field hg (fun machine => machine.label) (fun _ _ _ => rfl)
  have taken := apace.updateLine ((w.machine m).line.begun (.fire e model args named))
  have fired := apace_fireNow hg hE owned decides taken
  unfold trigger
  rw [hargs]
  refine .bind_ok (ask_ok (f := fun w : World => w.eventOf? m name) he) (ask_ok (grown.eventOf? he)) ?_
  refine .get_bind ?_
  rw [owned, owned']
  refine .get_bind ?_
  rw [label]
  exact Line.Setting.inStep_submit (apace_setting _) apace hidle fired

/-- Later registrations take nothing over. After any history of connecting triggers and adding states, a trigger on a
machine with nothing in flight does what it would have done before, given callbacks that perform no operation on a
machine and answer the same: as far as a candidate fired then, or something was raised before all of them had declined.
It gives the same answer or raises the same; the same callbacks are called, as the history tells; the firing is the same,
with the same candidate; and the models are in the same states. -/
theorem later_registrations_take_nothing_over (hw : w.Reachable) (hn : w.PlainNames m)
    (history : ReflTransGen (E.Enlarges m) w v) (models : v.models = w.models) (ledgers : v.ledgers = w.ledgers)
    (hidle : (w.machine m).line.inFlight = false) (hargs : clashes reservedNames named = false)
    (he : w.eventOf? m name = .ok (some e))
    (hE : E.Repeats m ((w.machine m).line.begun (.fire e model args named)) w v)
    (decides : E.Decides m e model args named (w.taking m (.fire e model args named))) :
    ∃ (answer : Except Stop Value) (w' v' : World) (entries : List Entry),
      E.trigger m model name args named w = (answer, w') ∧ E.trigger m model name args named v = (answer, v') ∧
      w'.history.toList = w.history.toList ++ entries ∧ v'.history.toList = v.history.toList ++ entries ∧
      v'.firings = w'.firings ∧ v'.models = w'.models ∧ v'.ledgers = w'.ledgers := by
  have grown := grown_of_enlarges hE.steady hw hn history
  have fired := apace_trigger hw hn grown models ledgers hidle hargs he hE decides
  rcases ran : E.trigger m model name args named w with ⟨answer, w'⟩
  obtain ⟨v', ran', line, apace⟩ := fired.ends ran
  obtain ⟨entries, before, after⟩ := apace.history
  exact ⟨answer, w', v', entries, rfl, ran', before, after, apace.firings, apace.models, apace.ledgers⟩

end Engine

/-- The gate with a third state, and a way there from everywhere for the trigger that opens it. -/
def ajarWorld : World := (gateEngine.perform (.addStates 0 (.list [.text "ajar"]) {}) gateWorld).2

def widerWorld : World := (gateEngine.perform (.connect 0 (.text "push") (.text "*") (.text "ajar") {}) ajarWorld).2

theorem widerWorld_facts :
    ((gateEngine.perform (.addStates 0 (.list [.text "ajar"]) {}) gateWorld).1 = .ok (.value .null) ∧
      (gateEngine.perform (.connect 0 (.text "push") (.text "*") (.text "ajar") {}) ajarWorld).1 = .ok (.value .null)) ∧
    (widerWorld.events.get 0).candidates.find? (.text "shut") = some [0, 1, 2] := by
  refine ⟨⟨?_, ?_⟩, ?_⟩ <;> cbv

/-- The gate in the midst of a push, when its state has been read. -/
def pushedWorld : World :=
  (gateEngine.currentState 0 (.model "gate") (gateWorld.taking 0 (.fire 0 (.model "gate") [] []))).2

theorem pushedWorld_facts :
    (pushedWorld.events.get 0).candidates.find? (pushedWorld.states.get 0).name = some [0, 1] ∧
      pushedWorld.firings.next = 0 ∧
      ((gateEngine.attemptMoves 0 0 (pushedWorld.opened
        { state := 0, event := 0, machine := 0, model := .model "gate", args := [], named := [] })).2.firings.get 0).result =
          true := by
  refine ⟨?_, ?_, ?_⟩ <;> cbv

theorem gateWorld_decides :
    gateEngine.Decides 0 0 (.model "gate") [] [] (gateWorld.taking 0 (.fire 0 (.model "gate") [] [])) := by
  obtain ⟨-, -, -, current, -⟩ := gateWorld_facts
  obtain ⟨candidates, next, fired⟩ := pushedWorld_facts
  refine ⟨0, pushedWorld, [0, 1], Prod.ext current rfl, candidates, fun ⟨v, ran, declined⟩ => ?_⟩
  rw [next] at ran declined
  rw [ran, declined] at fired
  cases fired

/-- A push goes the way it went before, although there is another one by now. -/
theorem gate_opens_as_before :
    (widerWorld.events.get 0).candidates.find? (.text "shut") = some [0, 1, 2] ∧ ∃ (answer : Except Stop Value) (w' v' : World) (entries : List Entry),
      gateEngine.trigger 0 (.model "gate") (.text "push") [] [] gateWorld = (answer, w') ∧
      gateEngine.trigger 0 (.model "gate") (.text "push") [] [] widerWorld = (answer, v') ∧
      w'.history.toList = gateWorld.history.toList ++ entries ∧ v'.history.toList = widerWorld.history.toList ++ entries ∧
      v'.firings = w'.firings ∧ v'.models = w'.models ∧ v'.ledgers = w'.ledgers := by
  obtain ⟨-, idle, listed, -⟩ := gateWorld_facts
  obtain ⟨⟨added, connected⟩, candidates⟩ := widerWorld_facts
  have history : ReflTransGen (gateEngine.Enlarges 0) gateWorld widerWorld :=
    .tail (.single ⟨_, _, .addStates _ _, Prod.ext added rfl⟩) ⟨_, _, .connect _ _ _ _, Prod.ext connected rfl⟩
  have aloof : gateEngine.Aloof := Engine.aloof_ofHost 4 0 (fun _ _ _ _ => .inl ⟨_, rfl⟩)
  obtain ⟨models, ledgers⟩ := Engine.sameModels_of_enlarges aloof.sameModels.readAttribute history
  have repeats : gateHost.Repeats 0 ((gateWorld.machine 0).line.begun (.fire 0 (.model "gate") [] [])) gateWorld widerWorld :=
    ⟨fun _ _ _ _ => trivial, fun _ _ _ _ _ _ _ _ _ => rfl⟩
  exact ⟨candidates, Engine.later_registrations_take_nothing_over gateWorld_reachable gateWorld_plain history models ledgers
    idle rfl listed (Engine.repeats_ofHost repeats 4 1) gateWorld_decides⟩

end StateEngine
