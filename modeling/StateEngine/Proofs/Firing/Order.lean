import Mathlib
import StateEngine.Proofs.Firing.Processing
import StateEngine.Proofs.Line.Idle

/-! The order of callbacks: a trigger on a machine with nothing in flight consults exactly the callbacks
that the course of its firing has, in that order. -/
namespace StateEngine

namespace World

/-- A world in which a machine has just taken up a task. -/
def taking (w : World) (m : MachineId) (task : Task) : World :=
  w.updateMachine m (fun machine => { machine with line := (w.machine m).line.begun task })

/-- Nothing between two worlds but remarks and the line of a machine. -/
structure Relined (m : MachineId) (w v : World) : Prop where
  rest : v = { w with machines := v.machines, history := v.history }
  others : ∀ n, n ≠ m → v.machine n = w.machine n
  line : ∃ line, v.machine m = { w.machine m with line := line }
  remarks : ∃ entries : List Entry, v.history.toList = w.history.toList ++ entries ∧
    ∀ entry ∈ entries, ∃ severity logger message, entry = .remarked severity logger message

end World

namespace Engine
open Act World

variable {E : Engine} {m : MachineId}

theorem setting_lawful (E : Engine) (m : MachineId) (label : String) : (E.setting m label).slot.Lawful := by
  intro line w
  show ((w.updateMachine m _).machine m).line = line
  rw [machine_updateMachine, if_pos rfl]

theorem relined_write (m : MachineId) (line : Line Task) (w : World) :
    Relined m w (w.updateMachine m (fun machine => { machine with line := line })) := by
  refine ⟨rfl, fun n hn => ?_, ⟨line, ?_⟩, [], by simp [updateMachine], by simp⟩
  · rw [machine_updateMachine, if_neg hn.symm]
  · rw [machine_updateMachine, if_pos rfl]

theorem relined_discard (m : MachineId) (line : Line Task) (message : String) (w : World) :
    Relined m w ((w.record (.remarked .debug .machine message)).updateMachine m
      (fun machine => { machine with line := line })) := by
  obtain ⟨rest, others, hline, -⟩ := relined_write m line (w.record (.remarked .debug .machine message))
  refine ⟨by rw [rest]; rfl, others, hline, [.remarked .debug .machine message], Array.toList_push,
    fun entry he => ?_⟩
  exact ⟨_, _, _, List.mem_singleton.mp he⟩

/-- An error leaves an empty line, and a remark on what has been discarded. -/
theorem abandon_error (E : Engine) (m : MachineId) (label : String) {f : Fault} (hf : f.isError = true)
    (w : World) : ∃ message, (E.setting m label).abandon f w = (.error (.fault f),
      (w.record (.remarked .debug .machine message)).updateMachine m
        (fun machine => { machine with line := .queued [] })) := by
  refine ⟨label ++ "Discarding " ++ Nat.repr (w.machine m).line.pending ++ " queued trigger(s) after error.", ?_⟩
  unfold Line.Setting.abandon
  rw [if_pos hf]
  rfl

theorem abandon_relined (E : Engine) (m : MachineId) (label : String) (f : Fault) (w : World) :
    ∃ w', (E.setting m label).abandon f w = (.error (.fault f), w') ∧ Relined m w w' := by
  cases hf : f.isError with
  | false =>
    refine ⟨w, by simp [Line.Setting.abandon, hf], rfl, fun _ _ => rfl, ⟨_, rfl⟩, [], by simp, by simp⟩
  | true =>
    obtain ⟨message, habandon⟩ := abandon_error E m label hf w
    exact ⟨_, habandon, relined_discard m (.queued []) message w⟩

/-- On a machine with nothing in flight a task runs at once, and its line tells how it ended. -/
theorem submit_idle {w v : World} {task : Task} {r : Except Fault Value}
    (hidle : (w.machine m).line.inFlight = false) (hbound : 1 < E.bound)
    (hrun : E.runTask task (w.taking m task) = (r.mapError .fault, v))
    (hkept : (v.machine m).line = (w.machine m).line.begun task) :
    ∃ w', E.submit m task w = ((r.map (w.machine m).line.answer).mapError .fault, w') ∧ Relined m v w' := by
  obtain ⟨label, hlabel⟩ : ∃ label, label = (w.machine m).label := ⟨_, rfl⟩
  have start : E.submit m task w = (E.setting m label).submit task w := by
    rw [hlabel]
    rfl
  have lawful := setting_lawful E m label
  rw [start]
  unfold taking at hrun
  cases hline : (w.machine m).line with
  | direct busy =>
    have free : busy = false := by simpa [hline, Line.inFlight] using hidle
    subst free
    rw [hline] at hrun
    have ended : (E.setting m label).submit task w =
        (r.mapError .fault, v.updateMachine m (fun machine => { machine with line := .direct false })) :=
      Line.Setting.submit_direct hline hrun
    refine ⟨_, ended.trans ?_, relined_write m (.direct false) v⟩
    cases r <;> rfl
  | queued tasks =>
    have empty : tasks = [] := by simpa [hline, Line.inFlight] using hidle
    subst empty
    rw [hline] at hrun hkept
    obtain ⟨S, hS⟩ : ∃ S, S = E.setting m label := ⟨_, rfl⟩
    have bound : S.bound = E.bound := by rw [hS]; rfl
    obtain ⟨fuel, hfuel⟩ : ∃ fuel, S.bound = fuel + 2 := ⟨E.bound - 2, by omega⟩
    have empty : S.slot.read w = .queued [] := by rw [hS]; exact hline
    have taken : S.slot.read (S.slot.write (.queued [task]) w) = .queued [task] := by rw [hS]; exact lawful _ w
    have ran : S.run task (S.slot.write (.queued [task]) w) = (r.mapError .fault, v) := by rw [hS]; exact hrun
    have kept : S.slot.read v = .queued [task] := by rw [hS]; exact hkept
    rw [← hS, Line.Setting.submit_queued empty, hfuel]
    cases r with
    | ok a =>
      have closed : S.slot.read (S.slot.write (.queued []) v) = .queued [] := by rw [hS]; exact lawful _ v
      have written : S.slot.write (.queued []) v =
          v.updateMachine m (fun machine => { machine with line := .queued [] }) := by rw [hS]; rfl
      rw [Line.Setting.drain_cons_ok taken ran kept, Line.Setting.drain_nil closed, written]
      exact ⟨_, rfl, relined_write m (.queued []) v⟩
    | error f =>
      rw [Line.Setting.drain_cons_error taken ran, hS]
      exact abandon_relined E m label f v

/-- A state that a model is in was looked up in the registry as it was before. -/
theorem currentState_lookup (hE : E.Calm) {model : Value} {w v : World} {s : StateId}
    (h : E.currentState m model w = (.ok s, v)) : ∃ x, w.lookupState m x = .ok s := by
  obtain ⟨x, u, hread, hask⟩ := ok_of_bind_apply h
  obtain ⟨hlookup, rfl⟩ := ok_of_ask hask
  have walked : Relation.ReflTransGen Steady w (E.readState m model w).2 := hE.walks.readState m model w
  rw [hread] at walked
  have steady := Steady.of_steps walked
  have machine : v.machine m = { w.machine m with line := (w.machine m).line } := by
    show v.machines.get m = w.machines.get m
    rw [steady.machines]
  exact ⟨x, (lookupState_congr steady.states machine x).symm.trans hlookup⟩

/-- A trigger on a machine with nothing in flight, for a model in a state with candidates: the callbacks
that it consults, in order and with how each of them ended, are exactly those that the course of a firing
has, up to where a fault cuts it. -/
theorem trigger_takes_its_course (hE : E.Calm) {w : World} (hw : w.Reachable) (hn : w.PlainNames m)
    (hroom : E.Roomy w) (hidle : (w.machine m).line.inFlight = false) {model name : Value}
    {args : List Value} {named : Named} (hargs : clashes reservedNames named = false) {e : EventId}
    (he : w.eventOf? m name = .ok (some e)) {s : StateId} {v : World}
    (hs : E.currentState m model (w.taking m (.fire e model args named)) = (.ok s, v))
    {us : List TransitionId} (hu : (w.events.get e).candidates.find? (w.states.get s).name = some us) :
    ∃ xs verdict u w',
      E.trigger m model name args named w =
        (((verdict.map Value.bool).map (w.machine m).line.answer).mapError .fault, w') ∧
      E.Conducts m v.firings.next
        (v.opened { state := s, event := e, machine := m, model := model, args := args, named := named }) xs u ∧
      Course w m s (us.map w.transitions.get) xs verdict ∧ Relined m u w' := by
  obtain ⟨task, htask⟩ : ∃ task, task = Task.fire e model args named := ⟨_, rfl⟩
  rw [← htask] at hs
  have states : (w.taking m task).states = w.states := rfl
  have machine : (w.taking m task).machine m =
      { w.machine m with line := (w.machine m).line.begun task } := by
    rw [taking, machine_updateMachine, if_pos rfl]
  have reachable : (w.taking m task).Reachable := by
    obtain ⟨start, blank, steps⟩ := hw
    exact ⟨start, blank, steps.tail (.tune w m (fun _ => ⟨rfl, rfl, rfl⟩))⟩
  have plain : (w.taking m task).PlainNames m := by
    intro k hk
    rw [machine] at hk
    exact hn k hk
  have hm : (w.events.get e).machine = m := by
    have found : (w.machine m).events.find? name = some e := by
      unfold eventOf? at he
      split at he
      · exact Except.ok.inj he
      · cases he
    obtain ⟨k, -, hmem⟩ := Table.mem_of_find? found
    exact (hw.regular.owned m _ hmem).2
  obtain ⟨x, hx⟩ := currentState_lookup hE hs
  have leads := reachable.regular.leads plain hm hx hu
  have room : E.Roomy (w.taking m task) := ⟨hroom.turns, hroom.prepare, hroom.stages⟩
  obtain ⟨xs, verdict, u, hf, hc, hcourse⟩ := fireNow_course hE args named room hm hs hu leads
  have kept : (u.machine m).line = (w.machine m).line.begun task := by
    rw [(hc.still hE).machine m]
    show (v.machines.get m).line = _
    rw [(steady_currentState hE hs).machines]
    show ((w.taking m task).machine m).line = _
    rw [machine]
  have ran : E.runTask task (w.taking m task) = ((verdict.map Value.bool).mapError .fault, u) := by
    rw [htask] at hf ⊢
    exact hf
  obtain ⟨w', hsubmit, relined⟩ := submit_idle hidle hroom.turns ran kept
  refine ⟨xs, verdict, u, w', ?_, hc, hcourse.congr states machine, relined⟩
  unfold trigger
  rw [hargs, if_neg (by simp)]
  have asked : Act.ask (fun w => w.eventOf? m name) w = (.ok (some e), w) := by
    rw [ask_apply, he]
    rfl
  rw [bind_of_ok asked]
  simp only []
  rw [bind_of_ok (get_apply w), hm, ← htask]
  exact hsubmit

/-- Callbacks that do nothing but give a value or fail leave everything but the history and the count of
their calls. -/
theorem call_ofHost {host : Host} (bound depth : Nat)
    (h : ∀ callback call w count, (∃ v, host.behaviour callback call w count = .done v) ∨
      ∃ f, host.behaviour callback call w count = .fail f) (label callback : String) (call : Call)
    (w : World) :
    ∃ r : Except Fault Value, (ofHost host bound (depth + 1)).call label callback call w =
      (r.mapError .fault, { w with
        invocations := w.invocations.insert callback ((w.invocations.find? callback).getD 0 + 1)
        history := w.history.push (callEntry w label call) }) := by
  obtain ⟨u, hu⟩ : ∃ u, u = { w with
      invocations := w.invocations.insert callback ((w.invocations.find? callback).getD 0 + 1)
      history := w.history.push (callEntry w label call) } := ⟨_, rfl⟩
  have entered : (ofHost host bound (depth + 1)).call label callback call w =
      (ofHost host bound depth).runProgram
        (host.behaviour callback call u ((w.invocations.find? callback).getD 0)) u := by
    rw [hu]
    rfl
  rw [entered, ← hu]
  rcases h callback call u ((w.invocations.find? callback).getD 0) with ⟨v, hv⟩ | ⟨f, hf⟩
  · exact ⟨.ok v, by rw [hv]; rfl⟩
  · exact ⟨.error f, by rw [hf]; rfl⟩

/-- A host of which every callback does nothing but give a value or fail makes a calm engine. -/
theorem calm_ofHost {host : Host} (bound depth : Nat)
    (h : ∀ callback call w count, (∃ v, host.behaviour callback call w count = .done v) ∨
      ∃ f, host.behaviour callback call w count = .fail f) : (ofHost host bound (depth + 1)).Calm := by
  refine ⟨fun label callback call w => ?_, fun label callback call w => ?_⟩
  · obtain ⟨r, hr⟩ := call_ofHost bound depth h label callback call w
    rw [hr]
    cases r <;> exact fun h => by cases h
  · obtain ⟨r, hr⟩ := call_ofHost bound depth h label callback call w
    rw [hr]
    exact ⟨rfl, rfl, rfl, rfl, rfl, rfl⟩

end Engine

/-- Callbacks that give true, but for one that gives false. -/
def gateHost : Host where
  behaviour := fun callback _ _ _ => .done (.bool (callback != "no"))

/-- A gate that is shut, with two ways to open it, of which the first never lets anyone pass. -/
def gatePlan : Blueprint where
  options := { initial := .text "shut", autoTransitions := .bool false }
  states := .list [.text "shut", .text "open"]
  transitions := .list [
    .list [.text "push", .text "shut", .text "open", .callback "no"],
    .list [.text "push", .text "shut", .text "open", .callback "yes"]]
  models := .model "gate"

def gateEngine : Engine := Engine.ofHost gateHost 4 1

def gateWorld : World := (gateEngine.perform (.create "gates" gatePlan) {}).2

theorem gateWorld_reachable : gateWorld.Reachable := by
  have checked : gateHost.Within Operation.Checked := fun _ _ _ _ => trivial
  exact World.Reachable.perform ⟨{}, ⟨rfl, rfl, rfl, rfl⟩, .refl⟩ checked 4 1 trivial

theorem gateEngine_calm : gateEngine.Calm :=
  Engine.calm_ofHost 4 0 (fun callback _ _ _ => .inl ⟨.bool (callback != "no"), rfl⟩)

/-- The gate as its machine has it. -/
theorem gateWorld_facts :
    (gateWorld.machine 0).states.keys = [.text "shut", .text "open"] ∧
      (gateWorld.machine 0).line.inFlight = false ∧
      gateWorld.eventOf? 0 (.text "push") = .ok (some 0) ∧
      (gateEngine.currentState 0 (.model "gate") (gateWorld.taking 0 (.fire 0 (.model "gate") [] []))).1 = .ok 0 ∧
      (gateWorld.events.get 0).candidates.find? (gateWorld.states.get 0).name = some [0, 1] ∧
      gateWorld.transitions.cells.all (fun t => t.prepare.length < 4) = true ∧
      gateWorld.states.cells.all (fun s => s.onEnter.length < 4 ∧ s.onExit.length < 4) = true := by
  refine ⟨?_, ?_, ?_, ?_, ?_, ?_, ?_⟩ <;> cbv

theorem gateWorld_plain : gateWorld.PlainNames 0 := by
  obtain ⟨hkeys, -⟩ := gateWorld_facts
  intro k hk
  rw [hkeys] at hk
  simp only [List.mem_cons, List.not_mem_nil, or_false] at hk
  rcases hk with rfl | rfl
  · exact ⟨"shut", rfl⟩
  · exact ⟨"open", rfl⟩

theorem gateEngine_roomy : gateEngine.Roomy gateWorld := by
  obtain ⟨-, -, -, -, -, hprepare, hstages⟩ := gateWorld_facts
  rw [Array.all_eq_true_iff_forall_mem] at hprepare hstages
  refine ⟨by decide, fun t => ?_, fun s stage => ?_⟩
  · exact Heap.forall_get (P := fun t : Transition => t.prepare.length < 4)
      (fun t ht => by simpa using hprepare t ht) (by decide) t
  · have short := Heap.forall_get (P := fun s : State => s.onEnter.length < 4 ∧ s.onExit.length < 4)
      (fun s hs => by simpa using hstages s hs) (by decide) s
    cases stage with
    | enter => exact short.1
    | exit => exact short.2

/-- A push goes past the first way, whose condition gives false, and through the second one. -/
theorem push_takes_its_course :
    ∃ (xs : List Moment) (verdict : Except Fault Bool) (u w' v : World),
      gateEngine.trigger 0 (.model "gate") (.text "push") [] [] gateWorld =
        (((verdict.map Value.bool).map (gateWorld.machine 0).line.answer).mapError .fault, w') ∧
      gateEngine.Conducts 0 v.firings.next
        (v.opened { state := 0, event := 0, machine := 0, model := .model "gate", args := [], named := [] }) xs u ∧
      Course gateWorld 0 0 ([0, 1].map gateWorld.transitions.get) xs verdict ∧ World.Relined 0 u w' := by
  obtain ⟨-, hidle, he, hs, hu, -⟩ := gateWorld_facts
  obtain ⟨xs, verdict, u, w', h⟩ := Engine.trigger_takes_its_course gateEngine_calm gateWorld_reachable
    gateWorld_plain gateEngine_roomy hidle rfl he (Prod.ext hs rfl) hu
  exact ⟨xs, verdict, u, w', _, h⟩

end StateEngine
