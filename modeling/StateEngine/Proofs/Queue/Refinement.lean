import StateEngine.Proofs.Firing.Order
import StateEngine.Proofs.Queue.Tandem

/-! A queued machine refines the firing of its triggers one after the other: what its callbacks fire runs
in the order in which it was fired, as if each had been fired from outside on an unqueued machine. -/
namespace StateEngine
open Act World

namespace Engine

/-- Shots fired one after the other on a machine, up to the first whose processing raises. -/
inductive Sequence (E : Engine) (m : MachineId) : World → List Shot → Except Fault Unit → World → Prop where
  | done (w : World) : Sequence E m w [] (.ok ()) w
  | fired {w v u : World} {x : Shot} {xs : List Shot} {a : Value} {r : Except Fault Unit}
      (h : E.shoot m x w = (.ok a, v)) (hr : Sequence E m v xs r u) : Sequence E m w (x :: xs) r u
  | raised {w v : World} {x : Shot} {f : Fault} (h : E.shoot m x w = (.error (.fault f), v)) :
      Sequence E m w [x] (.error f) v

end Engine

/-- A world in which a machine has no queue, and nothing in flight. -/
def World.unqueued (w : World) (m : MachineId) : World :=
  w.updateMachine m (fun machine => { machine with hasQueue := .bool false, line := .direct false })

theorem World.alike_unqueued (w : World) {m : MachineId} : w.Alike m (w.unqueued m) := by
  refine ⟨rfl, rfl, rfl, rfl, rfl, rfl, rfl, rfl, rfl, rfl, fun n hn => ?_, ⟨.direct false, .bool false, ?_⟩, rfl⟩
  · rw [World.unqueued, machine_updateMachine, if_neg hn.symm]
  · rw [World.unqueued, machine_updateMachine, if_pos rfl]

/-- Two worlds between two processings: in the one the line of a queued machine holds the shots that are
still to be processed, and in the other the unqueued machine is idle. -/
structure Waiting (m : MachineId) (events : Table Value EventId) (start : List Entry) (first : Shot)
    (done pending : List Shot) (w v : World) : Prop where
  alike : w.Alike m v
  table : (w.machine m).events = events
  owned : ∀ x ∈ events.entries, (w.events.get x.2).machine = m
  direct : (v.machine m).line = .direct false
  line : (w.machine m).line = .queued (pending.map (Shot.task events))
  registered : ∀ x ∈ pending, x.Registered events
  shots : ∃ entries : List Entry, v.history.toList = start ++ entries ∧
    first :: entries.filterMap Entry.shot? = done ++ pending

variable {m : MachineId} {events : Table Value EventId} {start : List Entry} {first x : Shot}
  {done pending : List Shot} {w v : World}

theorem World.Alike.relined (h : w.Alike m v) (line : Line Task) :
    w.Alike m (v.updateMachine m (fun machine => { machine with line := line })) := by
  obtain ⟨line', hasQueue, hm⟩ := h.machine
  refine { h with machines := fun n hn => ?_, machine := ⟨line, hasQueue, ?_⟩ }
  · rw [machine_updateMachine, if_neg hn.symm]
    exact h.machines n hn
  · rw [machine_updateMachine, if_pos rfl, hm]

/-- The next shot is taken up in both worlds. -/
theorem Waiting.begin (h : Waiting m events start first done (x :: pending) w v) :
    Tandem m events start first done x w
      (v.updateMachine m (fun machine => { machine with line := .direct true })) := by
  obtain ⟨entries, hhistory, hshots⟩ := h.shots
  refine ⟨h.alike.relined _, h.table, h.owned, ?_, entries, pending, hhistory, hshots,
    fun y hy => h.registered y (List.mem_cons_of_mem _ hy), h.line⟩
  rw [machine_updateMachine, if_pos rfl]

/-- Once it is processed it leaves the line, and the later shots wait behind it. -/
theorem Tandem.finish (h : Tandem m events start first done x w v) :
    ∃ more : List Shot, (w.machine m).line = .queued ((x :: more).map (Shot.task events)) ∧
      Waiting m events start first (done ++ [x]) more
        (w.updateMachine m (fun machine => { machine with line := .queued (more.map (Shot.task events)) }))
        (v.updateMachine m (fun machine => { machine with line := .direct false })) := by
  obtain ⟨entries, more, hhistory, hshots, hmore, hline⟩ := h.shots
  refine ⟨more, hline, (h.alike.lined _).relined _, ?_, h.owned, ?_, ?_, hmore, entries, hhistory, ?_⟩
  · rw [machine_updateMachine, if_pos rfl]
    exact h.table
  · rw [machine_updateMachine, if_pos rfl]
  · rw [machine_updateMachine, if_pos rfl]
  · rw [hshots, List.append_assoc, List.singleton_append]

namespace Engine

variable {E E' : Engine}

/-- A registered shot on an idle unqueued machine is processed at once. -/
theorem shoot_direct (hx : x.Registered events) (h : Waiting m events start first done pending w v)
    {r : Except Fault Value} {u : World}
    (hrun : E.runTask (x.task events) (v.updateMachine m (fun machine => { machine with line := .direct true })) =
      (r.mapError .fault, u)) :
    E.shoot m x v = (r.mapError .fault, u.updateMachine m (fun machine => { machine with line := .direct false })) := by
  have table : (v.machine m).events = events := by
    rw [h.alike.field Machine.events (fun _ _ _ => rfl)]
    exact h.table
  have owned : ∀ y ∈ (v.machine m).events.entries, (v.events.get y.2).machine = m := by
    rw [table, h.alike.events]
    exact h.owned
  rw [E.shoot_submits (table ▸ hx) owned, table]
  exact Line.Setting.submit_direct (S := E.setting m (v.machine m).label) h.direct hrun

/-- A queue is worked off as the shots in it, and those that their callbacks fire, are fired one after the
other on the unqueued machine with muted callbacks. -/
theorem drain_sequence (hE : ∀ done x, E.Echoes E' m (Tandem m events start first done x)) (label : String)
    (fuel : Nat) (h : Waiting m events start first done pending w v)
    (hend : ((E.setting m label).drain fuel w).1 ≠ .error .exhausted) :
    ∃ (r : Except Fault Unit) (xs rest : List Shot) (w' v' : World) (entries : List Entry),
      (E.setting m label).drain fuel w = ((r.map fun _ => Value.bool true).mapError .fault, w') ∧
      Sequence E' m v xs r v' ∧ w'.Alike m v' ∧ (w'.machine m).line = .queued [] ∧
      v'.history.toList = start ++ entries ∧
      first :: entries.filterMap Entry.shot? = done ++ (xs ++ rest) ∧ (r = .ok () → rest = []) := by
  obtain ⟨S, hS⟩ : ∃ S, S = E.setting m label := ⟨_, rfl⟩
  have read (w : World) : S.slot.read w = (w.machine m).line := by rw [hS]; rfl
  rw [← hS] at hend ⊢
  induction fuel generalizing done pending w v with
  | zero => exact absurd rfl hend
  | succ fuel ih =>
    cases pending with
    | nil =>
      obtain ⟨entries, hhistory, hshots⟩ := h.shots
      have empty : S.slot.read w = .queued [] := (read w).trans h.line
      exact ⟨.ok (), [], [], w, v, entries, Line.Setting.drain_nil empty, .done v, h.alike, h.line, hhistory,
        hshots, fun _ => rfl⟩
    | cons x pending =>
      have waiting : S.slot.read w = .queued (x.task events :: pending.map (Shot.task events)) :=
        (read w).trans h.line
      have going : (S.run (x.task events) w).1 ≠ .error .exhausted := by
        intro hstop
        have stopped : S.run (x.task events) w = (.error .exhausted, (S.run (x.task events) w).2) :=
          Prod.ext hstop rfl
        exact hend (by rw [Line.Setting.drain_cons_exhausted waiting stopped])
      have echo := (hE done x).fireNow ((events.find? x.name).getD default) x.model x.args x.named w _ h.begin
      rw [hS] at going
      obtain ⟨r, w₁, v₁, hw, hv, tandem, hr⟩ := echo going
      have ran : S.run (x.task events) w = (r.mapError .fault, w₁) := by rw [hS]; exact hw
      have registered := h.registered x List.mem_cons_self
      have shot := shoot_direct registered h hv
      obtain ⟨more, hline, hnext⟩ := tandem.finish
      have kept : S.slot.read w₁ = .queued (x.task events :: more.map (Shot.task events)) :=
        (read w₁).trans hline
      cases r with
      | ok a =>
        have written : S.slot.write (.queued (more.map (Shot.task events))) w₁ = w₁.updateMachine m
            (fun machine => { machine with line := .queued (more.map (Shot.task events)) }) := by rw [hS]; rfl
        rw [Line.Setting.drain_cons_ok waiting ran kept, written] at hend ⊢
        obtain ⟨r, xs, rest, w', v', entries, hdrain, hseq, halike, hempty, hhistory, hshots, hrest⟩ :=
          ih hnext hend
        refine ⟨r, x :: xs, rest, w', v', entries, hdrain, .fired shot hseq, halike, hempty, hhistory, ?_, hrest⟩
        rw [hshots, List.append_assoc]
        rfl
      | error f =>
        obtain ⟨message, habandon⟩ := abandon_error E m label (hr f rfl) w₁
        obtain ⟨entries, hhistory, hshots⟩ := hnext.shots
        rw [Line.Setting.drain_cons_error waiting ran, hS, habandon]
        refine ⟨.error f, [x], more, _, _, entries, rfl, .raised shot, ?_, ?_, hhistory, ?_, fun h => by cases h⟩
        · exact ((tandem.alike.recorded rfl).lined _).relined _
        · rw [machine_updateMachine, if_pos rfl]
        · rw [hshots, List.append_assoc]

/-- A trigger on an idle queued machine, whose callbacks do nothing to it but fire its triggers, and whose
processing comes to an end: all that is fired meanwhile is processed in the order in which it is fired, as
if it were fired one after the other on the same machine without a queue by callers from outside, with
callbacks that note their own triggers instead of firing them. The first fault ends both, and what is
fired behind it is never processed; without a fault nothing is left over, and the trigger gives true. -/
theorem queue_refines_sequence {host : Host} (bound depth : Nat) {w : World} (hw : w.Reachable)
    (hidle : (w.machine m).line = .queued []) (hhost : host.Feeds m (w.machine m).events)
    (hx : x.Registered (w.machine m).events)
    (hend : ((ofHost host bound depth).shoot m x w).1 ≠ .error .exhausted) :
    ∃ (r : Except Fault Unit) (xs rest : List Shot) (w' v' : World) (entries : List Entry),
      (ofHost host bound depth).shoot m x w = ((r.map fun _ => Value.bool true).mapError .fault, w') ∧
      Sequence (ofMuted host bound depth) m (w.unqueued m) xs r v' ∧
      v'.history.toList = (w.unqueued m).history.toList ++ entries ∧
      x :: entries.filterMap Entry.shot? = xs ++ rest ∧ (r = .ok () → rest = []) ∧
      w'.Alike m v' ∧ (w'.machine m).line = .queued [] := by
  have owned := fun y hy => (hw.regular.owned m y hy).2
  obtain ⟨E, hE⟩ : ∃ E, E = ofHost host bound depth := ⟨_, rfl⟩
  obtain ⟨label, hlabel⟩ : ∃ label, label = (w.machine m).label := ⟨_, rfl⟩
  obtain ⟨w₀, hw₀⟩ : ∃ w₀, w₀ = w.updateMachine m (fun machine =>
      { machine with line := .queued [x.task (w.machine m).events] }) := ⟨_, rfl⟩
  have machine : w₀.machine m = { w.machine m with line := .queued [x.task (w.machine m).events] } := by
    rw [hw₀, machine_updateMachine, if_pos rfl]
  have started : E.shoot m x w = (E.setting m label).drain E.bound w₀ := by
    rw [E.shoot_submits hx owned, ← hlabel, hw₀]
    exact Line.Setting.submit_queued (S := E.setting m label) hidle
  have waiting : Waiting m (w.machine m).events (w.unqueued m).history.toList x [] [x] w₀ (w.unqueued m) := by
    refine ⟨?_, by rw [machine], ?_, ?_, by rw [machine]; rfl, ?_, [], by simp, rfl⟩
    · rw [hw₀]
      exact w.alike_unqueued.lined _
    · rw [hw₀]
      exact owned
    · rw [World.unqueued, machine_updateMachine, if_pos rfl]
    · intro y hy
      rw [List.mem_singleton.mp hy]
      exact hx
  rw [← hE, started] at hend ⊢
  have echoes (done : List Shot) (y : Shot) : E.Echoes (ofMuted host bound depth) m
      (Tandem m (w.machine m).events (w.unqueued m).history.toList x done y) := by
    rw [hE]
    exact echoes_ofHost hhost bound depth
  obtain ⟨r, xs, rest, w', v', entries, hdrain, hseq, halike, hempty, hhistory, hshots, hrest⟩ :=
    drain_sequence echoes label E.bound waiting hend
  exact ⟨r, xs, rest, w', v', entries, hdrain, hseq, hhistory, hshots, hrest, halike, hempty⟩

end Engine

/-- A gate that anyone who opens it shuts again: its callback fires the trigger that does. -/
def latchHost : Host where
  behaviour := fun _ _ _ _ => .perform "trigger"
    (fun _ => .ok (.trigger 0 (.model "gate") (.text "pull") [] [])) (fun _ => .done .null)

def latchPlan : Blueprint where
  options := { initial := .text "shut", autoTransitions := .bool false, queued := .bool true }
  states := .list [.text "shut", .text "open"]
  transitions := .list [
    .list [.text "push", .text "shut", .text "open", .null, .null, .null, .callback "latch"],
    .list [.text "pull", .text "open", .text "shut"]]
  models := .model "gate"

def latchWorld : World := ((Engine.ofHost latchHost 4 1).perform (.create "gates" latchPlan) {}).2

theorem latchWorld_reachable : latchWorld.Reachable := by
  have checked : latchHost.Within Operation.Checked := by
    refine fun _ _ _ _ => ⟨fun w op h => ?_, fun _ => trivial⟩
    cases h
    trivial
  exact World.Reachable.perform ⟨{}, ⟨rfl, rfl, rfl, rfl⟩, .refl⟩ checked 4 1 trivial

/-- The gate as its machine has it. -/
theorem latchWorld_facts :
    (latchWorld.machine 0).line = .queued [] ∧
      (latchWorld.machine 0).events.find? (.text "push") = some 0 ∧
      (latchWorld.machine 0).events.find? (.text "pull") = some 1 ∧
      (match ((Engine.ofHost latchHost 4 1).shoot 0 ⟨.model "gate", .text "push", [], []⟩ latchWorld).1 with
        | .error .exhausted => false
        | _ => true) = true := by
  refine ⟨?_, ?_, ?_, ?_⟩ <;> cbv

/-- The push is processed first and then the pull that its callback has fired. -/
theorem pull_follows_push :
    ∃ (r : Except Fault Unit) (xs rest : List Shot) (w' v' : World) (entries : List Entry),
      (Engine.ofHost latchHost 4 1).shoot 0 ⟨.model "gate", .text "push", [], []⟩ latchWorld =
        ((r.map fun _ => Value.bool true).mapError .fault, w') ∧
      (Engine.ofMuted latchHost 4 1).Sequence 0 (latchWorld.unqueued 0) xs r v' ∧
      v'.history.toList = (latchWorld.unqueued 0).history.toList ++ entries ∧
      ⟨.model "gate", .text "push", [], []⟩ :: entries.filterMap Entry.shot? = xs ++ rest ∧
      (r = .ok () → rest = []) ∧ w'.Alike 0 v' ∧ (w'.machine 0).line = .queued [] := by
  obtain ⟨hidle, hpush, hpull, hend⟩ := latchWorld_facts
  have feeds : latchHost.Feeds 0 (latchWorld.machine 0).events := by
    refine ⟨fun _ _ _ _ _ _ => rfl, fun _ _ _ _ _ => ⟨fun _ _ _ => rfl, fun w _ => ⟨.ok _, ?_⟩, fun _ _ => trivial⟩⟩
    intro op h
    cases h
    exact ⟨rfl, rfl, Value.hashable_text _, 1, hpull⟩
  refine Engine.queue_refines_sequence 4 1 latchWorld_reachable hidle feeds ⟨rfl, Value.hashable_text _, 0, hpush⟩ ?_
  intro hstop
  rw [hstop] at hend
  cases hend

end StateEngine
