import StateEngine.Proofs.Firing.Processing
import StateEngine.Proofs.Growth.Basic
import StateEngine.Proofs.Lockstep

/-! A machine and what it has grown into, at work on the same firing: as long as the same candidate is tried, both do the
same. -/
namespace StateEngine
open Act World Relation

namespace World

variable {m : MachineId} {e : EventId} {line : Line Task} {w v u u' : World} {i : FiringId} {model : Value} {result : Bool}

/-- Two worlds to which the same has happened since they were others. -/
structure Tallies (w v u u' : World) : Prop where
  firings : u'.firings = u.firings
  rosters : u'.rosters = u.rosters
  ledgers : u'.ledgers = u.ledgers
  models : u'.models = u.models
  invocations : v.invocations = w.invocations → u'.invocations = u.invocations
  history : ∃ entries : List Entry, u.history.toList = w.history.toList ++ entries ∧
    u'.history.toList = v.history.toList ++ entries

/-- Two worlds to which the same has happened, of which nothing concerns the registries. The machine has a line. -/
structure Apace (m : MachineId) (line : Line Task) (w v u u' : World) : Prop extends Tallies w v u u' where
  left : u.states = w.states ∧ u.transitions = w.transitions ∧ u.events = w.events
  right : u'.states = v.states ∧ u'.transitions = v.transitions ∧ u'.events = v.events
  machine : u.machine m = { w.machine m with line := line } ∧ u'.machine m = { v.machine m with line := line }
  others : ∀ n, n ≠ m → u.machine n = w.machine n ∧ u'.machine n = v.machine n

/-- What a firing of an event needs of a machine is the same when this has grown, but for candidates behind the others. -/
structure Outgrown (m : MachineId) (e : EventId) (w v : World) : Prop where
  states : ∀ s ∈ (w.machine m).states.values, v.states.get s = w.states.get s
  lookup : ∀ reference s, w.lookupState m reference = .ok s →
    v.lookupState m reference = .ok s ∧ s ∈ (w.machine m).states.values
  owner : (v.events.get e).name = (w.events.get e).name ∧ (v.events.get e).machine = (w.events.get e).machine
  transitions : ∀ t, w.Filed e t → v.transitions.get t = w.transitions.get t
  source : ∀ t, w.Filed e t → ∃ s, w.lookupState m (w.transitions.get t).source = .ok s
  dest : ∀ t, w.Filed e t → (w.transitions.get t).internal = true ∨
    ∃ a d, (w.transitions.get t).dest = .text a ∧ w.lookupState m (.text a) = .ok d
  candidates : ∀ source ts, (w.events.get e).candidates.find? source = some ts →
    ∃ more, (v.events.get e).candidates.find? source = some (ts ++ more)
  machine : ∃ states events, v.machine m = { w.machine m with states := states, events := events }

/-- What is found among plain names is found in what has grown out of them. -/
theorem Grown.lookup (h : Grown m w v) (hn : w.PlainNames m) {reference : Value} {s : StateId}
    (hs : w.lookupState m reference = .ok s) :
    v.lookupState m reference = .ok s ∧ s ∈ (w.machine m).states.values := by
  have name (found : (w.machine m).states.find? (w.nameOf reference) = some s) :
      v.nameOf reference = w.nameOf reference := by
    obtain ⟨k, same, hmem⟩ := Table.mem_of_find? found
    obtain ⟨a, rfl⟩ := hn k (mem_keys hmem)
    cases reference with
    | state i =>
      refine h.names i (Nat.lt_of_not_le (fun hle => ?_))
      have nothing : (Value.text a == (default : State).name) = false := by cbv
      rw [nameOf, Heap.get_of_next_le hle, nothing] at same
      cases same
    | _ => rfl
  simp only [lookupState] at hs ⊢
  split at hs
  · rename_i hash
    cases found : (w.machine m).states.find? (w.nameOf reference) with
    | none =>
      rw [found] at hs
      cases hs
    | some s' =>
      rw [found] at hs
      cases hs
      obtain ⟨k, -, hmem⟩ := Table.mem_of_find? found
      rw [name found, if_pos hash, h.registered _ _ found]
      exact ⟨rfl, List.mem_map_of_mem hmem⟩
  · cases hs

/-- A machine that has grown is outgrown as far as its events are concerned. -/
theorem Grown.outgrown (h : Grown m w v) (hw : w.Reachable) (hn : w.PlainNames m) (he : e < w.events.next)
    (owned : (w.events.get e).machine = m) : Outgrown m e w v := by
  have connects {t : TransitionId} (ht : w.Filed e t) : ∃ k, w.Connects m k t := by
    obtain ⟨x, hx, hmem⟩ := ht
    have := hw.regular.connected e (by rw [owned]; exact hn) x hx t hmem
    rw [owned] at this
    exact ⟨_, this⟩
  have finds {k : Value} (hk : k ∈ (w.machine m).states.keys) : ∃ a s, k = .text a ∧ w.lookupState m (.text a) = .ok s := by
    obtain ⟨a, rfl⟩ := hn k hk
    obtain ⟨s, found⟩ := lookupState_key hk
    exact ⟨a, s, rfl, found⟩
  refine ⟨h.states, fun _ _ => h.lookup hn, h.owners e he, fun t ht => ?_, fun t ht => ?_, fun t ht => ?_,
    h.candidates e he, h.machine⟩
  · obtain ⟨k, hk⟩ := connects ht
    exact h.transitions t hk.made
  · obtain ⟨k, hk⟩ := connects ht
    obtain ⟨a, s, source, found⟩ := finds hk.source
    rw [source]
    exact ⟨s, found⟩
  · obtain ⟨k, hk⟩ := connects ht
    rcases hk.dest with nowhere | there
    · exact .inl (by rw [Transition.internal, nowhere])
    · exact .inr (finds there)

theorem Tallies.record (h : Tallies w v u u') (entry : Entry) : Tallies w v (u.record entry) (u'.record entry) := by
  obtain ⟨entries, before, after⟩ := h.history
  exact ⟨h.firings, h.rosters, h.ledgers, h.models, h.invocations, entries ++ [entry],
    by simp [World.record, before], by simp [World.record, after]⟩

theorem Apace.record (h : Apace m line w v u u') (entry : Entry) :
    Apace m line w v (u.record entry) (u'.record entry) :=
  ⟨h.toTallies.record entry, h.left, h.right, h.machine, h.others⟩

theorem Apace.updateFiring (h : Apace m line w v u u') (i : FiringId) (f : Firing → Firing) :
    Apace m line w v (u.updateFiring i f) (u'.updateFiring i f) :=
  ⟨⟨by rw [World.updateFiring, World.updateFiring, h.firings], h.rosters, h.ledgers, h.models, h.invocations, h.history⟩, h.left, h.right,
    h.machine, h.others⟩

theorem Apace.openFiring (h : Apace m line w v u u') (firing : Firing) :
    Apace m line w v (u.opened firing) (u'.opened firing) :=
  ⟨⟨by rw [World.opened, World.opened, h.firings], h.rosters, h.ledgers, h.models, h.invocations, h.history⟩, h.left, h.right,
    h.machine, h.others⟩

/-- The line of the machine may be written in both worlds. -/
theorem Apace.updateLine (h : Apace m line w v u u') (line' : Line Task) :
    Apace m line' w v (u.updateMachine m (fun machine => { machine with line := line' }))
      (u'.updateMachine m (fun machine => { machine with line := line' })) := by
  refine ⟨⟨h.firings, h.rosters, h.ledgers, h.models, h.invocations, h.history⟩, h.left, h.right, ⟨?_, ?_⟩, fun n hn => ?_⟩
  · rw [machine_updateMachine, if_pos rfl, h.machine.1]
  · rw [machine_updateMachine, if_pos rfl, h.machine.2]
  · rw [machine_updateMachine, machine_updateMachine, if_neg hn.symm, if_neg hn.symm]
    exact h.others n hn

theorem Apace.sameModel (h : Apace m line w v u u') (x : String) : u'.model x = u.model x := by
  rw [World.model, h.models, World.model]

/-- The machine has the same settings, whatever it has registered. -/
theorem Apace.field (h : Apace m line w v u u') (hg : Outgrown m e w v) {β : Type} (f : Machine → β)
    (hf : ∀ machine states events, f { machine with states := states, events := events } = f machine) :
    f (u'.machine m) = f (u.machine m) := by
  obtain ⟨states, events, machine⟩ := hg.machine
  rw [h.machine.1, h.machine.2, machine]
  exact hf { w.machine m with line := line } states events

theorem Apace.lookupState (h : Apace m line w v u u') (hg : Outgrown m e w v) {reference : Value} {s : StateId}
    (hs : w.lookupState m reference = .ok s) :
    u.lookupState m reference = .ok s ∧ u'.lookupState m reference = .ok s :=
  ⟨(lookupState_congr h.left.1 h.machine.1 reference).trans hs,
    (lookupState_congr h.right.1 h.machine.2 reference).trans (hg.lookup reference s hs).1⟩

/-- What is known of a firing on a model while it is processed. -/
structure Serves (w : World) (m : MachineId) (e : EventId) (model : Value) (result : Bool) (f : Firing) : Prop where
  machine : f.machine = m
  event : f.event = e
  model : f.model = model
  state : f.state ∈ (w.machine m).states.values
  transition : ∀ t, f.transition = some t → w.Filed e t
  result : f.result = result

/-- What is known of two worlds while a firing is processed in both. -/
structure Pacing (m : MachineId) (line : Line Task) (w v : World) (e : EventId) (model : Value) (i : FiringId)
    (result : Bool) (u u' : World) : Prop extends Apace m line w v u u' where
  firing : w.Serves m e model result (u.firings.get i)

theorem Pacing.record (h : Pacing m line w v e model i result u u') (entry : Entry) :
    Pacing m line w v e model i result (u.record entry) (u'.record entry) :=
  ⟨h.toApace.record entry, h.firing⟩

theorem Pacing.updateFiring {result' : Bool} (h : Pacing m line w v e model i result u u') {f : Firing → Firing}
    (hf : ∀ firing, w.Serves m e model result firing → w.Serves m e model result' (f firing)) :
    Pacing m line w v e model i result' (u.updateFiring i f) (u'.updateFiring i f) :=
  ⟨h.toApace.updateFiring i f, by simpa [World.updateFiring] using hf _ h.firing⟩

/-- A firing looks the same from both worlds. -/
theorem Pacing.snapshot (h : Pacing m line w v e model i result u u') (hg : Outgrown m e w v) :
    u'.snapshot i = u.snapshot i := by
  have state := hg.states _ h.firing.state
  have event := hg.owner.1
  have transition : (u.firings.get i).transition.map (fun t => ((u'.transitions.get t).source, (u'.transitions.get t).dest)) =
      (u.firings.get i).transition.map (fun t => ((u.transitions.get t).source, (u.transitions.get t).dest)) := by
    rw [h.left.2.1, h.right.2.1]
    refine Option.map_congr (fun t ht => ?_)
    rw [hg.transitions t (h.firing.transition t ht)]
  simp only [World.snapshot, h.firings, transition, h.firing.event]
  rw [h.left.1, h.right.1, h.left.2.2, h.right.2.2, state, event]

end World

/-- An engine whose callbacks perform no operation on a machine and answer the same in two worlds to which the same has
happened, provided that a firing they are given looks the same. -/
structure Engine.Repeats (E : Engine) (m : MachineId) (line : Line Task) (w v : World) : Prop where
  steady : E.Walks Steady
  call : ∀ label callback call u u', Apace m line w v u u' → (∀ i, call = .firing i → u'.snapshot i = u.snapshot i) →
    InStepAt (Apace m line w v) u u' (E.call label callback call) (E.call label callback call)

namespace Engine

variable {E : Engine} {m : MachineId} {e : EventId} {line : Line Task} {w v u u' : World} {i : FiringId} {model : Value}
  {result : Bool} {α : Type}

/-- Steady callbacks leave what is known of a firing. -/
theorem pacing_of_apace {y : Run α} (steady : Act.Walks Steady y)
    (h : Pacing m line w v e model i result u u') (hy : InStepAt (Apace m line w v) u u' y y) :
    InStepAt (Pacing m line w v e model i result) u u' y y := by
  refine ⟨hy.1, hy.2, ?_⟩
  rw [(Steady.of_steps (steady u)).firings]
  exact h.firing

section Callbacks

variable (hE : E.Repeats m line w v) (hg : Outgrown m e w v)

include hg

theorem paced_remark (severity : Severity) (logger : Logger) (message : String) :
    InStep (Pacing m line w v e model i result) (remark m severity logger message) (remark m severity logger message) := by
  refine .change (fun u u' h => ?_)
  rw [h.field hg (fun machine => machine.label) (fun _ _ _ => rfl)]
  exact h.record _

include hE

omit hg in
/-- Reading an attribute goes the same way, as models are the same. -/
theorem apace_readAttribute (owner : Value) (name : String) :
    InStep (Apace m line w v) (E.readAttribute owner name) (E.readAttribute owner name) := by
  unfold Engine.readAttribute
  cases owner with
  | model x =>
    refine .get_bind (fun u u' h => ?_)
    simp only [h.sameModel]
    split
    · exact hE.call _ _ _ u u' h (fun i hi => by cases hi)
    · split
      · exact .pure h _
      · exact .pure h _
      · exact .fail h _
  | _ => exact .fail _

omit hg in
theorem apace_readAttribute? (owner : Value) (name : String) :
    InStep (Apace m line w v) (E.readAttribute? owner name) (E.readAttribute? owner name) := by
  refine .bind (.attempt (apace_readAttribute hE owner name)) (fun r => ?_)
  cases r with
  | ok a => exact .pure _
  | error f => exact .ite (.pure _) (.fail _)

theorem apace_readState (model : Value) :
    InStep (Apace m line w v) (E.readState m model) (E.readState m model) := by
  refine .get_bind (fun u u' h => ?_)
  rw [h.field hg (fun machine => machine.accessor) (fun _ _ _ => rfl)]
  split
  · exact apace_readAttribute hE _ _ u u' h
  · refine .get_bind ?_
    rw [h.ledgers]
    split
    · exact InStep.bind (.change (fun _ _ h => h.record _)) (fun _ => .pure _) u u' h
    · exact .fail h _

theorem paced_apply (target : Target) {call : Call} (hc : ∀ j, call = .firing j → j = i) :
    InStep (Pacing m line w v e model i result) (target.apply E call) (target.apply E call) := by
  unfold Target.apply
  split
  · intro u u' h
    refine pacing_of_apace (hE.steady.call _ _ _) h (hE.call _ _ _ u u' h.toApace (fun j hj => ?_))
    obtain rfl := hc j hj
    exact h.snapshot hg
  · exact .pure _
  · split
    · exact .pure _
    · exact .fail _
  · exact .fail _
  · exact .pure _
  · exact .pure _
  · exact .fail _

theorem paced_resolve (callback : Callback) :
    InStep (Pacing m line w v e model i result) (E.resolve m callback i) (E.resolve m callback i) := by
  unfold Engine.resolve
  split
  · refine .get_bind (fun u u' h => ?_)
    rw [h.field hg (fun machine => machine.resolver) (fun _ _ _ => rfl)]
    split
    · refine .get_bind ?_
      rw [h.firings]
      refine InStepAt.bind (pacing_of_apace (hE.steady.readAttribute? _ _) h
        (apace_readAttribute? hE _ _ u u' h.toApace)) (fun found z z' _ _ h' => ?_)
      cases found with
      | some a => exact .pure h' _
      | none => exact .ofExcept h' _
    · refine InStep.bind (.change (fun _ _ h => h.record _)) (fun _ => ?_) u u' h
      split
      · exact .pure _
      · exact .fail _
  · exact .pure _

theorem paced_consult (callback : Callback) :
    InStep (Pacing m line w v e model i result) (E.consult m callback i) (E.consult m callback i) := by
  refine .bind (paced_resolve hE hg callback) (fun target u u' h => ?_)
  have asked {z : World} {call : Call} (hc : callFor m i u = (.ok call, z)) : ∀ j, call = .firing j → j = i := by
    rintro j rfl
    unfold callFor at hc
    rw [bind_of_ok (get_apply u)] at hc
    split at hc
    · cases hc
      rfl
    · cases hc
  have same : InStepAt (Pacing m line w v e model i result) u u' (callFor m i) (callFor m i) := by
    refine .get_bind ?_
    rw [h.field hg (fun machine => machine.sendEvent) (fun _ _ _ => rfl), h.firings]
    split
    · exact .pure h _
    · exact .pure h _
  exact same.bind (fun call z z' hc _ h' => paced_apply hE hg target (asked hc) z z' h')

theorem paced_runCallback (callback : Callback) :
    InStep (Pacing m line w v e model i result) (E.runCallback m callback i) (E.runCallback m callback i) :=
  .bind (paced_consult hE hg callback) (fun _ => paced_remark hg _ _ _)

theorem paced_runCallbacks (callbacks : List Callback) :
    InStep (Pacing m line w v e model i result) (E.runCallbacks m callbacks i) (E.runCallbacks m callbacks i) :=
  .forM (fun callback => paced_runCallback hE hg callback)

theorem paced_runGrowing {read : World → List Callback}
    (hread : ∀ u u', Pacing m line w v e model i result u u' → read u' = read u) (fuel position : Nat) :
    InStep (Pacing m line w v e model i result) (E.runGrowing m read i fuel position)
      (E.runGrowing m read i fuel position) := by
  induction fuel generalizing position with
  | zero => exact .exhausted
  | succ fuel ih =>
    refine .get_bind (fun u u' h => ?_)
    rw [hread u u' h]
    split
    · exact InStep.bind (paced_runCallback hE hg _) (fun _ => ih _) u u' h
    · exact .pure h _

theorem paced_checkAll (guards : List Guard) :
    InStep (Pacing m line w v e model i result) (E.checkAll m i guards) (E.checkAll m i guards) := by
  induction guards with
  | nil => exact .pure _
  | cons guard rest ih =>
    refine .bind (.bind (paced_consult hE hg _) (fun _ => .pure _)) (fun passed => .ite ih ?_)
    exact .bind (paced_remark hg _ _ _) (fun _ => .pure _)

/-- A state that was registered has the callbacks that it had. -/
theorem paced_runStage {s : StateId} (hs : s ∈ (w.machine m).states.values) (stage : StateStage) :
    InStep (Pacing m line w v e model i result) (E.runStage m s stage i) (E.runStage m s stage i) := by
  have same (u u' : World) (h : Pacing m line w v e model i result u u') : u'.states.get s = u.states.get s := by
    rw [h.right.1, h.left.1, hg.states s hs]
  refine .get_bind (fun u u' h => ?_)
  rw [same u u' h]
  exact InStep.bind (paced_remark hg _ _ _) (fun _ =>
    .bind (paced_runGrowing hE hg (fun u u' h => by rw [same u u' h]) _ _) (fun _ => paced_remark hg _ _ _)) u u' h

end Callbacks

end Engine

end StateEngine
