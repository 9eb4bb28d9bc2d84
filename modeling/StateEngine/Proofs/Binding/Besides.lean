import StateEngine.Proofs.Callbacks
import StateEngine.Proofs.Lockstep
import StateEngine.Proofs.Registry.Filing

/-! Worlds that differ in what belongs to one model, and the engine at work on both: whatever it does for
other models goes the same way, as long as it runs no callbacks of states that differ. -/
namespace StateEngine
open Act

namespace World

/-- Two worlds that differ in nothing but what belongs to the model `x`: its attributes and methods, its
entries in rosters and ledgers, and how often the callbacks `own` behind its properties have run; and in what
the callback lists of states and the history hold. -/
structure Besides (x : String) (own : String → Prop) (w v : World) : Prop where
  values : ∀ s, (v.states.get s).value = (w.states.get s).value
  ignore : ∀ s, (v.states.get s).ignore = (w.states.get s).ignore
  transitions : v.transitions = w.transitions
  events : v.events = w.events
  firings : v.firings = w.firings
  machines : v.machines = w.machines
  ledgers : ∀ id y, y ≠ x → (v.ledgers.get id).find? (.model y) = (w.ledgers.get id).find? (.model y)
  models : ∀ y, y ≠ x → v.model y = w.model y
  invocations : ∀ callback, ¬ own callback → v.invocations.find? callback = w.invocations.find? callback
  names : v.names = w.names
  requests : v.requests = w.requests

/-- Two worlds that have developed out of `b` and `c` alike. Which states, transitions and owners of events
there are has stayed as it was, and nothing new is filed under an event; `F` is what is known of the
firings and machines. -/
structure Abreast (x : String) (own : String → Prop) (b c : World) (F : Heap Firing → Heap Machine → Prop)
    (w v : World) : Prop extends Besides x own w v where
  left : w.states = b.states
  right : v.states = c.states
  known : w.transitions = b.transitions
  registered : ∀ n, (w.machine n).states = (b.machine n).states
  owners : ∀ e, (w.events.get e).machine = (b.events.get e).machine
  filed : ∀ e t, w.Filed e t → b.Filed e t
  facts : F w.firings w.machines
  history : ∃ entries : List Entry, w.history.toList = b.history.toList ++ entries ∧
    v.history.toList = c.history.toList ++ entries

variable {x : String} {own : String → Prop} {w v b c : World} {F : Heap Firing → Heap Machine → Prop}

namespace Besides

protected theorem refl (w : World) : w.Besides x own w :=
  ⟨fun _ => rfl, fun _ => rfl, rfl, rfl, rfl, rfl, fun _ _ _ => rfl, fun _ _ => rfl, fun _ _ => rfl, rfl, rfl⟩

protected theorem trans {u : World} (h : w.Besides x own v) (h' : v.Besides x own u) : w.Besides x own u where
  values s := (h'.values s).trans (h.values s)
  ignore s := (h'.ignore s).trans (h.ignore s)
  transitions := h'.transitions.trans h.transitions
  events := h'.events.trans h.events
  firings := h'.firings.trans h.firings
  machines := h'.machines.trans h.machines
  ledgers id y hy := (h'.ledgers id y hy).trans (h.ledgers id y hy)
  models y hy := (h'.models y hy).trans (h.models y hy)
  invocations k hk := (h'.invocations k hk).trans (h.invocations k hk)
  names := h'.names.trans h.names
  requests := h'.requests.trans h.requests

variable (h : w.Besides x own v)

include h

theorem machine (n : MachineId) : v.machine n = w.machine n := by rw [World.machine, h.machines, World.machine]

theorem name (s : StateId) : (v.states.get s).name = (w.states.get s).name := by
  rw [State.name, h.values, State.name]

theorem nameOf (reference : Value) : v.nameOf reference = w.nameOf reference := by
  cases reference <;> simp [World.nameOf, h.name]

theorem lookupState (n : MachineId) (reference : Value) : v.lookupState n reference = w.lookupState n reference := by
  simp only [World.lookupState, h.nameOf, h.machine]

theorem stateFor (n : MachineId) (reference : Value) : v.stateFor n reference = w.stateFor n reference := by
  cases reference <;> simp [World.stateFor, h.lookupState]

theorem eventOf? (n : MachineId) (trigger : Value) : v.eventOf? n trigger = w.eventOf? n trigger := by
  simp only [World.eventOf?, h.machine]

theorem ignoreFlag (n : MachineId) (s : StateId) : v.ignoreFlag n s = w.ignoreFlag n s := by
  simp only [World.ignoreFlag, h.ignore, h.machine]

theorem snapshot (i : FiringId) : v.snapshot i = w.snapshot i := by
  simp only [World.snapshot, h.firings, h.events, h.transitions, h.name]

end Besides

namespace Abreast

theorem mono {G : Heap Firing → Heap Machine → Prop} (hF : ∀ firings machines, F firings machines → G firings machines)
    (h : Abreast x own b c F w v) : Abreast x own b c G w v := { h with facts := hF _ _ h.facts }

theorem record (h : Abreast x own b c F w v) (entry : Entry) :
    Abreast x own b c F (w.record entry) (v.record entry) := by
  obtain ⟨entries, hw, hv⟩ := h.history
  refine { h with history := ⟨entries ++ [entry], ?_, ?_⟩ }
  · simp [World.record, hw]
  · simp [World.record, hv]

theorem updateModel (h : Abreast x own b c F w v) {y : String} (hy : y ≠ x) (f : Model → Model) :
    Abreast x own b c F (w.updateModel y f) (v.updateModel y f) := by
  refine { h with models := fun z hz => ?_ }
  rw [model_updateModel, model_updateModel, h.models y hy, h.models z hz]

theorem updateFiring (h : Abreast x own b c F w v) {i : FiringId} {f : Firing → Firing}
    (hF : ∀ firings machines, F firings machines → F (firings.modify i f) machines) :
    Abreast x own b c F (w.updateFiring i f) (v.updateFiring i f) := by
  refine { h with firings := ?_, facts := hF _ _ h.facts }
  simp only [World.updateFiring, h.firings]

theorem openFiring {G : Heap Firing → Heap Machine → Prop} (h : Abreast x own b c F w v) {firing : Firing}
    (hF : G (w.firings.push firing) w.machines) :
    Abreast x own b c G { w with firings := w.firings.push firing }
      { v with firings := v.firings.push firing } := by
  refine { h with firings := ?_, facts := hF }
  simp only [h.firings]

/-- Where nothing but entries without transitions is added to an event, nothing new is filed. -/
theorem fileSource (h : Abreast x own b c F w v) (e : EventId) (source : Value) :
    Abreast x own b c F
      (w.updateEvent e (fun event => { event with candidates := event.candidates.insert source [] }))
      (v.updateEvent e (fun event => { event with candidates := event.candidates.insert source [] })) := by
  refine { h with events := ?_, owners := fun e' => ?_, filed := fun e' t ht => h.filed e' t (filed_fileSource ht) }
  · simp only [World.updateEvent, h.events]
  · rw [← h.owners e']
    simp only [World.updateEvent, Heap.get_modify]
    split <;> rfl

theorem updateLine {G : Heap Firing → Heap Machine → Prop} (h : Abreast x own b c F w v) (n : MachineId)
    (line : Line Task)
    (hF : G w.firings (w.machines.modify n (fun machine => { machine with line := line }))) :
    Abreast x own b c G (w.updateMachine n (fun machine => { machine with line := line }))
      (v.updateMachine n (fun machine => { machine with line := line })) := by
  refine { h with machines := ?_, registered := fun k => ?_, facts := hF }
  · simp only [updateMachine, h.machines]
  · rw [← h.registered k, machine_updateMachine]
    split <;> rfl

theorem insertLedger (h : Abreast x own b c F w v) {y : String} (id : LedgerId) (a : Value) :
    Abreast x own b c F { w with ledgers := w.ledgers.modify id (·.insert (.model y) a) }
      { v with ledgers := v.ledgers.modify id (·.insert (.model y) a) } := by
  refine { h with ledgers := fun j z hz => ?_ }
  simp only [Heap.get_modify]
  split
  · rw [Table.find?_insert_model, Table.find?_insert_model, h.ledgers j z hz]
  · exact h.ledgers j z hz

theorem countRequest (h : Abreast x own b c F w v) :
    Abreast x own b c F { w with requests := w.requests + 1 } { v with requests := v.requests + 1 } :=
  { h with requests := by simp only [h.requests] }

/-- Callbacks that are the same in both worlds have been called equally often. -/
theorem countCall (h : Abreast x own b c F w v) {callback : String} {k l : Nat}
    (hk : ¬ own callback → l = k) :
    Abreast x own b c F { w with invocations := w.invocations.insert callback k }
      { v with invocations := v.invocations.insert callback l } := by
  refine { h with invocations := fun other ho => ?_ }
  simp only [Table.find?_insert]
  by_cases hc : callback = other
  · rw [hk (hc ▸ ho)]
    simp [hc]
  · simp [hc, h.invocations other ho]

end Abreast

end World

end StateEngine
