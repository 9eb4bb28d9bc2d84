import StateEngine.Proofs.Echo
import StateEngine.Machine.Firing

/-! Worlds that differ in the line of one machine only, and in what the history does not tell of calls. -/
namespace StateEngine

/-- Whether an entry tells of the engine at work on host code and models; the others tell of what
callbacks do, and remark on it. -/
def Entry.telling : Entry → Bool
  | .performed .. | .remarked .. => false
  | _ => true

namespace World

/-- Two worlds are alike up to the line of a machine and the setting that chose it. -/
structure Alike (m : MachineId) (w v : World) : Prop where
  states : v.states = w.states
  transitions : v.transitions = w.transitions
  events : v.events = w.events
  firings : v.firings = w.firings
  rosters : v.rosters = w.rosters
  ledgers : v.ledgers = w.ledgers
  models : v.models = w.models
  invocations : v.invocations = w.invocations
  names : v.names = w.names
  requests : v.requests = w.requests
  machines : ∀ n, n ≠ m → v.machine n = w.machine n
  machine : ∃ line hasQueue, v.machine m = { w.machine m with line, hasQueue }
  history : v.history.toList.filter Entry.telling = w.history.toList.filter Entry.telling

/-- What goes on besides the calls of host code: the machine and the owners of events stay, and the history
shows nothing performed. -/
structure Keeps (m : MachineId) (w v : World) : Prop where
  machine : v.machine m = w.machine m
  owners : ∀ e, (v.events.get e).machine = (w.events.get e).machine
  history : ∃ entries : List Entry, v.history.toList = w.history.toList ++ entries ∧
    ∀ entry ∈ entries, ∀ verb r, entry ≠ .performed verb r

variable {m : MachineId} {w v : World}

theorem Keeps.of_same (hm : v.machines = w.machines) (he : v.events = w.events)
    (hh : v.history = w.history) : w.Keeps m v := by
  refine ⟨by rw [World.machine, hm]; rfl, fun e => by rw [he], [], by simp [hh], by simp⟩

theorem Keeps.trans {u : World} (h : w.Keeps m v) (h' : v.Keeps m u) : w.Keeps m u := by
  obtain ⟨entries, hentries, hplain⟩ := h.history
  obtain ⟨entries', hentries', hplain'⟩ := h'.history
  refine ⟨h'.machine.trans h.machine, fun e => (h'.owners e).trans (h.owners e), entries ++ entries', ?_, ?_⟩
  · rw [hentries', hentries, List.append_assoc]
  · intro entry hentry
    exact (List.mem_append.mp hentry).elim (hplain entry) (hplain' entry)

theorem Keeps.record (w : World) {entry : Entry} (he : ∀ verb r, entry ≠ .performed verb r) :
    w.Keeps m (w.record entry) := by
  refine ⟨rfl, fun _ => rfl, [entry], Array.toList_push, fun x hx => ?_⟩
  rw [List.mem_singleton.mp hx]
  exact he

theorem Alike.field (h : w.Alike m v) {β : Type} (f : Machine → β)
    (hf : ∀ machine line hasQueue, f { machine with line, hasQueue } = f machine) (n : MachineId) :
    f (v.machine n) = f (w.machine n) := by
  by_cases hn : n = m
  · obtain ⟨line, hasQueue, hm⟩ := h.machine
    rw [hn, hm, hf]
  · rw [h.machines n hn]

theorem Alike.model (h : w.Alike m v) (x : String) : v.model x = w.model x := by
  rw [World.model, h.models, World.model]

theorem Alike.nameOf (h : w.Alike m v) (x : Value) : v.nameOf x = w.nameOf x := by
  cases x <;> simp [World.nameOf, h.states]

theorem Alike.lookupState (h : w.Alike m v) (n : MachineId) (x : Value) :
    v.lookupState n x = w.lookupState n x := by
  unfold World.lookupState
  rw [h.nameOf, h.field Machine.states (fun _ _ _ => rfl)]

theorem noAbort_lookupState (w : World) (n : MachineId) (x : Value) : NoAbort (w.lookupState n x) := by
  unfold World.lookupState
  simp only []
  split
  · split
    · exact .ok _
    · exact .error rfl
  · exact .error rfl

theorem Alike.stateFor (h : w.Alike m v) (n : MachineId) (x : Value) : v.stateFor n x = w.stateFor n x := by
  cases x with
  | state s => rfl
  | _ => simp only [World.stateFor, h.lookupState]

theorem Alike.record (h : w.Alike m v) {entry entry' : Entry}
    (he : entry' = entry ∨ entry.telling = false ∧ entry'.telling = false) :
    (w.record entry).Alike m (v.record entry') := by
  refine { h with history := ?_ }
  simp only [World.record, Array.toList_push, List.filter_append, h.history]
  rcases he with rfl | ⟨hw, hv⟩
  · rfl
  · simp [hw, hv]

theorem Alike.updateModel (h : w.Alike m v) (x : String) (f : Model → Model) :
    (w.updateModel x f).Alike m (v.updateModel x f) := by
  refine { h with models := ?_ }
  simp only [World.updateModel, h.models, h.model]

theorem Alike.writeAttribute (h : w.Alike m v) (owner : Value) (name : String) (x : Value) :
    (∃ e, w.writeAttribute owner name x = .error e ∧ v.writeAttribute owner name x = .error e ∧
      e.isError = true) ∨
    ∃ w' v', w.writeAttribute owner name x = .ok w' ∧ v.writeAttribute owner name x = .ok v' ∧
      w'.Alike m v' ∧ w.Keeps m w' ∧ v.Keeps m v' := by
  unfold World.writeAttribute
  cases owner with
  | model y =>
    simp only [h.model]
    split
    · exact .inl ⟨_, rfl, rfl, rfl⟩
    · exact .inr ⟨_, _, rfl, rfl, h.updateModel y _, .of_same rfl rfl rfl, .of_same rfl rfl rfl⟩
  | _ => exact .inl ⟨_, rfl, rfl, rfl⟩

theorem Alike.dropAttribute (h : w.Alike m v) (owner : Value) (name : String) :
    (∃ e, w.dropAttribute owner name = .error e ∧ v.dropAttribute owner name = .error e ∧
      e.isError = true) ∨
    ∃ w' v', w.dropAttribute owner name = .ok w' ∧ v.dropAttribute owner name = .ok v' ∧
      w'.Alike m v' ∧ w.Keeps m w' ∧ v.Keeps m v' := by
  unfold World.dropAttribute
  cases owner with
  | model y =>
    simp only [h.model]
    split
    · exact .inr ⟨_, _, rfl, rfl, h.updateModel y _, .of_same rfl rfl rfl, .of_same rfl rfl rfl⟩
    · exact .inl ⟨_, rfl, rfl, rfl⟩
  | _ => exact .inl ⟨_, rfl, rfl, rfl⟩

theorem Alike.updateFiring (h : w.Alike m v) (i : FiringId) (f : Firing → Firing) :
    (w.updateFiring i f).Alike m (v.updateFiring i f) := by
  refine { h with firings := ?_ }
  simp only [World.updateFiring, h.firings]

theorem Alike.updateEvent (h : w.Alike m v) (e : EventId) (f : Event → Event) :
    (w.updateEvent e f).Alike m (v.updateEvent e f) := by
  refine { h with events := ?_ }
  simp only [World.updateEvent, h.events]

end World

/-- A relation between worlds that are alike, which does not mind what goes on in both besides the calls
of host code. -/
structure Joint (m : MachineId) (R : World → World → Prop) : Prop where
  alike : ∀ {w v}, R w v → w.Alike m v
  keep : ∀ {w v w' v'}, R w v → w'.Alike m v' → w.Keeps m w' → v.Keeps m v' → R w' v'

namespace Joint
open Act World

variable {m : MachineId} {R : World → World → Prop}

theorem change (hR : Joint m R) {f g : World → World} (hf : ∀ w v, w.Alike m v → (f w).Alike m (g v))
    (hw : ∀ w : World, w.Keeps m (f w)) (hv : ∀ v : World, v.Keeps m (g v)) : Echoes R (Act.change f) (Act.change g) :=
  .change (fun w v h => hR.keep h (hf w v (hR.alike h)) (hw w) (hv v))

theorem advance (hR : Joint m R) {f : World → Except Fault World}
    (hf : ∀ w v, w.Alike m v → (∃ e, f w = .error e ∧ f v = .error e ∧ e.isError = true) ∨
      ∃ w' v', f w = .ok w' ∧ f v = .ok v' ∧ w'.Alike m v' ∧ w.Keeps m w' ∧ v.Keeps m v') :
    Echoes R (Act.advance f) (Act.advance f) := by
  intro w v h _
  rcases hf w v (hR.alike h) with ⟨e, hw, hv, he⟩ | ⟨w', v', hw, hv, alike, kw, kv⟩
  · exact ⟨.error e, w, v, advance_error hw, advance_error hv, h, .error he⟩
  · exact ⟨.ok (), w', v', advance_ok hw, advance_ok hv, hR.keep h alike kw kv, .ok ()⟩

theorem remark (hR : Joint m R) (n : MachineId) (severity : Severity) (logger : Logger) (message : String) :
    Echoes R (StateEngine.remark n severity logger message) (StateEngine.remark n severity logger message) :=
  hR.change (fun _ _ h => h.record (.inr ⟨rfl, rfl⟩)) (fun w => .record w (fun _ _ h => by cases h))
    (fun v => .record v (fun _ _ h => by cases h))

theorem record (hR : Joint m R) (entry : Entry) (he : ∀ verb r, entry ≠ .performed verb r) :
    Echoes R (Act.change (World.record entry)) (Act.change (World.record entry)) :=
  hR.change (fun _ _ h => h.record (.inl rfl)) (fun w => .record w he) (fun v => .record v he)

theorem updateFiring (hR : Joint m R) (i : FiringId) (f : Firing → Firing) :
    Echoes R (Act.change (World.updateFiring i f)) (Act.change (World.updateFiring i f)) :=
  hR.change (fun _ _ h => h.updateFiring i f) (fun _ => .of_same rfl rfl rfl) (fun _ => .of_same rfl rfl rfl)

/-- Looking states up is looking up the same states. -/
theorem lookupState (hR : Joint m R) (n : MachineId) (x : Value) :
    Echoes R (Act.ask (fun w => w.lookupState n x)) (Act.ask (fun w => w.lookupState n x)) :=
  .ask (fun w _ h => ⟨(hR.alike h).lookupState n x, w.noAbort_lookupState n x⟩)

theorem stateFor (hR : Joint m R) (n : MachineId) (x : Value) :
    Echoes R (Act.ask (fun w => w.stateFor n x)) (Act.ask (fun w => w.stateFor n x)) := by
  refine .ask (fun w v h => ⟨(hR.alike h).stateFor n x, ?_⟩)
  unfold World.stateFor
  split
  · exact .ok _
  · exact w.noAbort_lookupState n _

end Joint

end StateEngine
