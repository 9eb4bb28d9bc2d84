import StateEngine.Machine.Program
import StateEngine.Proofs.Queue.Firing

/-! Callbacks that do nothing to a machine but fire its triggers, and what they are when they are muted:
they do the same, but each trigger of theirs just gives true and is noted in the history. -/
namespace StateEngine
open Act World

/-- What a trigger is fired with. -/
structure Shot where
  model : Value
  name : Value
  args : List Value := []
  named : Named := []

namespace Shot

/-- The task that a shot is for a machine with some events. -/
def task (events : Table Value EventId) (x : Shot) : Task :=
  .fire ((events.find? x.name).getD default) x.model x.args x.named

/-- The note of a shot: as of something performed, whose answer tells what was fired. -/
def note (verb : String) (x : Shot) : Entry :=
  .performed verb (.ok (.value (.tuple [x.model, x.name, .list x.args, .record "named" x.named])))

/-- Whether a shot is a trigger of some events, with arguments that a trigger can have. -/
def Registered (events : Table Value EventId) (x : Shot) : Prop :=
  Engine.clashes Engine.reservedNames x.named = false ∧ x.name.hashable = true ∧
    ∃ e, events.find? x.name = some e

end Shot

/-- The shot that an entry is a note of. -/
def Entry.shot? : Entry → Option Shot
  | .performed _ (.ok (.value (.tuple [model, name, .list args, .record _ named]))) =>
    some ⟨model, name, args, named⟩
  | _ => none

@[simp] theorem Entry.shot?_note (verb : String) (x : Shot) : (x.note verb).shot? = some x := rfl

theorem Entry.shot?_eq_none {entry : Entry} (h : ∀ verb r, entry ≠ .performed verb r) :
    entry.shot? = none := by
  cases entry with
  | performed verb r => exact absurd rfl (h verb r)
  | _ => rfl

/-- The shots that an operation fires, if it fires any: a trigger for one model, or for all that are
bound. -/
def Operation.shots? (w : World) : Operation → Option (List Shot)
  | .trigger _ model name args named => some [⟨model, name, args, named⟩]
  | .triggerAll m name args named =>
    some ((w.boundModels m).map (fun model => ⟨model, name, args, named⟩))
  | _ => none

namespace Engine

/-- Performs an operation, but for triggers, which are noted instead and give true. -/
def mutedPerform (E : Engine) (verb : String) (op : Operation) : Run Reply := do
  match op.shots? (← get) with
  | some xs =>
    xs.forM (fun x => Act.change (World.record (x.note verb)))
    return .value (.bool true)
  | none => E.perform op

theorem mutedPerform_some (E : Engine) {verb : String} {op : Operation} {w : World} {xs : List Shot}
    (h : op.shots? w = some xs) : E.mutedPerform verb op w = (do
      xs.forM (fun x => Act.change (World.record (x.note verb)))
      return .value (.bool true) : Run Reply) w := by
  unfold mutedPerform
  simp only [bind_apply, get_apply, h]

theorem mutedPerform_none (E : Engine) {verb : String} {op : Operation} {w : World}
    (h : op.shots? w = none) : E.mutedPerform verb op w = E.perform op w := by
  unfold mutedPerform
  simp only [bind_apply, get_apply, h]

/-- Makes a request and performs it muted. -/
def mutedRequest (E : Engine) (verb : String) (request : World → Except Fault Operation) : Run Reply := do
  Act.change (fun w => { w with requests := w.requests + 1 })
  let op ← Act.ask request
  E.mutedPerform verb op

/-- Runs a program with its triggers muted. -/
def runMuted (E : Engine) : Program → Run Value
  | .done v => return v
  | .fail f => Act.fail f
  | .read owner name next => do
    let result ← (E.readAttribute owner name).attempt
    E.runMuted (next result)
  | .perform verb request next => do
    let result ← (E.mutedRequest verb request).attempt
    E.runMuted (next result)

/-- An engine for a host whose callbacks are muted. -/
def ofMuted (host : Host) (bound : Nat) : Nat → Engine
  | 0 => { modules := host.modules, call := fun _ _ _ => Act.exhausted, bound := bound }
  | depth + 1 =>
    { modules := host.modules
      call := fun label callback call => do
        let before ← enterCallback label callback call
        (ofMuted host bound depth).runMuted (host.behaviour callback call (← get) before)
      bound := bound }

theorem ofMuted_fields (host : Host) (bound depth : Nat) :
    (ofMuted host bound depth).modules = host.modules ∧ (ofMuted host bound depth).bound = bound := by
  cases depth <;> exact ⟨rfl, rfl⟩

theorem ofHost_fields (host : Host) (bound depth : Nat) :
    (ofHost host bound depth).modules = host.modules ∧ (ofHost host bound depth).bound = bound := by
  cases depth <;> exact ⟨rfl, rfl⟩

end Engine

/-- Fires a registered trigger of a machine, or does nothing to it: writes attributes of models, or asks in
which states they are and what states have. -/
def Operation.Feeds (m : MachineId) (events : Table Value EventId) : Operation → Prop
  | .trigger n model name args named => n = m ∧ Shot.Registered events ⟨model, name, args, named⟩
  | .triggerAll n name args named =>
    n = m ∧ ∀ model, Shot.Registered events ⟨model, name, args, named⟩
  | .writeAttribute .. | .dropAttribute .. | .findState .. | .currentState .. | .isIn .. | .hasHook ..
  | .ignoreFlag .. => True
  | _ => False

/-- Does nothing to a machine but fire its registered triggers, raises no abort, and asks for the same
whatever the line of the machine is. -/
def Program.Feeds (m : MachineId) (events : Table Value EventId) : Program → Prop
  | .done _ => True
  | .fail f => f.isError = true
  | .read _ _ next => ∀ r, NoAbort r → (next r).Feeds m events
  | .perform _ request next =>
    (∀ w v : World, w.Alike m v → request v = request w) ∧
    (∀ w : World, (w.machine m).events = events →
      NoAbort (request w) ∧ ∀ op, request w = .ok op → op.Feeds m events) ∧
    ∀ r, NoAbort r → (next r).Feeds m events

/-- A host of which every callback does nothing to a machine but fire its registered triggers, the same
ones whatever the line of the machine is. -/
structure Host.Feeds (host : Host) (m : MachineId) (events : Table Value EventId) : Prop where
  blind : ∀ callback call w v count, w.Alike m v →
    host.behaviour callback call v count = host.behaviour callback call w count
  feeds : ∀ callback call w count, (w.machine m).events = events →
    (host.behaviour callback call w count).Feeds m events

/-- Two worlds in the midst of one and the same processing: in the one on a queued machine, whose line
holds the shot that is processed and behind it the later ones, and in the other on an unqueued one with
muted callbacks, whose notes tell which shots these are. -/
structure Tandem (m : MachineId) (events : Table Value EventId) (start : List Entry) (first : Shot)
    (done : List Shot) (head : Shot) (w v : World) : Prop where
  alike : w.Alike m v
  table : (w.machine m).events = events
  owned : ∀ x ∈ events.entries, (w.events.get x.2).machine = m
  direct : (v.machine m).line = .direct true
  shots : ∃ (entries : List Entry) (more : List Shot), v.history.toList = start ++ entries ∧
    first :: entries.filterMap Entry.shot? = done ++ head :: more ∧ (∀ x ∈ more, x.Registered events) ∧
    (w.machine m).line = .queued ((head :: more).map (Shot.task events))

variable {m : MachineId} {events : Table Value EventId} {start : List Entry} {first head : Shot}
  {done : List Shot}

theorem Tandem.joint : Joint m (Tandem m events start first done head) := by
  refine ⟨fun h => h.alike, fun {w v w' v'} h alike kw kv => ?_⟩
  obtain ⟨entries, more, hhistory, hshots, hmore, hline⟩ := h.shots
  obtain ⟨later, hlater, hplain⟩ := kv.history
  have unnoted : later.filterMap Entry.shot? = [] :=
    List.filterMap_eq_nil_iff.mpr (fun entry hentry => Entry.shot?_eq_none (hplain entry hentry))
  refine ⟨alike, by rw [kw.machine]; exact h.table, fun x hx => (kw.owners x.2).trans (h.owned x hx),
    by rw [kv.machine]; exact h.direct, entries ++ later, more, ?_, ?_, hmore, by rw [kw.machine]; exact hline⟩
  · rw [hlater, hhistory, List.append_assoc]
  · rw [List.filterMap_append, unnoted, List.append_nil]
    exact hshots

end StateEngine
