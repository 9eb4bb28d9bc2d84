import StateEngine.Proofs.Firing.Views

/-! Triggers that do not apply: names that no event is registered under, and events without an entry for the state of
a model. All that they do is to read that state and to make a remark. -/
namespace StateEngine

namespace World

/-- Nothing between two worlds but entries of the history and the count of calls. -/
def Glanced (w v : World) : Prop := v = { w with invocations := v.invocations, history := v.history }

/-- The history of one world goes on in another one with remarks alone. -/
def RemarksOn (w v : World) : Prop :=
  ∃ entries : List Entry, v.history.toList = w.history.toList ++ entries ∧
    ∀ entry ∈ entries, ∃ severity logger message, entry = .remarked severity logger message

/-- Nothing between two worlds but remarks. -/
structure Remarked (w v : World) : Prop where
  rest : v = { w with history := v.history }
  remarks : w.RemarksOn v

/-- What is left of a call that begins in `w` by reading the state of a model, which ends in `v`: all is as it was but
the history and the count of calls, and behind the reading nothing is called and no more than remarks are made. -/
structure Inert (w v u : World) : Prop where
  glanced : w.Glanced u
  calls : u.invocations = v.invocations
  remarks : v.RemarksOn u

variable {w v u : World}

theorem Glanced.trans (h : w.Glanced v) (h' : v.Glanced u) : w.Glanced u := by
  unfold Glanced at h h' ⊢
  rw [h', h]

theorem Remarked.refl (w : World) : w.Remarked w := ⟨rfl, [], by simp, by simp⟩

theorem Remarked.trans (h : w.Remarked v) (h' : v.Remarked u) : w.Remarked u := by
  obtain ⟨entries, hv, made⟩ := h.remarks
  obtain ⟨more, hu, made'⟩ := h'.remarks
  refine ⟨by rw [h'.rest, h.rest], entries ++ more, by rw [hu, hv, List.append_assoc], fun entry he => ?_⟩
  rcases List.mem_append.mp he with he | he
  · exact made entry he
  · exact made' entry he

theorem Remarked.glanced (h : w.Remarked v) : w.Glanced v := by
  unfold Glanced
  rw [h.rest]

theorem remarked_record (w : World) (severity : Severity) (logger : Logger) (message : String) :
    w.Remarked (w.record (.remarked severity logger message)) := by
  refine ⟨rfl, [.remarked severity logger message], Array.toList_push, fun entry he => ?_⟩
  exact ⟨_, _, _, List.mem_singleton.mp he⟩

/-- An event is registered with a machine under the name of a trigger, by which it goes, and belongs to it. -/
structure Registers (w : World) (m : MachineId) (name : Value) (e : EventId) : Prop where
  found : w.eventOf? m name = .ok (some e)
  owner : (w.events.get e).machine = m
  named : ((w.events.get e).name == name) = true

variable {m : MachineId} {name : Value} {e : EventId}

theorem find_of_eventOf? (he : w.eventOf? m name = .ok (some e)) : (w.machine m).events.find? name = some e := by
  unfold eventOf? at he
  split at he
  · exact Except.ok.inj he
  · cases he

theorem Reachable.registers (hw : w.Reachable) (he : w.eventOf? m name = .ok (some e)) : w.Registers m name e := by
  obtain ⟨k, hk, hmem⟩ := Table.mem_of_find? (find_of_eventOf? he)
  refine ⟨he, (hw.regular.owned m _ hmem).2, ?_⟩
  rw [(hw.sorted.listed m _ hmem).name]
  exact hk

/-- A machine with an event has been made. -/
theorem Registers.made (h : w.Registers m name e) : m < w.machines.next := by
  refine Nat.lt_of_not_le (fun hle => ?_)
  have found := find_of_eventOf? h.found
  rw [World.machine, Heap.get_of_next_le hle] at found
  cases found

/-- A model that is in a state where its machine keeps it is read with a glance, and nothing is called for it. -/
theorem In.glanced {x a : String} {s : StateId} (h : w.In m x a s) (E : Engine) :
    ∃ v, E.currentState m (.model x) w = (.ok s, v) ∧ w.Glanced v ∧ v.invocations = w.invocations ∧
      v.states = w.states ∧ v.events = w.events := by
  obtain ⟨history, asked⟩ := h.asked (E := E)
  exact ⟨_, asked, rfl, rfl, rfl, rfl⟩

/-- The line of a machine that has taken up a task is put back as it was. -/
theorem restore_taking (hm : m < w.machines.next) (task : Task)
    (h : (w.taking m task).Glanced v) :
    v.updateMachine m (fun machine => { machine with line := (w.machine m).line }) =
      { w with invocations := v.invocations, history := v.history } := by
  have machines : v.machines = w.machines.modify m
      (fun machine => { machine with line := (w.machine m).line.begun task }) := by
    rw [h]
    rfl
  have restored : v.machines.modify m (fun machine => { machine with line := (w.machine m).line }) = w.machines := by
    rw [machines]
    exact Heap.modify_modify_of_restored hm rfl
  unfold updateMachine
  rw [restored, h]
  rfl

end World

namespace Engine
open Act World

variable {E : Engine} {m : MachineId} {w v : World}

/-- A task that an idle line takes up and that leaves it there leaves it idle, unless it ends with an abort; and
besides that no more than remarks are made. -/
theorem submit_restores {task : Task} {r : Except Fault Value} (hidle : (w.machine m).line.inFlight = false)
    (hbound : 1 < E.bound) (hrun : E.runTask task (w.taking m task) = (r.mapError .fault, v))
    (hkept : (v.machine m).line = (w.machine m).line.begun task) (herror : ∀ f, r = .error f → f.isError = true) :
    ∃ v', v.Remarked v' ∧
      E.submit m task w = ((r.map (w.machine m).line.answer).mapError .fault,
        v'.updateMachine m (fun machine => { machine with line := (w.machine m).line })) := by
  obtain ⟨label, hlabel⟩ : ∃ label, label = (w.machine m).label := ⟨_, rfl⟩
  have start : E.submit m task w = (E.setting m label).submit task w := by
    rw [hlabel]
    rfl
  have lawful := setting_lawful E m label
  rw [start]
  unfold taking at hrun
  rcases hline : (w.machine m).line with busy | tasks
  · obtain rfl : busy = false := by simpa [hline, Line.inFlight] using hidle
    rw [hline] at hrun
    refine ⟨v, .refl v, (Line.Setting.submit_direct (S := E.setting m label) hline hrun).trans ?_⟩
    cases r <;> rfl
  · obtain rfl : tasks = [] := by simpa [hline, Line.inFlight] using hidle
    rw [hline] at hrun hkept
    obtain ⟨S, hS⟩ : ∃ S, S = E.setting m label := ⟨_, rfl⟩
    have bound : S.bound = E.bound := by rw [hS]; rfl
    obtain ⟨fuel, hfuel⟩ : ∃ fuel, S.bound = fuel + 2 := ⟨E.bound - 2, by omega⟩
    have empty : S.slot.read w = .queued [] := by rw [hS]; exact hline
    have taken : S.slot.read (S.slot.write (.queued [task]) w) = .queued [task] := by rw [hS]; exact lawful _ w
    have ran : S.run task (S.slot.write (.queued [task]) w) = (r.mapError .fault, v) := by rw [hS]; exact hrun
    rw [← hS, Line.Setting.submit_queued empty, hfuel]
    cases r with
    | ok a =>
      have kept : S.slot.read v = .queued [task] := by rw [hS]; exact hkept
      have closed : S.slot.read (S.slot.write (.queued []) v) = .queued [] := by rw [hS]; exact lawful _ v
      rw [Line.Setting.drain_cons_ok taken ran kept, Line.Setting.drain_nil closed, hS]
      exact ⟨v, .refl v, rfl⟩
    | error f =>
      rw [Line.Setting.drain_cons_error taken ran, hS]
      obtain ⟨message, abandoned⟩ := abandon_error E m label (herror f rfl) v
      exact ⟨_, remarked_record v .debug .machine message, abandoned⟩

/-- What comes of a trigger that does not apply in a state: it is ignored or refused, as the state or else the
machine has it. -/
def verdictOn (w : World) (m : MachineId) (s : StateId) (refusal : Fault) : Except Fault Value :=
  if (w.ignoreFlag m s).truthy then .ok (.bool false) else .error refusal

/-- Why an event is refused that has no entry for a state. -/
def noEntry (label : String) (event state : Value) : Fault :=
  .invalidTrigger (label ++ ("Can't trigger event " ++ event.display ++ " from state " ++ state.display ++ "!"))
    event state

variable {model name : Value} {args : List Value} {named : Named} {e : EventId} {s : StateId}

/-- Firing an event without an entry for the state of a model reads the state and makes a remark at most. -/
theorem fireNow_no_entry (owner : (w.events.get e).machine = m) (hs : E.currentState m model w = (.ok s, v))
    (missing : (v.events.get e).candidates.contains (v.states.get s).name = false) :
    ∃ u, E.fireNow e model args named w =
        ((verdictOn v m s (noEntry (v.machine m).label (v.events.get e).name (v.states.get s).name)).mapError .fault,
          u) ∧ v.Remarked u := by
  unfold fireNow verdictOn noEntry
  rw [bind_of_ok (get_apply w)]
  simp only [owner]
  rw [bind_of_ok hs, bind_of_ok (get_apply v)]
  simp only [missing, if_false, Bool.false_eq_true]
  split
  · exact ⟨_, rfl, remarked_record v _ _ _⟩
  · exact ⟨v, rfl, .refl v⟩

theorem trigger_unknown (hargs : clashes reservedNames named = false) (unknown : w.eventOf? m name = .ok none)
    (hs : E.currentState m model w = (.ok s, v)) (read : w.Glanced v) :
    ∃ u, E.trigger m model name args named w = ((verdictOn w m s (.unknownEvent name)).mapError .fault, u) ∧
      w.Inert v u := by
  have asked : ask (fun w => w.eventOf? m name) w = (.ok none, w) := by rw [ask_apply, unknown]; rfl
  have flag : v.ignoreFlag m s = w.ignoreFlag m s := by rw [read]; rfl
  unfold trigger verdictOn
  rw [if_neg (by simp [hargs]), bind_of_ok asked]
  simp only []
  rw [bind_of_ok hs, bind_of_ok (get_apply v), flag]
  split
  · have remarked := remarked_record v .warning .machine
      ((v.machine m).label ++ ("Ignoring unknown event '" ++ name.display ++ "'."))
    exact ⟨_, rfl, read.trans remarked.glanced, rfl, remarked.remarks⟩
  · exact ⟨v, rfl, read, rfl, (Remarked.refl v).remarks⟩

theorem trigger_no_entry (hbound : 1 < E.bound) (hargs : clashes reservedNames named = false)
    (known : w.Registers m name e) (hidle : (w.machine m).line.inFlight = false) {task : Task}
    (htask : task = .fire e model args named) (hs : E.currentState m model (w.taking m task) = (.ok s, v))
    (read : (w.taking m task).Glanced v)
    (missing : (w.events.get e).candidates.contains (w.states.get s).name = false) :
    ∃ u, E.trigger m model name args named w =
        (((verdictOn w m s (noEntry (w.machine m).label (w.events.get e).name (w.states.get s).name)).map
          (w.machine m).line.answer).mapError .fault, u) ∧ w.Inert v u := by
  have machine : v.machine m = { w.machine m with line := (w.machine m).line.begun task } := by
    rw [read]
    show (w.taking m task).machine m = _
    rw [taking, machine_updateMachine, if_pos rfl]
  have events : v.events = w.events := by rw [read]; rfl
  have states : v.states = w.states := by rw [read]; rfl
  have flag : v.ignoreFlag m s = w.ignoreFlag m s := by
    unfold ignoreFlag
    rw [machine, states]
  obtain ⟨u, fired, remarked⟩ : ∃ u, E.fireNow e model args named (w.taking m task) = (_, u) ∧ v.Remarked u :=
    fireNow_no_entry known.owner hs (by rw [events, states]; exact missing)
  obtain ⟨verdict, hverdict⟩ : ∃ verdict, verdict = verdictOn w m s
    (noEntry (w.machine m).label (w.events.get e).name (w.states.get s).name) := ⟨_, rfl⟩
  have ran : E.runTask task (w.taking m task) = (verdict.mapError .fault, u) := by
    rw [hverdict, htask]
    rw [htask, machine, events, states, verdictOn, flag] at fired
    exact fired
  have kept : (u.machine m).line = (w.machine m).line.begun task := by
    rw [remarked.rest]
    show (v.machine m).line = _
    rw [machine]
  have refused : ∀ f, verdict = .error f → f.isError = true := by
    intro f hf
    rw [hverdict, verdictOn] at hf
    split at hf
    · cases hf
    · cases hf
      rfl
  obtain ⟨u', remarked', submitted⟩ := submit_restores hidle hbound ran kept refused
  have behind := remarked.trans remarked'
  rw [restore_taking known.made task (read.trans behind.glanced)] at submitted
  have asked : ask (fun w => w.eventOf? m name) w = (.ok (some e), w) := by rw [ask_apply, known.found]; rfl
  have calls : u'.invocations = v.invocations := by rw [behind.rest]
  refine ⟨{ w with invocations := u'.invocations, history := u'.history }, ?_, rfl, calls, behind.remarks⟩
  unfold trigger
  rw [if_neg (by simp [hargs]), bind_of_ok asked]
  simp only []
  rw [bind_of_ok (get_apply w), known.owner, ← htask, ← hverdict]
  exact submitted

/-- Triggers that do not apply are inert. A name that no event is registered under, fired at any time, and an event
without an entry for the state of the model, fired while nothing is in flight, are ignored or refused, as the state
or else the machine has it. Where reading the state leaves no more than entries of the history and the count of
calls, so does the trigger, and behind the reading it calls nothing and makes remarks alone: models, registries and
lines are what they were. After that a registered trigger that is fired on a machine with nothing in flight is
taken up at once, and processed if there is an entry for the state of its model. -/
theorem invalid_triggers_are_inert (E : Engine) (hbound : 1 < E.bound) (w : World) (m : MachineId)
    (model name : Value) (args : List Value) (named : Named) (hargs : clashes reservedNames named = false) :
    (∀ s v, w.eventOf? m name = .ok none → E.currentState m model w = (.ok s, v) → w.Glanced v →
      ∃ u, E.trigger m model name args named w = ((verdictOn w m s (.unknownEvent name)).mapError .fault, u) ∧
        w.Inert v u) ∧
    (∀ e s v task, w.Registers m name e → (w.machine m).line.inFlight = false →
      task = .fire e model args named → E.currentState m model (w.taking m task) = (.ok s, v) →
      (w.taking m task).Glanced v → (w.events.get e).candidates.contains (w.states.get s).name = false →
      ∃ u, E.trigger m model name args named w =
          (((verdictOn w m s (noEntry (w.machine m).label (w.events.get e).name (w.states.get s).name)).map
            (w.machine m).line.answer).mapError .fault, u) ∧ w.Inert v u) ∧
    (∀ u, w.Glanced u → (w.machine m).line.inFlight = false →
      ∀ model name args named e s v task, clashes reservedNames named = false → w.Registers m name e →
        task = .fire e model args named → E.currentState m model (u.taking m task) = (.ok s, v) →
        (v.events.get e).candidates.contains (v.states.get s).name = true →
        E.trigger m model name args named u = E.attend m task (u.taking m task) ∧
          E.runTask task (u.taking m task) = E.processFiring v.firings.next (v.opened
            { state := s, event := e, machine := m, model := model, args := args, named := named })) := by
  refine ⟨fun s v unknown hs read => trigger_unknown hargs unknown hs read,
    fun e s v task known hidle htask hs read missing => trigger_no_entry hbound hargs known hidle htask hs read missing,
    fun u left hidle model name args named e s v task free known htask hs entry => ?_⟩
  have idle : (u.machine m).line.inFlight = false := by
    rw [left]
    exact hidle
  have owner : (u.events.get e).machine = m := by
    rw [left]
    exact known.owner
  have found : u.eventOf? m name = .ok (some e) := by
    rw [left]
    exact known.found
  have asked : ask (fun w => w.eventOf? m name) u = (.ok (some e), u) := by rw [ask_apply, found]; rfl
  subst htask
  refine ⟨?_, fireNow_opened owner hs entry⟩
  unfold trigger
  rw [if_neg (by simp [free]), bind_of_ok asked]
  simp only []
  rw [bind_of_ok (get_apply u), owner]
  exact submit_eq_attend idle

end Engine

/-- Callbacks that give nothing. -/
def haspHost : Host where
  behaviour := fun _ _ _ _ => .done .null

def haspEngine : Engine := Engine.ofHost haspHost 4 1

/-- A hasp that is shut, with a pull that opens it and a push that shuts it, and callbacks around every event. -/
def haspPlan : Blueprint where
  options := { initial := .text "shut", autoTransitions := .bool false }
  states := .list [.text "shut", .text "open"]
  transitions := .list [
    .list [.text "pull", .text "shut", .text "open"], .list [.text "push", .text "open", .text "shut"]]
  models := .model "hasp"
  prepareEvent := .callback "click"
  finalizeEvent := .callback "clack"

def haspWorld : World := (haspEngine.perform (.create "hasps" haspPlan) {}).2

theorem haspWorld_reachable : haspWorld.Reachable := by
  have checked : haspHost.Within Operation.Checked := fun _ _ _ _ => trivial
  exact World.Reachable.perform ⟨{}, ⟨rfl, rfl, rfl, rfl⟩, .refl⟩ checked 4 1 trivial

theorem haspWorld_facts :
    haspWorld.eventOf? 0 (.text "kick") = .ok none ∧ haspWorld.eventOf? 0 (.text "pull") = .ok (some 0) ∧
      haspWorld.eventOf? 0 (.text "push") = .ok (some 1) ∧ (haspWorld.machine 0).line = .direct false ∧
      haspWorld.ignoreFlag 0 0 = .bool false ∧ (haspWorld.machine 0).label = "" ∧
      (haspWorld.events.get 1).name = .text "push" ∧ (haspWorld.states.get 0).value = .text "shut" ∧
      (haspWorld.events.get 0).candidates.contains (.text "shut") = true ∧
      (haspWorld.events.get 1).candidates.contains (.text "shut") = false ∧
      haspWorld.lookupState 0 (.text "shut") = .ok 0 ∧ (haspWorld.machine 0).accessor = .field "state" ∧
      (haspWorld.model "hasp").properties.find? "state" = none ∧
      (haspWorld.model "hasp").attributes.find? "state" = some (.text "shut") := by
  -- the world is evaluated once for all that is looked up in it
  have look : (some haspWorld).map (fun w => (w.eventOf? 0 (.text "kick"), w.eventOf? 0 (.text "pull"),
      w.eventOf? 0 (.text "push"), (w.machine 0).line, w.ignoreFlag 0 0, (w.machine 0).label,
      (w.events.get 1).name, (w.states.get 0).value, (w.events.get 0).candidates.contains (.text "shut"),
      (w.events.get 1).candidates.contains (.text "shut"), w.lookupState 0 (.text "shut"), (w.machine 0).accessor,
      (w.model "hasp").properties.find? "state", (w.model "hasp").attributes.find? "state")) =
      some (.ok none, .ok (some 0), .ok (some 1), .direct false, .bool false, "", .text "push", .text "shut", true,
        false, .ok 0, .field "state", none, some (.text "shut")) := by cbv
  simpa only [Option.map_some, Option.some.injEq, Prod.mk.injEq] using look

theorem haspWorld_shut : haspWorld.In 0 "hasp" "shut" 0 := by
  obtain ⟨-, -, -, -, -, -, -, value, -, -, found, accessor, free, state⟩ := haspWorld_facts
  refine ⟨by rw [State.name, value]; rfl, found, ?_⟩
  unfold World.Holds
  rw [accessor, value]
  exact ⟨free, state⟩

/-- A kick and a push of the shut hasp are refused and leave it as it was, without a click or a clack, and a pull
that comes after the push is processed. -/
theorem kick_and_push_are_inert :
    (∃ v u, haspEngine.trigger 0 (.model "hasp") (.text "kick") [] [] haspWorld =
        (.error (.fault (.unknownEvent (.text "kick"))), u) ∧ haspWorld.Inert v u ∧
          u.invocations = haspWorld.invocations) ∧
      ∃ v u, haspEngine.trigger 0 (.model "hasp") (.text "push") [] [] haspWorld =
          (.error (.fault (.invalidTrigger "Can't trigger event push from state shut!" (.text "push") (.text "shut"))),
            u) ∧ haspWorld.Inert v u ∧ u.invocations = haspWorld.invocations ∧
        ∃ v' : World, haspEngine.runTask (.fire 0 (.model "hasp") [] []) (u.taking 0 (.fire 0 (.model "hasp") [] [])) =
          haspEngine.processFiring v'.firings.next
            (v'.opened { state := 0, event := 0, machine := 0, model := .model "hasp" }) := by
  obtain ⟨kick, pull, push, line, flag, label, event, value, entry, missing, -⟩ := haspWorld_facts
  have idle : (haspWorld.machine 0).line.inFlight = false := by rw [line]; rfl
  have shut := haspWorld_shut
  have named : (haspWorld.states.get 0).name = .text "shut" := shut.named
  obtain ⟨unknown, -, -⟩ := Engine.invalid_triggers_are_inert haspEngine (by decide) haspWorld 0
    (.model "hasp") (.text "kick") [] [] rfl
  obtain ⟨-, no_entry, next⟩ := Engine.invalid_triggers_are_inert haspEngine (by decide) haspWorld 0
    (.model "hasp") (.text "push") [] [] rfl
  constructor
  · obtain ⟨v, hs, read, calls, -⟩ := shut.glanced haspEngine
    obtain ⟨u, refused, inert⟩ := unknown 0 v kick hs read
    rw [Engine.verdictOn, flag, if_neg (by simp [Value.truthy])] at refused
    exact ⟨v, u, refused, inert, inert.calls.trans calls⟩
  · obtain ⟨v, hs, read, calls, -⟩ := (shut.taking (.fire 1 (.model "hasp") [] [])).glanced haspEngine
    obtain ⟨u, refused, inert⟩ := no_entry 1 0 v _ (haspWorld_reachable.registers push) idle rfl hs read
      (by rw [named]; exact missing)
    rw [Engine.verdictOn, flag, if_neg (by simp [Value.truthy]), label, event, named] at refused
    have still : u.In 0 "hasp" "shut" 0 := by
      rw [inert.glanced]
      exact ⟨shut.named, shut.found, shut.held⟩
    obtain ⟨v', hs', -, -, states, events⟩ := (still.taking (.fire 0 (.model "hasp") [] [])).glanced haspEngine
    have listed : (v'.events.get 0).candidates.contains (v'.states.get 0).name = true := by
      rw [states, events, inert.glanced]
      show (haspWorld.events.get 0).candidates.contains (haspWorld.states.get 0).name = true
      rw [named]
      exact entry
    exact ⟨v, u, refused, inert, inert.calls.trans calls, v',
      (next u inert.glanced idle (.model "hasp") (.text "pull") [] [] 0 0 v' _ rfl
        (haspWorld_reachable.registers pull) rfl hs' listed).2⟩

end StateEngine
