import StateEngine.Proofs.Rows.Laying
import StateEngine.Proofs.Rows.Stepping

/-! A trigger that goes round: fired again and again, the trigger of a row leads a model through the states of the row in
order, and round and round if the row is closed. -/
namespace StateEngine
open Act World Relation

/-- The place in a row where a model is after some moves, at least one, from its beginning. -/
def placeAt (length back : Nat) (loop : Bool) (moves : Nat) : Nat :=
  if loop then if back = 0 then moves % length else 1 + (moves - 1) % (length - 1) else moves

theorem placeAfter_placeAt {length back k : Nat} {loop : Bool} (hlen : 2 ≤ length) (hback : back ≤ 1) (hk : 1 ≤ k)
    (room : loop = false → k + 1 < length) :
    placeAfter length back (placeAt length back loop k) = placeAt length back loop (k + 1) := by
  unfold placeAt
  cases loop with
  | false => exact if_pos (room rfl)
  | true =>
    simp only [if_true]
    by_cases closed : back = 0
    · have lt := Nat.mod_lt k (show 0 < length by omega)
      rw [if_pos closed, if_pos closed, Nat.add_mod_eq_ite, Nat.mod_eq_of_lt (show 1 < length by omega), placeAfter]
      split <;> split <;> omega
    · obtain ⟨j, rfl⟩ : ∃ j, k = j + 1 := ⟨k - 1, by omega⟩
      have one : back = 1 := by omega
      rw [if_neg closed, if_neg closed, Nat.add_sub_cancel, Nat.add_sub_cancel, one, placeAfter]
      by_cases two : length = 2
      · subst two
        simp [Nat.mod_one]
      · have lt := Nat.mod_lt j (show 0 < length - 1 by omega)
        rw [Nat.add_mod_eq_ite, Nat.mod_eq_of_lt (show 1 < length - 1 by omega)]
        split <;> split <;> omega

/-- Going from one place to the next leads to where it should. -/
theorem iterate_placeAfter {length back k : Nat} {loop : Bool} (hlen : 2 ≤ length) (hback : back ≤ 1) (hk : 1 ≤ k)
    (room : loop = false → k < length) : (placeAfter length back)^[k] 0 = placeAt length back loop k := by
  induction k, hk using Nat.le_induction with
  | base =>
    have next : placeAfter length back 0 = 1 := if_pos hlen
    rw [Function.iterate_one, next, placeAt]
    cases loop with
    | false => rfl
    | true =>
      rw [Nat.mod_eq_of_lt hlen]
      simp
  | succ k hk ih =>
    rw [Function.iterate_succ_apply', ih (fun h => Nat.lt_of_succ_lt (room h))]
    exact placeAfter_placeAt hlen hback hk room

/-- Within the length of a row there is no way back. -/
theorem iterate_placeAfter_of_lt {length back k : Nat} (hk : k < length) : (placeAfter length back)^[k] 0 = k := by
  induction k with
  | zero => rfl
  | succ k ih =>
    rw [Function.iterate_succ_apply', ih (Nat.lt_of_succ_lt hk)]
    exact if_pos hk

namespace World

variable {w v u : World} {m : MachineId} {trigger : String} {plan : List Planned}

theorem Laid.states (h : Laid w m trigger plan v) : v.states = w.states := by rw [h.rest]

theorem Laid.station (h : Laid w m trigger plan v) {bound : Nat} {a : String} {s : StateId}
    (hs : w.Station bound m a s) : v.Station bound m a s := by
  refine ⟨?_, by rw [h.states]; exact hs.named, by rw [h.states]; exact hs.short⟩
  exact (lookup_of_states (by rw [h.machine]) a).trans hs.found

/-- Where it has no candidate, a trigger that was laid is not among those that are listed. -/
theorem Laid.not_listed (h : Laid w m trigger plan v) (unused : (w.machine m).events.find? (.text trigger) = none)
    {a : String} (missing : (v.events.get w.events.next).candidates.find? (.text a) = none) {triggers : List Value}
    (listed : v.triggersFrom m [.text a] = .ok triggers) : .text trigger ∉ triggers := by
  have new : (w.machine m).events.contains (.text trigger) = false := by
    rw [Table.contains, unused]
    rfl
  have answers : triggers = ((v.machine m).events.entries.filter (fun e =>
      (v.events.get e.2).candidates.contains (.text a))).map Prod.fst := by
    have answer : v.triggersFrom m [.text a] = .ok (((v.machine m).events.entries.filter (fun e =>
        (v.events.get e.2).candidates.contains (.text a))).map Prod.fst) := by
      simp [triggersFrom, nameOf, Value.registrationName, Value.hashable_text]
    exact Except.ok.inj (listed.symm.trans answer)
  intro among
  rw [answers] at among
  obtain ⟨⟨k, e⟩, he, rfl⟩ := List.mem_map.mp among
  obtain ⟨filed, lists⟩ := List.mem_filter.mp he
  rw [h.machine, Table.entries_insert_of_not_contains new, List.mem_append] at filed
  rcases filed with old | last
  · obtain ⟨e', he'⟩ := Table.find?_of_mem old ReflBEq.rfl
    rw [unused] at he'
    cases he'
  · cases List.mem_singleton.mp last
    rw [Table.contains, missing] at lists
    cases lists

variable {bound : Nat} {names : List String} {row : Row} {x : String}

/-- The name at a place of a row. -/
def rowName (w : World) (m : MachineId) (names : List String) (i : Nat) : String :=
  (rowFrom (w.machine m).initial names).getD i ""

/-- The place to which the last transition of a row leads. -/
def rowBack (w : World) (m : MachineId) (names : List String) (row : Row) : Nat :=
  loopEnd (w.machine m).initial names row.loopIncludesInitial.truthy

theorem rowPlan_getElem? (w : World) (m : MachineId) (names : List String) (row : Row) {i : Nat}
    (hi : i < moveCount names.length row.loop.truthy) : (w.rowPlan m names row)[i]? =
      some ((.text (w.rowName m names i), .text (w.rowName m names (placeAfter names.length (w.rowBack m names row) i))),
        row.hooks.at i) := by
  rw [rowPlan, List.getElem?_map, List.getElem?_range hi]
  rfl

/-- Planned transitions have no guards, and fewer callbacks than a bound to prepare them. -/
def Unguarded (bound : Nat) (plan : List Planned) : Prop :=
  ∀ p ∈ plan, (Planned.made p).guards = [] ∧ (Planned.made p).prepare.length < bound

/-- A row that is laid leads from each of its places to the next. -/
theorem Laid.leg (h : Laid w m trigger (w.rowPlan m names row) v) (distinct : ((w.rowPlan m names row).map (·.1.1)).Nodup)
    (joins : ∀ p ∈ w.rowPlan m names row, w.Joins m p) (hlen : 2 ≤ names.length)
    (stations : ∀ a ∈ names, ∃ s, w.Station bound m a s)
    (unguarded : Unguarded bound (w.rowPlan m names row)) {i : Nat}
    (hi : i < moveCount names.length row.loop.truthy) :
    v.Leg bound m w.events.next (w.rowName m names i)
      (w.rowName m names (placeAfter names.length (w.rowBack m names row) i)) (w.transitions.next + i) := by
  have planned := rowPlan_getElem? w m names row hi
  have made := h.transition planned
  obtain ⟨unguarded, short⟩ := unguarded _ (List.mem_of_getElem? planned)
  have lt := Nat.lt_of_lt_of_le hi (moveCount_le _)
  obtain ⟨s, origin⟩ := stations _ (getD_rowFrom_mem (w.machine m).initial lt)
  obtain ⟨d, target⟩ := stations _ (getD_rowFrom_mem (w.machine m).initial
    (placeAfter_lt hlen (loopEnd_le_one _ names row.loopIncludesInitial.truthy) i))
  refine ⟨h.leads distinct joins planned, ?_, ?_, ?_, ?_, ⟨s, h.station origin⟩, ⟨d, h.station target⟩⟩
  · rw [made]
    rfl
  · rw [made]
    rfl
  · rw [made]
    exact unguarded
  · rw [made]
    exact short

/-- A machine at rest, with a model in the state of a name, and everything about an event as it was. -/
structure Resting (w : World) (m : MachineId) (e : EventId) (x a : String) (v : World) : Prop where
  lasts : Lasts m e w v
  idle : (v.machine m).line.inFlight = false
  here : ∃ s, v.In m x a s

/-- A model is in its state whatever the line of a machine is. -/
theorem In.relined {a : String} {s : StateId} (h : w.In m x a s) (hv : Relined m w v) : v.In m x a s := by
  obtain ⟨line, machine⟩ := hv.line
  have states : v.states = w.states := by rw [hv.rest]
  refine ⟨by rw [states]; exact h.named, (lookupState_congr states machine _).trans h.found, ?_⟩
  have held := h.held
  unfold Holds at held ⊢
  rw [machine, hv.rest]
  exact held

end World

namespace Engine

variable {E : Engine} {m : MachineId} {e : EventId} {x trigger : String} {bound : Nat} {w u : World}

/-- Fires a trigger on a model several times, with arguments for each. -/
def fireAll (E : Engine) (m : MachineId) (x trigger : String) (calls : List (List Value × Named)) : Run Unit :=
  calls.forM (fun c => E.trigger m (.model x) (.text trigger) c.1 c.2 >>= fun _ => pure ())

/-- Of several firings one was cut off by a callback that failed, when those before it had ended well. -/
def Stuck (E : Engine) (m : MachineId) (e : EventId) (x trigger : String) (calls : List (List Value × Named))
    (w v : World) (f : Fault) : Prop :=
  ∃ (before after : List (List Value × Named)) (c : List Value × Named) (u : World), calls = before ++ c :: after ∧
    E.fireAll m x trigger before w = (.ok (), u) ∧ E.CutOff m e x c.1 c.2 u v f

/-- As long as there is a way on, each firing takes it, or a callback fails. -/
theorem fireAll_follows (hE : E.Walks (Spares m e x)) (ends : E.Definite) (turns : 1 < E.bound)
    (listed : (w.machine m).events.find? (.text trigger) = some e) (owned : (w.events.get e).machine = m)
    {name : Nat → String} {next : Nat → Nat} {calls : List (List Value × Named)}
    (free : ∀ c ∈ calls, clashes reservedNames c.2 = false) {i : Nat}
    (legs : ∀ k < calls.length, ∃ t, w.Leg E.bound m e (name (next^[k] i)) (name (next (next^[k] i))) t)
    (start : w.Resting m e x (name i) u) :
    ∃ (r : Except Fault Unit) (v : World), E.fireAll m x trigger calls u = (r.mapError .fault, v) ∧
      (r = .ok () → w.Resting m e x (name (next^[calls.length] i)) v) ∧
        ∀ f, r = .error f → E.Stuck m e x trigger calls u v f := by
  induction calls generalizing i u with
  | nil =>
    refine ⟨.ok (), u, rfl, fun _ => start, fun f hf => ?_⟩
    cases hf
  | cons c calls ih =>
    obtain ⟨lasts, idle, s, here⟩ := start
    obtain ⟨t, leg⟩ := legs 0 (Nat.zero_lt_succ _)
    obtain ⟨r, u', ran, good, bad⟩ := trigger_carries hE ends turns (lasts.listed trigger listed)
      (by rw [lasts.event]; exact owned) idle (leg.lasts lasts) here c.1 (free c List.mem_cons_self)
    cases r with
    | error f =>
      refine ⟨.error f, u', ?_, ?_, ?_⟩
      · exact bind_of_error (bind_of_error (e := .fault f) ran)
      · intro h
        cases h
      · intro g hg
        obtain rfl := Except.error.inj hg
        exact ⟨[], calls, c, u, rfl, rfl, bad f rfl⟩
    | ok v =>
      obtain ⟨-, lasts', line, there⟩ := good v rfl
      have resting : w.Resting m e x (name (next i)) u' := ⟨lasts.trans lasts', by rw [line]; exact idle, there⟩
      obtain ⟨r', v', ran', good', bad'⟩ := ih (fun c' hc => free c' (List.mem_cons_of_mem c hc))
        (fun k hk => legs (k + 1) (Nat.succ_lt_succ hk)) resting
      have first : (E.trigger m (.model x) (.text trigger) c.1 c.2 >>= fun _ => (pure () : Run Unit)) u = (.ok (), u') :=
        (bind_of_ok ran).trans rfl
      refine ⟨r', v', (bind_of_ok first).trans ran', good', fun f hf => ?_⟩
      obtain ⟨before, after, d, z, rfl, ended, cut⟩ := bad' f hf
      exact ⟨c :: before, after, d, z, rfl, (bind_of_ok first).trans ended, cut⟩

/-- An event without a candidate for the state of a model is ignored, or refused. -/
theorem fireNow_missing {a : String} {s : StateId} (owned : (w.events.get e).machine = m) (here : w.In m x a s)
    (missing : (w.events.get e).candidates.find? (.text a) = none) (args : List Value) (named : Named) :
    ∃ (message : String) (history : Array Entry), E.fireNow e (.model x) args named w =
      (if (w.ignoreFlag m s).truthy then .ok (.bool false)
        else .error (.fault (.invalidTrigger message (w.events.get e).name (.text a))), { w with history := history }) := by
  obtain ⟨history, asked⟩ := here.asked (E := E)
  have unlisted : (w.events.get e).candidates.contains (.text a) = false := by
    rw [Table.contains, missing]
    rfl
  unfold fireNow
  rw [bind_of_ok (get_apply w)]
  simp only [owned]
  rw [bind_of_ok asked, bind_of_ok (get_apply _)]
  simp only [here.named, unlisted, Bool.false_eq_true, if_false]
  have same : ({ w with history := history } : World).ignoreFlag m s = w.ignoreFlag m s := rfl
  rw [same]
  cases (w.ignoreFlag m s).truthy with
  | true => exact ⟨"", _, rfl⟩
  | false => exact ⟨_, history, rfl⟩

/-- On an idle machine a trigger without a candidate for the state of a model leaves it there. -/
theorem trigger_rests (turns : 1 < E.bound) (listed : (w.machine m).events.find? (.text trigger) = some e)
    (owned : (w.events.get e).machine = m) (idle : (w.machine m).line.inFlight = false) {a : String} {s : StateId}
    (here : w.In m x a s) (missing : (w.events.get e).candidates.find? (.text a) = none) (args : List Value)
    {named : Named} (free : clashes reservedNames named = false) :
    ∃ (message : String) (v : World), E.trigger m (.model x) (.text trigger) args named w =
        (if (w.ignoreFlag m s).truthy then .ok ((w.machine m).line.answer (.bool false))
          else .error (.fault (.invalidTrigger message (w.events.get e).name (.text a))), v) ∧
      v.In m x a s ∧ v = { w with machines := v.machines, history := v.history } := by
  obtain ⟨task, htask⟩ : ∃ task, task = Task.fire e (.model x) args named := ⟨_, rfl⟩
  have taken : Relined m w (w.taking m task) := relined_write m _ w
  have machine : (w.taking m task).machine m = { w.machine m with line := (w.machine m).line.begun task } := by
    rw [taking, machine_updateMachine, if_pos rfl]
  have ignore : (w.taking m task).ignoreFlag m s = w.ignoreFlag m s := by
    unfold ignoreFlag
    rw [machine]
    rfl
  obtain ⟨message, history, fired⟩ :=
    fireNow_missing (E := E) (w := w.taking m task) owned (here.relined taken) missing args named
  rw [ignore] at fired
  obtain ⟨r, hr⟩ : ∃ r : Except Fault Value, r = if (w.ignoreFlag m s).truthy then .ok (.bool false)
    else .error (.invalidTrigger message (w.events.get e).name (.text a)) := ⟨_, rfl⟩
  have ran : E.runTask task (w.taking m task) =
      (r.mapError .fault, { w.taking m task with history := history }) := by
    rw [htask] at fired ⊢
    refine fired.trans (Prod.ext ?_ rfl)
    rw [hr]
    split <;> rfl
  obtain ⟨v, submitted, relined⟩ := submit_idle idle turns ran (by
    show ((w.taking m task).machine m).line = _
    rw [machine])
  have there := here.relined taken
  have asked : ({ w.taking m task with history := history } : World).In m x a s := ⟨there.named, there.found, there.held⟩
  refine ⟨message, v, ?_, asked.relined relined, ?_⟩
  · rw [trigger_submits listed owned args free, ← htask, submitted, hr]
    split <;> rfl
  · rw [relined.rest]
    rfl

end Engine

namespace World

variable {w : World} {m : MachineId} {trigger : String} {names : List String} {row : Row}

/-- A row of different registered states, under a trigger that is not in use, is laid from the initial state on, if that
is among them: from each state to the next, and from the last one back if it is to be closed, each transition with its own
entries of the arguments. On a machine at rest, and without guards, the trigger carries a model that stands at the
beginning from place to place, round and round if the row is closed, unless a callback fails. At the end of a row that is
not closed the trigger leads nowhere. -/
theorem row_leads_around (hstates : row.states.items = names.map .text) (htrigger : row.trigger = .text trigger)
    (hreg : ∀ a ∈ names, .text a ∈ (w.machine m).states.keys) (hplain : ∀ a ∈ names, a ≠ "*" ∧ a ≠ "=")
    (hnodup : names.Nodup) (hlen : 2 ≤ names.length) (unused : (w.machine m).events.find? (.text trigger) = none)
    (free : trigger ≠ (w.machine m).accessor.name) (hfit : row.hooks.Fit (moveCount names.length row.loop.truthy)) :
    ∃ v, connectRow m row w = (.ok (), v) ∧ Laid w m trigger (w.rowPlan m names row) v ∧
      ∀ (E : Engine) (x : String), E.Walks (Spares m w.events.next x) → E.Definite → 1 < E.bound →
        (∀ a ∈ names, ∃ s, w.Station E.bound m a s) →
        (∀ u calls, Unguarded E.bound (w.rowPlan m names row) →
          v.Resting m w.events.next x (w.rowName m names 0) u →
          (∀ c ∈ calls, Engine.clashes Engine.reservedNames c.2 = false) → 1 ≤ calls.length →
          (row.loop.truthy = false → calls.length < names.length) →
          ∃ (r : Except Fault Unit) (u' : World), E.fireAll m x trigger calls u = (r.mapError .fault, u') ∧
            (r = .ok () → v.Resting m w.events.next x
              (w.rowName m names (placeAt names.length (w.rowBack m names row) row.loop.truthy calls.length)) u') ∧
            ∀ f, r = .error f → E.Stuck m w.events.next x trigger calls u u' f) ∧
        (row.loop.truthy = false → (∀ triggers, v.triggersFrom m [.text (w.rowName m names (names.length - 1))] =
            .ok triggers → .text trigger ∉ triggers) ∧
          ∀ u args named s, Lasts m w.events.next v u → (u.machine m).line.inFlight = false →
            u.In m x (w.rowName m names (names.length - 1)) s →
            Engine.clashes Engine.reservedNames named = false →
            ∃ (message : String) (u' : World), E.trigger m (.model x) (.text trigger) args named u =
                (if (u.ignoreFlag m s).truthy then .ok ((u.machine m).line.answer (.bool false))
                  else .error (.fault (.invalidTrigger message (.text trigger)
                    (.text (w.rowName m names (names.length - 1))))), u') ∧
              u'.In m x (w.rowName m names (names.length - 1)) s) := by
  obtain ⟨v, ran, laid⟩ := connectRow_laid hstates htrigger hreg hplain hnodup hlen unused free hfit
  have joins : ∀ p ∈ w.rowPlan m names row, w.Joins m p := rowPlan_joins hreg hplain hlen
  have sources := rowPlan_sources (w := w) (m := m) hnodup row
  have back := loopEnd_le_one (w.machine m).initial names row.loopIncludesInitial.truthy
  have owned : (v.events.get w.events.next).machine = m := by rw [laid.event]
  refine ⟨v, ran, laid, fun E x hE ends turns stations => ⟨?_, ?_⟩⟩
  · intro u calls unguarded start named some room
    have legs : ∀ k < calls.length, ∃ t, v.Leg E.bound m w.events.next
        (w.rowName m names ((placeAfter names.length (w.rowBack m names row))^[k] 0))
        (w.rowName m names (placeAfter names.length (w.rowBack m names row)
          ((placeAfter names.length (w.rowBack m names row))^[k] 0))) t := by
      intro k hk
      refine ⟨_, laid.leg sources joins hlen stations unguarded ?_⟩
      cases closed : row.loop.truthy with
      | false =>
        have short := room closed
        rw [iterate_placeAfter_of_lt (by omega), moveCount]
        simp only [Bool.false_eq_true, if_false]
        omega
      | true =>
        cases k with
        | zero => exact Nat.lt_of_lt_of_le Nat.zero_lt_two hlen
        | succ k =>
          rw [Function.iterate_succ_apply']
          exact placeAfter_lt hlen back _
    have arrives : (placeAfter names.length (w.rowBack m names row))^[calls.length] 0 =
        placeAt names.length (w.rowBack m names row) row.loop.truthy calls.length :=
      iterate_placeAfter hlen back some room
    have walked := Engine.fireAll_follows hE ends turns laid.found owned named legs start
    rwa [arrives] at walked
  · intro straight
    have lt : names.length - 1 < names.length := by omega
    -- the last place is the source of no transition
    have missing : (v.events.get w.events.next).candidates.find?
        (.text (w.rowName m names (names.length - 1))) = none := by
      refine laid.missing (fun p hp => ?_)
      obtain ⟨i, hi, rfl⟩ := List.mem_map.mp hp
      have hi := List.mem_range.mp hi
      rw [moveCount, straight] at hi
      simp only [Bool.false_eq_true, if_false] at hi
      rw [Value.text_beq_text, beq_eq_false_iff_ne]
      intro same
      have := getD_rowFrom_inj hnodup (by omega) lt same
      omega
    refine ⟨fun triggers listed => laid.not_listed unused missing listed, ?_⟩
    · intro u args named s lasts idle here unreserved
      have event : u.events.get w.events.next = v.events.get w.events.next := lasts.event
      obtain ⟨message, u', refused, rests, -⟩ := Engine.trigger_rests (E := E) turns (lasts.listed trigger laid.found)
        (by rw [event]; exact owned) idle here (by rw [event]; exact missing) args unreserved
      refine ⟨message, u', ?_, rests⟩
      rw [refused, event, laid.event]

end World

/-- Callbacks that give nothing. -/
def lapHost : Host where
  behaviour := fun _ _ _ _ => .done .null

def lapEngine : Engine := Engine.ofHost lapHost 16 1

def lapPlan : Blueprint where
  options := { initial := .text "start", autoTransitions := .bool false }
  states := .list [.text "start", .text "left", .text "right"]
  models := .model "runner"

/-- A lap that leaves out its start from the second round on, with another callback before each move. -/
def lapRow : Row where
  states := .list [.text "left", .text "right", .text "start"]
  loopIncludesInitial := .bool false
  hooks := { before := .list [.callback "off", .callback "on", .callback "round"] }

def lapNames : List String := ["left", "right", "start"]

def lapWorld : World := (lapEngine.perform (.create "lap" lapPlan) {}).2

def lapLaid : World := (connectRow 0 lapRow lapWorld).2

def lapCalls : List (List Value × Named) := [([], []), ([.int 7], []), ([], []), ([], [])]

theorem lapWorld_facts : ((lapWorld.machine 0).states.keys = [.text "start", .text "left", .text "right"] ∧
      (lapWorld.machine 0).events.find? (.text "next_state") = none ∧ (lapWorld.machine 0).accessor = .field "state") ∧
    (lapWorld.rowPlan 0 lapNames lapRow).all (fun p =>
      (Planned.made p).guards.isEmpty && decide ((Planned.made p).prepare.length < 16)) = true ∧
    lapWorld.rowName 0 lapNames 0 = "start" ∧ lapWorld.rowName 0 lapNames 2 = "right" ∧
      lapWorld.rowBack 0 lapNames lapRow = 1 := by
  refine ⟨⟨?_, ?_, ?_⟩, ?_, ?_, ?_, ?_⟩ <;> cbv

theorem lapWorld_stations : ∀ a ∈ lapNames, ∃ s, lapWorld.Station lapEngine.bound 0 a s := by
  intro a ha
  simp only [lapNames, List.mem_cons, List.not_mem_nil, or_false] at ha
  rcases ha with rfl | rfl | rfl
  · exact ⟨1, by cbv, by cbv, fun stage => by cases stage <;> cbv⟩
  · exact ⟨2, by cbv, by cbv, fun stage => by cases stage <;> cbv⟩
  · exact ⟨0, by cbv, by cbv, fun stage => by cases stage <;> cbv⟩

theorem lapLaid_facts : ((lapLaid.machine 0).accessor = .field "state" ∧ (lapLaid.machine 0).line.inFlight = false) ∧
    (lapLaid.lookupState 0 (.text "start") = .ok 0 ∧ (lapLaid.states.get 0).value = .text "start") ∧
      ((lapLaid.model "runner").properties.find? "state" = none ∧
        (lapLaid.model "runner").attributes.find? "state" = some (.text "start")) ∧
      (lapEngine.fireAll 0 "runner" "next_state" lapCalls lapLaid).1 = .ok () := by
  refine ⟨⟨?_, ?_⟩, ⟨?_, ?_⟩, ⟨?_, ?_⟩, ?_⟩ <;> cbv

/-- A lap that leaves out its start is laid in three moves, and after four of them the runner is at the right. -/
theorem runner_goes_round : ∃ v u, connectRow 0 lapRow lapWorld = (.ok (), v) ∧
    lapWorld.Laid 0 "next_state" (lapWorld.rowPlan 0 lapNames lapRow) v ∧
      lapEngine.fireAll 0 "runner" "next_state" lapCalls v = (.ok (), u) ∧ ∃ s, u.In 0 "runner" "right" s := by
  obtain ⟨⟨keys, unused, accessor⟩, plain, first, third, back⟩ := lapWorld_facts
  obtain ⟨⟨accessor', idle⟩, ⟨lookup, value⟩, ⟨free, state⟩, ran⟩ := lapLaid_facts
  have states : lapRow.states.items = lapNames.map .text := rfl
  have trigger : lapRow.trigger = .text "next_state" := rfl
  have registered : ∀ a ∈ lapNames, .text a ∈ (lapWorld.machine 0).states.keys := by
    rw [keys]
    simp [lapNames]
  have unreserved : "next_state" ≠ (lapWorld.machine 0).accessor.name := by
    rw [accessor]
    decide
  have fit : lapRow.hooks.Fit (moveCount lapNames.length lapRow.loop.truthy) :=
    ⟨.inl rfl, .inl rfl, .inr rfl, .inl rfl, .inl rfl⟩
  obtain ⟨v, connected, laid, leads⟩ := World.row_leads_around states trigger registered (by decide) (by decide)
    (by decide) unused unreserved fit
  obtain rfl : lapLaid = v := by rw [lapLaid, connected]
  have aloof : lapEngine.Aloof := Engine.aloof_ofHost 16 0 (fun _ _ _ _ => .inl ⟨.null, rfl⟩)
  have here : lapLaid.In 0 "runner" "start" 0 := by
    refine ⟨by rw [State.name, value]; rfl, lookup, ?_⟩
    unfold World.Holds
    rw [accessor', value]
    exact ⟨free, state⟩
  have unguarded : World.Unguarded lapEngine.bound (lapWorld.rowPlan 0 lapNames lapRow) := by
    intro p hp
    have fine := List.all_eq_true.mp plain p hp
    simp only [Bool.and_eq_true, List.isEmpty_iff, decide_eq_true_eq] at fine
    exact fine
  obtain ⟨goes, -⟩ := leads lapEngine "runner" (aloof.spares 0 _ "runner") aloof.ends (by decide) lapWorld_stations
  obtain ⟨r, u, fired, arrives, -⟩ := goes lapLaid lapCalls unguarded ⟨.refl _, idle, 0, by rw [first]; exact here⟩
    (by decide) (by decide) (fun h => by cases h)
  rw [fired] at ran
  have well : r = .ok () := by
    cases r with
    | ok _ => rfl
    | error f => cases ran
  obtain ⟨-, -, s, there⟩ := arrives well
  rw [back, show placeAt lapNames.length 1 lapRow.loop.truthy lapCalls.length = 2 from rfl, third] at there
  exact ⟨lapLaid, u, connected, laid, by rw [fired, well]; rfl, s, there⟩

end StateEngine
