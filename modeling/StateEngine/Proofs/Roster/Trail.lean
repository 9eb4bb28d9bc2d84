import StateEngine.Proofs.Going.Operations
import StateEngine.Proofs.Registry.Filing

/-! What becomes of the roster of a machine. Models that are bound join the roster that is in use, in place; whoever unbinds
models makes a new one. So a roster gets exactly the models that join before anybody is to leave, and nothing after that. -/
namespace StateEngine
open Act Relation

/-- What is done to the models bound to a machine: one joins them, or one is to leave them, whether it is there or not. -/
inductive Deed where
  | joined (x : Value)
  | left (x : Value)

namespace Deed

/-- Whether somebody is to leave. -/
def leaves : List Deed → Bool
  | [] => false
  | .joined _ :: rest => leaves rest
  | .left _ :: _ => true

/-- The models that join before anybody is to leave, in order. -/
def joinedFirst : List Deed → List Value
  | [] => []
  | .joined x :: rest => x :: joinedFirst rest
  | .left _ :: _ => []

theorem leaves_append (deeds more : List Deed) : leaves (deeds ++ more) = (leaves deeds || leaves more) := by
  induction deeds with
  | nil => rfl
  | cons deed deeds ih =>
    cases deed with
    | joined x => exact ih
    | left x => rfl

theorem joinedFirst_append (deeds more : List Deed) :
    joinedFirst (deeds ++ more) = joinedFirst deeds ++ if leaves deeds then [] else joinedFirst more := by
  induction deeds with
  | nil => rfl
  | cons deed deeds ih =>
    cases deed with
    | joined x => exact congrArg (x :: ·) ih
    | left x => rfl

end Deed

open Deed

namespace World

variable {m n : MachineId} {w v u : World} {deeds more : List Deed} {x : Value}

/-- A roster that is in use by no machine but this one, if at all. -/
def Spare (w : World) (m : MachineId) (r : RosterId) : Prop :=
  r < w.rosters.next ∧ ∀ k < w.machines.next, k ≠ m → (w.machine k).roster ≠ r

/-- Every machine that has been made has a roster of its own, and events are of machines that have been made. -/
structure Housed (w : World) : Prop where
  rosters : ∀ k < w.machines.next, w.Spare k (w.machine k).roster
  houses : ∀ e, (w.events.get e).machine = 0 ∨ (w.events.get e).machine < w.machines.next

/-- A machine keeps its roster, and no roster changes that is in use by no other one. -/
structure SeatKept (m : MachineId) (w v : World) : Prop where
  seat : (v.machine m).roster = (w.machine m).roster
  count : w.machines.next ≤ v.machines.next
  spare : ∀ r, w.Spare m r → v.Spare m r ∧ v.rosters.get r = w.rosters.get r

/-- A model joins the roster that a machine uses. -/
def join (m : MachineId) (x : Value) (w : World) : World :=
  { w with rosters := w.rosters.modify (w.machine m).roster (· ++ [x]) }

/-- A machine goes on with a new roster, of all its models but one. -/
def leave (m : MachineId) (x : Value) (w : World) : World :=
  { w with rosters := w.rosters.push ((w.boundModels m).filter (fun y => !y.same x)) }.updateMachine m
    (fun machine => { machine with roster := w.rosters.next })

/-- From one world to another these deeds are done to the models bound to a machine, and nothing else. Whoever joins was not
bound when he was to; more may be done until he has been placed and joins. -/
inductive Trail (m : MachineId) : World → List Deed → World → Prop where
  | begun (w : World) : Trail m w [] w
  | kept {w v u : World} {deeds : List Deed} (h : Trail m w deeds v) (hu : SeatKept m v u) : Trail m w deeds u
  | joined {w c v : World} {deeds more : List Deed} {x : Value} (h : Trail m w deeds c)
      (fresh : x.isIn (c.boundModels m) = false) (h' : Trail m c more v) :
      Trail m w (deeds ++ more ++ [.joined x]) (v.join m x)
  | left {w v : World} {deeds : List Deed} (h : Trail m w deeds v) (x : Value) :
      Trail m w (deeds ++ [.left x]) (v.leave m x)

theorem Trail.trans (h : Trail m w deeds v) (h' : Trail m v more u) : Trail m w (deeds ++ more) u := by
  induction h' with
  | begun => rwa [List.append_nil]
  | kept _ hu ih => exact .kept (ih h) hu
  | joined _ fresh h'' ih _ =>
    simp only [← List.append_assoc]
    exact .joined (ih h) fresh h''
  | left _ x ih => exact List.append_assoc .. ▸ (ih h).left x

theorem Trail.count (h : Trail m w deeds v) : w.machines.next ≤ v.machines.next := by
  induction h with
  | begun => exact Nat.le_refl _
  | kept _ hu ih => exact Nat.le_trans ih hu.count
  | joined _ _ _ ih ih' => exact Nat.le_trans ih ih'
  | left _ _ ih => exact Nat.le_trans ih (Heap.next_le_next_modify _ _ _)

section Deeds

theorem machine_join (w : World) (m k : MachineId) (x : Value) : (w.join m x).machine k = w.machine k := rfl

theorem roster_join (w : World) (m : MachineId) (x : Value) (r : RosterId) :
    (w.join m x).rosters.get r = if (w.machine m).roster = r then w.rosters.get r ++ [x] else w.rosters.get r :=
  Heap.get_modify ..

theorem machine_leave (w : World) (m k : MachineId) (x : Value) :
    ((w.leave m x).machine k).roster = if m = k then w.rosters.next else (w.machine k).roster := by
  rw [leave, machine_updateMachine]
  split <;> rfl

theorem count_leave (hm : m < w.machines.next) (x : Value) : (w.leave m x).machines.next = w.machines.next :=
  Heap.next_modify hm _

theorem roster_leave {r : RosterId} (hr : r < w.rosters.next) (m : MachineId) (x : Value) :
    (w.leave m x).rosters.get r = w.rosters.get r :=
  (Heap.get_push ..).trans (if_neg (Nat.ne_of_lt hr))

theorem next_leave (w : World) (m : MachineId) (x : Value) : (w.leave m x).rosters.next = w.rosters.next + 1 :=
  Heap.next_push ..

theorem Spare.join {r : RosterId} (h : w.Spare m r) (n : MachineId) (x : Value) : (w.join n x).Spare m r :=
  ⟨Nat.lt_of_lt_of_le h.1 (Heap.next_le_next_modify _ _ _), h.2⟩

theorem Spare.leave {r : RosterId} (h : w.Spare m r) (hn : n < w.machines.next) (x : Value) :
    (w.leave n x).Spare m r := by
  constructor
  · rw [next_leave]
    exact Nat.lt_succ_of_lt h.1
  · intro k hk hne
    rw [count_leave hn] at hk
    rw [machine_leave]
    split
    · exact (Nat.ne_of_lt h.1).symm
    · exact h.2 k hk hne

end Deeds

/-- A roster that no machine uses any more stays as it is. -/
theorem Trail.unused (h : Trail m w deeds v) (hm : m < w.machines.next) {r : RosterId} (hr : w.Spare m r)
    (hne : (w.machine m).roster ≠ r) :
    v.rosters.get r = w.rosters.get r ∧ v.Spare m r ∧ (v.machine m).roster ≠ r := by
  induction h with
  | begun => exact ⟨rfl, hr, hne⟩
  | kept _ hu ih =>
    obtain ⟨models, spare, seat⟩ := ih hm hr hne
    obtain ⟨spare', same⟩ := hu.spare _ spare
    exact ⟨same.trans models, spare', by rwa [hu.seat]⟩
  | joined h _ _ ih ih' =>
    obtain ⟨models, spare, seat⟩ := ih hm hr hne
    obtain ⟨models', spare', seat'⟩ := ih' (Nat.lt_of_lt_of_le hm h.count) spare seat
    refine ⟨?_, spare'.join m _, seat'⟩
    rw [roster_join, if_neg seat', models', models]
  | left h x ih =>
    obtain ⟨models, spare, -⟩ := ih hm hr hne
    refine ⟨(roster_leave spare.1 m x).trans models, spare.leave (Nat.lt_of_lt_of_le hm h.count) x, ?_⟩
    rw [machine_leave, if_pos rfl]
    exact Nat.ne_of_gt spare.1

/-- The roster that a machine used at first holds its models and those that joined before anybody was to leave; and the
machine uses it as long as nobody was. -/
theorem Trail.roster (h : Trail m w deeds v) (hm : m < w.machines.next) (hr : w.Spare m (w.machine m).roster) :
    v.rosters.get (w.machine m).roster = w.boundModels m ++ joinedFirst deeds ∧ v.Spare m (w.machine m).roster ∧
      ((v.machine m).roster = (w.machine m).roster ↔ leaves deeds = false) := by
  induction h with
  | begun => exact ⟨(List.append_nil _).symm, hr, iff_of_true rfl rfl⟩
  | kept _ hu ih =>
    obtain ⟨models, spare, seat⟩ := ih hm hr
    obtain ⟨spare', same⟩ := hu.spare _ spare
    exact ⟨same.trans models, spare', by rw [hu.seat, seat]⟩
  | @joined w c v deeds more x h _ h' ih ih' =>
    obtain ⟨models, spare, seat⟩ := ih hm hr
    have hc := Nat.lt_of_lt_of_le hm h.count
    simp only [joinedFirst_append, leaves_append]
    cases gone : leaves deeds with
    | true =>
      -- the machine has gone on with another roster before
      have hne : (c.machine m).roster ≠ (w.machine m).roster := fun same => by
        rw [seat.mp same] at gone
        cases gone
      obtain ⟨models', spare', seat'⟩ := h'.unused hc spare hne
      refine ⟨?_, spare'.join m x, iff_of_false seat' nofun⟩
      rw [roster_join, if_neg seat', models', models]
      simp
    | false =>
      have same := seat.mpr gone
      obtain ⟨models', spare', seat'⟩ := ih' hc (same ▸ spare)
      rw [same] at models' spare' seat'
      have bound : c.boundModels m = w.boundModels m ++ joinedFirst deeds := by rw [boundModels, same, models]
      refine ⟨?_, spare'.join m x, by rw [machine_join, seat']; simp [leaves]⟩
      rw [roster_join, models', bound]
      cases later : leaves more with
      | false => simp [seat'.mpr later, joinedFirst]
      | true =>
        have hne : (v.machine m).roster ≠ (w.machine m).roster := fun same => by
          rw [seat'.mp same] at later
          cases later
        simp [hne]
  | left h x ih =>
    obtain ⟨models, spare, -⟩ := ih hm hr
    refine ⟨?_, spare.leave (Nat.lt_of_lt_of_le hm h.count) x, ?_⟩
    · rw [roster_leave spare.1, models, joinedFirst_append]
      simp [joinedFirst]
    · rw [machine_leave, if_pos rfl, leaves_append]
      simpa [leaves] using Nat.ne_of_gt spare.1

/-- Whoever joins first is none of the models that were bound. -/
theorem Trail.newcomers (h : Trail m w deeds v) (hm : m < w.machines.next) (hr : w.Spare m (w.machine m).roster) :
    ∀ x ∈ joinedFirst deeds, x.isIn (w.boundModels m) = false := by
  induction h with
  | begun => exact fun x hx => absurd hx List.not_mem_nil
  | kept _ _ ih => exact ih hm hr
  | @joined w c v deeds more x h fresh h' ih ih' =>
    intro y hy
    rw [List.append_assoc, joinedFirst_append] at hy
    rcases List.mem_append.mp hy with hy | hy
    · exact ih hm hr y hy
    · cases gone : leaves deeds with
      | true =>
        rw [gone] at hy
        exact absurd hy List.not_mem_nil
      | false =>
        obtain ⟨models, spare, seat⟩ := h.roster hm hr
        have same := seat.mpr gone
        have unbound : y.isIn (c.boundModels m) = false := by
          rw [gone, if_neg nofun, joinedFirst_append] at hy
          rcases List.mem_append.mp hy with hy | hy
          · exact ih' (Nat.lt_of_lt_of_le hm h.count) (same ▸ spare) y hy
          · have : y = x := by
              split at hy
              · exact absurd hy List.not_mem_nil
              · exact List.mem_singleton.mp hy
            rwa [this]
        rw [boundModels, same, models, Value.isIn, List.any_append, Bool.or_eq_false_iff] at unbound
        exact unbound.1
  | left _ x ih =>
    intro y hy
    rw [joinedFirst_append] at hy
    exact ih hm hr y (by simpa [joinedFirst] using hy)

/-- Machines keep their rosters and rosters their models, and new events are of machines that have been made. -/
structure Kept (w v : World) : Prop where
  count : v.machines.next = w.machines.next
  rosters : v.rosters = w.rosters
  seats : ∀ k, (v.machine k).roster = (w.machine k).roster
  houses : ∀ e, (v.events.get e).machine = (w.events.get e).machine ∨ (v.events.get e).machine < w.machines.next

theorem Kept.spare (h : Kept w v) {r : RosterId} (hr : w.Spare m r) : v.Spare m r := by
  refine ⟨by rw [h.rosters]; exact hr.1, fun k hk hne => ?_⟩
  rw [h.count] at hk
  rw [h.seats]
  exact hr.2 k hk hne

theorem Kept.seatKept (h : Kept w v) (m : MachineId) : SeatKept m w v :=
  ⟨h.seats m, Nat.le_of_eq h.count.symm, fun _ hr => ⟨h.spare hr, by rw [h.rosters]⟩⟩

theorem Kept.housed (h : Kept w v) (hw : w.Housed) : v.Housed := by
  refine ⟨fun k hk => ?_, fun e => ?_⟩
  · rw [h.count] at hk
    rw [h.seats]
    exact h.spare (hw.rosters k hk)
  · rw [h.count]
    rcases h.houses e with same | made
    · rw [same]
      exact hw.houses e
    · exact .inr made

/-- Nothing between two worlds but what concerns neither machines nor events nor rosters. -/
theorem kept_beside (hm : v.machines = w.machines) (hr : v.rosters = w.rosters) (he : v.events = w.events) :
    Kept w v :=
  ⟨by rw [hm], hr, fun k => by rw [machine, machine, hm], fun e => .inl (by rw [he])⟩

theorem kept_noted (h : Noted w v) : Kept w v := by
  have rest := h.rest
  exact kept_beside (by rw [rest]) (by rw [rest]) (by rw [rest])

theorem kept_updateMachine {f : Machine → Machine} (hn : n < w.machines.next)
    (hf : ∀ machine, (f machine).roster = machine.roster) : Kept w (w.updateMachine n f) := by
  refine ⟨Heap.next_modify hn f, rfl, fun k => ?_, fun _ => .inl rfl⟩
  rw [machine_updateMachine]
  split
  · exact hf _
  · rfl

theorem kept_updateEvent {f : Event → Event} (e : EventId) (hf : ∀ event, (f event).machine = event.machine) :
    Kept w (w.updateEvent e f) := by
  refine ⟨rfl, rfl, fun _ => rfl, fun i => .inl ?_⟩
  rw [updateEvent, Heap.get_modify]
  split
  · exact hf _
  · rfl

theorem machine_event_addMoves (hooks : Hooks) (e i : EventId) (moves : List (Value × Value)) (w : World) :
    ((moves.foldl (addMove hooks e) w).events.get i).machine = (w.events.get i).machine := by
  induction moves generalizing w with
  | nil => rfl
  | cons move moves ih =>
    refine (ih _).trans ?_
    by_cases hi : e = i <;> simp [addMove, addCandidate, updateEvent, addTransition, hi]

theorem kept_connect {trigger source dest : Value} {hooks : Hooks} (hn : n < w.machines.next)
    (h : w.connect n trigger source dest hooks = .ok v) : Kept w v := by
  have relisted := relisted_connect h
  obtain ⟨-, moves, -, hv⟩ := connect_cases h
  refine ⟨?_, by rw [relisted.rest], fun k => ?_, fun e => ?_⟩
  · obtain ⟨-, -, -, machines⟩ := event_addMoves hooks (w.ensureEvent n trigger).1 0 moves (w.ensureEvent n trigger).2
    rw [hv, machines]
    rcases ensureEvent_cases w n trigger with ⟨e, -, hens⟩ | ⟨-, hens⟩ <;> rw [hens]
    exact Heap.next_modify hn _
  · obtain ⟨_, hk⟩ := relisted.machine k
    rw [hk]
  · rw [hv, machine_event_addMoves]
    rcases ensureEvent_cases w n trigger with ⟨i, -, hens⟩ | ⟨-, hens⟩ <;> rw [hens]
    · exact .inl rfl
    · rw [event_newEvent]
      split
      · exact .inr hn
      · exact .inl rfl

theorem kept_disconnect {trigger source dest : Value} (hn : n < w.machines.next)
    (h : w.disconnect n trigger source dest = .ok v) : Kept w v := by
  obtain ⟨e, -, ⟨-, rfl⟩ | ⟨-, rfl⟩⟩ := disconnect_cases h
  · exact kept_updateMachine hn (fun _ => rfl)
  · exact kept_updateEvent e (fun _ => rfl)

theorem kept_adopt {trigger : Value} {t : TransitionId} (h : w.adopt n trigger t = .ok v) : Kept w v := by
  obtain ⟨e, -, h⟩ := ok_of_bind h
  split at h
  · cases h
    exact kept_updateEvent e (fun _ => rfl)
  · cases h

theorem housed_join (hw : w.Housed) (n : MachineId) (x : Value) : (w.join n x).Housed :=
  ⟨fun k hk => (hw.rosters k hk).join n x, hw.houses⟩

/-- Whoever joins another machine's models leaves those of this one as they are. -/
theorem seatKept_join (hn : n < w.machines.next) (hne : n ≠ m) (x : Value) :
    SeatKept m w (w.join n x) := by
  refine ⟨rfl, Nat.le_refl _, fun r hr => ⟨hr.join n x, ?_⟩⟩
  rw [roster_join, if_neg (hr.2 n hn hne)]

theorem housed_leave (hw : w.Housed) (hn : n < w.machines.next) (x : Value) : (w.leave n x).Housed := by
  refine ⟨fun k hk => ?_, fun e => ?_⟩
  · rw [count_leave hn] at hk
    rw [machine_leave]
    split
    · rename_i same
      subst same
      refine ⟨by rw [next_leave]; exact Nat.lt_succ_self _, fun j hj hne => ?_⟩
      rw [count_leave hn] at hj
      rw [machine_leave, if_neg hne.symm]
      exact Nat.ne_of_lt (hw.rosters j hj).1
    · exact (hw.rosters k hk).leave hn x
  · rw [count_leave hn]
    exact hw.houses e

theorem seatKept_leave (hn : n < w.machines.next) (hne : n ≠ m) (x : Value) : SeatKept m w (w.leave n x) := by
  refine ⟨by rw [machine_leave, if_neg hne], Nat.le_of_eq (count_leave hn x).symm, fun r hr => ⟨hr.leave hn x, ?_⟩⟩
  exact roster_leave hr.1 n x

/-- A machine that is made gets a roster of its own. -/
theorem housed_makeMachine {plan : Blueprint} (h : w.makeMachine plan = .ok (n, v)) (hw : w.Housed) :
    v.Housed ∧ v.machines.next = w.machines.next + 1 ∧ n = w.machines.next ∧ ∀ m < w.machines.next, SeatKept m w v := by
  obtain ⟨machine, ledgers, rfl, -, -, -, hr, rfl⟩ := makeMachine_cases h
  obtain ⟨v, hv⟩ : ∃ v : World, v = { w with ledgers := ledgers, rosters := w.rosters.push [],
                                             machines := w.machines.push machine } := ⟨_, rfl⟩
  rw [← hv]
  have count : v.machines.next = w.machines.next + 1 := by rw [hv]; exact Heap.next_push ..
  have rosters : v.rosters = w.rosters.push [] := by rw [hv]
  have more : v.rosters.next = w.rosters.next + 1 := by rw [rosters]; exact Heap.next_push ..
  have seat {k : MachineId} (hk : k < v.machines.next) :
      (k < w.machines.next ∧ v.machine k = w.machine k) ∨ (k = w.machines.next ∧ (v.machine k).roster = w.rosters.next) := by
    rw [count] at hk
    have get : v.machine k = if k = w.machines.next then machine else w.machine k := by
      rw [hv]
      exact Heap.get_push ..
    rcases Nat.lt_succ_iff_lt_or_eq.mp hk with old | new
    · exact .inl ⟨old, by rw [get, if_neg (Nat.ne_of_lt old)]⟩
    · exact .inr ⟨new, by rw [get, if_pos new, hr]⟩
  have spare {k : MachineId} {r : RosterId} (hs : w.Spare k r) : v.Spare k r := by
    refine ⟨by rw [more]; exact Nat.lt_succ_of_lt hs.1, fun j hj hne => ?_⟩
    rcases seat hj with ⟨old, same⟩ | ⟨-, new⟩
    · rw [same]
      exact hs.2 j old hne
    · rw [new]
      exact (Nat.ne_of_lt hs.1).symm
  refine ⟨⟨fun k hk => ?_, fun e => ?_⟩, count, rfl, fun m hm => ⟨?_, ?_, fun r hs => ?_⟩⟩
  · rcases seat hk with ⟨old, same⟩ | ⟨rfl, new⟩
    · rw [same]
      exact spare (hw.rosters k old)
    · rw [new]
      refine ⟨by rw [more]; exact Nat.lt_succ_self _, fun j hj hne => ?_⟩
      rcases seat hj with ⟨old, same⟩ | ⟨same, -⟩
      · rw [same]
        exact Nat.ne_of_lt (hw.rosters j old).1
      · exact absurd same hne
  · have events : v.events = w.events := by rw [hv]
    rw [events, count]
    exact (hw.houses e).imp_right Nat.lt_succ_of_lt
  · rcases seat (k := m) (by rw [count]; exact Nat.lt_succ_of_lt hm) with ⟨-, same⟩ | ⟨same, -⟩
    · rw [same]
    · exact absurd same (Nat.ne_of_lt hm)
  · rw [count]
    exact Nat.le_succ _
  · refine ⟨spare hs, ?_⟩
    rw [rosters, Heap.get_push, if_neg (Nat.ne_of_lt hs.1)]

/-- Where nothing has been made, all is in order. -/
theorem Blank.housed (h : w.Blank) : w.Housed := by
  refine ⟨fun k hk => ?_, fun e => .inl ?_⟩
  · rw [h.machines] at hk
    exact absurd hk (Nat.not_lt_zero k)
  · rw [h.event]
    rfl

end World

end StateEngine
