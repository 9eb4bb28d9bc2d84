import Mathlib
import StateEngine.Proofs.Registry.Filing

/-! What a removal takes away, and what it leaves behind: an event that has lost its last transition is
struck off the list as it is, and a trigger that has come before still finds all of them there. -/
namespace StateEngine
open Act

namespace World

theorem find?_of_eventOf {w : World} {m : MachineId} {trigger : Value} {e : EventId}
    (h : w.eventOf m trigger = .ok e) :
    trigger.hashable = true ∧ (w.machine m).events.find? trigger = some e := by
  obtain ⟨found, hf, h⟩ := ok_of_bind h
  unfold eventOf? at hf
  split at hf
  · rename_i hk
    cases hf
    cases hfind : (w.machine m).events.find? trigger with
    | none =>
      rw [hfind] at h
      cases h
    | some e' =>
      rw [hfind] at h
      cases h
      exact ⟨hk, rfl⟩
  · cases hf

theorem find?_of_eventOf? {w : World} {m : MachineId} {trigger : Value} {e : EventId}
    (h : w.eventOf? m trigger = .ok (some e)) : (w.machine m).events.find? trigger = some e := by
  unfold eventOf? at h
  split at h
  · exact Except.ok.inj h
  · cases h

/-- A machine that has struck an event off lists it no more, and no other machine has ever listed it. -/
theorem unlisted_erase {w : World} (hw : w.Reachable) {m : MachineId} {trigger : Value} {e : EventId}
    (he : w.eventOf m trigger = .ok e) (n : MachineId) (k : Value) :
    (k, e) ∉ ((w.updateMachine m (fun machine =>
      { machine with events := machine.events.erase trigger })).machine n).events.entries := by
  obtain ⟨-, hfind⟩ := find?_of_eventOf he
  obtain ⟨k', hkey, hmem⟩ := Table.mem_of_find? hfind
  intro hx
  rw [machine_updateMachine] at hx
  split at hx
  · rename_i hmn
    subst hmn
    obtain ⟨hx, hne⟩ := List.mem_filter.mp hx
    -- the event has one name, so both entries have the same key
    have name := (hw.sorted.listed m _ hmem).name
    have name' := (hw.sorted.listed m _ hx).name
    have same : k = k' := name'.symm.trans name
    rw [same, hkey] at hne
    cases hne
  · rename_i hmn
    have owner := (hw.regular.owned m _ hmem).2
    have owner' := (hw.regular.owned n _ hx).2
    exact hmn (owner.symm.trans owner')

/-- A transition that a removal took away is selected by no firing from then on, with one exception: the
removal has left its event without transitions and so struck it off the list, and the firing is one of
that very event. No trigger leads there any more, so the one that did had come before. -/
theorem removed_fires_only_where_struck_off {w v u u' : World} (hw : w.Reachable) {m : MachineId}
    {trigger source dest : Value} {e : EventId} {t : TransitionId} (he : w.eventOf m trigger = .ok e)
    (hf : w.Filed e t) (ht : w.spares source dest t = false)
    (hd : w.disconnect m trigger source dest = .ok v) (hu : Changes v u) {i : FiringId}
    {ts : List TransitionId} (hs : Engine.candidatesFor i u = (.ok ts, u')) (hmem : t ∈ ts) :
    (u.firings.get i).event = e ∧ w.remaining e source dest = [] ∧ v.eventOf? m trigger = .ok none ∧
      ∀ n name, u.eventOf? n name ≠ .ok (some e) := by
  have step : Change w v := .disconnect hd
  have sorted := hw.sorted
  have later : v.Filed (u.firings.get i).event t := by
    refine Changes.filed hu ?_ (filed_of_candidatesFor hs hmem)
    exact Nat.lt_of_lt_of_le (sorted.made e t hf) step.grows.1
  obtain rfl : (u.firings.get i).event = e := sorted.once _ _ t (filed_disconnect hd later) hf
  obtain ⟨e', he', hcases⟩ := disconnect_cases hd
  rw [he] at he'
  cases he'
  obtain ⟨hashable, hfind⟩ := find?_of_eventOf he
  obtain ⟨k, -, hlisted⟩ := Table.mem_of_find? hfind
  rcases hcases with ⟨hrest, rfl⟩ | ⟨hrest, rfl⟩
  · refine ⟨rfl, hrest, ?_, fun n name hn => ?_⟩
    · have struck : (((w.machine m).events.erase trigger).find? trigger) = none := by
        unfold Table.find? Table.erase
        rw [Option.map_eq_none_iff, List.find?_eq_none]
        intro x hx
        simpa using (List.mem_filter.mp hx).2
      unfold eventOf?
      rw [if_pos hashable, machine_updateMachine, if_pos rfl, struck]
    · obtain ⟨k', -, hx⟩ := Table.mem_of_find? (find?_of_eventOf? hn)
      refine unlisted_erase hw he n k' (Changes.listed hu ?_ hx)
      exact (sorted.listed m _ hlisted).made
  · obtain ⟨x, hx, hxt⟩ := later
    simp only [updateEvent, Heap.get_modify, if_true] at hx
    rw [(mem_remaining hx hxt).2] at ht
    cases ht

end World

/-- A hatch that anyone who opens it is about to shut again: the callback fires the trigger for that and
then thinks better of it and removes all that the trigger does. -/
def hatchHost : Host where
  behaviour := fun _ _ _ _ => .perform "trigger"
    (fun _ => .ok (.trigger 0 (.model "hatch") (.text "pull") [] []))
    (fun _ => .perform "remove_transition" (fun _ => .ok (.disconnect 0 (.text "pull") everyState everyState))
      (fun _ => .done .null))

def hatchPlan : Blueprint where
  options := { initial := .text "shut", autoTransitions := .bool false, queued := .bool true }
  states := .list [.text "shut", .text "open"]
  transitions := .list [
    .list [.text "push", .text "shut", .text "open", .null, .null, .callback "drop"],
    .list [.text "pull", .text "open", .text "shut"]]
  models := .model "hatch"

def hatchEngine : Engine := Engine.ofHost hatchHost 4 2

def hatchWorld : World := (hatchEngine.perform (.create "hatches" hatchPlan) {}).2

theorem hatchWorld_reachable : hatchWorld.Reachable := by
  have checked : hatchHost.Within Operation.Checked := by
    refine fun _ _ _ _ => ⟨fun w op h => ?_, fun _ => ⟨fun w op h => ?_, fun _ => trivial⟩⟩ <;>
    · cases h
      trivial
  exact World.Reachable.perform ⟨{}, ⟨rfl, rfl, rfl, rfl⟩, .refl⟩ checked 4 2 trivial

/-- What is left when the hatch has been pushed. -/
def hatchPushed : World :=
  (hatchEngine.perform (.trigger 0 (.model "hatch") (.text "push") [] []) hatchWorld).2

/-- The hatch as its machine has it. -/
theorem hatchWorld_facts :
    hatchWorld.eventOf 0 (.text "pull") = .ok 1 ∧
      (hatchWorld.events.get 1).candidates.entries = [(.text "open", [1])] ∧
      (hatchWorld.states.get 1).name = .text "open" ∧
      hatchWorld.spares everyState everyState 1 = false ∧
      hatchWorld.remaining 1 everyState everyState = [] ∧ hatchWorld.firings.next = 0 := by
  -- the world is evaluated once for all that is looked up in it
  have look : (some hatchWorld).map (fun w => (w.eventOf 0 (.text "pull"),
      (w.events.get 1).candidates.entries, (w.states.get 1).name, w.spares everyState everyState 1,
      w.remaining 1 everyState everyState, w.firings.next)) =
      some (.ok 1, [(.text "open", [1])], .text "open", false, [], 0) := by cbv
  simpa only [Option.map_some, Option.some.injEq, Prod.mk.injEq] using look

/-- The hatch as a push leaves it. -/
theorem hatchPushed_facts :
    hatchPushed.eventOf? 0 (.text "pull") = .ok none ∧
      (hatchPushed.model "hatch").attributes.find? "state" = some (.text "shut") ∧
      hatchPushed.firings.get 1 = { state := 0, event := 1, machine := 0, model := .model "hatch",
                                    transition := some 1, result := true } := by
  have look : (some hatchPushed).map (fun w => (w.eventOf? 0 (.text "pull"),
      (w.model "hatch").attributes.find? "state", w.firings.get 1)) =
      some (.ok none, some (.text "shut"),
        { state := 0, event := 1, machine := 0, model := .model "hatch", transition := some 1,
          result := true }) := by cbv
  simpa only [Option.map_some, Option.some.injEq, Prod.mk.injEq] using look

/-- The pull was waiting in the queue while all that it does was removed, and shuts the hatch all the same. -/
theorem removed_pull_shuts_hatch :
    hatchPushed.eventOf? 0 (.text "pull") = .ok none ∧
      (hatchPushed.firings.get 1).event = 1 ∧ (hatchPushed.firings.get 1).transition = some 1 ∧
      (hatchPushed.firings.get 1).result = true ∧
      (hatchPushed.model "hatch").attributes.find? "state" = some (.text "shut") := by
  obtain ⟨struck, shut, firing⟩ := hatchPushed_facts
  rw [firing]
  exact ⟨struck, rfl, rfl, rfl, shut⟩

/-- With the pull removed, the only firings that still select what it does are those of an event that no
trigger leads to. -/
theorem removed_pull_was_struck_off :
    ∃ v u u' : World, hatchWorld.disconnect 0 (.text "pull") everyState everyState = .ok v ∧
      World.Changes v u ∧ Engine.candidatesFor 0 u = (.ok [1], u') ∧ (u.firings.get 0).event = 1 ∧
      v.eventOf? 0 (.text "pull") = .ok none ∧ ∀ n name, u.eventOf? n name ≠ .ok (some 1) := by
  obtain ⟨he, hentries, hname, hspares, hrest, hnext⟩ := hatchWorld_facts
  obtain ⟨v, hv⟩ : ∃ v, v = hatchWorld.updateMachine 0 (fun machine =>
      { machine with events := machine.events.erase (.text "pull") }) := ⟨_, rfl⟩
  have removed : hatchWorld.disconnect 0 (.text "pull") everyState everyState = .ok v := by
    unfold World.disconnect
    rw [he, hv]
    change (if (hatchWorld.remaining 1 everyState everyState).isEmpty then Except.ok _ else _) = _
    rw [hrest]
    rfl
  obtain ⟨u, hu⟩ : ∃ u : World, u = { v with
      firings := v.firings.push { state := 1, event := 1, machine := 0, model := .model "hatch" } } := ⟨_, rfl⟩
  have later : World.Changes v u := by
    rw [hu]
    exact World.Aside.steps ⟨rfl, rfl, rfl, rfl⟩
  have firing : u.firings.get 0 = { state := 1, event := 1, machine := 0, model := .model "hatch" } := by
    rw [hu, hv]
    show (hatchWorld.firings.push _).get 0 = _
    rw [Heap.get_push, hnext, if_pos rfl]
  have found : (u.events.get 1).candidates.find? (u.states.get 1).name = some [1] := by
    rw [hu, hv]
    show (hatchWorld.events.get 1).candidates.find? (hatchWorld.states.get 1).name = some [1]
    rw [hname, Table.find?, hentries]
    simp
  have selected : Engine.candidatesFor 0 u = (.ok [1], u) := by
    unfold Engine.candidatesFor
    rw [bind_of_ok (get_apply u)]
    simp only [firing, found]
    rfl
  have filed : hatchWorld.Filed 1 1 := ⟨(.text "open", [1]), by rw [hentries]; exact List.mem_singleton_self _, by simp⟩
  obtain ⟨event, -, struck, unlisted⟩ := World.removed_fires_only_where_struck_off hatchWorld_reachable he
    filed hspares removed later selected (List.mem_singleton_self 1)
  exact ⟨v, u, u, removed, later, selected, event, struck, unlisted⟩

end StateEngine
