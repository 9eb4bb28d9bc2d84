import StateEngine.Proofs.Registry.Listing
import StateEngine.Proofs.Registry.Removal

/-! What a removal takes away is what a selection with the same filters shows, as long as the destinations are
filtered by a name. A filter without a name selects the internal transitions and takes none of them away. -/
namespace StateEngine
open World

namespace Value

theorem same_text_iff {v : Value} {a : String} : v.same (.text a) = true ↔ v.text? = some a := by
  rw [← beq_text_iff]
  change _ ↔ sameKey v (.text a) = true
  cases v <;> simp [sameKey, sameDouble]

/-- A list that holds a text holds what is the same text. -/
theorem isIn_text_iff {v : Value} {a : String} : v.isIn [.text a] = true ↔ v.text? = some a := by
  simp [isIn, text_beq_iff]

theorem same_everyState {v : Value} : v.same everyState = true ↔ v.text? = some "*" := same_text_iff

end Value

namespace World

variable {w v : World} {m n : MachineId} {e : EventId} {t : TransitionId} {trigger name a : String}

/-- A filter of destinations: a name, or none for transitions without a destination. -/
def destFilter : Option String → Value
  | some b => .text b
  | none => .null

/-- Whether a transition is selected by two filters. -/
def chooses (w : World) (source dest : Value) (t : TransitionId) : Bool :=
  (source.same everyState || (w.transitions.get t).source.same source) &&
    (dest.same everyState || (w.transitions.get t).dest.same dest)

/-- All transitions of an event, source by source. -/
def movesUnder (w : World) (e : EventId) : List TransitionId := (w.events.get e).candidates.values.flatten

/-- A name lets through what a selection by that name lets through. -/
theorem outside_text (w : World) (a : String) (v : Value) :
    outside (w.filterNames (.text a)) v = !((Value.text a).same everyState || v.same (.text a)) := by
  have named : (Value.text a).same everyState = (a == "*") := Value.same_text a "*"
  unfold filterNames
  rw [named]
  by_cases all : a = "*"
  · simp [all, outside]
  · have one : ((Value.text a).items.map w.nameOf) = [.text a] := rfl
    have agree : v.isIn [.text a] = v.same (.text a) := by
      rw [Bool.eq_iff_iff, Value.isIn_text_iff, Value.same_text_iff]
    simp [all, outside, one, agree]

/-- A filter without a name lets nothing through to be taken away. -/
theorem outside_null (w : World) (v : Value) : outside (w.filterNames .null) v = true := by
  have unlike : Value.null.same everyState = false := by
    rw [Bool.eq_false_iff, Ne, Value.same_everyState]
    simp [Value.text?]
  have none_named : w.filterNames .null = some [] := by
    rw [filterNames, if_neg (by rw [unlike]; decide)]
    rfl
  rw [none_named]
  rfl

theorem spares_text (w : World) (a b : String) (t : TransitionId) :
    w.spares (.text a) (.text b) t = !w.chooses (.text a) (.text b) t := by
  unfold spares chooses
  rw [outside_text, outside_text, Bool.not_and]

theorem spares_null (w : World) (source : Value) (t : TransitionId) : w.spares source .null t = true := by
  unfold spares
  rw [outside_null, Bool.or_true]

theorem select_of_find (hname : name ≠ "") (he : (w.machine m).events.find? (.text name) = some e)
    (source dest : Value) :
    w.select m (.text name) source dest = .ok ((w.movesUnder e).filter (w.chooses source dest)) := by
  have asked : (Value.text name).truthy = true := by simpa [Value.truthy] using hname
  have found : w.eventOf? m (.text name) = .ok (some e) := by simp [eventOf?, he]
  unfold select
  change ((if (Value.text name).truthy = true then _ else _) >>= _) = _
  rw [if_pos asked, found]
  change Except.ok (List.filter (w.chooses source dest) (List.flatMap _ [e])) = _
  rw [List.flatMap_cons, List.flatMap_nil, List.append_nil]
  rfl

theorem select_of_find_none (hname : name ≠ "") (he : (w.machine m).events.find? (.text name) = none)
    (source dest : Value) : w.select m (.text name) source dest = .ok [] := by
  have asked : (Value.text name).truthy = true := by simpa [Value.truthy] using hname
  have found : w.eventOf? m (.text name) = .ok none := by simp [eventOf?, he]
  unfold select
  change ((if (Value.text name).truthy = true then _ else _) >>= _) = _
  rw [if_pos asked, found]
  rfl

theorem chooses_everything (w : World) (t : TransitionId) : w.chooses everyState everyState t = true := by
  have all : everyState.same everyState = true := Value.same_everyState.mpr rfl
  simp [chooses, all]

/-- Without filters all transitions of a trigger are selected. -/
theorem select_everything (hname : name ≠ "") (he : (w.machine m).events.find? (.text name) = some e) :
    w.select m (.text name) everyState everyState = .ok (w.movesUnder e) := by
  rw [select_of_find hname he, funext w.chooses_everything, List.filter_true]

/-- What is left of an event are its transitions that a removal spares, in their order. -/
theorem flatten_remaining (w : World) (e : EventId) (source dest : Value) :
    ((w.remaining e source dest).map Prod.snd).flatten = (w.movesUnder e).filter (w.spares source dest) := by
  unfold remaining movesUnder Table.values
  induction (w.events.get e).candidates.entries with
  | nil => rfl
  | cons c rest ih =>
    simp only [List.filterMap_cons, List.map_cons, List.flatten_cons, List.filter_append]
    split
    · rename_i dropped
      have empty : c.2.filter (w.spares source dest) = [] := by simpa using dropped
      rw [ih, empty, List.nil_append]
    · rename_i x kept
      have hx : x = (c.1, c.2.filter (w.spares source dest)) := by
        split at kept
        · cases kept
        · exact (Option.some.inj kept).symm
      rw [List.map_cons, List.flatten_cons, ih, hx]

theorem remaining_eq_nil_iff (w : World) (e : EventId) (source dest : Value) :
    w.remaining e source dest = [] ↔ (w.movesUnder e).filter (w.spares source dest) = [] := by
  rw [← flatten_remaining]
  constructor
  · intro h
    rw [h]
    rfl
  · intro h
    rw [List.eq_nil_iff_forall_not_mem]
    intro x hx
    have none_left : x.2 = [] := List.flatten_eq_nil_iff.mp h x.2 (List.mem_map_of_mem hx)
    obtain ⟨c, -, kept⟩ := List.mem_filterMap.mp hx
    simp only [] at kept
    split at kept
    · cases kept
    · rename_i some_left
      cases kept
      exact some_left (List.isEmpty_iff.mpr none_left)

/-- A removal strikes off an event of which nothing is left, and leaves one with what is left of it otherwise. -/
theorem disconnect_of_event {source dest trigger : Value} (he : w.eventOf m trigger = .ok e) :
    w.disconnect m trigger source dest = .ok (if w.remaining e source dest = [] then
        w.updateMachine m (fun machine => { machine with events := machine.events.erase trigger })
      else w.updateEvent e (fun event => { event with candidates := ⟨w.remaining e source dest⟩ })) := by
  unfold disconnect
  rw [he]
  change (if (w.remaining e source dest).isEmpty = true then Except.ok _ else Except.ok _) = _
  by_cases none_left : w.remaining e source dest = []
  · rw [if_pos (List.isEmpty_iff.mpr none_left), if_pos none_left]
  · rw [if_neg (mt List.isEmpty_iff.mp none_left), if_neg none_left]
    rfl

/-- Of all that machines list, an event stands under its own name only. -/
theorem Reachable.entry_iff (hw : w.Reachable) (he : (w.machine m).events.find? (.text name) = some e)
    {x : Value × EventId} (hx : x ∈ (w.machine n).events.entries) :
    x.2 = e ↔ n = m ∧ (x.1 == .text name) = true := by
  obtain ⟨k, hk, hmem⟩ := Table.mem_of_find? he
  have listed := hw.sorted.listed m _ hmem
  constructor
  · intro same
    have owner : n = m := by
      rw [← (hw.regular.owned n x hx).2, ← (hw.regular.owned m _ hmem).2, same]
    have key : x.1 = k := by rw [← (hw.sorted.listed n x hx).name, same, listed.name]
    exact ⟨owner, key ▸ hk⟩
  · rintro ⟨rfl, key⟩
    have found := Table.Distinct.find_text (hw.tidy.once n) hx (Value.beq_text_iff.mp key)
    exact Option.some.inj (found.symm.trans he)

/-- A removal takes away from a trigger exactly the transitions that a selection with the same filters shows, where the
filter of destinations is a name; without a name it takes nothing away. The others stay in their order, the trigger
stays registered as long as there are any, and whatever else is registered stays as it is. -/
theorem removal_takes_what_is_selected (hw : w.Reachable) (hname : name ≠ "") (he : w.eventOf m (.text name) = .ok e)
    (a : String) (dest : Option String) :
    ∃ v all chosen rest, w.disconnect m (.text name) (.text a) (destFilter dest) = .ok v ∧
      w.select m (.text name) everyState everyState = .ok all ∧
      w.select m (.text name) (.text a) (destFilter dest) = .ok chosen ∧
      rest = (if dest = none then all else all.filter (fun t => decide (t ∉ chosen))) ∧
      v.select m (.text name) everyState everyState = .ok rest ∧ v.transitions = w.transitions ∧
      v.eventOf? m (.text name) = .ok (if rest = [] then none else some e) ∧
      (∀ other, other ≠ e → v.events.get other = w.events.get other) ∧
      ∀ n, (v.machine n).events.entries =
        (w.machine n).events.entries.filter (fun x => decide (x.2 ≠ e ∨ rest ≠ [])) := by
  obtain ⟨hashable, found⟩ := find?_of_eventOf he
  obtain ⟨chosen, hchosen⟩ : ∃ chosen, chosen = (w.movesUnder e).filter (w.chooses (.text a) (destFilter dest)) :=
    ⟨_, rfl⟩
  obtain ⟨rest, hrest⟩ : ∃ rest, rest = (w.movesUnder e).filter (w.spares (.text a) (destFilter dest)) := ⟨_, rfl⟩
  have left_over : rest = (if dest = none then w.movesUnder e
      else (w.movesUnder e).filter (fun t => decide (t ∉ chosen))) := by
    rw [hrest, hchosen]
    cases dest with
    | none => exact List.filter_eq_self.mpr (fun t _ => w.spares_null (.text a) t)
    | some b =>
      refine List.filter_congr (fun t ht => ?_)
      rw [destFilter, spares_text, Bool.eq_iff_iff]
      simp [List.mem_filter, ht]
  have struck : w.remaining e (.text a) (destFilter dest) = [] ↔ rest = [] := by
    rw [hrest, remaining_eq_nil_iff]
  refine ⟨_, w.movesUnder e, chosen, rest, disconnect_of_event he, select_everything hname found, ?_,
    left_over, ?_⟩
  · rw [select_of_find hname found, hchosen]
  by_cases none_left : rest = []
  · have gone : ((w.machine m).events.erase (.text name)).find? (.text name) = none := by
      simp [Table.find?, Table.erase]
    rw [if_pos (struck.mpr none_left)]
    refine ⟨?_, rfl, ?_, fun _ _ => rfl, fun n => ?_⟩
    · rw [none_left]
      refine select_of_find_none hname ?_ _ _
      rw [machine_updateMachine, if_pos rfl]
      exact gone
    · rw [if_pos none_left, eventOf?, if_pos hashable, machine_updateMachine, if_pos rfl]
      exact congrArg Except.ok gone
    · rw [machine_updateMachine]
      split
      · rename_i same
        subst same
        refine List.filter_congr (fun x hx => ?_)
        simp [hw.entry_iff found hx, none_left]
      · rename_i other
        refine (List.filter_eq_self.mpr (fun x hx => ?_)).symm
        simp [hw.entry_iff found hx, Ne.symm other]
  · rw [if_neg (mt struck.mp none_left)]
    refine ⟨?_, rfl, ?_, fun other hne => ?_, fun n => ?_⟩
    · have kept : (World.updateEvent e (fun event =>
          { event with candidates := ⟨w.remaining e (.text a) (destFilter dest)⟩ }) w).movesUnder e = rest := by
        rw [hrest, ← flatten_remaining]
        simp [movesUnder, updateEvent, Table.values]
      rw [← kept]
      exact select_everything hname found
    · rw [if_neg none_left, eventOf?, if_pos hashable]
      exact congrArg Except.ok found
    · simp [updateEvent, hne.symm]
    · refine (List.filter_eq_self.mpr (fun x _ => ?_)).symm
      simp [none_left]

end World

/-- A chime that sounds where it is, and that a pull takes to where it rests and back. -/
def chimePlan : Blueprint where
  options := { initial := .text "still", autoTransitions := .bool false }
  states := .list [.text "still", .text "swinging"]
  transitions := .list [
    .list [.text "pull", .text "still", .text "swinging"], .list [.text "pull", .text "still", .null],
    .list [.text "pull", .text "swinging", .text "still"], .list [.text "stop", .text "swinging", .text "still"]]

/-- Nobody listens to the chime. -/
def chimeHost : Host where
  behaviour := fun _ _ _ _ => .done .null

def chimeEngine : Engine := Engine.ofHost chimeHost 4 1

def chimeWorld : World := (chimeEngine.perform (.create "chimes" chimePlan) {}).2

theorem chimeWorld_reachable : chimeWorld.Reachable := by
  have checked : chimeHost.Within Operation.Checked := fun _ _ _ _ => trivial
  exact World.Reachable.perform ⟨{}, ⟨rfl, rfl, rfl, rfl⟩, .refl⟩ checked 4 1 trivial

theorem chimeWorld_facts :
    chimeWorld.eventOf 0 (.text "pull") = .ok 0 ∧
      chimeWorld.select 0 (.text "pull") everyState everyState = .ok [0, 1, 2] ∧
      chimeWorld.select 0 (.text "pull") everyState .null = .ok [1] ∧
      chimeWorld.select 0 (.text "pull") (.text "still") (.text "swinging") = .ok [0] := by
  -- the world is evaluated once for all that is looked up in it
  have look : (some chimeWorld).map (fun w => (w.eventOf 0 (.text "pull"),
      w.select 0 (.text "pull") everyState everyState, w.select 0 (.text "pull") everyState .null,
      w.select 0 (.text "pull") (.text "still") (.text "swinging"))) =
      some (.ok 0, .ok [0, 1, 2], .ok [1], .ok [0]) := by cbv
  simpa only [Option.map_some, Option.some.injEq, Prod.mk.injEq] using look

/-- One of the transitions of a pull is selected as internal, and a removal with the same filter leaves it there. -/
theorem internal_pull_is_left : ∃ v, chimeWorld.disconnect 0 (.text "pull") everyState .null = .ok v ∧
    chimeWorld.select 0 (.text "pull") everyState everyState = .ok [0, 1, 2] ∧
    chimeWorld.select 0 (.text "pull") everyState .null = .ok [1] ∧
    v.select 0 (.text "pull") everyState everyState = .ok [0, 1, 2] := by
  obtain ⟨event, all, internal, -⟩ := chimeWorld_facts
  have look : (chimeWorld.disconnect 0 (.text "pull") everyState .null).toOption.map
      (fun v => v.select 0 (.text "pull") everyState everyState) = some (.ok [0, 1, 2]) := by cbv
  rw [World.disconnect_of_event event] at look ⊢
  exact ⟨_, rfl, all, internal, Option.some.inj look⟩

/-- A removal of the way from rest to the swing takes away that one, and leaves the chime the others and its stop. -/
theorem swing_is_taken_away : ∃ v, chimeWorld.disconnect 0 (.text "pull") (.text "still") (.text "swinging") = .ok v ∧
    v.select 0 (.text "pull") everyState everyState = .ok [1, 2] ∧ v.eventOf? 0 (.text "pull") = .ok (some 0) ∧
    v.events.get 1 = chimeWorld.events.get 1 := by
  obtain ⟨event, whole, -, one⟩ := chimeWorld_facts
  obtain ⟨v, all, chosen, rest, hv, hall, hchosen, hrest, left, -, listed, others, -⟩ :=
    World.removal_takes_what_is_selected chimeWorld_reachable (by decide) event "still" (some "swinging")
  obtain rfl := Except.ok.inj (whole.symm.trans hall)
  obtain rfl := Except.ok.inj (one.symm.trans hchosen)
  obtain rfl : rest = [1, 2] := hrest
  exact ⟨v, hv, left, listed, others 1 (by decide)⟩

end StateEngine
