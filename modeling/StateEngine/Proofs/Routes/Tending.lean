import StateEngine.Proofs.Routes.Adding

/-! What runs keep of the routes of a machine. Whatever goes on beside them bypasses them; a state is added with its
routes; and what the triggers of states stand for is not put in the place of something else. -/
namespace StateEngine
open Act Relation

namespace World

variable {host : Host} {m n : MachineId} {j : Option FiringId} {w v u : World}

/-- A world in which the routes of a machine are complete, if its states are well named, and are going to be. A firing
that is to be kept has been opened. -/
structure Tended (host : Host) (m : MachineId) (j : Option FiringId) (w : World) : Prop where
  reachable : w.Reachable
  auto : (w.machine m).autoTransitions.truthy = true
  gentle : w.Gentle host
  opened : ∀ i ∈ j, i < w.firings.next
  linked : w.WellNamed m → w.Linked m

/-- What stays: that a machine connects new states, what the triggers of states stand for, the properties of models, and
one firing, if there is one to be kept. -/
structure Retains (m : MachineId) (j : Option FiringId) (w v : World) : Prop where
  changes : Changes w v
  auto : (w.machine m).autoTransitions.truthy = true → (v.machine m).autoTransitions.truthy = true
  events : ∀ b e, (w.machine m).events.find? (toTrigger b) = some e → (v.machine m).events.find? (toTrigger b) = some e
  properties : ∀ x, (v.model x).properties = (w.model x).properties
  firing : ∀ i ∈ j, i < w.firings.next → i < v.firings.next ∧ v.firings.get i = w.firings.get i

theorem Retains.refl (w : World) : Retains m j w w := ⟨.refl, id, fun _ _ h => h, fun _ => rfl, fun _ _ hi => ⟨hi, rfl⟩⟩

theorem Retains.trans (h : Retains m j w v) (h' : Retains m j v u) : Retains m j w u where
  changes := h.changes.trans h'.changes
  auto hw := h'.auto (h.auto hw)
  events b e he := h'.events b e (h.events b e he)
  properties x := (h'.properties x).trans (h.properties x)
  firing i hi made := by
    obtain ⟨made', same⟩ := h.firing i hi made
    obtain ⟨made'', same'⟩ := h'.firing i hi made'
    exact ⟨made'', same'.trans same⟩

theorem retains_of_steps (h : ReflTransGen (Retains m j) w v) : Retains m j w v := by
  induction h with
  | refl => exact .refl w
  | tail _ step ih => exact ih.trans step

theorem Bypasses.retains (h : Bypasses m w v)
    (hf : ∀ i ∈ j, i < w.firings.next → i < v.firings.next ∧ v.firings.get i = w.firings.get i) : Retains m j w v :=
  ⟨h.changes, h.auto, fun b _ he => (h.events b).trans he, h.properties, hf⟩

theorem Bypasses.linked (h : Bypasses m w v) (hw : w.WellNamed m → w.Linked m) (hv : v.WellNamed m) : v.Linked m := by
  obtain ⟨leads, unused⟩ := hw (hv.earlier h.changes)
  refine ⟨fun b hb => ?_, fun b hb => ?_⟩
  · rw [h.keys] at hb ⊢
    obtain ⟨e, found, spans⟩ := leads b hb
    exact ⟨e, (h.events b).trans found, h.spans b e _ found spans⟩
  · rw [h.keys] at hb
    exact (h.events b).trans (unused b hb)

/-- Steps that keep the routes of a machine complete. -/
abbrev Tending (host : Host) (m : MachineId) (j : Option FiringId) : World → World → Prop :=
  Under (Tended host m j) (Retains m j)

theorem Tended.later (hw : w.Tended host m j) (h : Retains m j w v) (hl : v.WellNamed m → v.Linked m) :
    v.Tended host m j :=
  ⟨hw.reachable.later h.changes, h.auto hw.auto, hw.gentle.of_properties h.properties,
    fun i hi => (h.firing i hi (hw.opened i hi)).1, hl⟩

/-- Nothing that is registered changes. -/
theorem Tended.beside (hw : w.Tended host m j) (h : Aside w v)
    (hp : ∀ x, (v.model x).properties = (w.model x).properties) (ho : ∀ i ∈ j, i < v.firings.next) :
    v.Tended host m j := by
  have bypasses : Bypasses m w v := bypasses_aside h hp
  exact ⟨hw.reachable.later h.steps, bypasses.auto hw.auto, hw.gentle.of_properties hp, ho, bypasses.linked hw.linked⟩

theorem steps_tending (h : w.Tended host m j → Retains m j w v ∧ (v.WellNamed m → v.Linked m)) :
    ReflTransGen (Tending host m j) w v := .single (fun hw => ⟨(h hw).1, hw.later (h hw).1 (h hw).2⟩)

/-- What bypasses the routes and touches no firing. -/
theorem steps_bypassing (h : w.Reachable → Bypasses m w v) (hf : v.firings = w.firings) :
    ReflTransGen (Tending host m j) w v := by
  refine steps_tending (fun hw => ⟨(h hw.reachable).retains (fun i _ hi => ?_), (h hw.reachable).linked hw.linked⟩)
  rw [hf]
  exact ⟨hi, rfl⟩

theorem steps_openFiring (w : World) (firing : Firing) :
    ReflTransGen (Tending host m j) w { w with firings := w.firings.push firing } := by
  have bypasses : Bypasses m w { w with firings := w.firings.push firing } :=
    bypasses_aside ⟨rfl, rfl, rfl, rfl⟩ (fun _ => rfl)
  refine steps_tending (fun hw => ⟨bypasses.retains (fun i _ hi => ⟨?_, ?_⟩), bypasses.linked hw.linked⟩)
  · show i < (w.firings.push firing).next
    rw [Heap.next_push]
    exact Nat.lt_succ_of_lt hi
  · rw [Heap.get_push, if_neg (Nat.ne_of_lt hi)]

/-- A firing may be changed if it is not the one that is kept. -/
theorem steps_updateFiring {i : FiringId} (hi : i ∉ j) (w : World) (f : Firing → Firing) :
    ReflTransGen (Tending host m j) w (w.updateFiring i f) := by
  have bypasses : Bypasses m w (w.updateFiring i f) := bypasses_aside ⟨rfl, rfl, rfl, rfl⟩ (fun _ => rfl)
  refine steps_tending (fun hw => ⟨bypasses.retains (fun k hk made => ⟨?_, ?_⟩), bypasses.linked hw.linked⟩)
  · exact Nat.lt_of_lt_of_le made (Heap.next_le_next_modify _ _ _)
  · have hne : i ≠ k := by
      rintro rfl
      exact hi hk
    simp [updateFiring, hne]

/-- All that makes more of everything bypasses the routes, if it connects no trigger of the machine that leads to a
state. -/
theorem grants_tending : Grants (fun n trigger => n = m → ¬ trigger.Aims) (Tending host m j) where
  log {w v} h := steps_bypassing (fun _ => bypasses_aside (m := m) ⟨by rw [h], by rw [h], by rw [h], by rw [h]⟩
    (fun x => by rw [model, model, h])) (by rw [h])
  makeState w s := steps_bypassing (fun _ => bypasses_makeState w s) rfl
  hookState w s c stage := steps_bypassing (fun _ => bypasses_hookState w s c stage) rfl
  makeTransition w t := steps_bypassing (fun _ => bypasses_makeTransition w t) rfl
  connect hk h := steps_bypassing (fun hw => bypasses_connect hw hk h) (by rw [(relisted_connect h).rest])
  fileSource h := steps_bypassing (fun _ => bypasses_fileSource h) rfl
  openFiring := steps_openFiring

theorem found_connect {k trigger source dest : Value} {e : EventId} {hooks : Hooks}
    (h : w.connect n trigger source dest hooks = .ok v) (found : (w.machine m).events.find? k = some e) :
    (v.machine m).events.find? k = some e := by
  obtain ⟨-, moves, -, rfl⟩ := connect_cases h
  rw [World.machine, (event_addMoves hooks (w.ensureEvent n trigger).1 0 moves (w.ensureEvent n trigger).2).2.2.2]
  rcases ensureEvent_cases w n trigger with ⟨e', -, hens⟩ | ⟨hnew, hens⟩
  · rw [hens]
    exact found
  · rw [hens]
    show ((w.newEvent n trigger).machine m).events.find? k = some e
    rw [newEvent, machine_updateMachine]
    split
    · rename_i hnm
      subst hnm
      have unlisted : (w.machine n).events.contains trigger = false := by rw [Table.contains, hnew]; rfl
      exact Table.find?_insert_of_not_contains unlisted found
    · exact found

theorem retains_connect {trigger source dest : Value} {hooks : Hooks}
    (h : w.connect n trigger source dest hooks = .ok v) : Retains m j w v := by
  have relisted := relisted_connect h
  have rest := relisted.rest
  obtain ⟨events, hm⟩ := relisted.machine m
  refine ⟨.single (.connect h), by rw [hm]; exact id, fun _ _ => found_connect h, fun x => by rw [rest]; rfl, ?_⟩
  intro i _ hi
  rw [rest]
  exact ⟨hi, rfl⟩

theorem TakenUp.machine (h : TakenUp w v) : v.machine m = w.machine m := by
  rw [World.machine, h.machines]
  rfl

theorem TakenUp.retains (h : TakenUp w v) : Retains m j w v := by
  refine ⟨h.changes, by rw [h.machine]; exact id, fun b e => by rw [h.machine]; exact id, h.properties, ?_⟩
  intro i _ hi
  rw [h.firings]
  exact ⟨hi, rfl⟩

/-- The machine that enrolls a state has that one more. -/
theorem enrolled {options : StateOptions} {entry : Value} {s : StateId} (h : w.enroll m options entry = .ok (s, u)) :
    Retains m j w u ∧ u.transitions = w.transitions ∧ u.events = w.events ∧
      (u.machine m).events = (w.machine m).events ∧
      (u.machine m).states.keys = (w.machine m).states.keys ++ [(u.states.get s).name] := by
  obtain ⟨t, ht, hk, hnew, rfl⟩ := enroll_cases h
  have filed : Retains m j t (t.updateMachine m (fun machine =>
      { machine with states := machine.states.insert (t.states.get s).name s })) := by
    refine ⟨.single (.enroll t m s hk hnew), ?_, fun b e he => ?_, fun _ => rfl, fun _ _ hi => ⟨hi, rfl⟩⟩
    · rw [machine_updateMachine, if_pos rfl]
      exact id
    · rw [machine_updateMachine, if_pos rfl]
      exact he
  have keys (h : (t.machine m) = w.machine m) : ((t.updateMachine m (fun machine =>
      { machine with states := machine.states.insert (t.states.get s).name s })).machine m).states.keys =
        (w.machine m).states.keys ++ [(t.states.get s).name] := by
    rw [machine_updateMachine, if_pos rfl]
    show ((t.machine m).states.insert _ s).keys = _
    rw [Table.keys_insert_of_not_contains hnew, h]
  rcases stateOf_cases ht with ⟨-, rfl⟩ | ⟨state, -, rfl⟩
  · exact ⟨filed, rfl, rfl, by rw [machine_updateMachine, if_pos rfl], keys rfl⟩
  · have made : Retains m j w (w.addState state).2 :=
      (bypasses_makeState w state).retains (fun _ _ hi => ⟨hi, rfl⟩)
    exact ⟨made.trans filed, rfl, rfl, by rw [machine_updateMachine, if_pos rfl]; rfl, keys rfl⟩

/-- Connecting with all begins with the routes between the older states. -/
theorem Linked.midway {older : List Value} {c : String} (h : w.Linked m) (hu : u.Reachable) (named : u.WellNamed m)
    (hw : (w.machine m).states.keys = older) (hk : (u.machine m).states.keys = older ++ [.text c])
    (hn : w.transitions.next ≤ u.transitions.next)
    (ht : ∀ t < w.transitions.next, u.transitions.get t = w.transitions.get t) (he : u.events = w.events)
    (hm : (u.machine m).events = (w.machine m).events) : Midway m older c (older ++ [.text c]) u := by
  have new : Value.text c ∉ older := by
    have nodup := hu.keys_nodup m
    rw [hk] at nodup
    exact fun hmem => (List.nodup_append.mp nodup).2.2 _ hmem _ (List.mem_singleton_self _) rfl
  refine ⟨hu, named, hk, fun b hb => ?_, fun b hb hnot => absurd hb hnot, fun b hb => ?_⟩
  · by_cases hbc : b = c
    · rw [if_pos hbc, hbc]
      exact .inl ⟨rfl, by rw [hm]; exact h.unused c (hw ▸ new)⟩
    · have hb : Value.text b ∈ older := by simpa [hbc] using hb
      obtain ⟨e, found, spans⟩ := h.leads b (hw ▸ hb)
      rw [if_neg hbc]
      refine .inr ⟨e, by rw [hm]; exact found, ?_⟩
      rw [← hw]
      exact spans.kept (by rw [he]) (fun t made _ => ht t made) hn
  · rw [hm]
    exact h.unused b (fun hmem => hb (List.mem_append_left _ (hw ▸ hmem)))

end World

open World

namespace Engine

variable {host : Host} {bound depth : Nat} {m : MachineId} {j : Option FiringId}

theorem retains_connectAutomatically (s : StateId) : Act.Walks (Retains m j) (connectAutomatically m s) :=
  .bind .get (fun _ => .forM (fun _ => .advance (fun _ _ h => .single (retains_connect h))))

/-- A state is added to a machine with its routes, if the addition is not refused. -/
theorem goes_addRouted (options : StateOptions) (entry : Value) :
    Act.Goes False (Tending host m j) ((ofHost host bound depth).addState m options entry) := by
  intro w ended
  refine steps_tending (fun hw => ?_)
  unfold Engine.addState at ended ⊢
  cases he : w.enroll m options entry with
  | error f =>
    have refused : (Act.ask (fun w => w.enroll m options entry) : Run _) w = (.error (.fault f), w) := by
      rw [ask_apply, he]
      rfl
    simp only [bind_of_error refused]
    exact ⟨.refl w, hw.linked⟩
  | ok made =>
    obtain ⟨s, u⟩ := made
    have asked : (Act.ask (fun w => w.enroll m options entry) : Run _) w = (.ok (s, u), w) := by
      rw [ask_apply, he]
      rfl
    obtain ⟨kept, transitions, events, listed, keys⟩ := enrolled (j := j) he
    simp only [bind_of_ok asked, bind_of_ok (set_apply w u), pure_bind, bind_of_ok (get_apply u)] at ended ⊢
    rcases hr : forRoster (u.machine m).roster ((ofHost host bound depth).bindConventions m s)
      (ofHost host bound depth).bound 0 u with ⟨r, t⟩
    have finished : r ≠ .error .exhausted := by
      rintro rfl
      rw [bind_of_error hr] at ended
      exact ended rfl
    obtain ⟨taken, rfl⟩ := takenUp_forRoster (hw.gentle.of_properties kept.properties) hr finished
    have machine : t.machine m = u.machine m := taken.machine
    have kept' : Retains m j w t := kept.trans taken.retains
    have auto : (t.machine m).autoTransitions.truthy = true := kept'.auto hw.auto
    rw [bind_of_ok hr, bind_of_ok (get_apply t), if_pos auto]
    refine ⟨kept'.trans (retains_of_steps (retains_connectAutomatically s t)), fun named => ?_⟩
    have named' : t.WellNamed m := named.earlier (retains_of_steps (retains_connectAutomatically (j := j) s t)).changes
    obtain ⟨c, hc, -⟩ := named' (u.states.get s).name (by
      rw [machine, keys]
      exact List.mem_append_right _ (List.mem_singleton_self _))
    have hs : (t.states.get s).name = .text c := (taken.changes.extends.1.names s (lt_of_name_text hc)).trans hc
    have linked := hw.linked (named'.earlier kept'.changes)
    have midway : Midway m (w.machine m).states.keys c ((w.machine m).states.keys ++ [.text c]) t := by
      refine linked.midway (hw.reachable.later kept'.changes) named' rfl (by rw [machine, keys, hc]) ?_ (fun i hi => ?_) ?_ ?_
      · exact transitions ▸ taken.made
      · exact (taken.transitions i (transitions.symm ▸ hi)).trans (by rw [transitions])
      · exact taken.events.trans events
      · rw [machine]
        exact listed
    obtain ⟨v, run, linked⟩ := linked_connectAutomatically hs midway
    rw [run]
    exact linked

end Engine

end StateEngine
