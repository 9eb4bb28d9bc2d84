import StateEngine.Proofs.Callbacks
import StateEngine.Proofs.Firing.Course

/-! Runs that conduct a firing: they take up cues, and all that they do besides is to make remarks and to
note how far the firing has come. -/
namespace StateEngine
open Act Relation

namespace World

/-- Nothing between two worlds but remarks and the progress of a firing. -/
structure Quiet (i : FiringId) (w v : World) : Prop where
  rest : v = { w with firings := v.firings, history := v.history }
  others : ∀ j, j ≠ i → v.firings.get j = w.firings.get j
  progress : ∃ transition fault result,
    v.firings.get i = { w.firings.get i with transition, fault, result }
  remarks : ∃ entries : List Entry, v.history.toList = w.history.toList ++ entries ∧
    ∀ entry ∈ entries, ∃ severity logger message, entry = .remarked severity logger message

/-- What callbacks leave alone that perform no operation on a machine. -/
structure Steady (w v : World) : Prop where
  states : v.states = w.states
  transitions : v.transitions = w.transitions
  events : v.events = w.events
  firings : v.firings = w.firings
  rosters : v.rosters = w.rosters
  machines : v.machines = w.machines

/-- What stays the same from the start of a firing to its end. -/
structure Still (i : FiringId) (w v : World) : Prop where
  states : v.states = w.states
  transitions : v.transitions = w.transitions
  events : v.events = w.events
  machines : v.machines = w.machines
  told : (v.firings.get i).event = (w.firings.get i).event ∧
    (v.firings.get i).machine = (w.firings.get i).machine ∧
    (v.firings.get i).model = (w.firings.get i).model ∧
    (v.firings.get i).args = (w.firings.get i).args ∧ (v.firings.get i).named = (w.firings.get i).named

theorem Steady.refl (w : World) : Steady w w := ⟨rfl, rfl, rfl, rfl, rfl, rfl⟩

theorem Steady.trans {w v u : World} (h : Steady w v) (h' : Steady v u) : Steady w u :=
  ⟨h'.states.trans h.states, h'.transitions.trans h.transitions, h'.events.trans h.events,
    h'.firings.trans h.firings, h'.rosters.trans h.rosters, h'.machines.trans h.machines⟩

theorem Steady.of_steps {w v : World} (h : ReflTransGen Steady w v) : Steady w v := by
  induction h with
  | refl => exact .refl w
  | tail _ step ih => exact ih.trans step

variable {i : FiringId}

theorem Still.refl (w : World) : Still i w w :=
  ⟨rfl, rfl, rfl, rfl, rfl, rfl, rfl, rfl, rfl⟩

theorem Still.trans {w v u : World} (h : Still i w v) (h' : Still i v u) : Still i w u := by
  obtain ⟨he, hm, ho, ha, hn⟩ := h.told
  obtain ⟨he', hm', ho', ha', hn'⟩ := h'.told
  exact ⟨h'.states.trans h.states, h'.transitions.trans h.transitions, h'.events.trans h.events,
    h'.machines.trans h.machines, he'.trans he, hm'.trans hm, ho'.trans ho, ha'.trans ha, hn'.trans hn⟩

theorem Still.machine {w v : World} (h : Still i w v) (m : MachineId) : v.machine m = w.machine m := by
  rw [World.machine, h.machines]
  rfl

theorem Steady.still {w v : World} (h : Steady w v) : Still i w v := by
  refine ⟨h.states, h.transitions, h.events, h.machines, ?_⟩
  simp [h.firings]

theorem Quiet.still {w v : World} (h : Quiet i w v) : Still i w v := by
  obtain ⟨transition, fault, result, hp⟩ := h.progress
  have hr := h.rest
  refine ⟨by rw [hr], by rw [hr], by rw [hr], by rw [hr], ?_⟩
  simp [hp]

/-- What moving a model changes: where the states of models are kept, and the state of the firing. -/
structure Moved (i : FiringId) (w v : World) : Prop where
  rest : v = { w with models := v.models, ledgers := v.ledgers, history := v.history, firings := v.firings }
  firing : ∃ s, v.firings.get i = { w.firings.get i with state := s }
  others : ∀ j, j ≠ i → v.firings.get j = w.firings.get j

theorem Moved.of_steps {w v : World} (h : ReflTransGen (Moved i) w v) : Moved i w v := by
  induction h with
  | refl => exact ⟨rfl, ⟨_, rfl⟩, fun _ _ => rfl⟩
  | tail _ step ih =>
    obtain ⟨s, hs⟩ := ih.firing
    obtain ⟨s', hs'⟩ := step.firing
    refine ⟨?_, ⟨s', by rw [hs', hs]⟩, fun j hj => (step.others j hj).trans (ih.others j hj)⟩
    rw [step.rest, ih.rest]

theorem Moved.still {w v : World} (h : Moved i w v) : Still i w v := by
  obtain ⟨s, hs⟩ := h.firing
  have hr := h.rest
  refine ⟨by rw [hr], by rw [hr], by rw [hr], by rw [hr], ?_⟩
  simp [hs]

end World

open World

/-- An engine whose callbacks give a value or fail, and leave machines and firings alone. -/
structure Engine.Calm (E : Engine) : Prop where
  ends : ∀ label callback call w, (E.call label callback call w).1 ≠ .error .exhausted
  steady : ∀ label callback call w, Steady w (E.call label callback call w).2

namespace Engine

variable {E : Engine}

theorem Calm.walks (hE : E.Calm) : E.Walks Steady where
  call label callback call w := .single (hE.steady label callback call w)
  record _ _ := .single ⟨rfl, rfl, rfl, rfl, rfl, rfl⟩

/-- Takes up a cue. -/
def takeUp (E : Engine) (m : MachineId) (i : FiringId) : Cue → Run Value
  | .run c => E.consult m c i
  | .ask g => E.consult m g.predicate i
  | .move dest => do
    let _ ← relocate m dest i
    return .null

/-- A run that takes up the cues of some moments in order, with nothing but quiet in between. -/
inductive Conducts (E : Engine) (m : MachineId) (i : FiringId) : World → List Moment → World → Prop where
  | done (w : World) : Conducts E m i w [] w
  | quiet {w v u : World} {xs : List Moment} (h : Quiet i w v) (hr : Conducts E m i v xs u) :
      Conducts E m i w xs u
  | moment {x : Moment} {u : World} {xs : List Moment}
      (h : E.takeUp m i x.cue x.before = (x.outcome.mapError .fault, x.after))
      (hr : Conducts E m i x.after xs u) : Conducts E m i x.before (x :: xs) u

variable {m : MachineId} {i : FiringId}

theorem Conducts.trans {w v u : World} {xs ys : List Moment} (h : Conducts E m i w xs v)
    (h' : Conducts E m i v ys u) : Conducts E m i w (xs ++ ys) u := by
  induction h with
  | done w => exact h'
  | quiet hq _ ih => exact .quiet hq (ih h')
  | moment hx _ ih => exact .moment hx (ih h')

theorem Conducts.single_quiet {w v : World} (h : Quiet i w v) : Conducts E m i w [] v :=
  .quiet h (.done v)

theorem Conducts.single_moment {w v : World} {cue : Cue} {r : Except Fault Value}
    (h : E.takeUp m i cue w = (r.mapError .fault, v)) : Conducts E m i w [⟨cue, w, r, v⟩] v :=
  .moment (x := ⟨cue, w, r, v⟩) h (.done v)

theorem definite_relocate (m : MachineId) (dest : Value) (i : FiringId) :
    Act.Definite (relocate m dest i) :=
  .bind .get (fun _ => .bind (definite_place m dest _) (fun _ =>
    .bind (.ask _) (fun _ => .bind (.change _) (fun _ => .ask _))))

theorem Calm.definite_takeUp (hE : E.Calm) (m : MachineId) (i : FiringId) (cue : Cue) :
    Act.Definite (E.takeUp m i cue) := by
  have consulted (c : Callback) : Act.Definite (E.consult m c i) := Definite.consult hE.ends m c i
  cases cue with
  | run c => exact consulted c
  | ask g => exact consulted g.predicate
  | move dest => exact .bind (definite_relocate m dest i) (fun _ => .pure _)

theorem Calm.steady_consult (hE : E.Calm) (m : MachineId) (c : Callback) (i : FiringId) (w : World) :
    Steady w (E.consult m c i w).2 := .of_steps (hE.walks.consult m c i w)

theorem moved_relocate (m : MachineId) (dest : Value) (i : FiringId) (w : World) :
    Moved i w (relocate m dest i w).2 := by
  have placed (model : Value) : Act.Walks (Moved i) (place m dest model) := by
    refine (walks_place m dest model).mono (fun w v h => .single ?_)
    rw [h]
    exact ⟨rfl, ⟨_, rfl⟩, fun _ _ => rfl⟩
  refine Moved.of_steps (Walks.bind .get (fun _ => .bind (placed _) (fun _ =>
    .bind (.ask _) (fun d => ?_))) w)
  refine .bind (.change (fun u => .single ⟨rfl, ⟨d, ?_⟩, fun j hj => ?_⟩)) (fun _ => .ask _)
  · simp [updateFiring]
  · simp [updateFiring, hj.symm]

/-- A successful move puts the model into the state that is registered under the destination, and the
firing with it. -/
theorem relocate_ok {m : MachineId} {a : String} {i : FiringId} {w v : World} {d : StateId}
    (h : relocate m (.text a) i w = (.ok d, v)) :
    ∃ u, place m (.text a) (w.firings.get i).model w = (.ok (), u) ∧
      u.lookupState m (.text a) = .ok d ∧ v = u.updateFiring i (fun f => { f with state := d }) := by
  obtain ⟨w', w'', hg, hrun⟩ := ok_of_bind_apply h
  cases hg
  obtain ⟨⟨⟩, u, hp, hset⟩ := ok_of_bind_apply hrun
  obtain ⟨d', u', hs, hchange⟩ := ok_of_bind_apply hset
  obtain ⟨hs, rfl⟩ := ok_of_ask hs
  obtain ⟨⟨⟩, u'', hc, hask⟩ := ok_of_bind_apply hchange
  cases hc
  obtain ⟨hl, rfl⟩ := ok_of_ask hask
  have same : (u'.updateFiring i (fun f => { f with state := d' })).lookupState m (.text a) =
      u'.lookupState m (.text a) := rfl
  have hdd : Except.ok d' = Except.ok d := hs.symm.trans (same.symm.trans hl)
  cases hdd
  exact ⟨u', hp, hs, rfl⟩

/-- Taking up a cue leaves machines alone and moves no more than the firing and its model. -/
theorem Calm.still_takeUp (hE : E.Calm) (m : MachineId) (i : FiringId) (cue : Cue) (w : World) :
    Still i w (E.takeUp m i cue w).2 ∧
      ((E.takeUp m i cue w).2.firings.get i).result = (w.firings.get i).result := by
  have consulted (c : Callback) : Still i w (E.consult m c i w).2 ∧
      ((E.consult m c i w).2.firings.get i).result = (w.firings.get i).result := by
    have steady := hE.steady_consult m c i w
    exact ⟨steady.still, by rw [steady.firings]⟩
  cases cue with
  | run c => exact consulted c
  | ask g => exact consulted g.predicate
  | move dest =>
    have moves : Act.Walks (Moved i) (E.takeUp m i (.move dest)) :=
      .bind (fun w => .single (moved_relocate m dest i w)) (fun _ => .pure _)
    have moved := Moved.of_steps (moves w)
    obtain ⟨s, hs⟩ := moved.firing
    exact ⟨moved.still, by rw [hs]⟩

/-- From the start of a conducted run to its end nothing changes but where the model is, how far the
firing has come, and what callbacks do elsewhere. -/
theorem Conducts.still (hE : E.Calm) {w v : World} {xs : List Moment} (h : Conducts E m i w xs v) :
    Still i w v := by
  induction h with
  | done w => exact .refl w
  | quiet hq _ ih => exact hq.still.trans ih
  | @moment x u xs hx _ ih =>
    have moved := (hE.still_takeUp m i x.cue x.before).1
    rw [hx] at moved
    exact moved.trans ih

/-- The firing stays in its state as long as nothing is moved. -/
theorem Conducts.state (hE : E.Calm) {w v : World} {xs : List Moment} (h : Conducts E m i w xs v)
    (hm : ∀ x ∈ xs, x.cue.moves = false) :
    (v.firings.get i).state = (w.firings.get i).state := by
  induction h with
  | done w => rfl
  | quiet hq _ ih =>
    obtain ⟨transition, fault, result, hp⟩ := hq.progress
    rw [ih hm, hp]
  | @moment x u xs hx _ ih =>
    have kept (c : Callback) :
        ((E.consult m c i x.before).2.firings.get i).state = (x.before.firings.get i).state := by
      rw [(hE.steady_consult m c i x.before).firings]
    rw [ih (fun y hy => hm y (List.mem_cons_of_mem _ hy))]
    have here := hm x List.mem_cons_self
    cases hc : x.cue with
    | run c =>
      rw [hc] at hx
      have hk := kept c
      rwa [show E.consult m c i x.before = _ from hx] at hk
    | ask g =>
      rw [hc] at hx
      have hk := kept g.predicate
      rwa [show E.consult m g.predicate i x.before = _ from hx] at hk
    | move dest =>
      rw [hc] at here
      cases here

end Engine

end StateEngine
