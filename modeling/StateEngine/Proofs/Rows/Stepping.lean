import StateEngine.Proofs.Routes.Moving

/-! A firing that finds a single candidate without guards carries the model along it, or a callback fails. -/
namespace StateEngine
open Act World Relation

/-- A firing of an event for a model that is in a state, when nothing has come of it yet. -/
def Firing.begun (m : MachineId) (e : EventId) (x : String) (args : List Value) (named : Named) (s : StateId) : Firing where
  state := s
  event := e
  machine := m
  model := .model x
  args := args
  named := named

namespace World

variable {m : MachineId} {e : EventId} {x a b : String} {i : FiringId} {s d : StateId} {t : TransitionId} {n : Nat} {w₀ w v u : World}

/-- The states that a machine has under texts, an event, and the transitions that are filed there are as they were. -/
structure Lasts (m : MachineId) (e : EventId) (w v : World) : Prop where
  accessor : (v.machine m).accessor = (w.machine m).accessor
  listed : ∀ trigger : String, (w.machine m).events.find? (.text trigger) = some e →
    (v.machine m).events.find? (.text trigger) = some e
  event : v.events.get e = w.events.get e
  transitions : ∀ t, w.Filed e t → v.transitions.get t = w.transitions.get t
  states : ∀ (c : String) (s : StateId), w.lookupState m (.text c) = .ok s →
    v.lookupState m (.text c) = .ok s ∧ v.states.get s = w.states.get s

/-- What callbacks do that meddle neither with an event of a machine nor with its line, nor with the state of a model,
nor with firings that are under way. -/
structure Spares (m : MachineId) (e : EventId) (x : String) (w v : World) : Prop extends Lasts m e w v where
  line : (v.machine m).line = (w.machine m).line
  made : w.firings.next ≤ v.firings.next
  firings : ∀ i < w.firings.next, v.firings.get i = w.firings.get i
  holds : ∀ c, w.Holds m x c → v.Holds m x c

theorem Lasts.refl (w : World) : Lasts m e w w := ⟨rfl, fun _ => id, rfl, fun _ _ => rfl, fun _ _ hs => ⟨hs, rfl⟩⟩

theorem Lasts.trans (h : Lasts m e w v) (h' : Lasts m e v u) : Lasts m e w u where
  accessor := h'.accessor.trans h.accessor
  listed trigger ht := h'.listed trigger (h.listed trigger ht)
  event := h'.event.trans h.event
  transitions t ht := by
    have filed : v.Filed e t := by
      unfold Filed
      rw [h.event]
      exact ht
    exact (h'.transitions t filed).trans (h.transitions t ht)
  states c s hs := by
    obtain ⟨found, same⟩ := h.states c s hs
    obtain ⟨found', same'⟩ := h'.states c s found
    exact ⟨found', same'.trans same⟩

/-- What is found under a text is the machine's own matter. -/
theorem lookup_of_states (h : (v.machine m).states = (w.machine m).states) (c : String) :
    v.lookupState m (.text c) = w.lookupState m (.text c) := by
  simp only [lookupState, nameOf, Value.registrationName, h]
  rfl

theorem Lasts.of_same (machine : ∃ line, v.machine m = { w.machine m with line := line }) (events : v.events = w.events)
    (transitions : v.transitions = w.transitions) (states : v.states = w.states) : Lasts m e w v := by
  obtain ⟨line, machine⟩ := machine
  refine ⟨by rw [machine], fun trigger => ?_, by rw [events], fun _ _ => by rw [transitions], fun c s hs => ?_⟩
  · rw [machine]
    exact id
  · exact ⟨(lookup_of_states (by rw [machine]) c).trans hs, by rw [states]⟩

theorem Spares.refl (w : World) : Spares m e x w w := ⟨.refl w, rfl, Nat.le_refl _, fun _ _ => rfl, fun _ => id⟩

theorem Spares.trans (h : Spares m e x w v) (h' : Spares m e x v u) : Spares m e x w u where
  toLasts := h.toLasts.trans h'.toLasts
  line := h'.line.trans h.line
  made := Nat.le_trans h.made h'.made
  firings i hi := (h'.firings i (Nat.lt_of_lt_of_le hi h.made)).trans (h.firings i hi)
  holds c hc := h'.holds c (h.holds c hc)

theorem Spares.of_steps (h : ReflTransGen (Spares m e x) w v) : Spares m e x w v := by
  induction h with
  | refl => exact .refl w
  | tail _ last ih => exact ih.trans last

/-- Steady worlds with the same models differ in nothing that matters. -/
theorem Spares.of_steady (h : Steady w v) (models : v.models = w.models) (ledgers : v.ledgers = w.ledgers) :
    Spares m e x w v := by
  have machine : v.machine m = w.machine m := by rw [World.machine, h.machines, World.machine]
  refine ⟨.of_same ⟨_, machine⟩ h.events h.transitions h.states, by rw [machine], Nat.le_of_eq (by rw [h.firings]),
    fun i _ => by rw [h.firings], fun c held => ?_⟩
  unfold Holds at held ⊢
  rw [machine]
  unfold World.model at held ⊢
  rw [models, ledgers]
  exact held

/-- A model stays in a state. -/
theorem Lasts.in (h : Lasts m e w v) (here : w.In m x a s) (hx : ∀ c, w.Holds m x c → v.Holds m x c) :
    v.In m x a s := by
  obtain ⟨found, same⟩ := h.states a s here.found
  exact ⟨by rw [same]; exact here.named, found, by rw [same]; exact hx _ here.held⟩

/-- A state that is registered under its own text, with lists of callbacks that are shorter than a bound. -/
structure Station (w : World) (bound : Nat) (m : MachineId) (c : String) (s : StateId) : Prop where
  found : w.lookupState m (.text c) = .ok s
  named : (w.states.get s).name = .text c
  short : ∀ stage, ((w.states.get s).callbacks stage).length < bound

theorem Station.lasts (h : w.Station n m a s) (hv : Lasts m e w v) : v.Station n m a s := by
  obtain ⟨found, same⟩ := hv.states a s h.found
  exact ⟨found, by rw [same]; exact h.named, by rw [same]; exact h.short⟩

/-- From one registered state a transition without guards leads to another one, and none besides. Its callbacks are
fewer than a bound. -/
structure Leg (w : World) (bound : Nat) (m : MachineId) (e : EventId) (a b : String) (t : TransitionId) : Prop where
  only : (w.events.get e).candidates.find? (.text a) = some [t]
  source : (w.transitions.get t).source = .text a
  dest : (w.transitions.get t).dest = .text b
  unguarded : (w.transitions.get t).guards = []
  prepare : (w.transitions.get t).prepare.length < bound
  origin : ∃ s, w.Station bound m a s
  target : ∃ d, w.Station bound m b d

theorem Leg.filed (h : w.Leg n m e a b t) : w.Filed e t := by
  obtain ⟨k, -, hmem⟩ := Table.mem_of_find? h.only
  exact ⟨_, hmem, List.mem_singleton_self t⟩

theorem Leg.lasts (h : w.Leg n m e a b t) (hv : Lasts m e w v) : v.Leg n m e a b t := by
  have same := hv.transitions t h.filed
  obtain ⟨s, origin⟩ := h.origin
  obtain ⟨d, target⟩ := h.target
  refine ⟨?_, ?_, ?_, ?_, ?_, ⟨s, origin.lasts hv⟩, ⟨d, target.lasts hv⟩⟩
  · rw [hv.event]
    exact h.only
  · rw [same]
    exact h.source
  · rw [same]
    exact h.dest
  · rw [same]
    exact h.unguarded
  · rw [same]
    exact h.prepare

/-- A firing by an event, for a model that is in the state in which the firing has it. -/
structure Aboard (m : MachineId) (e : EventId) (x : String) (i : FiringId) (w₀ : World) (c : String) (s : StateId)
    (w : World) : Prop where
  lasts : Lasts m e w₀ w
  line : (w.machine m).line = (w₀.machine m).line
  made : i < w.firings.next
  machine : (w.firings.get i).machine = m
  model : (w.firings.get i).model = .model x
  event : (w.firings.get i).event = e
  state : (w.firings.get i).state = s
  here : w.In m x c s

theorem Aboard.spared (h : Aboard m e x i w₀ a s w) (hv : Spares m e x w v) : Aboard m e x i w₀ a s v := by
  have same := hv.firings i h.made
  exact ⟨h.lasts.trans hv.toLasts, hv.line.trans h.line, Nat.lt_of_lt_of_le h.made hv.made, by rw [same]; exact h.machine,
    by rw [same]; exact h.model, by rw [same]; exact h.event, by rw [same]; exact h.state,
    hv.toLasts.in h.here hv.holds⟩

/-- How a firing goes on is noted in it alone. -/
theorem Aboard.noted (h : Aboard m e x i w₀ a s w) {f : Firing → Firing} (hf : Firing.Notes f) :
    Aboard m e x i w₀ a s (w.updateFiring i f) := by
  obtain ⟨_, _, _, same⟩ := hf (w.firings.get i)
  have firing : (w.updateFiring i f).firings.get i = f (w.firings.get i) := by simp [updateFiring]
  refine ⟨h.lasts.trans (.of_same ⟨_, rfl⟩ rfl rfl rfl), h.line, ?_, ?_, ?_, ?_, ?_, ?_⟩
  · exact Nat.lt_of_lt_of_le h.made (Heap.next_le_next_modify _ _ _)
  · rw [firing, same]
    exact h.machine
  · rw [firing, same]
    exact h.model
  · rw [firing, same]
    exact h.event
  · rw [firing, same]
    exact h.state
  · exact ⟨h.here.named, h.here.found, h.here.held⟩

/-- The model goes over to another state, and the firing with it. -/
theorem Aboard.relocated (h : Aboard m e x i w₀ a s w) (found : w.lookupState m (.text b) = .ok d)
    (named : (w.states.get d).name = .text b) :
    ∃ v, Engine.relocate m (.text b) i w = (.ok d, v) ∧ Aboard m e x i w₀ b d v := by
  obtain ⟨v, moved, here⟩ := relocate_in h.model found named h.here.held.writable
  refine ⟨v, moved, ?_⟩
  have between : Moved i w v := by
    have := Engine.moved_relocate m (.text b) i w
    rwa [moved] at this
  obtain ⟨u, placed, -, hv⟩ := Engine.relocate_ok moved
  have firings : u.firings = w.firings := by
    have written := (Engine.walks_place m (.text b) (w.firings.get i).model).steps placed
    clear moved hv placed
    induction written with
    | refl => rfl
    | tail _ last ih =>
      rw [last]
      exact ih
  obtain ⟨d', hd'⟩ := between.firing
  have state : (v.firings.get i).state = d := by
    rw [hv]
    simp [updateFiring]
  have rest := between.rest
  refine ⟨h.lasts.trans (.of_same ⟨_, by rw [rest]; rfl⟩ (by rw [rest]) (by rw [rest]) (by rw [rest])), ?_, ?_, ?_, ?_,
    ?_, state, here⟩
  · rw [rest]
    exact h.line
  · rw [hv]
    exact Nat.lt_of_lt_of_le (firings ▸ h.made) (Heap.next_le_next_modify _ _ _)
  · rw [hd']
    exact h.machine
  · rw [hd']
    exact h.model
  · rw [hd']
    exact h.event

end World

namespace Engine

variable {α β : Type} {E : Engine} {m : MachineId} {e : EventId} {x a b : String} {i : FiringId} {s d : StateId}
  {t : TransitionId} {w₀ w v : World} {Q : α → World → Prop} {Q' : β → World → Prop}

/-- Callbacks that leave everything alone meddle with nothing. -/
theorem Aloof.spares (hE : E.Aloof) (m : MachineId) (e : EventId) (x : String) : E.Walks (Spares m e x) where
  call label callback call w := by
    obtain ⟨models, ledgers⟩ := hE.models label callback call w
    exact .single (.of_steady (hE.steady label callback call w) models ledgers)
  record _ _ := .single (.of_steady ⟨rfl, rfl, rfl, rfl, rfl, rfl⟩ rfl rfl)

/-- A run for a firing comes to an end: what is expected holds then, or it ends with the fault of a callback. -/
def Passes (E : Engine) (m : MachineId) (i : FiringId) (w : World) (y : Run α) (Q : α → World → Prop) : Prop :=
  ∃ (r : Except Fault α) (u : World) (xs : List Moment), y w = (r.mapError .fault, u) ∧ E.Conducts m i w xs u ∧
    (∀ c, r = .ok c → Q c u) ∧ ∀ f, r = .error f → ∃ z ∈ xs, z.Failed f

namespace Passes

theorem pure {c : α} (h : Q c w) : E.Passes m i w (Pure.pure c : Run α) Q :=
  ⟨.ok c, w, [], rfl, .done w, fun _ hc => Except.ok.inj hc ▸ h, fun _ hf => by cases hf⟩

/-- One run after the other. -/
theorem bind {y : Run α} {k : α → Run β} (hy : E.Passes m i w y Q)
    (hk : ∀ c u, Q c u → E.Passes m i u (k c) Q') : E.Passes m i w (y >>= k) Q' := by
  obtain ⟨r, u, xs, ran, conducts, good, bad⟩ := hy
  cases r with
  | error f =>
    refine ⟨.error f, u, xs, bind_of_error (e := .fault f) ran, conducts, ?_, ?_⟩
    · intro c hc
      cases hc
    · intro g hg
      obtain rfl := Except.error.inj hg
      exact bad f rfl
  | ok c =>
    obtain ⟨r', u', ys, ran', conducts', good', bad'⟩ := hk c u (good c rfl)
    refine ⟨r', u', xs ++ ys, (bind_of_ok ran).trans ran', conducts.trans conducts', good', fun f hf => ?_⟩
    obtain ⟨z, hz, failed⟩ := bad' f hf
    exact ⟨z, List.mem_append_right _ hz, failed⟩

/-- Going on from what takes up no cue. -/
theorem bind_quiet {y : Run α} {k : α → Run β} {c : α} (hy : y w = (.ok c, v)) (hq : Quiet i w v)
    (hk : E.Passes m i v (k c) Q') : E.Passes m i w (y >>= k) Q' := by
  obtain ⟨r, u, xs, ran, conducts, good, bad⟩ := hk
  exact ⟨r, u, xs, (bind_of_ok hy).trans ran, .quiet hq conducts, good, bad⟩

theorem bind_same {y : Run α} {k : α → Run β} {c : α} (hy : y w = (.ok c, w)) (hk : E.Passes m i w (k c) Q') :
    E.Passes m i w (y >>= k) Q' := by
  obtain ⟨r, u, xs, ran, conducts, good, bad⟩ := hk
  exact ⟨r, u, xs, (bind_of_ok hy).trans ran, conducts, good, bad⟩

theorem mono {Q₂ : α → World → Prop} {y : Run α} (h : E.Passes m i w y Q) (hQ : ∀ c u, Q c u → Q₂ c u) :
    E.Passes m i w y Q₂ := by
  obtain ⟨r, u, xs, ran, conducts, good, bad⟩ := h
  exact ⟨r, u, xs, ran, conducts, fun c hc => hQ c u (good c hc), bad⟩

/-- However a run has ended, another one follows it. What follows a fault ends with this or one of its own. -/
theorem attempt_bind {y : Run α} {k : Except Fault α → Run β} (hy : E.Passes m i w y Q)
    (hk : ∀ c u, Q c u → E.Passes m i u (k (.ok c)) Q')
    (hf : ∀ f u, ∃ g u' ys, k (.error f) u = (.error (.fault g), u') ∧ E.Conducts m i u ys u' ∧
      (g = f ∨ ∃ z ∈ ys, z.Failed g)) : E.Passes m i w (y.attempt >>= k) Q' := by
  obtain ⟨r, u, xs, ran, conducts, good, bad⟩ := hy
  have attempted := attempt_apply ran
  cases r with
  | ok c =>
    obtain ⟨r', u', ys, ran', conducts', good', bad'⟩ := hk c u (good c rfl)
    refine ⟨r', u', xs ++ ys, (bind_of_ok attempted).trans ran', conducts.trans conducts', good', fun f hf => ?_⟩
    obtain ⟨z, hz, failed⟩ := bad' f hf
    exact ⟨z, List.mem_append_right _ hz, failed⟩
  | error f =>
    obtain ⟨g, u', ys, ran', conducts', cause⟩ := hf f u
    refine ⟨.error g, u', xs ++ ys, (bind_of_ok attempted).trans ran', conducts.trans conducts', ?_, ?_⟩
    · intro c hc
      cases hc
    · intro g' hg
      obtain rfl := Except.error.inj hg
      rcases cause with rfl | ⟨z, hz, failed⟩
      · obtain ⟨z, hz, failed⟩ := bad g rfl
        exact ⟨z, List.mem_append_left _ hz, failed⟩
      · exact ⟨z, List.mem_append_right _ hz, failed⟩

/-- What comes to an end, and rings, passes. -/
theorem of_rings {y : Run α} {P : List Moment → Prop} (rings : E.Rings m i P w y)
    (ends : (y w).1 ≠ .error .exhausted) (hQ : ∀ c u, y w = (.ok c, u) → Q c u) : E.Passes m i w y Q := by
  rcases ran : y w with ⟨e, u⟩
  rw [ran] at ends
  obtain ⟨xs, conducts, ⟨⟨c, rfl⟩, -⟩ | ⟨f, rfl, failed⟩⟩ := rings e u ran ends
  · refine ⟨.ok c, u, xs, ran, conducts, ?_, ?_⟩
    · intro c' hc
      obtain rfl := Except.ok.inj hc
      exact hQ c u ran
    · intro f hf
      cases hf
  · refine ⟨.error f, u, xs, ran, conducts, ?_, ?_⟩
    · intro c hc
      cases hc
    · intro g hg
      obtain rfl := Except.error.inj hg
      exact failed

end Passes

section Carrying

variable (hE : E.Walks (Spares m e x)) (ends : E.Definite)

include hE ends

theorem passes_runCallbacks (cs : List Callback) (w : World) :
    E.Passes m i w (E.runCallbacks m cs i) (fun _ => Spares m e x w) := by
  have definite : Act.Definite (E.runCallbacks m cs i) :=
    .forM (fun c => .bind (Definite.consult ends m c i) (fun _ => .change _))
  exact .of_rings (rings_runCallbacks cs w) (definite w) (fun _ u ran => .of_steps ((hE.runCallbacks m cs i).steps ran))

/-- A list of callbacks that stays as it is, is gone through in fewer rounds than a bound. -/
theorem runGrowing_ends {read : World → List Callback} {fuel position : Nat}
    (stay : ∀ u, Spares m e x w u → read u = read w) (short : (read w).length < fuel + position)
    (room : position ≤ (read w).length) : (E.runGrowing m read i fuel position w).1 ≠ .error .exhausted := by
  induction fuel generalizing position w with
  | zero => omega
  | succ fuel ih =>
    unfold runGrowing
    rw [bind_of_ok (get_apply w)]
    cases hc : (read w)[position]? with
    | none =>
      simp only []
      exact fun h => by cases h
    | some c =>
      simp only []
      rcases ran : E.runCallback m c i w with ⟨r, u⟩
      have spared : Spares m e x w u := .of_steps ((hE.runCallback m c i).steps ran)
      have same := stay u spared
      have definite : Act.Definite (E.runCallback m c i) :=
        .bind (Definite.consult ends m c i) (fun _ => .change _)
      have hlt := (List.getElem?_eq_some_iff.mp hc).1
      cases r with
      | error f =>
        rw [bind_of_error ran]
        intro h
        exact definite w (by rw [ran]; exact congrArg _ (Except.error.inj h))
      | ok _ =>
        rw [bind_of_ok ran]
        exact ih (fun u' hu' => (stay u' (spared.trans hu')).trans same.symm) (by rw [same]; omega) (by rw [same]; omega)

theorem passes_runGrowing {read : World → List Callback} (h : Aboard m e x i w₀ a s w)
    (stay : ∀ u, Spares m e x w u → read u = read w) (short : (read w).length < E.bound) :
    E.Passes m i w (E.runGrowing m read i E.bound 0) (fun _ => Aboard m e x i w₀ a s) := by
  refine .of_rings (rings_runGrowing read E.bound 0 w) (runGrowing_ends hE ends stay (by omega) (Nat.zero_le _))
    (fun _ u ran => ?_)
  exact h.spared (.of_steps ((hE.runGrowing m read i E.bound 0).steps ran))

omit ends in
theorem passes_remark {n : MachineId} {severity : Severity} {logger : Logger} {message : String} {k : Unit → Run β}
    (h : Aboard m e x i w₀ a s w) (hk : ∀ u, Aboard m e x i w₀ a s u → E.Passes m i u (k ()) Q') :
    E.Passes m i w (StateEngine.remark n severity logger message >>= k) Q' :=
  .bind_quiet (change_apply _ w) (quiet_record severity logger _) (hk _ (h.spared (.of_steps (hE.record w _))))

/-- The callbacks of a registered state are run. -/
theorem passes_runStage {c : String} {o : StateId} (stage : StateStage) (h : Aboard m e x i w₀ a s w)
    (station : w₀.Station E.bound m c o) : E.Passes m i w (E.runStage m o stage i) (fun _ => Aboard m e x i w₀ a s) := by
  refine .bind_same (get_apply w) (passes_remark hE h (fun u hu => ?_))
  have here := station.lasts hu.lasts
  refine .bind (passes_runGrowing hE ends hu (fun v hv => ?_) (here.short stage)) (fun _ v hv => ?_)
  · rw [(hv.states c o here.found).2]
  · exact .bind_quiet (k := Pure.pure) (change_apply _ v) (quiet_record _ _ _)
      (.pure (hv.spared (.of_steps (hE.record v _))))

omit hE ends in
theorem passes_relocate (h : Aboard m e x i w₀ a s w) (station : w₀.Station E.bound m b d) :
    E.Passes m i w (relocate m (.text b) i) (fun d' u => d' = d ∧ Aboard m e x i w₀ b d u) := by
  have there := station.lasts h.lasts
  obtain ⟨v, moved, aboard⟩ := h.relocated there.found there.named
  refine .of_rings (rings_relocate moved) (by rw [moved]; exact fun h => by cases h) (fun d' u ran => ?_)
  obtain ⟨same, rfl⟩ := Prod.mk.inj (moved.symm.trans ran)
  exact ⟨(Except.ok.inj same).symm, aboard⟩

variable (leg : w₀.Leg E.bound m e a b t) (there : w₀.Station E.bound m b d)

include leg there

/-- The model goes out of its state, over to the other one, and in there. -/
theorem passes_changeState (h : Aboard m e x i w₀ a s w) :
    E.Passes m i w (E.changeState m (.text a) (.text b) i) (fun _ => Aboard m e x i w₀ b d) := by
  obtain ⟨s', origin⟩ := leg.origin
  have asked : (Act.ask (fun w => w.lookupState m (.text a)) : Run StateId) w = (.ok s', w) := by
    rw [ask_apply, (origin.lasts h.lasts).found]
    rfl
  refine .bind_same asked (.bind (passes_runStage hE ends .exit h origin) (fun _ u hu => ?_))
  refine .bind (passes_relocate hu there) (fun d' v hv => ?_)
  rw [hv.1]
  exact passes_runStage hE ends .enter hv.2 there

theorem passes_carryOut (h : Aboard m e x i w₀ a s w) :
    E.Passes m i w (E.carryOut m t (w₀.transitions.get t) i) (fun _ => Aboard m e x i w₀ b d) := by
  have along : E.moveAlong m (w₀.transitions.get t) i = E.changeState m (.text a) (.text b) i := by
    unfold moveAlong
    rw [Transition.internal, leg.dest, leg.source]
    rfl
  refine .bind_same (get_apply w) (.bind (passes_runCallbacks hE ends _ w) (fun _ u hu => ?_))
  refine passes_remark hE (h.spared hu) (fun u' hu' => ?_)
  rw [along]
  refine .bind (passes_changeState hE ends leg there hu') (fun _ v hv => .bind_same (get_apply v) ?_)
  refine .bind (passes_runCallbacks hE ends _ v) (fun _ v' hv' => ?_)
  exact .bind_quiet (k := Pure.pure) (change_apply _ v') (quiet_record _ _ _)
    (.pure ((hv.spared hv').spared (.of_steps (hE.record v' _))))

/-- Nothing keeps the transition from being carried out. -/
theorem passes_execute (h : Aboard m e x i w₀ a s w) :
    E.Passes m i w (E.execute t i) (fun fired u => fired = true ∧ Aboard m e x i w₀ b d u) := by
  have kept {u : World} (hu : Aboard m e x i w₀ a s u) : u.transitions.get t = w₀.transitions.get t :=
    hu.lasts.transitions t leg.filed
  refine .bind_same (get_apply w) ?_
  simp only [h.machine, kept h]
  refine passes_remark hE h (fun u hu => ?_)
  have stay : ∀ v, Spares m e x u v → (v.transitions.get t).prepare = (u.transitions.get t).prepare :=
    fun v hv => by rw [kept (hu.spared hv), kept hu]
  refine .bind (passes_runGrowing hE ends hu stay (by rw [kept hu]; exact leg.prepare)) (fun _ u' hu' => ?_)
  refine passes_remark hE hu' (fun v hv => .bind_same (get_apply v) (.bind_same (c := true) ?_ ?_))
  · rw [kept hv, leg.unguarded]
    rfl
  · exact .bind (passes_carryOut hE ends leg there hv) (fun _ u hu => .pure ⟨rfl, hu⟩)

/-- The only candidate is taken, and the firing has fired. -/
theorem passes_tryCandidates (h : Aboard m e x i w₀ a s w) :
    E.Passes m i w (E.tryCandidates i [t])
      (fun _ u => Aboard m e x i w₀ b d u ∧ (u.firings.get i).result = true) := by
  have noted := h.noted (f := fun f => { f with transition := some t }) (fun _ => ⟨_, _, _, rfl⟩)
  refine .bind_quiet (change_apply _ w) (quiet_progress ⟨_, _, _, rfl⟩)
    (.bind (passes_execute hE ends leg there noted) ?_)
  rintro _ u ⟨rfl, hu⟩
  rw [if_pos rfl]
  refine .bind_quiet (k := Pure.pure) (change_apply _ u) (quiet_progress ⟨_, _, _, rfl⟩) (.pure ⟨?_, ?_⟩)
  · exact hu.noted (fun _ => ⟨_, _, _, rfl⟩)
  · simp [updateFiring]

theorem passes_attemptMoves (h : Aboard m e x i w₀ a s w) :
    E.Passes m i w (E.attemptMoves m i)
      (fun _ u => Aboard m e x i w₀ b d u ∧ (u.firings.get i).result = true) := by
  refine .bind_same (get_apply w) (.bind (passes_runCallbacks hE ends _ w) (fun _ u hu => ?_))
  refine passes_remark hE (h.spared hu) (fun v hv => .bind_same (c := [t]) ?_ (passes_tryCandidates hE ends leg there hv))
  unfold candidatesFor
  rw [bind_of_ok (get_apply v)]
  simp only [hv.event, hv.state, hv.here.named, hv.lasts.event, leg.only]
  rfl

/-- The firing ends in the other state, unless a callback fails, be it one of those that come at the end. -/
theorem passes_processFiring (h : Aboard m e x i w₀ a s w) :
    E.Passes m i w (E.processFiring i) (fun v u => v = .bool true ∧ Aboard m e x i w₀ b d u) := by
  refine .bind_same (get_apply w) ?_
  rw [h.machine]
  refine .attempt_bind (passes_attemptMoves hE ends leg there h) ?_ ?_
  · rintro _ u ⟨hu, fired⟩
    refine .bind_same (y := noteError i (.ok ())) rfl (.bind_same (get_apply u) ?_)
    refine .bind (passes_runCallbacks hE ends _ u) (fun _ v hv => ?_)
    refine .bind_quiet (change_apply _ v) (quiet_record _ _ _) ?_
    refine .bind_same (y := Act.ofExcept (.ok ())) rfl (.bind_same (get_apply _) (.pure ⟨?_, ?_⟩))
    · have same : (v.firings.get i).result = (u.firings.get i).result := by rw [hv.firings i hu.made]
      exact congrArg Value.bool (same.trans fired)
    · exact (hu.spared hv).spared (.of_steps (hE.record v _))
  · intro f u
    obtain ⟨v, noted, quiet⟩ : ∃ v, noteError i (.error f) u = (.ok (), v) ∧ Quiet i u v := by
      simp only [noteError]
      split
      · exact ⟨_, rfl, quiet_progress ⟨_, _, _, rfl⟩⟩
      · exact ⟨u, rfl, rfl, fun _ _ => rfl, ⟨_, _, _, rfl⟩, [], by simp, by simp⟩
    obtain ⟨r, u', ys, ran, conducts, -, bad⟩ := passes_runCallbacks hE ends (v.machine m).finalizeEvent v
    have closing : E.closeFiring m i (.error f) v = (E.runCallbacks m (v.machine m).finalizeEvent i >>= fun _ =>
        StateEngine.remark m .debug .event "Executed machine finalize callbacks" >>= fun _ =>
          (Act.ofExcept (.error f) : Run Unit) >>= fun _ => MonadState.get >>= fun u : World =>
            Pure.pure (Value.bool (u.firings.get i).result)) v := rfl
    cases r with
    | error g =>
      rw [bind_of_error (e := .fault g) ran] at closing
      exact ⟨g, u', ys, (bind_of_ok noted).trans closing, .quiet quiet conducts, .inr (bad g rfl)⟩
    | ok _ =>
      rw [bind_of_ok (a := ()) ran, StateEngine.remark, bind_of_ok (change_apply _ u')] at closing
      have whole (message : String) : E.Conducts m i u ys (u'.record (.remarked .debug .event message)) := by
        have := (Conducts.quiet quiet conducts).trans (.single_quiet (quiet_record .debug .event message))
        rwa [List.append_nil] at this
      exact ⟨f, _, ys, (bind_of_ok noted).trans closing, whole _, .inl rfl⟩

/-- Fired on a model in the one state, an event puts it into the other, or a callback fails. -/
theorem fireNow_carries (owned : (w₀.events.get e).machine = m) (here : w₀.In m x a s) (args : List Value)
    (named' : Named) :
    ∃ (r : Except Fault Value) (history : Array Entry) (u : World) (xs : List Moment),
      E.fireNow e (.model x) args named' w₀ = (r.mapError .fault, u) ∧
        E.Conducts m w₀.firings.next (({ w₀ with history := history } : World).opened
          (.begun m e x args named' s)) xs u ∧
        (∀ c, r = .ok c → c = .bool true ∧ Lasts m e w₀ u ∧ (u.machine m).line = (w₀.machine m).line ∧ u.In m x b d) ∧
          ∀ f, r = .error f → ∃ z ∈ xs, z.Failed f := by
  obtain ⟨history, asked⟩ := here.asked (E := E)
  obtain ⟨v, hv⟩ : ∃ v, v = ({ w₀ with history := history } : World) := ⟨_, rfl⟩
  rw [← hv] at asked
  have listed : (v.events.get e).candidates.contains (v.states.get s).name = true := by
    rw [hv, Table.contains, here.named, leg.only]
    rfl
  obtain ⟨firing, hf⟩ : ∃ firing, firing = Firing.begun m e x args named' s := ⟨_, rfl⟩
  have opened : (v.opened firing).firings.get v.firings.next = firing := by simp [World.opened]
  have aboard : Aboard m e x v.firings.next w₀ a s (v.opened firing) := by
    refine ⟨?_, by rw [hv]; rfl, ?_, by rw [opened, hf]; rfl, by rw [opened, hf]; rfl, by rw [opened, hf]; rfl,
      by rw [opened, hf]; rfl, ?_⟩
    · rw [hv]
      exact .of_same ⟨_, rfl⟩ rfl rfl rfl
    · rw [World.opened, Heap.next_push]
      exact Nat.lt_succ_self _
    · rw [hv]
      exact ⟨here.named, here.found, here.held⟩
  obtain ⟨r, u, xs, ran, conducts, good, bad⟩ := passes_processFiring hE ends leg there aboard
  rw [hv, hf] at conducts
  refine ⟨r, history, u, xs, ?_, conducts, fun c hc => ?_, bad⟩
  · rw [fireNow_opened owned asked listed]
    rw [hf] at ran
    exact ran
  · obtain ⟨answer, arrived⟩ := good c hc
    exact ⟨answer, arrived.lasts, arrived.line, arrived.here⟩

end Carrying

/-- A task that gives a value leaves the line of its machine as it was, with nothing in flight. -/
theorem submit_served {task : Task} {c : Value} (hidle : (w.machine m).line.inFlight = false) (hbound : 1 < E.bound)
    (hrun : E.runTask task (w.taking m task) = (.ok c, v))
    (hkept : (v.machine m).line = (w.machine m).line.begun task) :
    E.submit m task w = (.ok ((w.machine m).line.answer c),
      v.updateMachine m (fun machine => { machine with line := (w.machine m).line })) := by
  obtain ⟨label, hlabel⟩ : ∃ label, label = (w.machine m).label := ⟨_, rfl⟩
  have start : E.submit m task w = (E.setting m label).submit task w := by
    rw [hlabel]
    rfl
  have lawful := setting_lawful E m label
  rw [start]
  unfold taking at hrun
  cases hline : (w.machine m).line with
  | direct busy =>
    have free : busy = false := by simpa [hline, Line.inFlight] using hidle
    subst free
    rw [hline] at hrun
    exact Line.Setting.submit_direct (r := .ok c) hline hrun
  | queued tasks =>
    have empty : tasks = [] := by simpa [hline, Line.inFlight] using hidle
    subst empty
    rw [hline] at hrun hkept
    obtain ⟨S, hS⟩ : ∃ S, S = E.setting m label := ⟨_, rfl⟩
    have bound : S.bound = E.bound := by rw [hS]; rfl
    obtain ⟨fuel, hfuel⟩ : ∃ fuel, S.bound = fuel + 2 := ⟨E.bound - 2, by omega⟩
    have empty : S.slot.read w = .queued [] := by rw [hS]; exact hline
    have taken : S.slot.read (S.slot.write (.queued [task]) w) = .queued [task] := by rw [hS]; exact lawful _ w
    have ran : S.run task (S.slot.write (.queued [task]) w) = (.ok c, v) := by rw [hS]; exact hrun
    have kept : S.slot.read v = .queued [task] := by rw [hS]; exact hkept
    have closed : S.slot.read (S.slot.write (.queued []) v) = .queued [] := by rw [hS]; exact lawful _ v
    rw [← hS, Line.Setting.submit_queued empty, hfuel, Line.Setting.drain_cons_ok taken ran kept,
      Line.Setting.drain_nil closed, hS]
    rfl

/-- A task that fails on a machine with nothing in flight fails for the caller. -/
theorem submit_failed {task : Task} {f : Fault} (hidle : (w.machine m).line.inFlight = false) (hbound : 1 < E.bound)
    (hrun : E.runTask task (w.taking m task) = (.error (.fault f), v)) :
    ∃ w', E.submit m task w = (.error (.fault f), w') ∧ Relined m v w' := by
  unfold taking at hrun
  cases hline : (w.machine m).line with
  | direct busy =>
    have free : busy = false := by simpa [hline, Line.inFlight] using hidle
    subst free
    rw [hline] at hrun
    exact ⟨_, Line.Setting.submit_direct (S := E.setting m (w.machine m).label) (r := .error f) hline hrun,
      relined_write m (.direct false) v⟩
  | queued tasks =>
    have empty : tasks = [] := by simpa [hline, Line.inFlight] using hidle
    subst empty
    rw [hline] at hrun
    obtain ⟨S, hS⟩ : ∃ S, S = E.setting m (w.machine m).label := ⟨_, rfl⟩
    have start : E.submit m task w = S.submit task w := by
      rw [hS]
      rfl
    have bound : S.bound = E.bound := by rw [hS]; rfl
    obtain ⟨fuel, hfuel⟩ : ∃ fuel, S.bound = fuel + 1 := ⟨E.bound - 1, by omega⟩
    have empty : S.slot.read w = .queued [] := by rw [hS]; exact hline
    have taken : S.slot.read (S.slot.write (.queued [task]) w) = .queued [task] := by
      rw [hS]
      exact setting_lawful E m _ _ w
    have ran : S.run task (S.slot.write (.queued [task]) w) = (.error (.fault f), v) := by rw [hS]; exact hrun
    rw [start, Line.Setting.submit_queued empty, hfuel, Line.Setting.drain_cons_error taken ran, hS]
    exact abandon_relined E m (w.machine m).label f v

/-- The firing of a trigger was cut off by a callback that failed. -/
def CutOff (E : Engine) (m : MachineId) (e : EventId) (x : String) (args : List Value) (named : Named) (w v : World)
    (f : Fault) : Prop :=
  ∃ (history : Array Entry) (s : StateId) (u : World) (xs : List Moment), E.Conducts m w.firings.next
      (({ w.taking m (.fire e (.model x) args named) with history := history } : World).opened
        (.begun m e x args named s)) xs u ∧
    Relined m u v ∧ ∃ z ∈ xs, z.Failed f

/-- A trigger that is registered hands in the firing of its event. -/
theorem trigger_submits {trigger : String} (listed : (w.machine m).events.find? (.text trigger) = some e)
    (owned : (w.events.get e).machine = m) (args : List Value) {named : Named}
    (free : clashes reservedNames named = false) :
    E.trigger m (.model x) (.text trigger) args named w = E.submit m (.fire e (.model x) args named) w := by
  unfold Engine.trigger
  rw [free, if_neg (by simp)]
  have asked : Act.ask (fun w => w.eventOf? m (.text trigger)) w = (.ok (some e), w) := by
    rw [ask_apply, eventOf?, if_pos (Value.hashable_text trigger), listed]
    rfl
  rw [bind_of_ok asked]
  simp only []
  rw [bind_of_ok (get_apply w), owned]

/-- On an idle machine the trigger of an event carries a model from one state to the next and leaves everything
registered as it was, or a callback fails. -/
theorem trigger_carries (hE : E.Walks (Spares m e x)) (ends : E.Definite) {trigger : String}
    (turns : 1 < E.bound) (listed : (w.machine m).events.find? (.text trigger) = some e)
    (owned : (w.events.get e).machine = m) (idle : (w.machine m).line.inFlight = false)
    (leg : w.Leg E.bound m e a b t) (here : w.In m x a s) (args : List Value) {named : Named}
    (free : clashes reservedNames named = false) :
    ∃ (r : Except Fault Value) (w' : World), E.trigger m (.model x) (.text trigger) args named w =
        (r.mapError .fault, w') ∧
      (∀ c, r = .ok c → c = .bool true ∧ Lasts m e w w' ∧ (w'.machine m).line = (w.machine m).line ∧
        ∃ d, w'.In m x b d) ∧
        ∀ f, r = .error f → E.CutOff m e x args named w w' f := by
  obtain ⟨task, htask⟩ : ∃ task, task = Task.fire e (.model x) args named := ⟨_, rfl⟩
  obtain ⟨w₀, hw₀⟩ : ∃ w₀, w₀ = w.taking m task := ⟨_, rfl⟩
  have machine : w₀.machine m = { w.machine m with line := (w.machine m).line.begun task } := by
    rw [hw₀, taking, machine_updateMachine, if_pos rfl]
  have taken : Lasts m e w w₀ := by
    rw [hw₀] at machine ⊢
    exact .of_same ⟨_, machine⟩ rfl rfl rfl
  have here₀ : w₀.In m x a s := by
    refine taken.in here (fun c held => ?_)
    unfold Holds at held ⊢
    rw [machine, hw₀]
    exact held
  have leg₀ := leg.lasts taken
  obtain ⟨d, there⟩ := leg₀.target
  obtain ⟨r, history, u, xs, ran, conducts, good, bad⟩ :=
    fireNow_carries hE ends leg₀ there (by rw [hw₀]; exact owned) here₀ args named
  rw [trigger_submits listed owned args free, ← htask]
  have task_ran : E.runTask task (w.taking m task) = (r.mapError .fault, u) := by
    rw [← hw₀, htask]
    exact ran
  cases r with
  | error f =>
    obtain ⟨w', failed, relined⟩ := submit_failed idle turns task_ran
    refine ⟨.error f, w', failed, ?_, ?_⟩
    · intro c hc
      cases hc
    · intro g hg
      rw [hw₀, htask] at conducts
      exact ⟨history, s, u, xs, conducts, relined, bad g hg⟩
  | ok c =>
    obtain ⟨rfl, lasts, line, arrived⟩ := good c rfl
    have kept : (u.machine m).line = (w.machine m).line.begun task := by rw [line, machine]
    obtain ⟨w', hw'⟩ : ∃ w', w' = u.updateMachine m (fun machine => { machine with line := (w.machine m).line }) :=
      ⟨_, rfl⟩
    have served := submit_served idle turns task_ran kept
    rw [← hw'] at served
    have machine' : w'.machine m = { u.machine m with line := (w.machine m).line } := by
      rw [hw', machine_updateMachine, if_pos rfl]
    have released : Lasts m e u w' := by
      rw [hw'] at machine' ⊢
      exact .of_same ⟨_, machine'⟩ rfl rfl rfl
    have answer : (w.machine m).line.answer (.bool true) = .bool true := by
      cases (w.machine m).line <;> rfl
    refine ⟨.ok (.bool true), w', by rw [served, answer]; rfl, ?_, fun f hf => by cases hf⟩
    intro c hc
    obtain rfl := Except.ok.inj hc
    refine ⟨rfl, (taken.trans lasts).trans released, by rw [machine'], d, released.in arrived (fun c held => ?_)⟩
    unfold Holds at held ⊢
    rw [machine', hw']
    exact held

end Engine

end StateEngine
