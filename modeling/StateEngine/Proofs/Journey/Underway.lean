import StateEngine.Proofs.Journey.Way

/-! A firing of a model on its own machine, while it is under way: the model rests until a candidate moves it, and
so every move is one of its way. -/
namespace StateEngine
open Act Relation World

variable {E : Engine} {m : MachineId} {x origin : String} {T : World → Prop} {start w v u z : World}
  {i : FiringId} {t : TransitionId}

/-- However a computation goes on, it ends where something holds, if both its parts do. -/
theorem Act.ends_bind {σ α β : Type} {Q : σ → Prop} {y : Act σ α} {f : α → Act σ β} {s : σ} (h : Q (y s).2)
    (hf : ∀ a t, y s = (.ok a, t) → Q t → Q (f a t).2) : Q ((y >>= f) s).2 := by
  rw [bind_apply]
  rcases hy : y s with ⟨e | a, t⟩ <;> rw [hy] at h
  · exact h
  · exact hf a t hy h

theorem Act.attempt_snd {σ α : Type} (y : Act σ α) (s : σ) : (y.attempt s).2 = (y s).2 := by
  unfold Act.attempt
  rcases y s with ⟨(f | _) | a, t⟩ <;> rfl

/-- A model is on its way. -/
def OnWay (m : MachineId) (x : String) (start : World) (origin : String) (w : World) : Prop :=
  ∃ a, Journey m x start origin w a

theorem endures_onWay (m : MachineId) (x : String) (start : World) (origin : String) :
    Endures m x (OnWay m x start origin) :=
  fun _ _ step ⟨a, h⟩ => ⟨a, h.stay step⟩

namespace World

/-- A machine has a task in hand, and a model of it is on its way, as far as the states have texts for names. -/
structure Settled (m : MachineId) (x : String) (T : World → Prop) (w : World) : Prop extends Ready m w where
  busy : (w.machine m).line.inFlight = true
  way : w.PlainNames m → T w

theorem Settled.later (h : w.Settled m x T) (hv : Bears m x T (fun _ => True) True w v) : v.Settled m x T where
  toReady := h.toReady.later hv.changes
  busy := (hv.lines m trivial h.busy).1.inFlight
  way hn := hv.way hn (h.way (hv.changes.extends.1.plainNames hn))

theorem Settled.run {α : Type} {y : Run α} (h : w.Settled m x T) (hy : GoesFrom True (Regards m x T) w y) :
    (y w).2.Settled m x T :=
  h.later (hy.bears (fun _ => trivial) h.toReady (fun _ => trivial))

/-- The model of a firing was in the state of the firing when this was opened, and has rested since. -/
def Began (m : MachineId) (x : String) (start : World) (origin : String) (f : Firing) (z : World) : Prop :=
  ∃ a b firing, Journey m x start origin b a ∧ firing.Keeps f ∧ ReflTransGen (Rests m x) (b.opened firing) z ∧
    z.In m x a f.state

/-- A firing of a model on its machine that has not moved it: it has been under way since its candidates were asked
for, in `z`, or it was opened there. -/
structure Poised (m : MachineId) (x : String) (start : World) (origin : String) (i : FiringId) (z w : World) :
    Prop extends Ready m z where
  busy : (w.machine m).line.inFlight = true
  opened : i < w.firings.next
  keeps : (z.firings.get i).Keeps (w.firings.get i)
  state : (w.firings.get i).state = (z.firings.get i).state
  machine : (z.firings.get i).machine = m
  model : (z.firings.get i).model = .model x
  listed : (z.firings.get i).event < z.events.next
  owner : (z.events.get (z.firings.get i).event).machine = m
  rests : ReflTransGen (Rests m x) z w
  began : z.PlainNames m → Began m x start origin (z.firings.get i) z

namespace Poised

theorem ready (h : Poised m x start origin i z w) : Ready m w := h.toReady.later (changes_of_rests h.rests)

theorem later (h : Poised m x start origin i z w)
    (hv : Bears m x (OnWay m x start origin) (fun _ => True) True w v) : Poised m x start origin i z v := by
  obtain ⟨rests, states⟩ := hv.rests trivial h.busy
  obtain ⟨opened, keeps⟩ := hv.firings i h.opened
  have machine := h.keeps.machine.trans h.machine
  have model := h.keeps.model.trans h.model
  exact { h with
    busy := (hv.lines m trivial h.busy).1.inFlight
    opened := opened
    keeps := h.keeps.trans keeps
    state := (states i h.opened machine model).trans h.state
    rests := h.rests.trans rests }

theorem run {α : Type} {y : Run α} (h : Poised m x start origin i z w)
    (hy : GoesFrom True (Regards m x (OnWay m x start origin)) w y) : Poised m x start origin i z (y w).2 :=
  h.later (hy.bears (fun _ => trivial) h.ready (fun _ => trivial))

/-- The model is on its way all the same. -/
theorem settled (h : Poised m x start origin i z w) : w.Settled m x (OnWay m x start origin) where
  toReady := h.ready
  busy := h.busy
  way hn := by
    obtain ⟨a, b, firing, way, -, rests, -⟩ := h.began ((changes_of_rests h.rests).extends.1.plainNames hn)
    have opened : Rests m x b (b.opened firing) := rests_aside ⟨rfl, rfl, rfl, rfl⟩ rfl (fun _ => rfl)
    exact ⟨a, ((way.stay opened).rests rests).rests h.rests⟩

/-- The candidates may as well be asked for now. -/
theorem anew (h : Poised m x start origin i z w) : Poised m x start origin i w w where
  toReady := h.ready
  busy := h.busy
  opened := h.opened
  keeps := .refl _
  state := rfl
  machine := h.keeps.machine.trans h.machine
  model := h.keeps.model.trans h.model
  listed := by
    rw [h.keeps.event]
    exact Nat.lt_of_lt_of_le h.listed (changes_of_rests h.rests).grows.2.1
  owner := by
    rw [h.keeps.event, (changes_of_rests h.rests).owner h.listed]
    exact h.owner
  rests := .refl
  began hn := by
    obtain ⟨a, b, firing, way, same, rests, here⟩ :=
      h.began ((changes_of_rests h.rests).extends.1.plainNames hn)
    refine ⟨a, b, firing, way, same.trans h.keeps, rests.trans h.rests, ?_⟩
    rw [h.state]
    exact here.rests h.rests

end Poised

/-- A firing that is opened where its model is on its way. -/
theorem poised_opened {firing : Firing} {a : String} (hw : Ready m w) (hbusy : (w.machine m).line.inFlight = true)
    (made : firing.event < w.events.next) (owner : (w.events.get firing.event).machine = m)
    (hm : firing.machine = m) (hx : firing.model = .model x) (way : Journey m x start origin w a)
    (here : w.In m x a firing.state) :
    Poised m x start origin w.firings.next (w.opened firing) (w.opened firing) := by
  have got : (w.opened firing).firings.get w.firings.next = firing := by simp [World.opened]
  have opened : Rests m x w (w.opened firing) := rests_aside ⟨rfl, rfl, rfl, rfl⟩ rfl (fun _ => rfl)
  refine ⟨hw.later (changes_opened w firing), hbusy, by simp [World.opened], .refl _, rfl, ?_, ?_, ?_, ?_, .refl,
    fun _ => ?_⟩ <;> rw [got]
  · exact hm
  · exact hx
  · exact made
  · exact owner
  · exact ⟨a, w, firing, way, .refl _, .refl, here.stay opened⟩

/-- A transition is among the candidates that a firing finds. -/
def Proposes (z : World) (i : FiringId) (t : TransitionId) : Prop :=
  ∃ ts, (z.events.get (z.firings.get i).event).candidates.find? (z.states.get (z.firings.get i).state).name =
    some ts ∧ t ∈ ts

theorem name_of_lookup (hw : w.Regular) (hn : w.PlainNames m) {a : String} {s : StateId}
    (h : w.lookupState m (.text a) = .ok s) : (w.states.get s).name = .text a := by
  obtain ⟨b, hb, -, hmem⟩ := lookupState_text hn h
  cases hb
  exact hw.filed m hn _ hmem

/-- A transition that a firing finds is offered from the state in which the firing was opened, and leads to a
registered state unless it leads nowhere. -/
theorem Poised.offers (h : Poised m x start origin i z w) (ht : z.Proposes i t) (hn : z.PlainNames m)
    (hu : Changes z u) (hd : (u.transitions.get t).dest ≠ .null) :
    ∃ a b firing d s, Journey m x start origin b a ∧ firing.machine = m ∧ firing.model = .model x ∧
      ReflTransGen (Rests m x) (b.opened firing) z ∧ z.Offers m firing.event a d ∧
      (u.transitions.get t).dest = .text d ∧ z.lookupState m (.text d) = .ok s ∧
      z.In m x a (z.firings.get i).state := by
  obtain ⟨a, b, firing, way, same, rests, here⟩ := h.began hn
  obtain ⟨ts, found, hmem⟩ := ht
  have regular := h.toReady.reachable.regular
  have leads := regular.leads hn h.owner here.found found t hmem
  obtain ⟨a', source, lookup⟩ := leads.source
  have name := name_of_lookup regular hn lookup
  rw [here.named] at name
  cases name
  have made : t < z.transitions.next := by
    refine Nat.lt_of_not_le (fun hle => ?_)
    rw [Heap.get_of_next_le hle] at source
    cases source
  have kept := (hu.extends.1.moves t made).2
  rw [kept] at hd
  obtain ⟨d, s, dest, target⟩ := leads.dest.resolve_left hd
  refine ⟨a, b, firing, d, s, way, same.machine.symm.trans h.machine, same.model.symm.trans h.model, rests, ?_,
    kept.trans dest, target, here⟩
  rw [here.named, same.event] at found
  exact ⟨same.event ▸ h.owner, ts, t, found, hmem, source, dest⟩

/-- Putting a model into a state changes nothing that is registered. -/
theorem aside_relocate (n : MachineId) (dest : Value) (i : FiringId) (w : World) :
    Aside w (Engine.relocate n dest i w).2 := by
  have goes : Act.Goes True Aside (Engine.relocate n dest i) := by
    refine Engine.goes_relocate_of (fun w => ?_) (fun w d => .single ⟨rfl, rfl, rfl, rfl⟩)
    refine .of_steps (((Engine.walks_place n dest _).mono (fun u v h => ?_)) w)
    rw [show v = _ from h]
    exact .single ⟨rfl, rfl, rfl, rfl⟩
  have steps := (goes w).all
  generalize (Engine.relocate n dest i w).2 = v at steps
  induction steps with
  | refl => exact ⟨rfl, rfl, rfl, rfl⟩
  | tail _ step ih =>
    exact ⟨step.states.trans ih.states, step.transitions.trans ih.transitions, step.events.trans ih.events,
      step.machines.trans ih.machines⟩

/-- When a firing that has not moved its model puts it where one of its candidates leads, this is a move of the way. -/
theorem Poised.relocate (h : Poised m x start origin i z w) (ht : z.Proposes i t) (hu : Changes z u)
    (hd : (u.transitions.get t).dest ≠ .null) :
    (Engine.relocate m (u.transitions.get t).dest i w).2.Settled m x (OnWay m x start origin) := by
  have aside := aside_relocate m (u.transitions.get t).dest i w
  refine ⟨h.ready.later aside.steps, ?_, fun hn => ?_⟩
  · rw [World.machine, aside.machines]
    exact h.busy
  have changes := changes_of_rests h.rests
  have plain : z.PlainNames m := (Changes.extends (changes.trans aside.steps)).1.plainNames hn
  obtain ⟨a, b, firing, d, s, way, machine, model, ahead, offered, dest, target, here⟩ :=
    h.offers ht plain hu hd
  rw [dest] at aside ⊢
  have found : w.lookupState m (.text d) = .ok s := changes.lookup_text target
  have shows' : w.Shows m i x (z.firings.get i).state (w.states.get (z.firings.get i).state).value :=
    ⟨(here.rests h.rests).held, h.state⟩
  obtain ⟨v, hv, moved, -⟩ := Engine.relocate_shows shows' (h.keeps.model.trans h.model) found
  have arrived : v.In m x d s := by
    rw [hv] at aside
    have lookup : v.lookupState m (.text d) = .ok s := Change.lookup_text (.aside aside) found
    refine ⟨?_, lookup, ?_⟩
    · have named := name_of_lookup h.toReady.reachable.regular plain target
      rw [aside.states, changes.extends.1.names s (lt_of_name_text named), named]
    · rw [aside.states]
      exact moved.model
  rw [hv] at aside ⊢
  exact ⟨d, .move way machine model ahead offered h.rests (.aside aside) arrived⟩

end World

namespace Engine

variable (hE : E.Goes True (Regards m x (OnWay m x start origin)))

include hE

theorem settled_changeState (h : Poised m x start origin i z w) (ht : z.Proposes i t) (hu : Changes z u)
    (hd : (u.transitions.get t).dest ≠ .null) (source : Value) :
    (E.changeState m source (u.transitions.get t).dest i w).2.Settled m x (OnWay m x start origin) := by
  refine ends_bind (by rw [ask_apply]; exact h.settled) (fun s w' hs _ => ?_)
  obtain ⟨-, rfl⟩ := ok_of_ask hs
  have left := h.run (hE.runStage m s .exit i w')
  refine ends_bind left.settled (fun _ v hv _ => ?_)
  rw [hv] at left
  exact ends_bind (left.relocate ht hu hd) (fun d u _ moved => moved.run (hE.runStage m d .enter i u))

theorem settled_carryOut (h : Poised m x start origin i z w) (ht : z.Proposes i t) (hu : Changes z u) :
    (E.carryOut m t (u.transitions.get t) i w).2.Settled m x (OnWay m x start origin) := by
  have before := h.run (hE.runCallbacks m ((w.machine m).beforeChange ++ (w.transitions.get t).before) i w)
  unfold carryOut
  rw [bind_of_ok (get_apply w)]
  refine ends_bind before.settled (fun _ v hv _ => ?_)
  rw [hv] at before
  have remarked := before.run (hE.remark m .debug .transition "Executed callback before transition." v)
  refine ends_bind remarked.settled (fun _ v' hv' _ => ?_)
  rw [hv'] at remarked
  refine ends_bind ?_ (fun _ v'' _ moved => ?_)
  · unfold moveAlong
    split
    · exact remarked.settled
    · rename_i external
      exact settled_changeState hE remarked ht hu (fun none => external (by rw [Transition.internal, none])) _
  · refine moved.run (Goes.bind .get (fun y => .bind (hE.runCallbacks m _ i) (fun _ => hE.remark _ _ _ _)) v'')

/-- Running a candidate leaves the model on its way, and where it was if the guards do not let the firing pass. -/
theorem settled_execute (h : Poised m x start origin i z w) (ht : z.Proposes i t) :
    (E.execute t i w).2.Settled m x (OnWay m x start origin) ∧
      ∀ v, E.execute t i w = (.ok false, v) → Poised m x start origin i z v := by
  have owner : (w.firings.get i).machine = m := h.keeps.machine.trans h.machine
  obtain ⟨weigh, hweigh⟩ : ∃ weigh : Run Bool, weigh = (do
      StateEngine.remark m .debug .transition ("Initiating transition from state " ++
        (w.transitions.get t).source.display ++ " to state " ++ (w.transitions.get t).dest.display ++ "...")
      E.runGrowing m (fun w => (w.transitions.get t).prepare) i E.bound 0
      StateEngine.remark m .debug .transition "Executed callbacks before conditions."
      E.checkAll m i ((← get).transitions.get t).guards) := ⟨_, rfl⟩
  have executed : E.execute t i w = (weigh >>= fun passed => if passed then (do
      E.carryOut m t (w.transitions.get t) i
      return true) else return false) w := by
    unfold execute
    rw [bind_of_ok (get_apply w), hweigh, ← owner]
    simp only [bind_assoc]
  have weighed : Poised m x start origin i z (weigh w).2 := by
    rw [hweigh]
    refine h.run (Goes.bind (hE.remark _ _ _ _) (fun _ => .bind (hE.runGrowing _ _ _ _ _) (fun _ => ?_)) w)
    exact .bind (hE.remark _ _ _ _) (fun _ => .bind .get (fun v => hE.checkAll _ _ _))
  rw [executed]
  rcases hw : weigh w with ⟨e | passed, v⟩ <;> rw [hw] at weighed
  · rw [bind_of_error hw]
    exact ⟨weighed.settled, fun _ hv => by cases hv⟩
  · rw [bind_of_ok hw]
    cases passed with
    | false => exact ⟨weighed.settled, fun _ hv => (Prod.mk.inj hv).2 ▸ weighed⟩
    | true =>
      have carried := settled_carryOut hE weighed ht (changes_of_rests h.rests)
      refine ⟨ends_bind carried (fun _ _ _ moved => moved), fun u hu => ?_⟩
      rw [if_pos rfl, bind_apply] at hu
      split at hu <;> cases hu

theorem settled_tryCandidates (h : Poised m x start origin i z w) {ts : List TransitionId}
    (ht : ∀ t ∈ ts, z.Proposes i t) : (E.tryCandidates i ts w).2.Settled m x (OnWay m x start origin) := by
  have noted (v : World) (f : Firing → Firing) (hf : Firing.Notes f) :
      GoesFrom True (Regards m x (OnWay m x start origin)) v (Act.change (World.updateFiring i f)) :=
    Goes.change (fun v => steps_note (endures_onWay m x start origin) v i hf) v
  induction ts generalizing w with
  | nil => exact h.settled
  | cons t ts ih =>
    have tried := h.run (noted w (fun f => { f with transition := some t }) (fun _ => ⟨_, _, _, rfl⟩))
    refine ends_bind tried.settled (fun _ v hv _ => ?_)
    rw [hv] at tried
    obtain ⟨executed, declined⟩ := settled_execute hE tried (ht t List.mem_cons_self)
    refine ends_bind executed (fun fired u hu moved => ?_)
    cases fired with
    | true => exact moved.run (noted u _ (fun _ => ⟨_, _, _, rfl⟩))
    | false => exact ih (declined u hu) (fun t' ht' => ht t' (List.mem_cons_of_mem _ ht'))

theorem settled_attemptMoves (h : Poised m x start origin i z w) :
    (E.attemptMoves m i w).2.Settled m x (OnWay m x start origin) := by
  have prepared := h.run (hE.runCallbacks m (w.machine m).prepareEvent i w)
  unfold attemptMoves
  rw [bind_of_ok (get_apply w)]
  refine ends_bind prepared.settled (fun _ v hv _ => ?_)
  rw [hv] at prepared
  have remarked := prepared.run (hE.remark m .debug .event
    "Executed machine preparation callbacks before conditions." v)
  refine ends_bind remarked.settled (fun _ u hu _ => ?_)
  rw [hu] at remarked
  cases found : (u.events.get (u.firings.get i).event).candidates.find?
      (u.states.get (u.firings.get i).state).name with
  | some ts =>
    rw [bind_of_ok (candidatesFor_apply found)]
    exact settled_tryCandidates hE remarked.anew (fun t ht => ⟨ts, found, ht⟩)
  | none =>
    -- asking for the candidates files the state, which has none
    have asked : candidatesFor i u = (.ok [], u.updateEvent (u.firings.get i).event (fun e =>
        { e with candidates := e.candidates.insert (u.states.get (u.firings.get i).state).name [] })) := by
      unfold candidatesFor
      rw [bind_of_ok (get_apply u)]
      simp only [found]
      rfl
    have filed : GoesFrom True (Regards m x (OnWay m x start origin)) u (Act.change
        (World.updateEvent (u.firings.get i).event (fun e =>
          { e with candidates := e.candidates.insert (u.states.get (u.firings.get i).state).name [] }))) :=
      .of_steps ((grants_bearing (endures_onWay m x start origin)).fileSource ⟨rfl, rfl, found⟩)
    rw [bind_of_ok asked]
    exact (remarked.run filed).settled

/-- However a firing goes that was opened where its model was on its way, the model is on its way when it is over. -/
theorem settled_processFiring (h : Poised m x start origin i w w) :
    (E.processFiring i w).2.Settled m x (OnWay m x start origin) := by
  have noted (v : World) (f : Firing → Firing) (hf : Firing.Notes f) :
      GoesFrom True (Regards m x (OnWay m x start origin)) v (Act.change (World.updateFiring i f)) :=
    Goes.change (fun v => steps_note (endures_onWay m x start origin) v i hf) v
  have attempted := settled_attemptMoves hE h
  unfold processFiring
  rw [bind_of_ok (get_apply w)]
  simp only [h.machine]
  refine ends_bind ?_ (fun ended v _ moved => ?_)
  · rw [attempt_snd]
    exact attempted
  · refine ends_bind (moved.run ?_) (fun _ u _ moved => moved.run ?_)
    · cases ended with
      | ok _ => exact Goes.pure _ v
      | error f => exact Goes.ite (fun v => noted v _ (fun _ => ⟨_, _, _, rfl⟩)) (.pure _) v
    · exact Goes.bind .get (fun y => .bind (hE.runCallbacks _ _ i) (fun _ => .bind (hE.remark _ _ _ _) (fun _ =>
        .bind (.ofExcept ended) (fun _ => .bind .get (fun _ => .pure _))))) u

/-- However an event is fired on a model that is on its way, the model is on its way when it is over. -/
theorem settled_fireNow {e : EventId} {args : List Value} {named : Named} (hw : Ready m w)
    (hbusy : (w.machine m).line.inFlight = true) (made : e < w.events.next) (owner : (w.events.get e).machine = m)
    (h : OnWay m x start origin w) :
    (E.fireNow e (.model x) args named w).2.Settled m x (OnWay m x start origin) := by
  obtain ⟨a, way⟩ := h
  obtain ⟨s, here⟩ := way.at_state
  have settled : w.Settled m x (OnWay m x start origin) := ⟨hw, hbusy, fun _ => ⟨a, way⟩⟩
  obtain ⟨v, hv, -⟩ := currentState_holds (E := E) here.held here.lookup_value
  have asked := (hE.currentState m (.model x) w).bears (fun _ => trivial) hw (fun _ => trivial)
  rw [hv] at asked
  have looked := settled.later asked
  have rests := (asked.rests trivial hbusy).1
  unfold fireNow
  rw [bind_of_ok (get_apply w)]
  simp only [owner]
  rw [bind_of_ok hv, bind_of_ok (get_apply v)]
  split
  · obtain ⟨firing, hfiring⟩ : ∃ firing : Firing, firing =
        { state := s, event := e, machine := m, model := .model x, args, named } := ⟨_, rfl⟩
    rw [← hfiring]
    have poised : Poised m x start origin v.firings.next (v.opened firing) (v.opened firing) := by
      refine poised_opened looked.toReady looked.busy ?_ ?_ ?_ ?_ (way.rests rests) ?_ <;> rw [hfiring]
      · exact Nat.lt_of_lt_of_le made asked.changes.grows.2.1
      · exact (asked.changes.owner made).trans owner
      · exact here.rests rests
    rw [bind_of_ok (set_apply _ _)]
    exact settled_processFiring hE poised
  · refine looked.run (Goes.ite (.bind (hE.remark _ _ _ _) (fun _ => .pure _)) (.fail _) v)

end Engine

section Carrying

variable {cut : Prop}

/-- What is borne with whatever becomes of the state of the model. -/
abbrev Carries (m : MachineId) (x : String) : World → World → Prop :=
  Bearing m x (fun _ => True) (fun _ => True) False

theorem endures_nothing (m : MachineId) (x : String) : Endures m x (fun _ => True) := fun _ _ _ _ => trivial

theorem carries_of_aside (h : Aside w v) (hr : v.rosters = w.rosters)
    (hf : ∀ i < w.firings.next, i < v.firings.next ∧ (w.firings.get i).Keeps (v.firings.get i)) :
    ReflTransGen (Carries m x) w v := by
  refine .single (Bears.bearing ⟨h.steps, hf, fun r hr' => ?_, fun n _ hbusy => ?_, False.elim, fun _ _ => trivial⟩)
  · rw [hr]
    exact ⟨hr', fun _ hy _ => hy⟩
  · rw [World.machine, World.machine, h.machines]
    exact ⟨.refl hbusy, fun _ htask => .inl htask⟩

theorem goes_relocate_carried (n : MachineId) (dest : Value) (i : FiringId) :
    Act.Goes cut (Carries m x) (Engine.relocate n dest i) := by
  refine Engine.goes_relocate_of (fun w => .of_steps (((Engine.walks_place n dest _).mono (fun u v h => ?_)) w))
    (fun w d => carries_of_aside ⟨rfl, rfl, rfl, rfl⟩ rfl (fun j hj => ?_))
  · rw [show v = _ from h]
    exact carries_of_aside ⟨rfl, rfl, rfl, rfl⟩ rfl (fun j hj => ⟨hj, .refl _⟩)
  · refine ⟨Nat.lt_of_lt_of_le hj (Heap.next_le_next_modify _ _ _), ?_⟩
    simp only [updateFiring, Heap.get_modify]
    split <;> exact ⟨rfl, rfl, rfl⟩

theorem goes_fireNow_carried (hE : E.Goes cut (Carries m x)) (e : EventId) (y : Value) (args : List Value)
    (named : Named) : Act.Goes cut (Carries m x) (E.fireNow e y args named) := by
  have hG : Grants (fun _ _ => True) (Carries m x) := grants_bearing (endures_nothing m x)
  refine fun w => hE.fireNow (fun v s firing _ => .set_bind (hG.openFiring v firing) (Engine.Goes.processFiring
    (fun w f hf => steps_note (endures_nothing m x) w _ hf) hE (fun t w => hE.execute (goes_relocate_carried _ _ _))
    hG.fileSource _))

theorem carries_of_regards (h : Regards m x T w v) : Carries m x w v := fun hw =>
  ⟨⟨(h hw).1.changes, (h hw).1.firings, (h hw).1.rosters, (h hw).1.lines, False.elim, fun _ _ => trivial⟩, (h hw).2⟩

end Carrying

/-- The firings of a machine on a model keep it on its way. -/
theorem Engine.Goes.moves (hE : E.Goes True (Regards m x (OnWay m x start origin))) :
    E.Moves True m x (OnWay m x start origin) := by
  refine fun w e args named hbusy made owner => .single (fun _ hw => ?_)
  have carried := (goes_fireNow_carried (hE.mono (fun _ _ h => .single (carries_of_regards h))) e (.model x) args named
    w).bears (fun _ => trivial) hw (fun _ => trivial)
  refine ⟨{ carried with rests := False.elim, way := fun hn h => ?_ }, hw.later carried.changes⟩
  exact (Engine.settled_fireNow hE hw hbusy made owner h).way hn

end StateEngine
