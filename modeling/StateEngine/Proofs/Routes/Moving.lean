import StateEngine.Proofs.Firing.Ringing
import StateEngine.Proofs.Journey.History
import StateEngine.Proofs.Routes.Requests

/-! Firing the trigger of a state moves a model there from any state, whatever callbacks do meanwhile, unless one of
them fails. -/
namespace StateEngine
open Act World Relation

/-- A model is moved into a state once, between callbacks none of which fails. -/
def Crosses (m : MachineId) (x b : String) (xs : List Moment) : Prop :=
  ∃ before y behind d, xs = before ++ y :: behind ∧ AllRung before ∧ AllRung behind ∧ y.cue = .move (.text b) ∧
    (∃ v, y.outcome = .ok v) ∧ y.after.In m x b d

theorem Crosses.after {m : MachineId} {x b : String} {xs ys : List Moment} (h : Crosses m x b ys) (hx : AllRung xs) :
    Crosses m x b (xs ++ ys) := by
  obtain ⟨before, y, behind, d, rfl, hb, hbehind, hy⟩ := h
  exact ⟨xs ++ before, y, behind, d, (List.append_assoc ..).symm, hx.append hb, hbehind, hy⟩

theorem Crosses.ahead {m : MachineId} {x b : String} {xs ys : List Moment} (h : Crosses m x b xs) (hy : AllRung ys) :
    Crosses m x b (xs ++ ys) := by
  obtain ⟨before, y, behind, d, rfl, hb, hbehind, hmove⟩ := h
  exact ⟨before, y, behind ++ ys, d, by rw [List.append_assoc]; rfl, hb, hbehind.append hy, hmove⟩

namespace World

variable {host : Host} {m : MachineId} {i : FiringId} {e : EventId} {x a b : String} {w v : World}

/-- Where a machine keeps the state of a model, no property is in the way. -/
def Writable (w : World) (m : MachineId) (x : String) : Prop :=
  ∀ name, (w.machine m).accessor = .field name → (w.model x).properties.find? name = none

theorem Holds.writable {c : Value} (h : w.Holds m x c) : w.Writable m x := by
  intro name hname
  unfold Holds at h
  rw [hname] at h
  exact h.1

/-- A firing of the trigger of a state, for a model that it found in another one. -/
structure Headed (host : Host) (m : MachineId) (x a b : String) (i : FiringId) (e : EventId) (w : World) : Prop where
  tended : w.Tended host m (some i)
  machine : (w.firings.get i).machine = m
  model : (w.firings.get i).model = .model x
  event : (w.firings.get i).event = e
  state : (w.states.get (w.firings.get i).state).name = .text a
  listed : (w.machine m).events.find? (toTrigger b) = some e
  source : .text a ∈ (w.machine m).states.keys
  key : .text b ∈ (w.machine m).states.keys
  dest : ∃ d, w.lookupState m (.text b) = .ok d ∧ (w.states.get d).name = .text b
  writable : w.Writable m x

theorem made_of_key {k : Value} (h : k ∈ (w.machine m).states.keys) : m < w.machines.next := by
  refine Nat.lt_of_not_le (fun hle => ?_)
  rw [World.machine, Heap.get_of_next_le hle] at h
  cases h

/-- Callbacks leave a firing headed where it was. -/
theorem Headed.later (h : w.Headed host m x a b i e) (steps : ReflTransGen (Tending host m (some i)) w v) :
    v.Headed host m x a b i e := by
  obtain ⟨retained, tended⟩ := Under.steps steps h.tended
  have kept := retains_of_steps retained
  have same := (kept.firing i rfl (h.tended.opened i rfl)).2
  obtain ⟨d, found, named⟩ := h.dest
  refine ⟨tended, same ▸ h.machine, same ▸ h.model, same ▸ h.event, ?_, kept.events b e h.listed,
    kept.changes.extends.1.keys m _ h.source, kept.changes.extends.1.keys m _ h.key,
    ⟨d, Changes.lookup_text kept.changes found, ?_⟩, ?_⟩
  · rw [same, kept.changes.extends.1.names _ (lt_of_name_text h.state)]
    exact h.state
  · exact (kept.changes.extends.1.names d (lt_of_name_text named)).trans named
  · intro name hname
    rw [kept.changes.accessor.2 m (made_of_key h.source)] at hname
    rw [kept.properties]
    exact h.writable name hname

/-- How the firing itself goes on does not matter to where it is headed. -/
theorem Headed.noted (h : w.Headed host m x a b i e) {f : Firing → Firing} (hf : Firing.Notes f) :
    (w.updateFiring i f).Headed host m x a b i e := by
  obtain ⟨transition, fault, result, hi⟩ := hf (w.firings.get i)
  have same : (w.updateFiring i f).firings.get i = f (w.firings.get i) := by simp [updateFiring]
  have tended : (w.updateFiring i f).Tended host m (some i) :=
    h.tended.beside ⟨rfl, rfl, rfl, rfl⟩ (fun _ => rfl)
      (fun k hk => Nat.lt_of_lt_of_le (h.tended.opened k hk) (Heap.next_le_next_modify _ _ _))
  refine ⟨tended, ?_, ?_, ?_, ?_, h.listed, h.source, h.key, h.dest, h.writable⟩
  · rw [same, hi]
    exact h.machine
  · rw [same, hi]
    exact h.model
  · rw [same, hi]
    exact h.event
  · rw [same, hi]
    exact h.state

/-- The route between the two states is the only candidate. -/
theorem Headed.candidate (h : w.Headed host m x a b i e) (hn : w.WellNamed m) :
    ∃ t, Engine.candidatesFor i w = (.ok [t], w) ∧ w.transitions.get t = route (.text a) (.text b) := by
  obtain ⟨e', listed, spans⟩ := (h.tended.linked hn).leads b h.key
  obtain rfl : e = e' := Option.some.inj (h.listed.symm.trans listed)
  obtain ⟨t, only, leads⟩ := spans.found a h.source
  refine ⟨t, ?_, leads⟩
  unfold Engine.candidatesFor
  rw [bind_of_ok (get_apply w)]
  simp only [h.event, h.state, only]
  rfl

/-- The model of a firing is put into the state that is registered under a name. -/
theorem relocate_in {d : StateId} (model : (w.firings.get i).model = .model x)
    (found : w.lookupState m (.text b) = .ok d) (named : (w.states.get d).name = .text b) (writable : w.Writable m x) :
    ∃ v, Engine.relocate m (.text b) i w = (.ok d, v) ∧ v.In m x b d := by
  obtain ⟨u, wrote⟩ : ∃ u, Engine.writeState m (.model x) (w.states.get d).value w = (.ok (), u) := by
    unfold Engine.writeState
    rw [bind_of_ok (get_apply w)]
    cases hacc : (w.machine m).accessor with
    | field name =>
      have free := writable name hacc
      have written : w.writeAttribute (.model x) name (w.states.get d).value = .ok (w.updateModel x (fun model =>
          { model with attributes := model.attributes.insert name (w.states.get d).value })) := by
        simp [writeAttribute, Table.contains, free]
      exact ⟨_, advance_ok written⟩
    | ledger name id => exact ⟨_, rfl⟩
  obtain ⟨held, written⟩ := holds_of_writeState wrote
  have found' : u.lookupState m (.text b) = .ok d := by
    rw [show u = _ from written]
    exact found
  have states : u.states = w.states := by rw [show u = _ from written]
  have asked : (Act.ask (fun w => w.stateFor m (.text b)) : Run StateId) w = (.ok d, w) := by
    rw [ask_apply, show w.stateFor m (.text b) = _ from found]
    rfl
  have placed : Engine.place m (.text b) (.model x) w = (.ok (), u) := by
    unfold Engine.place
    rw [bind_of_ok asked, bind_of_ok (get_apply w)]
    exact bind_of_ok wrote
  refine ⟨u.updateFiring i (fun f => { f with state := d }), ?_, ?_, found', ?_⟩
  · unfold Engine.relocate
    rw [bind_of_ok (get_apply w), model, bind_of_ok placed]
    have asked' : (Act.ask (fun w => w.stateFor m (.text b)) : Run StateId) u = (.ok d, u) := by
      rw [ask_apply, show u.stateFor m (.text b) = _ from found']
      rfl
    rw [bind_of_ok asked', bind_of_ok (change_apply _ u), ask_apply]
    exact congrArg (fun r : Except Fault StateId => (r.mapError Stop.fault, _)) found'
  · show (u.states.get d).name = _
    rw [states]
    exact named
  · have held' : (u.updateFiring i (fun f => { f with state := d })).Holds m x (w.states.get d).value := held
    show Holds _ m x (u.states.get d).value
    rw [states]
    exact held'

/-- The model is put into the state that it is headed for. -/
theorem Headed.relocated (h : w.Headed host m x a b i e) :
    ∃ d v, Engine.relocate m (.text b) i w = (.ok d, v) ∧ v.In m x b d := by
  obtain ⟨d, found, named⟩ := h.dest
  exact ⟨d, relocate_in h.model found named h.writable⟩

end World

namespace Engine

variable {host : Host} {bound depth : Nat} {m : MachineId} {i : FiringId} {e : EventId} {x a b : String} {w : World}

theorem Rings.behind_callbacks {α β : Type} {y : Run α} {k : α → Run β} {E : Engine} (hy : E.Rings m i AllRung w y)
    (hk : ∀ r t, y w = (.ok r, t) → E.Rings m i (Crosses m x b) t (k r)) :
    E.Rings m i (Crosses m x b) w (y >>= k) :=
  hy.bind hk (fun _ _ rung crosses => crosses.after rung)

theorem Rings.ahead_of_callbacks {α β : Type} {y : Run α} {k : α → Run β} {E : Engine}
    (hy : E.Rings m i (Crosses m x b) w y) (hk : ∀ r t, y w = (.ok r, t) → E.Rings m i AllRung t (k r)) :
    E.Rings m i (Crosses m x b) w (y >>= k) :=
  hy.bind hk (fun _ _ crosses rung => crosses.ahead rung)

section Moving

variable (hE : (ofHost host bound depth).Goes False (Tending host m (some i)))

include hE

theorem rings_changeState (h : w.Headed host m x a b i e) :
    (ofHost host bound depth).Rings m i (Crosses m x b) w
      ((ofHost host bound depth).changeState m (.text a) (.text b) i) := by
  obtain ⟨s, found⟩ := lookupState_key h.source
  have asked : (Act.ask (fun w => w.lookupState m (.text a)) : Run StateId) w = (.ok s, w) := by
    rw [ask_apply, found]
    rfl
  refine .bind_same asked (.behind_callbacks (rings_runStage s .exit w) (fun _ t left => ?_))
  obtain ⟨d, v, moved, here⟩ := (h.later (((hE.runStage m s .exit i) w).steps_of_ok left)).relocated
  have crossed : (ofHost host bound depth).Rings m i (Crosses m x b) t (relocate m (.text b) i) :=
    (rings_relocate moved).mono (fun xs hxs => ⟨[], _, [], d, hxs, .nil, .nil, rfl, ⟨.null, rfl⟩, here⟩)
  exact crossed.ahead_of_callbacks (fun d' v' _ => rings_runStage d' .enter v')

theorem rings_carryOut (h : w.Headed host m x a b i e) (t : TransitionId) :
    (ofHost host bound depth).Rings m i (Crosses m x b) w
      ((ofHost host bound depth).carryOut m t (route (.text a) (.text b)) i) := by
  refine .bind_same (get_apply w) (.behind_callbacks (rings_runCallbacks _ w) (fun _ t ran => ?_))
  have steps := ((hE.runCallbacks m _ i) w).steps_of_ok ran
  refine .remark_bind (fun v hv => ?_)
  have ready : v.Headed host m x a b i e := h.later (steps.trans (hv ▸ hE.record t _))
  refine .ahead_of_callbacks (rings_changeState hE ready) (fun _ u _ => .bind_same (get_apply u) ?_)
  exact .bind (rings_runCallbacks _ u) (fun _ _ _ => .remark .nil _ _ _ _)
    (fun _ _ => AllRung.append)

/-- Nothing comes ahead of a route. -/
theorem rings_execute (h : w.Headed host m x a b i e) {t : TransitionId}
    (ht : w.transitions.get t = route (.text a) (.text b)) :
    (ofHost host bound depth).Rings m i (Crosses m x b) w ((ofHost host bound depth).execute t i) := by
  unfold Engine.execute
  refine .bind_same (get_apply w) ?_
  simp only [h.machine, ht]
  refine .remark_bind (fun v hv => ?_)
  have ready : v.Headed host m x a b i e := h.later (hv ▸ hE.record w _)
  have kept : v.transitions = w.transitions := by rw [hv]; rfl
  have prepared : (ofHost host bound depth).runGrowing m (fun w => (w.transitions.get t).prepare) i
      (ofHost host bound depth).bound 0 v = (.error .exhausted, v) ∨
      (ofHost host bound depth).runGrowing m (fun w => (w.transitions.get t).prepare) i
        (ofHost host bound depth).bound 0 v = (.ok (), v) := by
    cases (ofHost host bound depth).bound with
    | zero => exact .inl rfl
    | succ fuel =>
      refine .inr ?_
      unfold Engine.runGrowing
      rw [bind_of_ok (get_apply v)]
      simp only [kept, ht]
      rfl
  rcases prepared with cut | prepared
  · intro r u hr ended
    rw [bind_of_error cut] at hr
    exact absurd (Prod.mk.inj hr).1.symm ended
  · refine .bind_same prepared (.remark_bind (fun v' hv' => ?_))
    have ready' : v'.Headed host m x a b i e := ready.later (hv' ▸ hE.record v _)
    have kept' : v'.transitions.get t = route (.text a) (.text b) := by rw [hv']; exact kept ▸ ht
    refine .bind_same (get_apply v') (.bind_same (a := true) ?_ ?_)
    · simp only [kept']
      rfl
    · exact .ahead_of_callbacks (rings_carryOut hE ready' t) (fun _ _ _ => .pure .nil _)

theorem rings_tryCandidates (h : w.Headed host m x a b i e) {t : TransitionId}
    (ht : w.transitions.get t = route (.text a) (.text b)) :
    (ofHost host bound depth).Rings m i (Crosses m x b) w ((ofHost host bound depth).tryCandidates i [t]) := by
  refine .bind_quiet (x := Act.change (updateFiring i (fun f => { f with transition := some t }))) rfl
    (quiet_progress ⟨_, _, _, rfl⟩) ?_
  refine .ahead_of_callbacks (rings_execute hE (h.noted (fun _ => ⟨_, _, _, rfl⟩)) ht) (fun fired v _ => ?_)
  split
  · rintro r u hr -
    obtain ⟨rfl, rfl⟩ := Prod.mk.inj hr
    exact ⟨[], .single_quiet (quiet_progress ⟨_, _, _, rfl⟩), .inl ⟨⟨(), rfl⟩, .nil⟩⟩
  · exact .pure .nil _

/-- Up to its end a firing moves the model, if nothing has been registered meanwhile that is not well named. -/
theorem attemptMoves_crosses (hC : (ofHost host bound depth).Walks Change) (h : w.Headed host m x a b i e)
    {r : Except Stop Unit} {u : World} (hr : (ofHost host bound depth).attemptMoves m i w = (r, u))
    (ended : r ≠ .error .exhausted) (hn : u.WellNamed m) :
    ∃ xs, (ofHost host bound depth).Conducts m i w xs u ∧
      ((∃ a, r = .ok a) ∧ Crosses m x b xs ∨ ∃ f, r = .error (.fault f) ∧ ∃ z ∈ xs, z.Failed f) := by
  have begun : (ofHost host bound depth).attemptMoves m i w =
      ((ofHost host bound depth).runCallbacks m (w.machine m).prepareEvent i >>= fun _ =>
        StateEngine.remark m .debug .event "Executed machine preparation callbacks before conditions." >>= fun _ =>
          candidatesFor i >>= (ofHost host bound depth).tryCandidates i) w := rfl
  rw [begun] at hr
  refine Rings.behind_callbacks (rings_runCallbacks _ w) (fun _ t ran => ?_) r u hr ended
  have ready := h.later (((hE.runCallbacks m _ i) w).steps_of_ok ran)
  -- what has been registered when the candidates are looked up is still there in the end
  have named : t.WellNamed m := by
    rw [bind_of_ok ran] at hr
    have walks : Act.Walks Change (StateEngine.remark m .debug .event
        "Executed machine preparation callbacks before conditions." >>= fun _ =>
          candidatesFor i >>= (ofHost host bound depth).tryCandidates i) :=
      .bind (hC.remark _ _ _ _) (fun _ => .bind (walks_candidatesFor permits_checked i)
        (fun ts => hC.tryCandidates (fun _ _ => Aside.steps ⟨rfl, rfl, rfl, rfl⟩) permits_checked ts))
    exact hn.earlier (walks.steps hr)
  refine .remark_bind (fun v hv => ?_)
  have ready' : v.Headed host m x a b i e := ready.later (hv ▸ hE.record t _)
  obtain ⟨t', only, leads⟩ := ready'.candidate (by rw [hv]; exact named)
  exact .bind_same only (rings_tryCandidates hE ready' leads)

/-- A firing moves the model, unless a callback fails ahead of the move or behind it. -/
theorem processFiring_crosses (hC : (ofHost host bound depth).Walks Change) (h : w.Headed host m x a b i e)
    {r : Except Stop Value} {u : World} (hr : (ofHost host bound depth).processFiring i w = (r, u))
    (ended : r ≠ .error .exhausted) (hn : u.WellNamed m) :
    ∃ (xs : List Moment) (verdict : Except Fault Value), r = verdict.mapError .fault ∧
      (ofHost host bound depth).Conducts m i w xs u ∧
      ((∃ c, verdict = .ok c) ∧ Crosses m x b xs ∨ ∃ f, verdict = .error f ∧ ∃ z ∈ xs, z.Failed f) := by
  have noted (u : World) (f : Firing → Firing) : Changes u (u.updateFiring i f) := Aside.steps ⟨rfl, rfl, rfl, rfl⟩
  have begun : (ofHost host bound depth).processFiring i w = ((ofHost host bound depth).attemptMoves m i).attempt.bind
      (fun rest => noteError i rest >>= fun _ => (ofHost host bound depth).closeFiring m i rest) w := by
    unfold Engine.processFiring
    rw [bind_of_ok (get_apply w), h.machine]
    rfl
  rw [begun] at hr
  replace hr : (((ofHost host bound depth).attemptMoves m i).attempt >>=
      (fun rest => noteError i rest >>= fun _ => (ofHost host bound depth).closeFiring m i rest)) w = (r, u) := hr
  rcases ha : (ofHost host bound depth).attemptMoves m i w with ⟨came, v⟩
  by_cases cut : came = .error .exhausted
  · subst cut
    rw [bind_of_error (attempt_exhausted ha)] at hr
    exact absurd (Prod.mk.inj hr).1.symm ended
  obtain ⟨rest, rfl⟩ := Stop.exists_of_ne_exhausted cut
  rw [bind_of_ok (attempt_apply ha)] at hr
  have named : v.WellNamed m := by
    have walks : Act.Walks Change (noteError i rest >>= fun _ => (ofHost host bound depth).closeFiring m i rest) :=
      .bind (walks_noteError noted rest) (fun _ => hC.closeFiring m i rest)
    exact hn.earlier (walks.steps hr)
  obtain ⟨xs, conducts, came⟩ := attemptMoves_crosses hE hC h ha cut named
  obtain ⟨v', told, quiet, -⟩ := noteError_quiet (i := i) rest v
  rw [bind_of_ok told] at hr
  -- however the rest has gone, the finalising callbacks come behind it
  obtain ⟨closing, hclosing⟩ : ∃ closing : Run Unit, closing = (do
      (ofHost host bound depth).runCallbacks m (v'.machine m).finalizeEvent i
      StateEngine.remark m .debug .event "Executed machine finalize callbacks") := ⟨_, rfl⟩
  have closes : (ofHost host bound depth).closeFiring m i rest v' = (closing >>= fun _ =>
      Act.ofExcept rest >>= fun _ => get >>= fun w => pure (.bool (w.firings.get i).result)) v' := by
    unfold Engine.closeFiring
    rw [bind_of_ok (get_apply v'), hclosing, bind_assoc]
  have rings : (ofHost host bound depth).Rings m i AllRung v' closing := by
    rw [hclosing]
    exact .bind (rings_runCallbacks _ v') (fun _ _ _ => .remark .nil _ _ _ _) (fun _ _ => AllRung.append)
  rw [closes] at hr
  rcases hz : closing v' with ⟨last, t⟩
  by_cases cut' : last = .error .exhausted
  · subst cut'
    rw [bind_of_error hz] at hr
    exact absurd (Prod.mk.inj hr).1.symm ended
  obtain ⟨zs, conducts', ⟨⟨_, rfl⟩, rung⟩ | ⟨g, rfl, z, hzs, failed⟩⟩ := rings last t hz cut'
  · rw [bind_of_ok hz] at hr
    have all := conducts.trans (.quiet quiet conducts')
    rcases came with ⟨⟨_, hok⟩, crosses⟩ | ⟨f, hf, failed⟩
    · cases rest with
      | error f => cases hok
      | ok _ =>
        obtain ⟨rfl, rfl⟩ := Prod.mk.inj hr
        exact ⟨xs ++ zs, .ok _, rfl, all, .inl ⟨⟨_, rfl⟩, crosses.ahead rung⟩⟩
    · cases rest with
      | ok _ => cases hf
      | error g =>
        cases hf
        obtain ⟨rfl, rfl⟩ := Prod.mk.inj hr
        obtain ⟨z, hz, failed⟩ := failed
        exact ⟨xs ++ zs, .error f, rfl, all, .inr ⟨f, rfl, z, List.mem_append_left zs hz, failed⟩⟩
  · rw [bind_of_error hz] at hr
    obtain ⟨rfl, rfl⟩ := Prod.mk.inj hr
    exact ⟨xs ++ zs, .error g, rfl, conducts.trans (.quiet quiet conducts'),
      .inr ⟨g, rfl, z, List.mem_append_right xs hzs, failed⟩⟩

end Moving

end Engine

end StateEngine
