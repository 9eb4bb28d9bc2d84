import StateEngine.Proofs.Firing.Order
import StateEngine.Proofs.Firing.Passage

/-! The single commit point: the state of a model is written at most once in the course of a firing, and
the firing changes its state with it. -/
namespace StateEngine

namespace World

/-- The state of a model has a value, where the machine keeps it and no property is in the way. -/
def Holds (w : World) (m : MachineId) (x : String) (v : Value) : Prop :=
  match (w.machine m).accessor with
  | .field name => (w.model x).properties.find? name = none ∧ (w.model x).attributes.find? name = some v
  | .ledger _ id => (w.ledgers.get id).find? (.model x) = some v

/-- A model and a firing are both seen in a state, the model by its value. -/
structure Shows (w : World) (m : MachineId) (i : FiringId) (x : String) (s : StateId) (v : Value) :
    Prop where
  model : w.Holds m x v
  firing : (w.firings.get i).state = s

/-- Of all models and ledgers nothing differs but the state of one model. -/
def Touches (accessor : Accessor) (x : String) (w v : World) : Prop :=
  match accessor with
  | .field name => v.ledgers = w.ledgers ∧ (∀ y, y ≠ x → v.model y = w.model y) ∧
      (v.model x).methods = (w.model x).methods ∧ (v.model x).properties = (w.model x).properties ∧
      ∀ k, k ≠ name → (v.model x).attributes.find? k = (w.model x).attributes.find? k
  | .ledger _ id => v.models = w.models ∧ (∀ j, j ≠ id → v.ledgers.get j = w.ledgers.get j) ∧
      ∀ y, y ≠ x → (v.ledgers.get id).find? (.model y) = (w.ledgers.get id).find? (.model y)

variable {m : MachineId} {i : FiringId} {x : String} {s : StateId} {a v : Value}

theorem Holds.congr {w u : World} (h : w.Holds m x v) (hm : u.machine m = w.machine m)
    (hx : u.models = w.models) (hl : u.ledgers = w.ledgers) : u.Holds m x v := by
  unfold Holds World.model at h ⊢
  rw [hm, hx, hl]
  exact h

theorem Touches.of_same {w u : World} (accessor : Accessor) (hx : u.models = w.models)
    (hl : u.ledgers = w.ledgers) : w.Touches accessor x u := by
  unfold Touches World.model
  rw [hx, hl]
  cases accessor with
  | field name => exact ⟨rfl, fun _ _ => rfl, rfl, rfl, fun _ _ => rfl⟩
  | ledger name id => exact ⟨rfl, fun _ _ => rfl, fun _ _ => rfl⟩

theorem Touches.trans {w u z : World} {accessor : Accessor} (h : w.Touches accessor x u)
    (h' : u.Touches accessor x z) : w.Touches accessor x z := by
  cases accessor with
  | field name =>
    obtain ⟨hl, ho, hm, hp, ha⟩ := h
    obtain ⟨hl', ho', hm', hp', ha'⟩ := h'
    exact ⟨hl'.trans hl, fun y hy => (ho' y hy).trans (ho y hy), hm'.trans hm, hp'.trans hp,
      fun k hk => (ha' k hk).trans (ha k hk)⟩
  | ledger name id =>
    obtain ⟨hx, ho, hk⟩ := h
    obtain ⟨hx', ho', hk'⟩ := h'
    exact ⟨hx'.trans hx, fun j hj => (ho' j hj).trans (ho j hj), fun y hy => (hk' y hy).trans (hk y hy)⟩

end World

/-- A callback that sees the model and the firing in a state, and leaves them in it. -/
structure Moment.Observes (y : Moment) (m : MachineId) (i : FiringId) (x : String) (s : StateId) (v : Value) :
    Prop where
  still : y.cue.moves = false
  before : y.before.Shows m i x s v
  after : y.after.Shows m i x s v

namespace Engine
open Act World

/-- An engine whose callbacks leave models and ledgers alone, besides machines and firings. -/
structure Aloof (E : Engine) : Prop extends E.Calm where
  models : ∀ label callback call w, (E.call label callback call w).2.models = w.models ∧
    (E.call label callback call w).2.ledgers = w.ledgers

variable {E : Engine} {m : MachineId} {i : FiringId} {x : String} {s : StateId} {v a : Value}

theorem Aloof.models_consult (hE : E.Aloof) (c : Callback) (w : World) :
    (E.consult m c i w).2.models = w.models ∧ (E.consult m c i w).2.ledgers = w.ledgers := by
  have walks : E.Walks (fun w u => u.models = w.models ∧ u.ledgers = w.ledgers) :=
    ⟨fun label callback call w => .single (hE.models label callback call w), fun _ _ => .single ⟨rfl, rfl⟩⟩
  refine (walks.consult m c i).keeps (P := fun u => u.models = w.models ∧ u.ledgers = w.ledgers) ?_ ⟨rfl, rfl⟩
  exact fun _ _ step h => ⟨step.1.trans h.1, step.2.trans h.2⟩

/-- Writing the state of a model that has one succeeds, and the model has the new one then. -/
theorem writeState_holds {w : World} (h : w.Holds m x v) (a : Value) :
    ∃ u, writeState m (.model x) a w = (.ok (), u) ∧ u.Holds m x a ∧
      w.Touches (w.machine m).accessor x u := by
  unfold Holds at h
  unfold writeState
  rw [bind_of_ok (get_apply w)]
  cases hacc : (w.machine m).accessor with
  | field name =>
    rw [hacc] at h
    obtain ⟨hfree, -⟩ := h
    have written : w.writeAttribute (.model x) name a = .ok (w.updateModel x (fun model =>
        { model with attributes := model.attributes.insert name a })) := by
      simp only [World.writeAttribute, Table.contains, hfree, Option.isSome_none]
      rfl
    refine ⟨_, advance_ok written, ?_, rfl, fun y hy => ?_, ?_, ?_, fun k hk => ?_⟩
    · unfold Holds
      rw [show (w.updateModel x _).machine m = w.machine m from rfl, hacc]
      simp only [model_updateModel, if_pos, Table.find?_insert, beq_self_eq_true]
      exact ⟨hfree, trivial⟩
    · rw [model_updateModel, if_neg hy.symm]
    · rw [model_updateModel, if_pos rfl]
    · rw [model_updateModel, if_pos rfl]
    · rw [model_updateModel, if_pos rfl, Table.find?_insert, if_neg]
      simpa using hk.symm
  | ledger name id =>
    obtain ⟨u, hu⟩ : ∃ u, u = { w with
        ledgers := w.ledgers.modify id (·.insert (.model x) a) }.record (.stateWritten (.model x) a) := ⟨_, rfl⟩
    have written : u.ledgers.get id = (w.ledgers.get id).insert (.model x) a := by
      rw [hu]
      simp [record]
    refine ⟨u, by rw [hu]; rfl, ?_, by rw [hu]; rfl, fun j hj => ?_, fun y hy => ?_⟩
    · have machine : u.machine m = w.machine m := by rw [hu]; rfl
      unfold Holds
      rw [machine, hacc]
      show (u.ledgers.get id).find? (.model x) = some a
      rw [written, Table.find?_insert_model, if_pos rfl]
    · rw [hu]
      simp [record, hj.symm]
    · rw [written, Table.find?_insert_model, if_neg hy.symm]

theorem place_holds {w : World} {b : String} {d : StateId} (h : w.Holds m x v)
    (hd : w.lookupState m (.text b) = .ok d) :
    ∃ u, place m (.text b) (.model x) w = (.ok (), u) ∧ u.Holds m x (w.states.get d).value ∧
      w.Touches (w.machine m).accessor x u ∧ u.firings = w.firings ∧ u.states = w.states ∧
      u.machines = w.machines := by
  obtain ⟨u, hu, holds, touches⟩ := writeState_holds h (w.states.get d).value
  have found : Act.ask (fun w => w.stateFor m (.text b)) w = (.ok d, w) := by
    rw [ask_apply]
    simp only [World.stateFor, hd]
    rfl
  have placed : place m (.text b) (.model x) w = (.ok (), u) := by
    unfold place
    rw [bind_of_ok found, bind_of_ok (get_apply w)]
    show (writeState m (.model x) (w.states.get d).value >>= fun _ => pure PUnit.unit) w = _
    rw [bind_of_ok hu]
    rfl
  have walked : Relation.ReflTransGen Written w (place m (.text b) (.model x) w).2 :=
    walks_place m (.text b) (.model x) w
  rw [placed] at walked
  change Relation.ReflTransGen Written w u at walked
  have written : u.firings = w.firings ∧ u.states = w.states ∧ u.machines = w.machines := by
    clear hu holds touches placed
    induction walked with
    | refl => exact ⟨rfl, rfl, rfl⟩
    | tail _ step ih =>
      rw [step]
      exact ih
  exact ⟨u, placed, holds, touches, written⟩

/-- Moving a model that has a state to a registered one succeeds, and both it and the firing show the new
one then. -/
theorem relocate_shows {w : World} {b : String} {d : StateId} (h : w.Shows m i x s v)
    (hx : (w.firings.get i).model = .model x) (hd : w.lookupState m (.text b) = .ok d) :
    ∃ u, relocate m (.text b) i w = (.ok d, u) ∧ u.Shows m i x d (w.states.get d).value ∧
      w.Touches (w.machine m).accessor x u := by
  obtain ⟨u, hu, holds, touches, firings, states, machines⟩ := place_holds h.model hd
  have machine : u.machine m = { w.machine m with line := (w.machine m).line } := by
    rw [World.machine, machines]
    rfl
  have found : u.lookupState m (.text b) = .ok d := (lookupState_congr states machine _).trans hd
  refine ⟨u.updateFiring i (fun f => { f with state := d }), ?_, ⟨holds, ?_⟩, touches⟩
  · unfold relocate
    rw [bind_of_ok (get_apply w), hx, bind_of_ok hu]
    have asked : Act.ask (fun w => w.stateFor m (.text b)) u = (.ok d, u) := by
      rw [ask_apply]
      simp only [World.stateFor, found]
      rfl
    rw [bind_of_ok asked, bind_of_ok (change_apply _ _), ask_apply]
    have same : (u.updateFiring i (fun f => { f with state := d })).lookupState m (.text b) =
        u.lookupState m (.text b) := rfl
    rw [same, found]
    rfl
  · simp [updateFiring]

/-- As long as nothing is moved the model and the firing are seen in the same state by everyone, and no
model changes. -/
theorem Conducts.observed (hE : E.Aloof) {w u : World} {xs : List Moment} (h : E.Conducts m i w xs u)
    (hs : w.Shows m i x s v) (hm : ∀ y ∈ xs, y.cue.moves = false) :
    (∀ y ∈ xs, y.Observes m i x s v) ∧ u.Shows m i x s v ∧ u.models = w.models ∧ u.ledgers = w.ledgers := by
  induction h with
  | done w => exact ⟨fun _ h => (by cases h), hs, rfl, rfl⟩
  | @quiet w u z xs hq _ ih =>
    have models : u.models = w.models := by rw [hq.rest]
    have ledgers : u.ledgers = w.ledgers := by rw [hq.rest]
    obtain ⟨transition, fault, result, hp⟩ := hq.progress
    have shows' : u.Shows m i x s v :=
      ⟨hs.model.congr (hq.still.machine m) models ledgers, by rw [hp]; exact hs.firing⟩
    obtain ⟨hxs, hz, hmodels, hledgers⟩ := ih shows' hm
    exact ⟨hxs, hz, hmodels.trans models, hledgers.trans ledgers⟩
  | @moment y z xs hy _ ih =>
    have consulted (c : Callback) (hc : E.takeUp m i y.cue = E.consult m c i) :
        y.after.Shows m i x s v ∧ y.after.models = y.before.models ∧ y.after.ledgers = y.before.ledgers := by
      rw [hc] at hy
      have steady := hE.steady_consult m c i y.before
      obtain ⟨models, ledgers⟩ := hE.models_consult (m := m) (i := i) c y.before
      rw [hy] at steady models ledgers
      exact ⟨⟨hs.model.congr (steady.still (i := i).machine m) models ledgers, by rw [steady.firings]; exact hs.firing⟩,
        models, ledgers⟩
    have unmoved : y.after.Shows m i x s v ∧ y.after.models = y.before.models ∧
        y.after.ledgers = y.before.ledgers := by
      have here := hm y List.mem_cons_self
      cases hc : y.cue with
      | run c => exact consulted c (by rw [hc]; rfl)
      | ask g => exact consulted g.predicate (by rw [hc]; rfl)
      | move dest =>
        rw [hc] at here
        cases here
    obtain ⟨shows', models, ledgers⟩ := unmoved
    obtain ⟨hxs, hz, hmodels, hledgers⟩ := ih shows' (fun y hy => hm y (List.mem_cons_of_mem _ hy))
    refine ⟨fun z hz => ?_, hz, hmodels.trans models, hledgers.trans ledgers⟩
    rcases List.mem_cons.mp hz with rfl | hz
    · exact ⟨hm _ List.mem_cons_self, hs, shows'⟩
    · exact hxs z hz

/-- A conducted run at one of its moments: what was taken up before, the moment, and what was later. -/
theorem Conducts.at_moment {w u : World} {xs pre post : List Moment} {y : Moment} (h : E.Conducts m i w xs u)
    (hxs : xs = pre ++ y :: post) : E.Conducts m i w pre y.before ∧
      E.takeUp m i y.cue y.before = (y.outcome.mapError .fault, y.after) ∧ E.Conducts m i y.after post u := by
  induction h generalizing pre with
  | done w => simp at hxs
  | quiet hq _ ih =>
    obtain ⟨hpre, hy, hpost⟩ := ih hxs
    exact ⟨.quiet hq hpre, hy, hpost⟩
  | @moment z u xs hz hr ih =>
    cases pre with
    | nil =>
      obtain ⟨rfl, rfl⟩ := List.cons.inj hxs
      exact ⟨.done _, hz, hr⟩
    | cons z' pre =>
      obtain ⟨rfl, htail⟩ := List.cons.inj hxs
      obtain ⟨hpre, hy, hpost⟩ := ih htail
      exact ⟨.moment hz hpre, hy, hpost⟩

end Engine

open World

/-- How the moments of a firing bear on its model. Either no candidate arrives at its move, and all see
the model and the firing where they were; or one arrives, what is ahead of its move sees them there, and
what is behind it sees both in the destination, where they stay. -/
inductive Commits (w : World) (m : MachineId) (i : FiringId) (x : String) (s : StateId) (v : Value)
    (candidates : List Transition) : List Moment → World → Prop where
  | kept {xs : List Moment} {u : World} (hxs : ∀ y ∈ xs, y.Observes m i x s v) (hu : u.Shows m i x s v)
      (hn : ∀ t pre rest, xs = pre ++ rest → ¬ Arrives w m s candidates t pre) :
      Commits w m i x s v candidates xs u
  | moved {t : Transition} {d : StateId} {pre ys zs : List Moment} {y : Moment} {u : World}
      {entering closing : Except Fault Bool} (ha : Arrives w m s candidates t pre)
      (hd : w.lookupState m t.dest = .ok d) (hpre : ∀ z ∈ pre, z.Observes m i x s v)
      (hcue : y.cue = .move t.dest) (houtcome : y.outcome = .ok .null) (hbefore : y.before.Shows m i x s v)
      (hafter : y.after.Shows m i x d (w.states.get d).value)
      (hentry : Follows (w.behindCues m t) ys entering)
      (hclose : Follows ((w.machine m).finalizeEvent.map .run) zs closing)
      (hpost : ∀ z ∈ ys ++ zs, z.Observes m i x d (w.states.get d).value)
      (hu : u.Shows m i x d (w.states.get d).value) :
      Commits w m i x s v candidates (pre ++ y :: (ys ++ zs)) u

/-- What takes the course of a firing commits its model to a state at most once. -/
theorem Course.commits {E : Engine} (hE : E.Aloof) {w start u : World} {m : MachineId} {i : FiringId}
    {x : String} {s : StateId} {v : Value} {candidates : List Transition} {xs : List Moment}
    {verdict : Except Fault Bool} (hstates : start.states = w.states) (hmachines : start.machines = w.machines)
    (hx : (start.firings.get i).model = .model x) (hl : ∀ t ∈ candidates, w.Leads m s t)
    (hs : start.Shows m i x s v) (hc : Course w m s candidates xs verdict) (h : E.Conducts m i start xs u) :
    Commits w m i x s v candidates xs u ∧ start.Touches (w.machine m).accessor x u := by
  rcases hc.passage with hstill | ⟨t, pre, y, ys, zs, closing, ha, hland, hclose, rfl, hpre⟩
  · obtain ⟨hxs, hu, models, ledgers⟩ := h.observed hE hs hstill
    refine ⟨.kept hxs hu (fun t pre rest he ha => ?_), .of_same _ models ledgers⟩
    obtain ⟨y, hy, hmove⟩ := hc.moves_of_arrives ha he.symm
    have here := hstill y hy
    rw [hmove] at here
    cases here
  · obtain ⟨hahead, hmove, hbehind⟩ := h.at_moment rfl
    obtain ⟨hobserved, hbefore, models, ledgers⟩ := hahead.observed hE hs hpre
    have later : ∀ z ∈ ys ++ zs, z.cue.moves = false := by
      intro z hz
      rcases List.mem_append.mp hz with hz | hz
      · exact hland.still z hz
      · exact hclose.still (run_still _) z hz
    obtain ⟨hcue, hland⟩ := hland
    have still := hahead.still hE.toCalm
    have machine : y.before.machine m = { w.machine m with line := (w.machine m).line } := by
      rw [still.machine m, World.machine, hmachines]
      rfl
    have states : y.before.states = w.states := still.states.trans hstates
    have leads : ∃ (b : String) (d : StateId), t.dest = .text b ∧ w.lookupState m (.text b) = .ok d := by
      cases ha with
      | intro hcand ht _ _ _ =>
        rcases (hl t (by simp [hcand])).dest with hnull | hdest
        · simp [Transition.internal, hnull] at ht
        · exact hdest
    obtain ⟨b, d, hb, hd⟩ := leads
    have model : (y.before.firings.get i).model = .model x := by rw [still.told.2.2.1, hx]
    obtain ⟨z, hz, hshows, htouches⟩ :=
      Engine.relocate_shows hbefore model ((lookupState_congr states machine _).trans hd)
    have taken : E.takeUp m i y.cue y.before = (.ok .null, z) := by
      rw [hcue, hb]
      show (do let _ ← Engine.relocate m (.text b) i; return .null : Run Value) y.before = _
      rw [Act.bind_of_ok hz]
      rfl
    have hend := hmove.symm.trans taken
    have hafter : y.after = z := congrArg Prod.snd hend
    have houtcome : y.outcome = .ok .null := by
      cases ho : y.outcome with
      | error f =>
        rw [ho] at hend
        cases hend
      | ok r =>
        rw [ho] at hend
        cases hend
        rfl
    rw [states, ← hafter] at hshows
    rw [← hafter, machine] at htouches
    obtain ⟨hys, hfollows⟩ := hland.resolve_left (fun h => by
      obtain ⟨⟨f, hf⟩, -⟩ := h
      rw [houtcome] at hf
      cases hf)
    obtain ⟨entering, hentry⟩ := hfollows
    obtain ⟨hpost, hu, models', ledgers'⟩ := hbehind.observed hE hshows later
    exact ⟨.moved ha (hb ▸ hd) hobserved hcue houtcome hbefore hshows hentry hclose hpost hu,
      ((Touches.of_same _ models ledgers).trans htouches).trans (.of_same _ models' ledgers')⟩

namespace Engine
open Act

variable {E : Engine} {m : MachineId} {x : String} {s : StateId} {v : Value}

/-- The state of a model that has one is read, and reading it leaves at most an entry in the history. -/
theorem readState_holds {w : World} (h : w.Holds m x v) :
    ∃ history, E.readState m (.model x) w = (.ok v, { w with history := history }) := by
  unfold Holds at h
  unfold Engine.readState
  rw [bind_of_ok (get_apply w)]
  cases hacc : (w.machine m).accessor with
  | field name =>
    rw [hacc] at h
    refine ⟨w.history, ?_⟩
    show E.readAttribute (.model x) name w = _
    unfold Engine.readAttribute
    simp only []
    rw [bind_of_ok (get_apply w)]
    simp only [h.1, h.2]
    rfl
  | ledger name id =>
    rw [hacc] at h
    refine ⟨w.history.push (.stateRead (.model x) v), ?_⟩
    simp only []
    rw [bind_of_ok (get_apply w)]
    simp only [h]
    rfl

/-- The state of a model that has one is found, and asking for it changes no model. -/
theorem currentState_holds {w : World} (h : w.Holds m x v) (hs : w.lookupState m v = .ok s) :
    ∃ u, E.currentState m (.model x) w = (.ok s, u) ∧ u.models = w.models ∧ u.ledgers = w.ledgers := by
  obtain ⟨history, read⟩ := readState_holds (E := E) h
  refine ⟨{ w with history := history }, ?_, rfl, rfl⟩
  unfold Engine.currentState
  rw [bind_of_ok read, ask_apply, show ({ w with history := history } : World).lookupState m v = _ from hs]
  rfl

/-- Where the state of a model has no entry, a firing asks for the state and does nothing else but remark
on it. -/
theorem fireNow_unlisted {w z : World} {e : EventId} {model : Value} (args : List Value) (named : Named)
    (hm : (w.events.get e).machine = m) (hs : E.currentState m model w = (.ok s, z)) (steady : Steady w z)
    (hu : (w.events.get e).candidates.find? (w.states.get s).name = none) :
    ∃ (r : Except Fault Bool) (u : World),
      E.fireNow e model args named w = ((r.map Value.bool).mapError .fault, u) ∧
      u = { z with history := u.history } := by
  have unlisted : (z.events.get e).candidates.contains (z.states.get s).name = false := by
    rw [steady.events, steady.states, Table.contains, hu]
    rfl
  unfold fireNow
  rw [bind_of_ok (get_apply w)]
  simp only [hm]
  rw [bind_of_ok hs, bind_of_ok (get_apply z)]
  simp only [unlisted, Bool.false_eq_true, if_false]
  cases (z.ignoreFlag m s).truthy with
  | true =>
    refine ⟨.ok false, _, rfl, rfl⟩
  | false =>
    refine ⟨.error (.invalidTrigger ((z.machine m).label ++ ("Can't trigger event " ++
      (z.events.get e).name.display ++ " from state " ++ (z.states.get s).name.display ++ "!"))
      (z.events.get e).name (z.states.get s).name), z, rfl, rfl⟩

/-- The processing of a trigger on a model that is in a registered state commits the model to a new state
once, when a candidate arrives at its move, and never otherwise. Nothing else is written: neither other
models nor the registries of states, events and machines. -/
theorem state_is_committed_once (hE : E.Aloof) {w : World} (hw : w.Reachable) (hn : w.PlainNames m)
    (hroom : E.Roomy w) {e : EventId} (hm : (w.events.get e).machine = m) (args : List Value) (named : Named)
    (hx : w.Holds m x v) (hs : w.lookupState m v = .ok s) :
    ∃ (r : Except Fault Bool) (u : World),
      E.fireNow e (.model x) args named w = ((r.map Value.bool).mapError .fault, u) ∧
      w.Touches (w.machine m).accessor x u ∧
      (u.states = w.states ∧ u.transitions = w.transitions ∧ u.events = w.events ∧ u.machines = w.machines) ∧
      ((w.events.get e).candidates.find? (w.states.get s).name = none → u.Holds m x v) ∧
      ∀ us, (w.events.get e).candidates.find? (w.states.get s).name = some us →
        ∃ z xs, E.currentState m (.model x) w = (.ok s, z) ∧
          E.Conducts m z.firings.next
            (z.opened { state := s, event := e, machine := m, model := .model x, args := args, named := named })
            xs u ∧
          Course w m s (us.map w.transitions.get) xs r ∧
          Commits w m z.firings.next x s v (us.map w.transitions.get) xs u := by
  obtain ⟨z, hz, models, ledgers⟩ := currentState_holds (E := E) hx hs
  have steady := steady_currentState hE.toCalm hz
  have machine : z.machine m = w.machine m := by rw [World.machine, steady.machines]; rfl
  cases hu : (w.events.get e).candidates.find? (w.states.get s).name with
  | none =>
    obtain ⟨r, u, hf, hrest⟩ := fireNow_unlisted args named hm hz steady hu
    have models' : u.models = w.models := by rw [hrest]; exact models
    have ledgers' : u.ledgers = w.ledgers := by rw [hrest]; exact ledgers
    refine ⟨r, u, hf, .of_same _ models' ledgers', ?_, fun _ => hx.congr ?_ models' ledgers',
      fun us h => by cases h⟩
    · rw [hrest]
      exact ⟨steady.states, steady.transitions, steady.events, steady.machines⟩
    · rw [hrest]
      exact machine
  | some us =>
    have leads := hw.regular.leads hn hm hs hu
    obtain ⟨xs, verdict, u, hf, hc, hcourse⟩ := fireNow_course hE.toCalm args named hroom hm hz hu leads
    obtain ⟨firing, hfiring⟩ : ∃ firing : Firing, firing =
        { state := s, event := e, machine := m, model := .model x, args := args, named := named } := ⟨_, rfl⟩
    rw [← hfiring] at hc
    have opened : (z.opened firing).firings.get z.firings.next = firing := by simp [World.opened]
    have shows' : (z.opened firing).Shows m z.firings.next x s v := by
      refine ⟨hx.congr machine models ledgers, ?_⟩
      rw [opened, hfiring]
    have candidates : ∀ t ∈ us.map w.transitions.get, w.Leads m s t := by
      intro t ht
      obtain ⟨id, hid, rfl⟩ := List.mem_map.mp ht
      exact leads id hid
    have model : ((z.opened firing).firings.get z.firings.next).model = .model x := by rw [opened, hfiring]
    have states : (z.opened firing).states = w.states := steady.states
    have machines : (z.opened firing).machines = w.machines := steady.machines
    obtain ⟨commits, touches⟩ := hcourse.commits hE states machines model candidates shows' hc
    have still := hc.still hE.toCalm
    refine ⟨verdict, u, hf, (Touches.of_same _ models ledgers).trans touches, ?_, fun h => (by cases h),
      fun us' h => ?_⟩
    · exact ⟨still.states.trans steady.states, still.transitions.trans steady.transitions,
        still.events.trans steady.events, still.machines.trans steady.machines⟩
    · cases h
      exact ⟨z, xs, hz, hfiring ▸ hc, hcourse, commits⟩

/-- A host of which every callback does nothing but give a value or fail leaves all models alone. -/
theorem aloof_ofHost {host : Host} (bound depth : Nat)
    (h : ∀ callback call w count, (∃ v, host.behaviour callback call w count = .done v) ∨
      ∃ f, host.behaviour callback call w count = .fail f) : (ofHost host bound (depth + 1)).Aloof := by
  refine ⟨calm_ofHost bound depth h, fun label callback call w => ?_⟩
  obtain ⟨r, hr⟩ := call_ofHost bound depth h label callback call w
  rw [hr]
  exact ⟨rfl, rfl⟩

end Engine

/-- The gate is shut, in an attribute of its own. -/
theorem gateWorld_shut :
    (gateWorld.machine 0).accessor = .field "state" ∧ (gateWorld.events.get 0).machine = 0 ∧
      (gateWorld.model "gate").properties.find? "state" = none ∧
      (gateWorld.model "gate").attributes.find? "state" = some (.text "shut") ∧
      gateWorld.lookupState 0 (.text "shut") = .ok 0 := by cbv

/-- The push opens the gate, by the one move of the way that lets it through. -/
theorem push_is_committed_once :
    ∃ (r : Except Fault Bool) (u : World),
      gateEngine.fireNow 0 (.model "gate") [] [] gateWorld = ((r.map Value.bool).mapError .fault, u) ∧
      gateWorld.Touches (gateWorld.machine 0).accessor "gate" u ∧
      (u.states = gateWorld.states ∧ u.transitions = gateWorld.transitions ∧ u.events = gateWorld.events ∧
        u.machines = gateWorld.machines) ∧
      ∃ z xs, gateEngine.currentState 0 (.model "gate") gateWorld = (.ok 0, z) ∧
        gateEngine.Conducts 0 z.firings.next
          (z.opened { state := 0, event := 0, machine := 0, model := .model "gate" }) xs u ∧
        Course gateWorld 0 0 ([0, 1].map gateWorld.transitions.get) xs r ∧
        Commits gateWorld 0 z.firings.next "gate" 0 (.text "shut")
          ([0, 1].map gateWorld.transitions.get) xs u := by
  obtain ⟨-, -, -, -, hu, -⟩ := gateWorld_facts
  obtain ⟨hfield, hm, hfree, hshut, hs⟩ := gateWorld_shut
  have holds : gateWorld.Holds 0 "gate" (.text "shut") := by
    unfold World.Holds
    rw [hfield]
    exact ⟨hfree, hshut⟩
  have aloof : gateEngine.Aloof :=
    Engine.aloof_ofHost 4 0 (fun callback _ _ _ => .inl ⟨.bool (callback != "no"), rfl⟩)
  obtain ⟨r, u, hf, touches, registries, -, hlisted⟩ := Engine.state_is_committed_once aloof
    gateWorld_reachable gateWorld_plain gateEngine_roomy hm [] [] holds hs
  exact ⟨r, u, hf, touches, registries, hlisted _ hu⟩

end StateEngine
