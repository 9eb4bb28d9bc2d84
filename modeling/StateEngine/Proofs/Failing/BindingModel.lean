import Mathlib
import StateEngine.Proofs.Conventions.Basic
import StateEngine.Proofs.Failing.Basic

/-! What a model leaves behind that could not be bound. It is placed only after the states have taken up its methods, so
where its initial state is refused these have got the names of their conventions already. -/
namespace StateEngine
open Act World

variable {E : Engine} {m : MachineId} {s : StateId} {x : Value} {stage : StateStage} {w v u : World} {f : Fault}
  {asked others : StateId → StateStage → Bool}

namespace World

/-- What a model gives by a name is a method, whether it is one of its own or kept in an attribute, if no property
stands before it. -/
def offers (w : World) (x : Value) (name : String) : Bool :=
  match x with
  | .model y =>
    match (w.model y).attributes.find? name with
    | some (.method ..) => true
    | some _ => false
    | none => (w.model y).methods.contains name
  | _ => false

/-- What a state takes up of a model for a stage: the name of its convention, if the model offers a method by it and it
is not among the callbacks already. -/
def lent (w : World) (x : Value) (s : StateId) (stage : StateStage) : List Callback :=
  if w.offers x (w.convention s stage) &&
      !(Value.text (w.convention s stage)).isIn ((w.states.get s).callbacks stage) then
    [.text (w.convention s stage)] else []

/-- No property stands before the methods of a model by the convention of a state. -/
def Unhidden (w : World) (x : Value) (s : StateId) : Prop :=
  ∀ y stage, x = .model y → (w.model y).properties.find? (w.convention s stage) = none

/-- Between two worlds some states have taken up for some stages what a model offers, and nothing else has happened that
is not told in the history; nor has that, where there was nothing to take up. -/
structure Lends (x : Value) (asked : StateId → StateStage → Bool) (w v : World) : Prop where
  rest : v = { w with states := v.states, history := v.history }
  values : ∀ s, (v.states.get s).value = (w.states.get s).value
  ignore : ∀ s, (v.states.get s).ignore = (w.states.get s).ignore
  callbacks : ∀ s stage, (v.states.get s).callbacks stage =
    (w.states.get s).callbacks stage ++ if asked s stage then w.lent x s stage else []
  nothing : (∀ s stage, asked s stage → w.lent x s stage = []) → v = w

theorem Lends.refl (x : Value) (w : World) : Lends x (fun _ _ => false) w w :=
  ⟨rfl, fun _ => rfl, fun _ => rfl, fun _ _ => (List.append_nil _).symm, fun _ => rfl⟩

theorem Lends.machine (h : Lends x asked w v) (m : MachineId) : v.machine m = w.machine m := by
  rw [World.machine, h.rest, World.machine]

theorem Lends.model (h : Lends x asked w v) (y : String) : v.model y = w.model y := by
  rw [World.model, h.rest, World.model]

theorem Lends.convention (h : Lends x asked w v) (s : StateId) (stage : StateStage) :
    v.convention s stage = w.convention s stage := by
  rw [World.convention, Engine.conventionName, State.name, h.values]
  rfl

theorem Lends.offers (h : Lends x asked w v) (name : String) : v.offers x name = w.offers x name := by
  simp only [World.offers, h.model]

theorem Lends.unhidden (h : Lends x asked w v) (hw : w.Unhidden x s) : v.Unhidden x s := by
  intro y stage hx
  rw [h.model, h.convention]
  exact hw y stage hx

/-- What a state has taken up it does not take up again. -/
theorem Lends.lent (h : Lends x asked w v) (s : StateId) (stage : StateStage) :
    v.lent x s stage = if asked s stage then [] else w.lent x s stage := by
  unfold World.lent
  rw [h.convention, h.offers, h.callbacks]
  unfold World.lent
  cases asked s stage <;> cases w.offers x (w.convention s stage) <;>
    cases there : (Value.text (w.convention s stage)).isIn ((w.states.get s).callbacks stage) <;>
    simp_all [Value.isIn]

theorem Lends.trans (h : Lends x asked w v) (h' : Lends x others v u) :
    Lends x (fun s stage => asked s stage || others s stage) w u := by
  refine ⟨by rw [h'.rest, h.rest], fun s => (h'.values s).trans (h.values s), fun s => (h'.ignore s).trans (h.ignore s),
    fun s stage => ?_, fun none => ?_⟩
  · rw [h'.callbacks, h.callbacks, h.lent]
    cases asked s stage <;> simp
  · have first : v = w := h.nothing (fun s stage hs => none s stage (by simp [hs]))
    refine (h'.nothing (fun s stage hs => ?_)).trans first
    rw [first]
    exact none s stage (by simp [hs])

end World

namespace Engine

/-- Asking a model for what no property stands before gives it, and changes nothing. -/
theorem readAttribute?_of_unhidden {name : String} (h : ∀ y, x = .model y → (w.model y).properties.find? name = none) :
    ∃ r, E.readAttribute? x name w = (.ok r, w) ∧
      ((∃ owner name callback, r = some (.method owner name callback)) ↔ w.offers x name = true) := by
  cases x with
  | model y =>
    have read : E.readAttribute (.model y) name w = ((w.model y).attributes.find? name).elim
        (((w.model y).methods.find? name).elim (.error (.fault .missingAttribute), w)
          (fun callback => (.ok (.method y name callback), w))) (fun a => (.ok a, w)) := by
      unfold readAttribute
      simp only []
      rw [bind_of_ok (get_apply w)]
      simp only [h y rfl]
      cases (w.model y).attributes.find? name <;> cases (w.model y).methods.find? name <;> rfl
    unfold readAttribute?
    rw [bind_apply, Act.attempt, read]
    cases ha : (w.model y).attributes.find? name with
    | some a => exact ⟨some a, rfl, by cases a <;> simp [World.offers, ha]⟩
    | none =>
      cases hm : (w.model y).methods.find? name with
      | some callback => exact ⟨_, rfl, by simp [World.offers, ha, Table.contains, hm]⟩
      | none => exact ⟨none, rfl, by simp [World.offers, ha, Table.contains, hm]⟩
  | _ => exact ⟨none, rfl, by simp [World.offers]⟩

/-- A state takes up what a model offers for one stage. -/
theorem lends_bindConvention (h : w.Unhidden x s) (stage : StateStage) :
    ∃ v, E.bindConvention m s x stage w = (.ok (), v) ∧
      Lends x (fun s' stage' => s' == s && stage' == stage) w v := by
  obtain ⟨r, read, method⟩ := readAttribute?_of_unhidden (E := E) (fun y hx => h y stage hx)
  have nothing (none : w.lent x s stage = []) : Lends x (fun s' stage' => s' == s && stage' == stage) w w := by
    refine ⟨rfl, fun _ => rfl, fun _ => rfl, fun s' stage' => ?_, fun _ => rfl⟩
    split
    · rename_i same
      simp only [Bool.and_eq_true, beq_iff_eq] at same
      obtain ⟨rfl, rfl⟩ := same
      rw [none, List.append_nil]
    · exact (List.append_nil _).symm
  have read : E.readAttribute? x (conventionName stage (w.states.get s)) w = (.ok r, w) := read
  unfold bindConvention
  rw [bind_of_ok (get_apply w), bind_of_ok read]
  split
  · have offered : w.offers x (w.convention s stage) = true := method.mp ⟨_, _, _, rfl⟩
    rw [bind_of_ok (get_apply w)]
    split
    · rename_i absent
      have lent : w.lent x s stage = [.text (w.convention s stage)] := by
        rw [World.lent, offered]
        exact if_pos absent
      rw [bind_of_ok (change_apply _ w), remark, change_apply]
      refine ⟨_, rfl, rfl, fun s' => ?_, fun s' => ?_, fun s' stage' => ?_, fun none => ?_⟩
      · simp only [World.record, updateState, Heap.get_modify]
        split
        · exact value_addCallback _ _ _
        · rfl
      · simp only [World.record, updateState, Heap.get_modify]
        split
        · cases stage <;> rfl
        · rfl
      · simp only [World.record, updateState, Heap.get_modify]
        by_cases hs : s = s'
        · subst hs
          rw [if_pos rfl, callbacks_addCallback]
          by_cases hstage : stage = stage'
          · subst hstage
            simp [lent, World.convention]
          · simp [hstage, Ne.symm hstage]
        · simp [hs, Ne.symm hs]
      · have := none s stage (by simp)
        rw [lent] at this
        cases this
    · rename_i present
      refine ⟨w, rfl, nothing ?_⟩
      rw [World.lent]
      exact if_neg (fun there => present ((Bool.and_eq_true _ _).mp there).2)
  · rename_i other
    refine ⟨w, rfl, nothing ?_⟩
    rw [World.lent, if_neg (fun there => ?_)]
    obtain ⟨owner, name, callback, rfl⟩ := method.mpr ((Bool.and_eq_true _ _).mp there).1
    exact other _ _ _ rfl

/-- A state takes up what a model offers. -/
theorem lends_bindConventions (h : w.Unhidden x s) :
    ∃ v, E.bindConventions m s x w = (.ok (), v) ∧ Lends x (fun s' _ => s' == s) w v := by
  obtain ⟨u, entered, first⟩ := lends_bindConvention (E := E) (m := m) h .enter
  obtain ⟨v, left, second⟩ := lends_bindConvention (E := E) (m := m) (first.unhidden h) .exit
  refine ⟨v, ?_, ?_⟩
  · have rest : (E.bindConvention m s x .exit >>= fun _ => pure ⟨⟩ : Run PUnit) u = (.ok ⟨⟩, v) := bind_of_ok left
    exact (bind_of_ok entered).trans rest
  · have both : (fun s' stage' => (s' == s && stage' == StateStage.enter) || (s' == s && stage' == StateStage.exit)) =
        fun (s' : StateId) (_ : StateStage) => s' == s := by
      funext s' stage'
      cases stage' <;> simp
    exact both ▸ first.trans second

/-- States take up what a model offers one after the other. The machine stays the same meanwhile. -/
theorem lends_forM {machine : Machine} {action : StateId → Run PUnit} {ss : List StateId}
    (haction : ∀ s ∈ ss, ∀ u, u.machine m = machine → u.Unhidden x s →
      ∃ v, action s u = (.ok ⟨⟩, v) ∧ Lends x (fun s' _ => s' == s) u v)
    (hw : w.machine m = machine) (h : ∀ s ∈ ss, w.Unhidden x s) :
    ∃ v, ss.forM action w = (.ok ⟨⟩, v) ∧ Lends x (fun s _ => decide (s ∈ ss)) w v := by
  induction ss generalizing w with
  | nil => exact ⟨w, rfl, by simpa using Lends.refl x w⟩
  | cons s ss ih =>
    obtain ⟨u, taken, first⟩ := haction s List.mem_cons_self w hw (h s List.mem_cons_self)
    obtain ⟨v, ended, rest⟩ := ih (fun s' hs' => haction s' (List.mem_cons_of_mem s hs')) ((first.machine m).trans hw)
      (fun s' hs' => first.unhidden (h s' (List.mem_cons_of_mem s hs')))
    refine ⟨v, (bind_of_ok taken).trans ended, ?_⟩
    have both : (fun (s' : StateId) (_ : StateStage) => s' == s || decide (s' ∈ ss)) =
        fun s' _ => decide (s' ∈ s :: ss) := by
      funext s' _
      simp [List.mem_cons, beq_eq_decide]
    exact both ▸ first.trans rest

/-- All registered states take up what a model offers. -/
theorem lends_bindToStates (h : ∀ s ∈ (w.machine m).states.values, w.Unhidden x s) :
    ∃ v, E.bindToStates m x w = (.ok (), v) ∧ Lends x (fun s _ => decide (s ∈ (w.machine m).states.values)) w v := by
  have steady {u : World} (hu : u.machine m = w.machine m) : (do
      if ((← get).machine m).states.size ≠ (w.machine m).states.values.length then Act.fail .changedWhileRead : Run Unit)
        u = (.ok (), u) := by
    rw [bind_of_ok (get_apply u), hu, if_neg (by simp [Table.size, Table.values])]
    rfl
  have each (s : StateId) (_ : s ∈ (w.machine m).states.values) (u : World) (hu : u.machine m = w.machine m)
      (hs : u.Unhidden x s) : ∃ v, ((do
        if ((← get).machine m).states.size ≠ (w.machine m).states.values.length then Act.fail .changedWhileRead : Run Unit)
          >>= fun _ => E.bindConventions m s x) u = (.ok ⟨⟩, v) ∧ Lends x (fun s' _ => s' == s) u v := by
    obtain ⟨v, taken, lends⟩ := lends_bindConventions (E := E) (m := m) hs
    exact ⟨v, (bind_of_ok (steady hu)).trans taken, lends⟩
  obtain ⟨v, ended, lends⟩ := lends_forM each rfl h
  refine ⟨v, ?_, lends⟩
  unfold bindToStates
  rw [bind_of_ok (get_apply w)]
  refine (bind_of_ok ended).trans ?_
  exact steady (lends.machine m)

/-- Writing the state of a model fails for want of an attribute that can be written, if at all. -/
theorem error_of_writeState {y a : Value} (h : writeState m y a w = (.error (.fault f), v)) : f = .missingAttribute := by
  unfold writeState at h
  rw [bind_of_ok (get_apply w)] at h
  cases kept : (w.machine m).accessor with
  | ledger name id =>
    simp only [kept] at h
    cases h
  | field name =>
    simp only [kept] at h
    cases written : w.writeAttribute y name a with
    | ok u => cases (advance_ok written).symm.trans h
    | error g =>
      cases (advance_error written).symm.trans h
      unfold World.writeAttribute at written
      split at written
      · split at written
        · exact (Except.error.inj written).symm
        · cases written
      · exact (Except.error.inj written).symm

/-- A model is not placed because the state is refused, before anything has happened, or for want of an attribute. -/
theorem error_of_place {state models : Value} (h : place m state models w = (.error (.fault f), v)) :
    (w.stateFor m state = .error f ∧ v = w) ∨ f = .missingAttribute := by
  have written (ys : List Value) (a : Value) {u : World}
      (h : ys.forM (fun y => writeState m y a) u = (.error (.fault f), v)) : f = .missingAttribute := by
    induction ys generalizing u with
    | nil => cases h
    | cons y ys ih =>
      rcases hy : writeState m y a u with ⟨(g | _) | b, t⟩
      · cases (bind_of_error hy).symm.trans h
        exact error_of_writeState hy
      · cases (bind_of_error hy).symm.trans h
      · exact ih ((bind_of_ok hy).symm.trans h)
  unfold place at h
  cases found : w.stateFor m state with
  | error g =>
    have refused : Act.ask (fun w => w.stateFor m state) w = (.error (.fault g), w) := by
      rw [ask_apply, found]
      rfl
    rw [bind_of_error refused] at h
    cases h
    exact .inl ⟨rfl, rfl⟩
  | ok s =>
    have asked : Act.ask (fun w => w.stateFor m state) w = (.ok s, w) := ask_ok found
    rw [bind_of_ok asked, bind_of_ok (get_apply w)] at h
    exact .inr (written _ _ h)

theorem error_of_stateFor {state : Value} (h : w.stateFor m state = .error f) :
    f = .wrongType ∨ ∃ name, f = .unregisteredState name := by
  have lookup {y : Value} (h : w.lookupState m y = .error f) : f = .wrongType ∨ ∃ name, f = .unregisteredState name := by
    unfold lookupState at h
    simp only [] at h
    split at h
    · split at h
      · cases h
      · exact .inr ⟨_, (Except.error.inj h).symm⟩
    · exact .inl (Except.error.inj h).symm
  unfold World.stateFor at h
  split at h
  · cases h
  · exact lookup h

/-- A model that is not bound although it has been asked for has lent its names to the states, and then its state was
refused, or it has no attribute that can be written. -/
theorem error_of_bindModel (unhidden : ∀ s ∈ (w.machine m).states.values, w.Unhidden x s) {chosen : Value}
    (h : E.bindModel m chosen x w = (.error (.fault f), v)) :
    x.isIn (w.boundModels m) = false ∧ (f = .missingAttribute ∨
      Lends x (fun s _ => decide (s ∈ (w.machine m).states.values)) w v ∧ v.stateFor m chosen = .error f) := by
  unfold bindModel at h
  rw [bind_of_ok (get_apply w)] at h
  split at h
  · cases h
  · rename_i unbound
    refine ⟨by simpa using unbound, ?_⟩
    obtain ⟨u, taken, lends⟩ := lends_bindToStates (E := E) unhidden
    rw [bind_of_ok taken] at h
    rcases placed : place m chosen x u with ⟨(g | _) | a, t⟩
    · rw [bind_of_error placed] at h
      cases h
      rcases error_of_place placed with ⟨refused, rfl⟩ | missing
      · exact .inr ⟨lends, refused⟩
      · exact .inl missing
    · rw [bind_of_error placed] at h
      cases h
    · rw [bind_of_ok placed] at h
      cases h

end Engine

/-- Binding one model fails for want of an initial state, or because the state that is given for it is not registered. In
the first case nothing at all has changed. In the second case the model is not bound, and neither its state nor anything
else has changed but the callbacks of the registered states, as the history tells: each state has got the name of its
convention for a stage behind its callbacks, if the model offers a method by this name that was not among them. So nothing
at all has changed where the model offers no such method. No property stands before the methods of the model. -/
theorem refused_model_leaves_its_names {E : Engine} {models initial : Value} (single : models.items = [x])
    (unhidden : ∀ s ∈ (w.machine m).states.values, w.Unhidden x s)
    (h : E.perform (.bindModels m models initial) w = (.error (.fault f), v)) :
    (f = .noInitialState → v = w) ∧ ∀ name, f = .unregisteredState name →
      v = { w with states := v.states, history := v.history } ∧ x.isIn (v.boundModels m) = false ∧
      (∀ s, (v.states.get s).value = (w.states.get s).value ∧ (v.states.get s).ignore = (w.states.get s).ignore ∧
        ∀ stage, (v.states.get s).callbacks stage = (w.states.get s).callbacks stage ++
          if s ∈ (w.machine m).states.values then w.lent x s stage else []) ∧
      ((∀ s ∈ (w.machine m).states.values, ∀ stage, w.lent x s stage = []) → v = w) := by
  have bound {chosen : Value} (h : models.items.forM (E.bindModel m chosen) w = (.error (.fault f), v)) :
      E.bindModel m chosen x w = (.error (.fault f), v) := by
    rw [single] at h
    exact error_of_bind_apply (fun _ t => ⟨_, t, rfl⟩) h
  have finished : E.bindModels m models initial w = (.error (.fault f), v) :=
    error_of_bind_apply (fun _ t => ⟨_, t, rfl⟩) h
  have chose : (f = .noInitialState ∧ v = w) ∨ ∃ chosen, E.bindModel m chosen x w = (.error (.fault f), v) := by
    unfold Engine.bindModels at finished
    cases initial with
    | null =>
      simp only [] at finished
      rw [bind_of_ok (get_apply w)] at finished
      cases settled : (w.machine m).initial with
      | null =>
        simp only [settled] at finished
        cases (bind_of_error (fail_apply _ w)).symm.trans finished
        exact .inl ⟨rfl, rfl⟩
      | _ =>
        simp only [settled] at finished
        exact .inr ⟨_, bound finished⟩
    | _ => exact .inr ⟨_, bound finished⟩
  rcases chose with ⟨rfl, rfl⟩ | ⟨chosen, h⟩
  · exact ⟨fun _ => rfl, nofun⟩
  · obtain ⟨unbound, rfl | ⟨lends, refused⟩⟩ := Engine.error_of_bindModel unhidden h
    · exact ⟨nofun, nofun⟩
    · refine ⟨?_, fun name _ => ⟨lends.rest, ?_, fun s => ⟨lends.values s, lends.ignore s, fun stage => ?_⟩, fun none => ?_⟩⟩
      · rintro rfl
        rcases Engine.error_of_stateFor refused with h | ⟨_, h⟩ <;> cases h
      · have same : v.boundModels m = w.boundModels m := by rw [boundModels, lends.machine, lends.rest, boundModels]
        rwa [same]
      · simpa using lends.callbacks s stage
      · exact lends.nothing (fun s stage hs => none s (of_decide_eq_true hs) stage)

def lockHost : Host where
  behaviour := fun _ _ _ _ => .done .null

/-- A lock for a barge that is low until it is filled. -/
def lockPlan : Blueprint where
  options := { initial := .text "low", autoTransitions := .bool false }
  states := .list [.text "low", .text "high"]
  transitions := .list [.list [.text "fill", .text "low", .text "high"]]
  models := .model "barge"

def lockEngine : Engine := Engine.ofHost lockHost 4 2

/-- The lock with the barge, and with a tug that is not bound. -/
def lockWorld (tug : Model) : World :=
  (lockEngine.perform (.create "locks" lockPlan) { models := ⟨[("tug", tug)]⟩ }).2

/-- The lock after the tug was to be bound in a dry one. -/
def lockRefusing (tug : Model) : World :=
  (lockEngine.perform (.bindModels 0 (.model "tug") (.text "dry")) (lockWorld tug)).2

/-- A tug that toots when it is high. -/
def tootingTug : Model where
  methods := ⟨[("on_enter_high", "toot")]⟩

/-- The tug is refused, as no lock is dry. But the barge cannot be lifted any more without failing: that the tug would toot
stays among the callbacks of the high lock, and the barge cannot. -/
theorem refused_tug_stops_barge :
    ((lockWorld tootingTug).states.get 1).onEnter = [] ∧
      (lockEngine.perform (.trigger 0 (.model "barge") (.text "fill") [] []) (lockWorld tootingTug)).1 =
        .ok (.value (.bool true)) ∧
    (lockEngine.perform (.bindModels 0 (.model "tug") (.text "dry")) (lockWorld tootingTug)).1 =
      .error (.fault (.unregisteredState (.text "dry"))) ∧
      (lockRefusing tootingTug).boundModels 0 = [.model "barge"] ∧
      ((lockRefusing tootingTug).states.get 1).onEnter = [.text "on_enter_high"] ∧
    (lockEngine.perform (.trigger 0 (.model "barge") (.text "fill") [] []) (lockRefusing tootingTug)).1 =
      .error (.fault (.unresolved (.text "on_enter_high"))) := by
  have before : (some (lockWorld tootingTug)).map (fun w => ((w.states.get 1).onEnter,
      (lockEngine.perform (.trigger 0 (.model "barge") (.text "fill") [] []) w).1)) =
      some ([], .ok (.value (.bool true))) := by cbv
  have after : (some (lockEngine.perform (.bindModels 0 (.model "tug") (.text "dry")) (lockWorld tootingTug))).map
      (fun y => (y.1, y.2.boundModels 0, (y.2.states.get 1).onEnter,
        (lockEngine.perform (.trigger 0 (.model "barge") (.text "fill") [] []) y.2).1)) =
      some (.error (.fault (.unregisteredState (.text "dry"))), [.model "barge"], [.text "on_enter_high"],
        .error (.fault (.unresolved (.text "on_enter_high")))) := by cbv
  simp only [Option.map_some, Option.some.injEq, Prod.mk.injEq] at before after
  exact ⟨before.1, before.2, after⟩

/-- A tug without methods is refused likewise, and nothing has changed. -/
theorem silent_tug_leaves_lock :
    (lockEngine.perform (.bindModels 0 (.model "tug") (.text "dry")) (lockWorld {})).1 =
      .error (.fault (.unregisteredState (.text "dry"))) ∧ lockRefusing {} = lockWorld {} := by
  have refused : (lockEngine.perform (.bindModels 0 (.model "tug") (.text "dry")) (lockWorld {})).1 =
      .error (.fault (.unregisteredState (.text "dry"))) := by cbv
  have tug : (lockWorld {}).model "tug" = {} := by cbv
  have outcome : lockEngine.perform (.bindModels 0 (.model "tug") (.text "dry")) (lockWorld {}) =
      (.error (.fault (.unregisteredState (.text "dry"))), lockRefusing {}) := Prod.ext refused rfl
  have unhidden (s : StateId) : (lockWorld {}).Unhidden (.model "tug") s := by
    intro y stage hy
    cases hy
    rw [tug]
    rfl
  have left := (refused_model_leaves_its_names rfl (fun s _ => unhidden s) outcome).2 _ rfl
  refine ⟨refused, left.2.2.2 (fun s _ stage => ?_)⟩
  have nothing (name : String) : (lockWorld {}).offers (.model "tug") name = false := by
    simp only [World.offers, tug]
    rfl
  rw [World.lent, nothing, Bool.false_and]
  rfl

end StateEngine
