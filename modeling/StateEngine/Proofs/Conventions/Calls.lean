import StateEngine.Machine.Creation
import StateEngine.Proofs.Conventions.Basic
import StateEngine.Proofs.Going.Operations

/-! What the calls that register states and bind models make of the conventions: whenever a state and a model
that carries its method come together, in whichever order, the state has taken the method up. -/
namespace StateEngine
open Act World

namespace World

/-- A state and a model that carries its method for a stage are together at a machine. -/
def Met (w : World) (m : MachineId) (carries : Value → String → Prop) (s : StateId) (stage : StateStage) : Prop :=
  s ∈ (w.machine m).states.values ∧ ∃ x ∈ w.boundModels m, carries x (w.convention s stage)

/-- The states of a machine are there, and filed under their names. -/
def Filing (w : World) (m : MachineId) : Prop :=
  ∀ x ∈ (w.machine m).states.entries, x.1 = (w.states.get x.2).name ∧ x.2 < w.states.next

/-- What an entry of a specification gives is named by a text, and has none of its conventions among its
callbacks. -/
def Tacit (w : World) (options : StateOptions) (entry : Value) : Prop :=
  ∀ s v, w.stateOf options entry = .ok (s, v) →
    (∃ n, (v.states.get s).name = .text n) ∧ ∀ stage, v.Sings s stage False

/-- Between two worlds a machine has got more states and models, and every state has taken up its conventions as
far as models that carry them are there in the end. -/
structure Unites (m : MachineId) (I : World → Prop) (carries : Value → String → Prop) (w v : World) : Prop where
  answers : I v
  filing : v.Filing m
  made : w.states.next ≤ v.states.next
  values : ∀ s < w.states.next, (v.states.get s).value = (w.states.get s).value
  states : ∀ s ∈ (w.machine m).states.values, s ∈ (v.machine m).states.values
  models : ∀ x ∈ w.boundModels m, x ∈ v.boundModels m
  sings : ∀ s < w.states.next, ∀ stage p, (w.Met m carries s stage → p) → w.Sings s stage p →
    v.Sings s stage (p ∨ v.Met m carries s stage)
  fresh : ∀ s ∈ (v.machine m).states.values, s ∉ (w.machine m).states.values →
    ∀ stage, v.Sings s stage (v.Met m carries s stage)

variable {I : World → Prop} {carries : Value → String → Prop} {m : MachineId} {s : StateId} {w v u : World}

theorem Filing.lt (h : w.Filing m) (hs : s ∈ (w.machine m).states.values) : s < w.states.next := by
  obtain ⟨x, hx, rfl⟩ := List.mem_map.mp hs
  exact (h x hx).2

/-- A state whose name is new is not registered. -/
theorem Filing.fresh (h : w.Filing m) (hnew : (w.machine m).states.contains (w.states.get s).name = false) :
    s ∉ (w.machine m).states.values := by
  intro hs
  obtain ⟨x, hx, rfl⟩ := List.mem_map.mp hs
  have named : (x.1 == (w.states.get x.2).name) = true := by
    rw [(h x hx).1]
    exact ReflBEq.rfl
  obtain ⟨_, found⟩ := Table.find?_of_mem hx named
  simp [Table.contains, found] at hnew

theorem convention_congr (h : (v.states.get s).value = (w.states.get s).value) (stage : StateStage) :
    v.convention s stage = w.convention s stage := by
  simp only [World.convention, Engine.conventionName, State.name, h]

theorem Unites.refl (hI : I w) (hf : w.Filing m) : Unites m I carries w w where
  answers := hI
  filing := hf
  made := Nat.le_refl _
  values _ _ := rfl
  states _ hs := hs
  models _ hx := hx
  sings _ _ _ _ met hp := hp.congr (by tauto)
  fresh s hs hn := absurd hs hn

/-- Who has met stays together. -/
theorem Unites.met (h : Unites m I carries w v) {stage : StateStage} (hf : w.Filing m)
    (met : w.Met m carries s stage) : v.Met m carries s stage := by
  obtain ⟨hs, x, hx, hc⟩ := met
  exact ⟨h.states s hs, x, h.models x hx, by rwa [convention_congr (h.values s (hf.lt hs))]⟩

theorem Unites.trans (h : Unites m I carries w v) (h' : Unites m I carries v u) : Unites m I carries w u where
  answers := h'.answers
  filing := h'.filing
  made := Nat.le_trans h.made h'.made
  values s hs := (h'.values s (Nat.lt_of_lt_of_le hs h.made)).trans (h.values s hs)
  states s hs := h'.states s (h.states s hs)
  models x hx := h'.models x (h.models x hx)
  sings s hs stage p met hp := by
    have first := h.sings s hs stage p met hp
    have second := h'.sings s (Nat.lt_of_lt_of_le hs h.made) stage _ .inr first
    exact second.congr ⟨fun hq => hq.elim (.imp_right (h'.met h.filing)) .inr, .imp_left .inl⟩
  fresh s hs hn stage := by
    by_cases hv : s ∈ (v.machine m).states.values
    · have second := h'.sings s (h.filing.lt hv) stage _ id (h.fresh s hv hn stage)
      exact second.congr ⟨fun hq => hq.elim (h'.met h.filing) id, .inr⟩
    · exact h'.fresh s hs hv stage

/-- An entry stands for a state that is there, or makes the same new one in every world. -/
theorem stateOf_uniform (options : StateOptions) (entry : Value) :
    (∃ s, entry = .state s) ∨ ∃ r : Except Fault State, ∀ w : World, w.stateOf options entry = r.map w.addState := by
  unfold stateOf
  cases entry with
  | state s => exact .inl ⟨s, rfl⟩
  | text a => exact .inr ⟨.ok _, fun _ => rfl⟩
  | member e n textual a => exact .inr ⟨.ok _, fun _ => rfl⟩
  | map entries =>
    refine .inr ⟨(({} : World).stateOf options (.map entries)).map (fun x => x.2.states.get x.1), fun w => ?_⟩
    unfold stateOf
    simp only []
    cases namedEntries entries with
    | error f => rfl
    | ok named =>
      simp only [bind, Except.bind]
      cases (stateParameters options.ignore).bind [] named with
      | error f => rfl
      | ok parts =>
        rcases parts with _ | ⟨_, _ | ⟨_, _ | ⟨_, _ | ⟨_, _ | _⟩⟩⟩⟩ <;> rfl
  | _ => exact .inr ⟨.error _, fun _ => rfl⟩

/-- What an entry gives, it gives later on as well, unless it is registered by then. -/
theorem Tacit.later {options : StateOptions} {entry : Value} (h : w.Tacit options entry)
    (hu : Unites m I carries w v) (hs : v.stateOf options entry = .ok (s, u))
    (hn : s ∉ (v.machine m).states.values) :
    s < u.states.next ∧ ∀ stage, u.Sings s stage False := by
  rcases stateOf_uniform options entry with ⟨s', rfl⟩ | ⟨r, hr⟩
  · cases hs
    obtain ⟨⟨n, named⟩, silent⟩ := h s w rfl
    have hlt : s < w.states.next := lt_of_name_text named
    refine ⟨Nat.lt_of_lt_of_le hlt hu.made, fun stage => ?_⟩
    have sung := hu.sings s hlt stage False (fun met => hn (hu.states s met.1)) (silent stage)
    exact sung.congr ⟨fun hq => hq.elim id (fun met => hn met.1), False.elim⟩
  · rw [hr] at hs
    cases r with
    | error f => cases hs
    | ok x =>
      obtain ⟨-, silent⟩ := h w.states.next (w.addState x).2 (by rw [hr]; rfl)
      have made {t : World} : (t.addState x).2.states.get t.states.next = x := by simp [addState]
      cases hs
      exact ⟨by simp, fun stage => (silent stage).of_state (made.trans made.symm)⟩

/-- Getting a state from an entry makes one at most. -/
theorem beside_stateOf {options : StateOptions} {entry : Value} (h : w.stateOf options entry = .ok (s, v)) :
    Beside w v ∧ Arranged w v := by
  rcases stateOf_uniform options entry with ⟨s', rfl⟩ | ⟨r, hr⟩
  · cases h
    exact ⟨⟨rfl, rfl, Nat.le_refl _, fun _ _ => rfl⟩, ⟨rfl, rfl, rfl, rfl, rfl, rfl, fun _ => rfl⟩⟩
  · rw [hr] at h
    cases r with
    | error f => cases h
    | ok x =>
      cases h
      refine ⟨⟨rfl, rfl, by simp, fun i hi => ?_⟩, ⟨rfl, rfl, rfl, rfl, rfl, rfl, fun _ => rfl⟩⟩
      exact (Heap.get_push _ _ _).trans (if_neg (Nat.ne_of_lt hi))

/-- What leaves states, rosters and the registered states alone, brings nobody together. -/
theorem Unites.of_same (hI : I v) (hf : w.Filing m) (states : v.states = w.states) (rosters : v.rosters = w.rosters)
    (registered : (v.machine m).states = (w.machine m).states) (roster : (v.machine m).roster = (w.machine m).roster) :
    Unites m I carries w v := by
  have met (s : StateId) (stage : StateStage) : v.Met m carries s stage ↔ w.Met m carries s stage := by
    simp only [Met, boundModels, World.convention, registered, roster, rosters, states]
  exact {
    answers := hI
    filing := fun x hx => by rw [registered] at hx; rw [states]; exact hf x hx
    made := Nat.le_of_eq (by rw [states])
    values := fun s _ => by rw [states]
    states := fun s hs => by rwa [registered]
    models := fun x hx => by rwa [boundModels, rosters, roster]
    sings := fun s _ stage p hmet hp =>
      (hp.of_state (by rw [states])).congr ⟨.inl, fun h => h.elim id (fun h => hmet ((met s stage).mp h))⟩
    fresh := fun s hs hn => absurd (registered ▸ hs) hn }

end World

namespace Engine

variable {E : Engine} {I : World → Prop} {carries : Value → String → Prop} {m : MachineId} {w v : World}

theorem unites_connect (hE : E.Answers I carries) {trigger source dest : Value} {hooks : Hooks} (hI : I w)
    (hf : w.Filing m) {n : MachineId} (h : w.connect n trigger source dest hooks = .ok v) : Unites m I carries w v := by
  have relisted := relisted_connect h
  have rest := relisted.rest
  have accessor (n : MachineId) : (v.machine n).accessor = (w.machine n).accessor := by
    obtain ⟨events, hn⟩ := relisted.machine n
    rw [hn]
  obtain ⟨events, hm⟩ := relisted.machine m
  refine .of_same (hE.arranged hI ⟨?_, ?_, ?_, ?_, ?_, ?_, accessor⟩) hf ?_ ?_ (by rw [hm]) (by rw [hm])
  all_goals rw [rest]

/-- Going through a list brings states and models together if each step does. -/
theorem unites_forM {α : Type} {action : α → Run PUnit} {xs : List α} (hI : I w) (hf : w.Filing m)
    (haction : ∀ x ∈ xs, ∀ {t u r}, Unites m I carries w t → action x t = (.ok r, u) → Unites m I carries t u)
    {r : PUnit} (h : xs.forM action w = (.ok r, v)) : Unites m I carries w v := by
  have run {t : World} (ht : Unites m I carries w t) (xs : List α) (hxs : ∀ x ∈ xs, ∀ {t u r},
      Unites m I carries w t → action x t = (.ok r, u) → Unites m I carries t u)
      (h : xs.forM action t = (.ok r, v)) : Unites m I carries w v := by
    induction xs generalizing t with
    | nil => exact (Prod.mk.inj h).2 ▸ ht
    | cons x xs ih =>
      obtain ⟨_, u, one, rest⟩ := ok_of_bind_apply h
      exact ih (ht.trans (hxs x List.mem_cons_self ht one)) (fun x hx => hxs x (List.mem_cons_of_mem _ hx)) rest
  exact run (.refl hI hf) xs haction h

theorem unites_connectAutomatically (hE : E.Answers I carries) (hI : I w) (hf : w.Filing m) {n : MachineId}
    {s : StateId} {r : Unit} (h : connectAutomatically n s w = (.ok r, v)) : Unites m I carries w v := by
  rw [connectAutomatically, bind_of_ok (get_apply w)] at h
  exact unites_forM hI hf (fun other _ t u r ht hstep =>
    unites_connect hE ht.answers ht.filing (ok_of_advance hstep)) h

/-- A state that is enrolled is new, and takes up the methods of the models in the roster. -/
theorem unites_enroll (hE : E.Answers I carries) (hI : I w) (hf : w.Filing m) {options : StateOptions}
    {entry : Value} {s : StateId} {u : World} (henroll : w.enroll m options entry = .ok (s, u))
    (tacit : ∀ s t, w.stateOf options entry = .ok (s, t) → s ∉ (w.machine m).states.values →
      s < t.states.next ∧ ∀ stage, t.Sings s stage False)
    {r : Unit} (h : forRoster (u.machine m).roster (E.bindConventions m s) E.bound 0 u = (.ok r, v)) :
    Unites m I carries w v := by
  obtain ⟨t, hs, -, hnew, hu⟩ := enroll_cases henroll
  obtain ⟨beside, arranged⟩ := beside_stateOf hs
  have machine : t.machine m = w.machine m := by simp only [World.machine, beside.machines]
  have registered : (u.machine m).states.entries = (w.machine m).states.entries ++ [((t.states.get s).name, s)] := by
    rw [hu, machine_updateMachine, if_pos rfl, ← machine]
    exact Table.entries_insert_of_not_contains hnew
  have roster : (u.machine m).roster = (w.machine m).roster := by
    rw [hu, machine_updateMachine, if_pos rfl, ← machine]
  have hfiling : t.Filing m := fun x hx => by
    rw [machine] at hx
    rw [beside.states _ (hf x hx).2]
    exact ⟨(hf x hx).1, Nat.lt_of_lt_of_le (hf x hx).2 beside.made⟩
  have fresh : s ∉ (w.machine m).states.values := machine ▸ hfiling.fresh hnew
  obtain ⟨hlt, silent⟩ := tacit s t hs fresh
  have states : u.states = t.states := by rw [hu]; rfl
  have bound : u.boundModels m = w.boundModels m := by
    rw [boundModels, roster, boundModels, ← beside.rosters, hu]
    rfl
  have arranged' : Arranged w u := by
    rw [hu]
    refine ⟨arranged.models, arranged.ledgers, arranged.firings, arranged.invocations, arranged.names,
      arranged.requests, fun n => ?_⟩
    rw [machine_updateMachine, ← arranged.accessors n]
    split <;> rfl
  have learned := learns_forRoster hE (hE.arranged hI arranged') (by rw [states]; exact hlt) h
  have values (s' : StateId) (hs' : s' < w.states.next) : (v.states.get s').value = (w.states.get s').value := by
    rw [learned.values s' (by rw [states]; exact Nat.lt_of_lt_of_le hs' beside.made), states, beside.states s' hs']
  have entries : (v.machine m).states.entries = (w.machine m).states.entries ++ [((t.states.get s).name, s)] := by
    rw [learned.machine, registered]
  have mem (s' : StateId) : s' ∈ (v.machine m).states.values ↔ s' ∈ (w.machine m).states.values ∨ s' = s := by
    simp [Table.values, entries]
  have models : v.boundModels m = w.boundModels m := by
    rw [boundModels, learned.machine, learned.rosters, ← boundModels, bound]
  have made : w.states.next ≤ u.states.next := by rw [states]; exact beside.made
  have heard {s' : StateId} (hs' : s' < u.states.next) (stage : StateStage) :
      (s' = s ∧ ∃ x ∈ (u.rosters.get (u.machine m).roster).drop 0, carries x (u.convention s' stage)) ↔
        s' = s ∧ ∃ x ∈ v.boundModels m, carries x (v.convention s' stage) := by
    rw [learned.convention hs', List.drop_zero, ← boundModels, models, bound]
  refine ⟨learned.answers, fun x hx => ?_, ?_, values, fun s' hs' => (mem s').mpr (.inl hs'), fun x hx => ?_,
    fun s' hs' stage p met hp => ?_, fun s' hs' hn stage => ?_⟩
  · rw [entries, List.mem_append, List.mem_singleton] at hx
    rcases hx with hx | rfl
    · obtain ⟨name, hlt'⟩ := hf x hx
      exact ⟨name.trans (congrArg Value.registrationName (values x.2 hlt').symm),
        Nat.lt_of_lt_of_le hlt' (Nat.le_trans made learned.made)⟩
    · have hlt' : s < u.states.next := by rw [states]; exact hlt
      refine ⟨?_, Nat.lt_of_lt_of_le hlt' learned.made⟩
      simp only [State.name, learned.values s hlt', states]
  · exact Nat.le_trans made learned.made
  · rwa [models]
  · have sung := learned.sings s' (Nat.lt_of_lt_of_le hs' made) stage p
      (hp.of_state (by rw [states, beside.states s' hs']))
    refine sung.congr ⟨.imp_right fun h => ?_, fun h => h.elim .inl fun h => ?_⟩
    · obtain ⟨rfl, hx⟩ := (heard (Nat.lt_of_lt_of_le hs' made) stage).mp h
      exact ⟨(mem s').mpr (.inr rfl), hx⟩
    · obtain ⟨hmem, hx⟩ := h
      rcases (mem s').mp hmem with old | new
      · rw [models, convention_congr (values s' hs')] at hx
        exact .inl (met ⟨old, hx⟩)
      · exact .inr ((heard (Nat.lt_of_lt_of_le hs' made) stage).mpr ⟨new, hx⟩)
  · obtain rfl : s' = s := ((mem s').mp hs').resolve_left hn
    have hlt' : s' < u.states.next := by rw [states]; exact hlt
    have sung := learned.sings s' hlt' stage False ((silent stage).of_state (by rw [states]))
    refine sung.congr ⟨fun h => ?_, fun h => .inr ((heard hlt' stage).mpr ⟨rfl, h.2⟩)⟩
    exact ⟨hs', ((heard hlt' stage).mp (h.resolve_left id)).2⟩

/-- A new state takes up the methods of all models that are bound. -/
theorem unites_addState (hE : E.Answers I carries) (hI : I w) (hf : w.Filing m) {options : StateOptions}
    {entry : Value} (tacit : ∀ s u, w.stateOf options entry = .ok (s, u) → s ∉ (w.machine m).states.values →
      s < u.states.next ∧ ∀ stage, u.Sings s stage False)
    {r : Unit} (h : E.addState m options entry w = (.ok r, v)) : Unites m I carries w v := by
  obtain ⟨⟨s, u⟩, w', asked, h⟩ := ok_of_bind_apply h
  obtain ⟨henroll, -⟩ := ok_of_ask asked
  simp only [bind_of_ok (set_apply _ _), pure_bind, bind_of_ok (get_apply _)] at h
  obtain ⟨_, t, roster, h⟩ := ok_of_bind_apply h
  have first := unites_enroll hE hI hf henroll tacit roster
  rw [bind_of_ok (get_apply _)] at h
  split at h
  · exact first.trans (unites_connectAutomatically hE first.answers first.filing h)
  · exact (Prod.mk.inj h).2 ▸ first

theorem unites_addStates (hE : E.Answers I carries) (hI : I w) (hf : w.Filing m) {states : Value}
    {options : StateOptions} (tacit : ∀ entry ∈ states.items, w.Tacit options entry) {r : Unit}
    (h : E.addStates m states options w = (.ok r, v)) : Unites m I carries w v :=
  unites_forM hI hf (fun entry hentry _ _ _ ht hstep =>
    unites_addState hE ht.answers ht.filing (fun _ _ hs hn => (tacit entry hentry).later ht hs hn) hstep) h

/-- The initial state is registered before if it is new. -/
theorem unites_setInitial (hE : E.Answers I carries) (hI : I w) (hf : w.Filing m) {x : Value}
    (tacit : (w.machine m).states.contains (w.nameOf x) = false → ∀ entry ∈ x.items, w.Tacit {} entry) {r : Unit}
    (h : E.setInitial m x w = (.ok r, v)) : Unites m I carries w v := by
  have settled {t u : World} (ht : Unites m I carries w t)
      (hu : u = t.updateMachine m (fun machine => { machine with initial := w.nameOf x })) : Unites m I carries w u := by
    have same : u.machine m = { t.machine m with initial := w.nameOf x } := by rw [hu, machine_updateMachine, if_pos rfl]
    refine ht.trans (.of_same (hE.arranged ht.answers ?_) ht.filing (by rw [hu]; rfl) (by rw [hu]; rfl) (by rw [same])
      (by rw [same]))
    rw [hu]
    refine ⟨rfl, rfl, rfl, rfl, rfl, rfl, fun n => ?_⟩
    rw [machine_updateMachine]
    split <;> rfl
  unfold setInitial at h
  rw [bind_of_ok (get_apply w)] at h
  split at h
  · cases h
  · split at h
    · rename_i absent
      obtain ⟨_, t, added, h⟩ := ok_of_bind_apply h
      exact settled (unites_addStates hE hI hf (tacit ((Bool.not_eq_true' _).mp absent)) added) (Prod.mk.inj h).2.symm
    · simp only [] at h
      split at h
      · split at h
        · cases h
        · exact settled (.refl hI hf) (Prod.mk.inj h).2.symm
      · exact settled (.refl hI hf) (Prod.mk.inj h).2.symm

/-- A model takes part in all conventions of the registered states when it is bound. -/
theorem unites_bindModel (hE : E.Answers I carries) (hI : I w) (hf : w.Filing m) {initial x : Value} {r : Unit}
    (h : E.bindModel m initial x w = (.ok r, v)) : Unites m I carries w v := by
  unfold bindModel at h
  rw [bind_of_ok (get_apply w)] at h
  split at h
  · exact (Prod.mk.inj h).2 ▸ .refl hI hf
  · obtain ⟨_, t, bound, h⟩ := ok_of_bind_apply h
    obtain ⟨_, u, placed, h⟩ := ok_of_bind_apply h
    obtain ⟨-, hv⟩ := Prod.mk.inj h
    have learned := learns_bindToStates hE hI (fun s hs => hf.lt hs) bound
    obtain ⟨hu, beside⟩ := beside_place hE learned.answers placed
    have machine : v.machine m = w.machine m := by
      rw [← learned.machine, ← hv]
      simp only [World.machine, beside.machines]
    have models : v.boundModels m = w.boundModels m ++ [x] := by
      rw [boundModels, machine, ← hv]
      simp only [Heap.get_modify, World.machine, beside.machines, learned.machines, beside.rosters, learned.rosters, if_true]
      rfl
    have made : w.states.next ≤ v.states.next := by
      rw [← hv]
      exact Nat.le_trans learned.made beside.made
    have state (s : StateId) (hs : s < w.states.next) : v.states.get s = t.states.get s := by
      rw [← hv]
      exact beside.states s (Nat.lt_of_lt_of_le hs learned.made)
    have values (s : StateId) (hs : s < w.states.next) : (v.states.get s).value = (w.states.get s).value := by
      rw [state s hs, learned.values s hs]
    have arranged : Arranged u v := by
      rw [← hv]
      exact ⟨rfl, rfl, rfl, rfl, rfl, rfl, fun _ => rfl⟩
    refine ⟨hE.arranged hu arranged, fun y hy => ?_, made, values, fun s hs => by rwa [machine], fun y hy => ?_,
      fun s hs stage p met hp => ?_, fun s hs hn => absurd (machine ▸ hs) hn⟩
    · rw [machine] at hy
      obtain ⟨name, hlt⟩ := hf y hy
      exact ⟨name.trans (congrArg Value.registrationName (values y.2 hlt).symm), Nat.lt_of_lt_of_le hlt made⟩
    · rw [models]
      exact List.mem_append_left _ hy
    · refine ((learned.sings s hs stage p hp).of_state (state s hs)).congr ⟨.imp_right fun h => ?_, fun h => h.elim .inl
        fun h => ?_⟩
      · rw [Met, machine, models, convention_congr (values s hs)]
        exact ⟨h.1, x, by simp, h.2⟩
      · obtain ⟨hmem, y, hy, hc⟩ := h
        rw [machine] at hmem
        rw [convention_congr (values s hs)] at hc
        rw [models, List.mem_append, List.mem_singleton] at hy
        rcases hy with hy | rfl
        · exact .inl (met ⟨hmem, y, hy, hc⟩)
        · exact .inr ⟨hmem, hc⟩

theorem unites_bindModels (hE : E.Answers I carries) (hI : I w) (hf : w.Filing m) {models initial : Value} {r : Unit}
    (h : E.bindModels m models initial w = (.ok r, v)) : Unites m I carries w v := by
  unfold bindModels at h
  have bound (chosen : Value) (run : models.items.forM (E.bindModel m chosen) w = (.ok r, v)) :
      Unites m I carries w v :=
    unites_forM hI hf (fun _ _ _ _ _ ht hstep => unites_bindModel hE ht.answers ht.filing hstep) run
  cases initial with
  | null =>
    simp only [bind_of_ok (get_apply w)] at h
    cases hs : (w.machine m).initial with
    | null => rw [hs] at h; cases h
    | _ => rw [hs] at h; exact bound _ h
  | _ => exact bound _ h

/-- What a machine is told of its transitions brings nobody together. -/
theorem unites_connectDefinitions (hE : E.Answers I carries) (hI : I w) (hf : w.Filing m) {n : MachineId}
    {definitions : Value} {r : Unit} (h : connectDefinitions n definitions w = (.ok r, v)) :
    Unites m I carries w v := by
  have bound {t u : World} (parts : List Value) (ht : Unites m I carries w t) (h : connectBound t n parts = .ok u) :
      Unites m I carries t u := by
    unfold connectBound at h
    split at h
    · exact unites_connect hE ht.answers ht.filing h
    · cases h
  refine unites_forM hI hf (fun definition _ t u _ ht hstep => ?_) h
  have connected := ok_of_advance hstep
  unfold World.connectDefinition at connected
  split at connected
  · obtain ⟨parts, -, connected⟩ := ok_of_bind connected
    exact bound parts ht connected
  · obtain ⟨parts, -, connected⟩ := ok_of_bind connected
    exact bound parts ht connected
  · obtain ⟨named, -, connected⟩ := ok_of_bind connected
    obtain ⟨parts, -, connected⟩ := ok_of_bind connected
    exact bound parts ht connected
  · cases connected

theorem unites_connectRow (hE : E.Answers I carries) (hI : I w) (hf : w.Filing m) {n : MachineId} {row : Row}
    {r : Unit} (h : connectRow n row w = (.ok r, v)) : Unites m I carries w v := by
  obtain ⟨plan, t, asked, run⟩ := ok_of_bind_apply h
  obtain ⟨-, same⟩ := ok_of_ask asked
  rw [same] at run
  exact unites_forM hI hf (fun _ _ _ _ _ ht hstep =>
    unites_connect hE ht.answers ht.filing (ok_of_advance hstep)) run

end Engine

namespace World

/-- Between two worlds a machine has lost models at most. -/
structure Parts (m : MachineId) (I : World → Prop) (w v : World) : Prop where
  answers : I v
  states : v.states = w.states
  registered : (v.machine m).states = (w.machine m).states
  models : ∀ x ∈ v.boundModels m, x ∈ w.boundModels m

theorem Parts.trans {m : MachineId} {I : World → Prop} {w v u : World} (h : Parts m I w v) (h' : Parts m I v u) :
    Parts m I w u where
  answers := h'.answers
  states := h'.states.trans h.states
  registered := h'.registered.trans h.registered
  models x hx := h.models x (h'.models x hx)

end World

theorem parts_unbindModels {E : Engine} {I : World → Prop} {carries : Value → String → Prop} {m : MachineId}
    {w v : World} (hE : E.Answers I carries) (hI : I w) {models : Value} {r : Unit}
    (h : Engine.unbindModels m models w = (.ok r, v)) : Parts m I w v := by
  have one {t : World} (ht : I t) (x : Value) : Parts m I t
      ({ t with rosters := t.rosters.push ((t.boundModels m).filter (fun y => !y.same x)) }.updateMachine m
        (fun machine => { machine with roster := t.rosters.next })) := by
    refine ⟨hE.arranged ht ⟨rfl, rfl, rfl, rfl, rfl, rfl, fun n => ?_⟩, rfl, ?_, fun y hy => ?_⟩
    · rw [machine_updateMachine]
      split <;> rfl
    · rw [machine_updateMachine, if_pos rfl]
      rfl
    · rw [boundModels, machine_updateMachine, if_pos rfl] at hy
      simp only [updateMachine, Heap.get_push, if_true] at hy
      exact (List.mem_filter.mp hy).1
  have run (xs : List Value) {t : World} (ht : Parts m I w t) (h : xs.forM (fun x => Act.change (fun w =>
      { w with rosters := w.rosters.push ((w.boundModels m).filter (fun y => !y.same x)) }.updateMachine m
        (fun machine => { machine with roster := w.rosters.next }))) t = (.ok r, v)) : Parts m I w v := by
    induction xs generalizing t with
    | nil => exact (Prod.mk.inj h).2 ▸ ht
    | cons x xs ih => exact ih (ht.trans (one ht.answers x)) h
  exact run models.items ⟨hI, rfl, rfl, fun _ hx => hx⟩ h

end StateEngine
