import Mathlib
import StateEngine.Proofs.Failing.Basic
import StateEngine.Proofs.Registry.Connecting

/-! What becomes of a machine when the addition of one state fails. The entry is checked before anything is registered; but
what comes behind the registration may fail too, and the state stays registered then. -/
namespace StateEngine
open Act World Relation

variable {E : Engine} {R : World → World → Prop} {m : MachineId} {s : StateId} {w v u : World} {f : Fault}

namespace World

/-- Under the name of a registered state everything is in order, so that nothing but the name of the attribute is in the
way of a trigger that leads from it, or from everywhere, to a registered one. -/
theorem reserved_of_connect (plain : w.PlainNames m) {name other source : Value} (hname : name ∈ (w.machine m).states.keys)
    (hother : other ∈ (w.machine m).states.keys) (hsource : source = everyState ∨ source = name)
    (h : w.connect m (.text ("to_" ++ other.display)) source other {} = .error f) :
    ∃ b, other = .text b ∧ (w.machine m).accessor.name = "to_" ++ b ∧ f = .reservedTrigger (.text ("to_" ++ b)) := by
  obtain ⟨b, rfl⟩ := plain other hother
  obtain ⟨a, rfl⟩ := plain name hname
  rw [Value.display_text] at h
  refine ⟨b, rfl, ?_⟩
  cases taken : (Value.text ("to_" ++ b)).same (.text (w.machine m).accessor.name) with
  | true =>
    have reserved : w.connect m (.text ("to_" ++ b)) source (.text b) {} =
        .error (.reservedTrigger (.text ("to_" ++ b))) := by
      unfold World.connect
      rw [taken]
      rfl
    rw [Value.same_text, beq_iff_eq] at taken
    exact ⟨taken.symm, Except.error.inj (h.symm.trans reserved)⟩
  | false =>
    have inOrder : w.Connectable m (.text ("to_" ++ b)) source (.text b) := by
      refine ⟨taken, rfl, ?_, .inr (.inr (.inr (knows_key hother)))⟩
      rcases hsource with rfl | rfl
      · exact .inl (by rw [everyState, Value.same_text, beq_self_eq_true])
      · exact .inr (fun x hx => List.mem_singleton.mp hx ▸ knows_key hname)
    rw [connect_of_connectable inOrder] at h
    cases h

/-- A state that is filed under its name is new to the machine, and nothing else becomes of the machine. -/
theorem machine_enroll {options : StateOptions} {entry : Value} (h : w.enroll m options entry = .ok (s, v)) :
    (w.machine m).states.contains (v.states.get s).name = false ∧
      v.machine m = { w.machine m with states := (w.machine m).states.insert (v.states.get s).name s } := by
  obtain ⟨u, hu, -, hnew, rfl⟩ := enroll_cases h
  have same : u.machine m = w.machine m := by
    rcases stateOf_cases hu with ⟨-, rfl⟩ | ⟨state, -, rfl⟩ <;> rfl
  refine ⟨same ▸ hnew, ?_⟩
  rw [machine_updateMachine, if_pos rfl, same]
  rfl

end World

namespace Engine

/-- Asking for an attribute fails as reading it does, and not for want of it. -/
theorem error_of_readAttribute? {x : Value} {name : String} (h : E.readAttribute? x name w = (.error (.fault f), v)) :
    E.readAttribute x name w = (.error (.fault f), v) ∧ f.isMissingAttribute = false := by
  unfold readAttribute? at h
  rcases hx : E.readAttribute x name w with ⟨(g | _) | a, u⟩
  · rw [bind_of_ok (attempt_apply (r := .error g) hx)] at h
    simp only [] at h
    split at h
    · cases h
    · rename_i other
      cases h
      exact ⟨rfl, by simpa using other⟩
  · rw [bind_of_error (attempt_exhausted hx)] at h
    cases h
  · rw [bind_of_ok (attempt_apply (r := .ok a) hx)] at h
    cases h

/-- Asking a model for its method by a convention of a state fails, otherwise than for want of one. -/
def Baulks (E : Engine) (s : StateId) (x : Value) (c : World) (f : Fault) (v : World) : Prop :=
  ∃ stage, E.readAttribute x (conventionName stage (c.states.get s)) c = (.error (.fault f), v) ∧
    f.isMissingAttribute = false

theorem blames_bindConventions (hE : E.TakesUp R) (m : MachineId) (s : StateId) (x : Value) :
    Act.Blames R (E.Baulks s x) (E.bindConventions m s x) := by
  refine .forM (fun stage _ => .get_bind (fun c => .bind ?_ (fun found t _ => ?_)))
  · refine ⟨walks_readAttribute?_of (hE.read x _) c, fun f v hf => ⟨c, .refl, stage, ?_⟩⟩
    exact error_of_readAttribute? hf
  · have recorded (severity : Severity) (logger : Logger) (message : String) :
        Act.Blames R (E.Baulks s x) (remark m severity logger message) := .change (fun u => hE.record u _)
    split
    · refine Act.Blames.get_bind (fun u => ?_) t
      split
      · exact Act.Blames.bind (.change (fun u => hE.hook u s _ stage)) (fun _ => recorded _ _ _) u
      · exact Act.Blames.pure _ u
    · exact Act.Blames.pure _ t

/-- Where going through a roster fails, doing so with one of its models does. -/
theorem blames_forRoster {P : Value → World → Fault → World → Prop} {action : Value → Run Unit}
    (h : ∀ x, Act.Blames R (P x) (action x)) (roster : RosterId) (fuel position : Nat) :
    Act.Blames R (fun c f v => ∃ x ∈ c.rosters.get roster, ∃ d, ReflTransGen R c d ∧ P x d f v)
      (forRoster roster action fuel position) := by
  induction fuel generalizing position with
  | zero => exact .exhausted
  | succ fuel ih =>
    refine .get_bind (fun c => ?_)
    split
    · rename_i x there
      refine .bind ⟨(h x c).steps, fun f v hf => ⟨c, .refl, x, List.mem_of_getElem? there, ?_⟩⟩ (fun _ t _ => ih _ t)
      exact (h x c).blame f v hf
    · exact Act.Blames.pure _ c

/-- Where a new state cannot be connected with all others, the trigger that leads to one of them has the name of the
attribute. -/
theorem reserved_of_connectAutomatically (plain : w.PlainNames m)
    (filed : (w.states.get s).name ∈ (w.machine m).states.keys)
    (h : connectAutomatically m s w = (.error (.fault f), v)) :
    Relisted w v ∧ ∃ b, .text b ∈ (w.machine m).states.keys ∧ (w.machine m).accessor.name = "to_" ++ b ∧
      f = .reservedTrigger (.text ("to_" ++ b)) := by
  have relisted {u : World} (steps : ReflTransGen Relisted w u) : Relisted w u := by
    induction steps with
    | refl => exact .refl w
    | tail _ step ih => exact ih.trans step
  unfold connectAutomatically at h
  rw [bind_of_ok (get_apply w)] at h
  have blames := Act.Blames.forM (R := Relisted) (P := fun c f v => c = v ∧ ∃ other ∈ (w.machine m).states.keys,
    c.connect m (.text ("to_" ++ other.display)) (if other.same (w.states.get s).name then everyState
      else (w.states.get s).name) other {} = .error f) (fun other hother =>
        .advance (fun c t hc => .single (relisted_connect hc)) (fun c f hf => ⟨rfl, other, hother, hf⟩)) w
  obtain ⟨c, reached, rfl, other, hother, refused⟩ := blames.blame f v h
  have steps := relisted reached
  obtain ⟨_, same⟩ := steps.machine m
  have states : (c.machine m).states = (w.machine m).states := by rw [same]
  have plain' : c.PlainNames m := fun k hk => plain k (states ▸ hk)
  obtain ⟨b, rfl, taken, rfl⟩ := reserved_of_connect plain' (states ▸ filed) (states ▸ hother)
    (ite_eq_or_eq ..) refused
  exact ⟨steps, b, hother, by rw [← taken, same], rfl⟩

/-- A machine fails to settle on an initial state before it has done anything, or as it registers the state. -/
theorem error_of_setInitial {x : Value} (h : E.setInitial m x w = (.error (.fault f), v)) :
    v = w ∨ E.addStates m x {} w = (.error (.fault f), v) := by
  unfold setInitial at h
  rw [bind_of_ok (get_apply w)] at h
  simp only [] at h
  split at h
  · rw [bind_of_error (fail_apply _ w)] at h
    cases h
    exact .inl rfl
  · split at h
    · exact .inr (error_of_bind_apply (fun _ t => ⟨_, _, change_apply _ t⟩) h)
    · split at h
      · split at h
        · rw [bind_of_error (fail_apply _ w)] at h
          cases h
          exact .inl rfl
        · cases h
      · cases h

/-- How the addition of a state may fail behind its registration under a name: a model that is bound has been asked for its
method by the convention of the state, and this has failed otherwise than for want of one; or transitions are made to and
from every state by itself, and the trigger that leads to one of them has the name of the attribute. -/
inductive Halfway (E : Engine) (m : MachineId) (w : World) (name : Value) : Fault → World → Prop where
  | baulked {x : Value} {c d v : World} {stage : StateStage} {f : Fault} (before : Changes w c)
      (bound : x ∈ c.rosters.get (w.machine m).roster) (further : Changes c d)
      (raised : E.readAttribute x ("on_" ++ stage.word ++ "_" ++ name.display) d = (.error (.fault f), v))
      (other : f.isMissingAttribute = false) : Halfway E m w name f v
  | reserved {v : World} {b : String} (automatic : (v.machine m).autoTransitions.truthy = true)
      (registered : .text b ∈ (v.machine m).states.keys) (taken : (v.machine m).accessor.name = "to_" ++ b) :
      Halfway E m w name (.reservedTrigger (.text ("to_" ++ b))) v

/-- What fails behind the registration of a state leaves the state registered. -/
theorem halfway_of_enrolled (hE : E.Walks Change) {options : StateOptions} {entry : Value}
    (enrolled : w.enroll m options entry = .ok (s, u)) (h : (do
      forRoster ((← get).machine m).roster (E.bindConventions m s) E.bound 0
      if ((← get).machine m).autoTransitions.truthy then connectAutomatically m s : Run Unit) u =
        (.error (.fault f), v)) (plain : v.PlainNames m) :
    ∃ name ∈ (v.machine m).states.keys, (w.machine m).states.contains name = false ∧ E.Halfway m w name f v := by
  obtain ⟨new, machine⟩ := machine_enroll enrolled
  have listed : (u.states.get s).name ∈ (u.machine m).states.keys := by
    rw [machine]
    show _ ∈ ((w.machine m).states.insert _ s).keys
    rw [Table.keys_insert_of_not_contains new]
    exact List.mem_append_right _ (List.mem_singleton_self _)
  have later : Changes u v := (hE.settleState permits_checked m s).steps h
  have listed' := later.extends.1.keys m _ listed
  have known : s < u.states.next := by
    obtain ⟨a, ha⟩ := plain _ listed'
    exact lt_of_name_text ha
  refine ⟨_, listed', new, ?_⟩
  have blames := blames_forRoster (R := Change) (fun x => blames_bindConventions (hE.takesUp permits_checked) m s x)
    (w.machine m).roster E.bound 0 u
  rw [bind_of_ok (get_apply u), machine] at h
  rcases taken : forRoster (w.machine m).roster (E.bindConventions m s) E.bound 0 u with ⟨e | a, c⟩
  · rw [bind_of_error taken] at h
    cases h
    obtain ⟨c, reached, x, bound, d, further, stage, raised, other⟩ := blames.blame f v taken
    have asked : Changes u d := reached.trans further
    have name := asked.extends.1.names s known
    exact .baulked ((permits_checked.enroll enrolled).trans reached) bound further (by rw [← name]; exact raised) other
  · have steps : Changes u c := by
      have steps := blames.steps
      rwa [taken] at steps
    have name := steps.extends.1.names s known
    rw [bind_of_ok taken, bind_of_ok (get_apply c)] at h
    split at h
    · rename_i automatic
      have connecting : Act.Walks Change (connectAutomatically m s) :=
        .bind .get (fun _ => .forM (fun _ => walks_connect permits_checked m _ _ _ _))
      have rest : Changes c v := connecting.steps h
      have plain' := rest.extends.1.plainNames plain
      obtain ⟨relisted, b, registered, reserved, rfl⟩ := reserved_of_connectAutomatically plain'
        (name ▸ steps.extends.1.keys m _ listed) h
      obtain ⟨_, unchanged⟩ := relisted.machine m
      exact .reserved (by rwa [unchanged]) (by rwa [unchanged]) (by rwa [unchanged])
    · cases h

/-- A state that is added is refused before anything has happened, or stays registered. -/
theorem error_of_addState (hE : E.Walks Change) {options : StateOptions} {entry : Value}
    (h : E.addState m options entry w = (.error (.fault f), v)) (plain : v.PlainNames m) :
    v = w ∨ ∃ name ∈ (v.machine m).states.keys, (w.machine m).states.contains name = false ∧ E.Halfway m w name f v := by
  unfold Engine.addState at h
  cases enrolled : w.enroll m options entry with
  | error g =>
    have refused : (Act.ask (fun w => w.enroll m options entry) : Run _) w = (.error (.fault g), w) := by
      rw [ask_apply, enrolled]
      rfl
    simp only [bind_of_error refused] at h
    cases h
    exact .inl rfl
  | ok made =>
    have asked : (Act.ask (fun w => w.enroll m options entry) : Run _) w = (.ok made, w) := ask_ok enrolled
    simp only [bind_of_ok asked, bind_of_ok (set_apply w made.2), pure_bind] at h
    exact .inr (halfway_of_enrolled hE enrolled h plain)

end Engine

/-- Adding one state, or settling on an initial state that has to be registered, may fail in two ways. Either nothing at all
has changed; or the state stays registered, under a name that was new, and what failed comes behind its registration: a
bound model that was asked for a method by a convention of the state, or the trigger that leads to a registered state and
has the very name of the attribute in which the states of models are kept. So where transitions are not made by
themselves, or no state's trigger has this name, and models do not fail when they are asked for methods, adding one state
is all or nothing. -/
theorem failed_addition_leaves_nothing_or_the_state {host : Host} (checked : host.Within Operation.Checked)
    {bound depth : Nat} {entry : Value} (single : entry.items = [entry]) {options : StateOptions} {op : Operation}
    (adds : op = .addStates m entry options ∨ op = .setInitial m entry)
    (h : (Engine.ofHost host bound depth).perform op w = (.error (.fault f), v)) (plain : v.PlainNames m) :
    v = w ∨ ∃ name ∈ (v.machine m).states.keys, (w.machine m).states.contains name = false ∧
      (Engine.ofHost host bound depth).Halfway m w name f v := by
  have hE := Engine.changes_ofHost checked bound depth
  generalize Engine.ofHost host bound depth = E at h hE ⊢
  have one {options : StateOptions} (h : E.addStates m entry options w = (.error (.fault f), v)) :
      E.addState m options entry w = (.error (.fault f), v) := by
    rw [Engine.addStates, single] at h
    exact error_of_bind_apply (fun _ t => ⟨_, t, rfl⟩) h
  rcases adds with rfl | rfl
  · exact Engine.error_of_addState hE (one (error_of_bind_apply (fun _ t => ⟨_, t, rfl⟩) h)) plain
  · rcases Engine.error_of_setInitial (error_of_bind_apply (fun _ t => ⟨_, t, rfl⟩) h) with unchanged | h
    · exact .inl unchanged
    · exact Engine.error_of_addState hE (one h) plain

def flapHost : Host where
  behaviour := fun _ _ _ _ => .done .null

/-- A flap that is shut, and has its state under the name of the trigger that would open it. -/
def flapPlan : Blueprint where
  options := { initial := .text "shut", modelAttribute := .text "to_open" }
  states := .text "shut"
  models := .model "flap"

def flapEngine : Engine := Engine.ofHost flapHost 4 1

def flapWorld : World := (flapEngine.perform (.create "flaps" flapPlan) {}).2

/-- The flap after a state has been added. -/
def flapWith (name : String) : World := (flapEngine.perform (.addStates 0 (.text name) {}) flapWorld).2

/-- That the flap could be open is refused, by a call for this state as well as by one that is to make it the initial one.
But the state is registered then: it leads to the other one, and to add it again is refused because it is there. -/
theorem refused_flap_is_openable :
    (flapWorld.machine 0).states.keys = [.text "shut"] ∧
      (flapWorld.events.get 0).candidates.keys = [.text "shut"] ∧
    (flapEngine.perform (.addStates 0 (.text "open") {}) flapWorld).1 =
      .error (.fault (.reservedTrigger (.text "to_open"))) ∧
    ((flapWith "open").machine 0).states.keys = [.text "shut", .text "open"] ∧
      ((flapWith "open").events.get 0).candidates.keys = [.text "shut", .text "open"] ∧
    (flapEngine.perform (.addStates 0 (.text "open") {}) (flapWith "open")).1 =
      .error (.fault (.duplicateState (.text "open"))) ∧
    (flapEngine.perform (.setInitial 0 (.text "open")) flapWorld).1 =
      .error (.fault (.reservedTrigger (.text "to_open"))) ∧
    ((flapEngine.perform (.setInitial 0 (.text "open")) flapWorld).2.machine 0).states.keys =
      [.text "shut", .text "open"] := by
  have look : (some flapWorld).map (fun w => ((w.machine 0).states.keys, (w.events.get 0).candidates.keys)) =
      some ([.text "shut"], [.text "shut"]) := by cbv
  have added : (some (flapEngine.perform (.addStates 0 (.text "open") {}) flapWorld)).map (fun y =>
      (y.1, (y.2.machine 0).states.keys, (y.2.events.get 0).candidates.keys,
        (flapEngine.perform (.addStates 0 (.text "open") {}) y.2).1)) =
      some (.error (.fault (.reservedTrigger (.text "to_open"))), [.text "shut", .text "open"],
        [.text "shut", .text "open"], .error (.fault (.duplicateState (.text "open")))) := by cbv
  have settled : (some (flapEngine.perform (.setInitial 0 (.text "open")) flapWorld)).map (fun y =>
      (y.1, (y.2.machine 0).states.keys)) =
      some (.error (.fault (.reservedTrigger (.text "to_open"))), [.text "shut", .text "open"]) := by cbv
  simp only [Option.map_some, Option.some.injEq, Prod.mk.injEq] at look added settled
  obtain ⟨before, led⟩ := look
  obtain ⟨refused, after, leads, again⟩ := added
  exact ⟨before, led, refused, after, leads, again, settled⟩

/-- A second state of the same name is refused, and nothing has changed. -/
theorem second_shut_leaves_flap :
    (flapEngine.perform (.addStates 0 (.text "shut") {}) flapWorld).1 =
      .error (.fault (.duplicateState (.text "shut"))) ∧ flapWith "shut" = flapWorld := by
  have look : (some (flapEngine.perform (.addStates 0 (.text "shut") {}) flapWorld)).map (fun y =>
      (y.1, (y.2.machine 0).states.keys, (flapWorld.machine 0).states.contains (.text "shut"))) =
      some (.error (.fault (.duplicateState (.text "shut"))), [.text "shut"], true) := by cbv
  simp only [Option.map_some, Option.some.injEq, Prod.mk.injEq] at look
  obtain ⟨refused, keys, there⟩ := look
  have keys : ((flapWith "shut").machine 0).states.keys = [.text "shut"] := keys
  have plain : (flapWith "shut").PlainNames 0 := fun k hk => by
    rw [keys, List.mem_singleton] at hk
    exact ⟨_, hk⟩
  have outcome : flapEngine.perform (.addStates 0 (.text "shut") {}) flapWorld =
      (.error (.fault (.duplicateState (.text "shut"))), flapWith "shut") := Prod.ext refused rfl
  have quiet : flapHost.Within Operation.Checked := fun _ _ _ _ => trivial
  refine ⟨refused, (failed_addition_leaves_nothing_or_the_state quiet
    (show (Value.text "shut").items = [.text "shut"] from rfl) (.inl rfl) outcome plain).resolve_right ?_⟩
  rintro ⟨name, registered, new, -⟩
  rw [keys, List.mem_singleton] at registered
  rw [registered, there] at new
  cases new

end StateEngine
