import StateEngine.Proofs.Firing.Processing
import StateEngine.Proofs.Journey.Requests

/-! The way of a model from state to state, as the firings of its machine lead it. -/
namespace StateEngine
open Act Relation

namespace World

variable {m : MachineId} {x a d origin : String} {s : StateId} {e : EventId} {w v start : World}

/-- A state that has been made keeps its value. -/
theorem Change.value (h : Change w v) (hs : s < w.states.next) : (v.states.get s).value = (w.states.get s).value := by
  cases h with
  | aside h => rw [h.states]
  | makeState state =>
    have hne : s ≠ w.states.next := Nat.ne_of_lt hs
    simp [addState, hne]
  | hookState s' c stage =>
    by_cases hs' : s' = s
    · cases stage <;> simp [updateState, hs', State.addCallback]
    · simp [updateState, hs']
  | connect h => rw [(relisted_connect h).rest]
  | disconnect h => rw [(relisted_disconnect h).rest]
  | _ => rfl

theorem Changes.value (h : Changes w v) (hs : s < w.states.next) :
    (v.states.get s).value = (w.states.get s).value := by
  induction h with
  | refl => rfl
  | tail steps step ih => exact (step.value (Nat.lt_of_lt_of_le hs (Changes.extends steps).2)).trans ih

theorem Change.lookup_text (h : Change w v) (hs : w.lookupState m (.text a) = .ok s) :
    v.lookupState m (.text a) = .ok s := by
  have filed : (w.machine m).states.find? (.text a) = some s := by
    simp only [lookupState, nameOf, Value.registrationName] at hs
    cases hf : (w.machine m).states.find? (.text a) with
    | none => simp [hf] at hs
    | some s' => simpa [hf] using hs
  simp [lookupState, nameOf, Value.registrationName, h.find filed]

theorem Changes.lookup_text (h : Changes w v) (hs : w.lookupState m (.text a) = .ok s) :
    v.lookupState m (.text a) = .ok s := by
  induction h with
  | refl => exact hs
  | tail _ step ih => exact step.lookup_text ih

/-- A model is in a state that its machine has registered under a name: it has the value of this state. -/
structure In (w : World) (m : MachineId) (x a : String) (s : StateId) : Prop where
  named : (w.states.get s).name = .text a
  found : w.lookupState m (.text a) = .ok s
  held : w.Holds m x (w.states.get s).value

/-- A model is in its state as long as what it has for its state stays. -/
theorem In.later (h : w.In m x a s) (hv : Changes w v) (hx : ∀ b, w.Holds m x b → v.Holds m x b) : v.In m x a s := by
  have made : s < w.states.next := lt_of_name_text h.named
  refine ⟨((Changes.extends hv).1.names s made).trans h.named, hv.lookup_text h.found, ?_⟩
  rw [hv.value made]
  exact hx _ h.held

theorem In.stay (h : w.In m x a s) (step : Rests m x w v) : v.In m x a s := h.later (.single step.1) step.2

theorem In.rests (h : w.In m x a s) (steps : ReflTransGen (Rests m x) w v) : v.In m x a s := by
  induction steps with
  | refl => exact h
  | tail _ step ih => exact ih.stay step

/-- By its value a state is found as by its name. -/
theorem In.lookup_value (h : w.In m x a s) : w.lookupState m (w.states.get s).value = .ok s := by
  have named : w.nameOf (w.states.get s).value = .text a := by
    have registered := h.named
    unfold State.name at registered
    cases hv : (w.states.get s).value with
    | state s' =>
      rw [hv] at registered
      cases registered
    | _ => rw [← hv, ← registered, hv]; rfl
  have found := h.found
  unfold lookupState at found ⊢
  rw [named]
  exact found

/-- The state that a model is in is found, and asking for it leaves at most an entry in the history. -/
theorem In.asked {E : Engine} (h : w.In m x a s) :
    ∃ history, E.currentState m (.model x) w = (.ok s, { w with history := history }) := by
  obtain ⟨history, read⟩ := Engine.readState_holds (E := E) h.held
  refine ⟨history, ?_⟩
  unfold Engine.currentState
  rw [bind_of_ok read, ask_apply, show ({ w with history := history } : World).lookupState m _ = _ from h.lookup_value]
  rfl

/-- An event of a machine has a transition between two states among its candidates for the first one. -/
structure Offers (w : World) (m : MachineId) (e : EventId) (a d : String) : Prop where
  machine : (w.events.get e).machine = m
  transition : ∃ ts t, (w.events.get e).candidates.find? (.text a) = some ts ∧ t ∈ ts ∧
    (w.transitions.get t).source = .text a ∧ (w.transitions.get t).dest = .text d

theorem changes_opened (w : World) (firing : Firing) : Changes w (w.opened firing) :=
  Aside.steps ⟨rfl, rfl, rfl, rfl⟩

end World
open World

/-- The way of a model from the state in which it starts to the one it is in. The model stays in a state but for
moves. A move is made by a firing of its machine: the model was in a state when the firing was opened, and rested
until a transition from there was found among the candidates of the event, and from then on until the model got the
value of the state to which this transition leads. -/
inductive Journey (m : MachineId) (x : String) (start : World) (origin : String) : World → String → Prop
  | start {s : StateId} (h : start.In m x origin s) : Journey m x start origin start origin
  | stay {w v : World} {a : String} (h : Journey m x start origin w a) (step : Rests m x w v) :
      Journey m x start origin v a
  | move {b z u v : World} {firing : Firing} {a d : String} {s : StateId} (began : Journey m x start origin b a)
      (hm : firing.machine = m) (hx : firing.model = .model x)
      (ahead : ReflTransGen (Rests m x) (b.opened firing) z) (offered : z.Offers m firing.event a d)
      (still : ReflTransGen (Rests m x) z u) (write : Change u v) (arrived : v.In m x d s) :
      Journey m x start origin v d

namespace Journey

variable {m : MachineId} {x a origin : String} {start w v : World}

/-- On its way a model is in the state to which the way has led. -/
theorem at_state (h : Journey m x start origin w a) : ∃ s, w.In m x a s := by
  induction h with
  | start h => exact ⟨_, h⟩
  | stay _ step ih =>
    obtain ⟨s, hs⟩ := ih
    exact ⟨s, hs.stay step⟩
  | move _ _ _ _ _ _ _ arrived => exact ⟨_, arrived⟩

theorem rests (h : Journey m x start origin w a) (steps : ReflTransGen (Rests m x) w v) :
    Journey m x start origin v a := by
  induction steps with
  | refl => exact h
  | tail _ step ih => exact ih.stay step

theorem changes (h : Journey m x start origin w a) : Changes start w := by
  induction h with
  | start => exact .refl
  | stay _ step ih => exact ih.tail step.1
  | move _ _ _ ahead _ still write _ ih =>
    exact (((ih.trans (changes_opened _ _)).trans (changes_of_rests ahead)).trans (changes_of_rests still)).tail write

end Journey

end StateEngine
