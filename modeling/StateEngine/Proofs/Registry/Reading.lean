import StateEngine.Proofs.Going.Operations

/-! Reading attributes where what runs meanwhile touches no machine and ends, if not with a value, then for want of an
attribute. Taking up the methods of models does not fail there, and leaves nothing behind but callbacks of states, what
nothing registered refers to, and what stands beside the machines. -/
namespace StateEngine
open World

namespace Act

variable {σ α β : Type} {I : σ → Prop} {F : Fault → Prop}

/-- Where something holds at first it does so in the end, and what fails does so by a fault of a kind. -/
def MeetsFrom (I : σ → Prop) (F : Fault → Prop) (s : σ) (x : Act σ α) : Prop :=
  I s → I (x s).2 ∧ ∀ f, (x s).1 = .error (.fault f) → F f

def Meets (I : σ → Prop) (F : Fault → Prop) (x : Act σ α) : Prop := ∀ s, MeetsFrom I F s x

namespace Meets

variable {x : Act σ α}

theorem pure (a : α) : Meets I F (Pure.pure a : Act σ α) := fun _ hs => ⟨hs, fun _ h => by cases h⟩

theorem fail {f : Fault} (hf : F f) : Meets I F (Act.fail f : Act σ α) :=
  fun _ hs => ⟨hs, fun g h => by
    cases h
    exact hf⟩

theorem exhausted : Meets I F (Act.exhausted : Act σ α) := fun _ hs => ⟨hs, fun _ h => by cases h⟩

theorem change {f : σ → σ} (hf : ∀ s, I s → I (f s)) : Meets I F (Act.change f) :=
  fun s hs => ⟨hf s hs, fun _ h => by cases h⟩

theorem advance {f : σ → Except Fault σ} (hf : ∀ s t, f s = .ok t → I s → I t) :
    Meets I (fun _ => True) (Act.advance f) := by
  intro s hs
  cases h : f s with
  | error f => exact (advance_error h).symm ▸ ⟨hs, fun _ _ => trivial⟩
  | ok t => exact (advance_ok h).symm ▸ ⟨hf s t h hs, fun _ _ => trivial⟩

theorem bind {f : α → Act σ β} (hx : Meets I F x) (hf : ∀ a, Meets I F (f a)) : Meets I F (x >>= f) := by
  intro s hs
  obtain ⟨ht, fails⟩ := hx s hs
  rw [bind_apply]
  rcases h : x s with ⟨e | a, t⟩
  · rw [h] at ht fails
    exact ⟨ht, fun f hf => fails f (congrArg Except.error (Except.error.inj hf))⟩
  · rw [h] at ht
    exact hf a t ht

theorem get_bind {f : σ → Act σ β} (hf : ∀ s, I s → MeetsFrom I F s (f s)) : Meets I F (MonadState.get >>= f) := by
  intro s hs
  rw [bind_of_ok (get_apply s)]
  exact hf s hs hs

theorem ask_bind {k : σ → Except Fault α} {f : α → Act σ β} (hk : ∀ s g, k s = .error g → F g)
    (hf : ∀ s a, k s = .ok a → Meets I F (f a)) : Meets I F (Act.ask k >>= f) := by
  intro s hs
  cases h : k s with
  | error g =>
    have refused : Act.ask k s = (.error (.fault g), s) := by
      rw [ask_apply, h]
      rfl
    rw [bind_of_error refused]
    exact ⟨hs, fun g' hg => by
      cases hg
      exact hk s g h⟩
  | ok a =>
    have asked : Act.ask k s = (.ok a, s) := by
      rw [ask_apply, h]
      rfl
    rw [bind_of_ok asked]
    exact hf s a h s hs

/-- What goes on with the end of a computation need deal with its faults only. -/
theorem attempt_bind {G : Fault → Prop} {k : Except Fault α → Act σ β} (hx : Meets I F x)
    (hk : ∀ r, (∀ f, r = .error f → F f) → Meets I G (k r)) : Meets I G (x.attempt >>= k) := by
  intro s hs
  obtain ⟨ht, fails⟩ := hx s hs
  rcases h : x s with ⟨(f | _) | a, t⟩
  · rw [h] at ht fails
    rw [bind_of_ok (attempt_apply (r := .error f) h)]
    refine hk _ (fun g hg => ?_) t ht
    cases hg
    exact fails f rfl
  · rw [h] at ht
    rw [bind_of_error (attempt_exhausted h)]
    exact ⟨ht, fun _ h => by cases h⟩
  · rw [h] at ht
    rw [bind_of_ok (attempt_apply (r := .ok a) h)]
    exact hk _ (fun _ h => by cases h) t ht

theorem forM {xs : List α} {f : α → Act σ PUnit} (hf : ∀ a ∈ xs, Meets I F (f a)) : Meets I F (xs.forM f) := by
  induction xs with
  | nil => exact .pure _
  | cons a xs ih =>
    exact .bind (hf a List.mem_cons_self) (fun _ => ih (fun b hb => hf b (List.mem_cons_of_mem _ hb)))

/-- What meets no fault ends, unless it is cut short. -/
theorem ok_of_ended {s t : σ} {e : Except Stop α} (hx : Meets I (fun _ => False) x) (hs : I s) (h : x s = (e, t))
    (ended : e ≠ .error .exhausted) : I t ∧ ∃ a, e = .ok a := by
  obtain ⟨ht, fails⟩ := hx s hs
  rw [h] at ht fails
  refine ⟨ht, ?_⟩
  rcases e with (f | _) | a
  · exact (fails f rfl).elim
  · exact absurd rfl ended
  · exact ⟨a, rfl⟩

end Meets

end Act

open Act

/-- What concerns no machine: attributes of models, and states and transitions that nothing refers to yet. -/
def Operation.Outside : Operation → Prop
  | .writeAttribute .. | .dropAttribute .. | .makeState .. | .makeTransition .. => True
  | _ => False

/-- A program that touches no machine, and ends with a value or for want of an attribute unless what it reads fails
otherwise. -/
def Program.Mild : Program → Prop
  | .done _ => True
  | .fail f => f.isMissingAttribute = true
  | .read _ _ next => ∀ r, (∀ f, r = .error f → f.isMissingAttribute = true) → (next r).Mild
  | .perform _ request next => (∀ w op, request w = .ok op → op.Outside) ∧ ∀ r, (next r).Mild

/-- A callback of a host that touches no machine and fails for want of an attribute alone. -/
def Host.Mild (host : Host) (callback : String) : Prop :=
  ∀ call w count, (host.behaviour callback call w count).Mild

namespace World

variable {host : Host} {w v u : World}

/-- Reading an attribute runs nothing that touches a machine, and fails for want of an attribute alone. -/
def Gentle (host : Host) (w : World) : Prop :=
  ∀ x name callback, (w.model x).properties.find? name = some callback → host.Mild callback

theorem Gentle.of_properties (h : w.Gentle host) (hp : ∀ x, (v.model x).properties = (w.model x).properties) :
    v.Gentle host :=
  fun x name callback hf => h x name callback (by rw [← hp x]; exact hf)

/-- One thing that is done without touching a machine. -/
inductive Outlying (w : World) : World → Prop where
  | note {v : World} (h : Noted w v) : Outlying w v
  | makeState (s : State) : Outlying w (w.addState s).2
  | makeTransition (t : Transition) : Outlying w (w.addTransition t).2

theorem Logged.noted (h : Logged w v) : Noted w v :=
  ⟨by rw [h], fun x => by rw [model, model, h]⟩

/-- Nothing between two worlds but callbacks that states have taken up, and what is done without touching a machine. -/
structure TakenUp (w v : World) : Prop where
  changes : Changes w v
  machines : v.machines = w.machines
  events : v.events = w.events
  firings : v.firings = w.firings
  made : w.transitions.next ≤ v.transitions.next
  transitions : ∀ t < w.transitions.next, v.transitions.get t = w.transitions.get t
  properties : ∀ x, (v.model x).properties = (w.model x).properties

theorem TakenUp.refl (w : World) : TakenUp w w := ⟨.refl, rfl, rfl, rfl, Nat.le_refl _, fun _ _ => rfl, fun _ => rfl⟩

theorem TakenUp.outlying (h : TakenUp w v) (hu : Outlying v u) : TakenUp w u := by
  cases hu with
  | note noted =>
    have rest := noted.rest
    refine ⟨h.changes.trans noted.aside.steps, ?_, ?_, ?_, ?_, fun t ht => ?_, fun x => ?_⟩
    · rw [rest, ← h.machines]
    · rw [rest, ← h.events]
    · rw [rest, ← h.firings]
    · rw [rest]
      exact h.made
    · rw [rest, ← h.transitions t ht]
    · exact (noted.properties x).trans (h.properties x)
  | makeState s =>
    exact ⟨h.changes.tail (.makeState v s), h.machines, h.events, h.firings, h.made, h.transitions, h.properties⟩
  | makeTransition t =>
    refine ⟨h.changes.tail (.makeTransition v t), h.machines, h.events, h.firings, ?_, fun i hi => ?_, h.properties⟩
    · show w.transitions.next ≤ (v.transitions.push t).next
      rw [Heap.next_push]
      exact Nat.le_succ_of_le h.made
    · have hne : i ≠ v.transitions.next := Nat.ne_of_lt (Nat.lt_of_lt_of_le hi h.made)
      show (v.transitions.push t).get i = _
      rw [Heap.get_push, if_neg hne]
      exact h.transitions i hi

theorem TakenUp.hook (h : TakenUp w v) (s : StateId) (c : Callback) (stage : StateStage) :
    TakenUp w (v.updateState s (·.addCallback c stage)) :=
  ⟨h.changes.tail (.hookState v s c stage), h.machines, h.events, h.firings, h.made, h.transitions, h.properties⟩

end World

namespace Engine

variable {host : Host} {I : World → Prop} {bound depth : Nat}

theorem meets_readAttribute_of (hgentle : ∀ w, I w → w.Gentle host) {E : Engine}
    (hcall : ∀ callback, host.Mild callback →
      ∀ label call, Act.Meets I (·.isMissingAttribute = true) (E.call label callback call)) (owner : Value) (name : String) :
    Act.Meets I (·.isMissingAttribute = true) (E.readAttribute owner name) := by
  unfold readAttribute
  split
  · refine .get_bind (fun w hw => ?_)
    simp only []
    split
    · rename_i callback found
      exact hcall callback (hgentle w hw _ name callback found) _ _ w
    · split
      · exact Meets.pure _ w
      · exact Meets.pure _ w
      · exact Meets.fail (F := (·.isMissingAttribute = true)) rfl w
  · exact .fail rfl

section Reading

variable (hout : ∀ w v, Outlying w v → I w → I v)

include hout

/-- What concerns no machine is done without touching one. -/
theorem meets_outside {E : Engine} {op : Operation} (h : op.Outside) : Act.Meets I (fun _ => True) (E.perform op) := by
  cases op with
  | writeAttribute owner name v =>
    exact .bind (.advance (fun w u hu hw => hout w u (.note (.writeAttribute hu)) hw)) (fun _ => .pure _)
  | dropAttribute owner name =>
    exact .bind (.advance (fun w u hu hw => hout w u (.note (.dropAttribute hu)) hw)) (fun _ => .pure _)
  | makeState name value onEnter onExit ignore =>
    intro w hw
    have made := hout _ _ (.makeState ⟨value, onEnter.items, onExit.items, ignore⟩) hw
    exact ⟨hout _ _ (.note ⟨rfl, fun _ => rfl⟩) made, fun _ _ => trivial⟩
  | makeTransition name source dest hooks =>
    intro w hw
    have made := hout _ _ (.makeTransition (.ofHooks source dest hooks)) hw
    exact ⟨hout _ _ (.note ⟨rfl, fun _ => rfl⟩) made, fun _ _ => trivial⟩
  | _ => exact h.elim

theorem meets_runProgram {E : Engine}
    (hread : ∀ owner name, Act.Meets I (·.isMissingAttribute = true) (E.readAttribute owner name))
    {p : Program} (hp : p.Mild) : Act.Meets I (·.isMissingAttribute = true) (E.runProgram p) := by
  induction p with
  | done v => exact .pure v
  | fail f => exact .fail hp
  | read owner name next ih => exact .attempt_bind (hread owner name) (fun r hr => ih r (hp r hr))
  | perform verb request next ih =>
    have counted : Act.Meets I (fun _ => True) (Act.change (fun w => { w with requests := w.requests + 1 })) :=
      .change (fun w hw => hout w _ (.note ⟨rfl, fun _ => rfl⟩) hw)
    have requested : Act.Meets I (fun _ => True) (E.request request) := by
      refine .bind counted (fun _ => .ask_bind (fun _ _ _ => trivial) (fun w op hop => ?_))
      exact meets_outside hout (hp.1 w op hop)
    refine .attempt_bind requested (fun r _ => .bind (.change (fun w hw => ?_)) (fun _ => ih r (hp.2 r)))
    exact hout w _ (.note (logged_record w _).noted) hw

variable (hgentle : ∀ w, I w → w.Gentle host)

include hgentle

/-- Reading an attribute fails for want of one alone. -/
theorem meets_readAttribute (owner : Value) (name : String) :
    Act.Meets I (·.isMissingAttribute = true) ((ofHost host bound depth).readAttribute owner name) := by
  induction depth generalizing owner name with
  | zero => exact meets_readAttribute_of hgentle (fun _ _ _ _ => .exhausted) owner name
  | succ depth ih =>
    refine meets_readAttribute_of hgentle (fun callback mild label call => ?_) owner name
    have entered : Act.Meets I (·.isMissingAttribute = true) (enterCallback label callback call) :=
      .get_bind (fun w _ hw => ⟨hout w _ (.note ⟨rfl, fun _ => rfl⟩) hw, fun _ h => by cases h⟩)
    refine .bind entered (fun before => .get_bind (fun w hw => ?_))
    exact meets_runProgram hout ih (mild call w before) w

theorem meets_readAttribute? (owner : Value) (name : String) :
    Act.Meets I (fun _ => False) ((ofHost host bound depth).readAttribute? owner name) := by
  refine .attempt_bind (meets_readAttribute hout hgentle owner name) (fun r hr => ?_)
  cases r with
  | ok v => exact .pure _
  | error f =>
    simp only [hr f rfl, if_true]
    exact .pure _

variable (hhook : ∀ w s c stage, I w → I (w.updateState s (·.addCallback c stage)))

include hhook

/-- Taking up the methods of a model does not fail. -/
theorem meets_bindConventions (m : MachineId) (s : StateId) (model : Value) :
    Act.Meets I (fun _ => False) ((ofHost host bound depth).bindConventions m s model) := by
  refine .forM (fun stage _ => .get_bind (fun w _ => ?_))
  refine Meets.bind (meets_readAttribute? hout hgentle _ _) (fun found => ?_) w
  split
  · refine .get_bind (fun u _ => ?_)
    split
    · refine Meets.bind (.change (fun v hv => hhook v s _ stage hv)) (fun _ => ?_) u
      exact .change (fun v hv => hout v _ (.note (logged_record v _).noted) hv)
    · exact Meets.pure _ u
  · exact .pure _

/-- Going through a roster does not fail where what is done with each model does not. -/
theorem meets_forRoster (m : MachineId) (s : StateId) (roster : RosterId) (fuel position : Nat) :
    Act.Meets I (fun _ => False) (forRoster roster ((ofHost host bound depth).bindConventions m s) fuel position) := by
  induction fuel generalizing position with
  | zero => exact .exhausted
  | succ fuel ih =>
    refine .get_bind (fun w _ => ?_)
    split
    · exact Meets.bind (meets_bindConventions hout hgentle hhook m s _) (fun _ => ih _) w
    · exact Meets.pure _ w

end Reading

/-- Going through the models of a roster with a state takes up callbacks, and does not fail. -/
theorem takenUp_forRoster {w t : World} (hw : w.Gentle host) {m : MachineId} {s : StateId} {roster : RosterId}
    {fuel position : Nat} {e : Except Stop PUnit}
    (h : forRoster roster ((ofHost host bound depth).bindConventions m s) fuel position w = (e, t))
    (ended : e ≠ .error .exhausted) : TakenUp w t ∧ e = .ok () := by
  have meets : Act.Meets (TakenUp w) (fun _ => False)
      (forRoster roster ((ofHost host bound depth).bindConventions m s) fuel position) :=
    meets_forRoster (fun _ _ hu ht => ht.outlying hu) (fun _ hu => hw.of_properties hu.properties)
      (fun _ s c stage hu => hu.hook s c stage) m s roster fuel position
  obtain ⟨taken, _, ok⟩ := meets.ok_of_ended (.refl w) h ended
  exact ⟨taken, ok⟩

end Engine

end StateEngine
