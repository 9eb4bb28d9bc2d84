import StateEngine.Proofs.Binding.Besides

/-! An engine at work on two worlds that differ in what belongs to one model: firings on other models go the
same way, if the callbacks of the states that they leave and enter are the same. -/
namespace StateEngine
open Act World

/-- An engine whose calls of host code go the same way in worlds that are abreast of each other. -/
def Engine.Shuns (E : Engine) (x : String) (own : String → Prop) (b c : World)
    (F : Heap Firing → Heap Machine → Prop) : Prop :=
  ∀ label callback call, InStep (Abreast x own b c F) (E.call label callback call) (E.call label callback call)

namespace Engine

variable {x : String} {own : String → Prop} {b c : World} {F : Heap Firing → Heap Machine → Prop} {E : Engine}

theorem abreast_remark (m : MachineId) (severity : Severity) (logger : Logger) (message : String) :
    InStep (Abreast x own b c F) (remark m severity logger message) (remark m severity logger message) := by
  refine .change (fun w v h => ?_)
  rw [h.machine]
  exact h.record _

theorem abreast_lookupState (m : MachineId) (reference : Value) :
    InStep (Abreast x own b c F) (Act.ask (fun w => w.lookupState m reference))
      (Act.ask (fun w => w.lookupState m reference)) :=
  .ask (fun _ _ h => h.lookupState m reference)

section Reading

variable (hE : E.Shuns x own b c F)

include hE

theorem Shuns.readAttribute {owner : Value} (ho : owner ≠ .model x) (name : String) :
    InStep (Abreast x own b c F) (E.readAttribute owner name) (E.readAttribute owner name) := by
  unfold Engine.readAttribute
  cases owner with
  | model y =>
    refine .get_bind (fun w v h => ?_)
    simp only [h.models y (fun hy => ho (by rw [hy]))]
    split
    · exact hE _ _ _ w v h
    · split
      · exact .pure h _
      · exact .pure h _
      · exact .fail h _
  | _ => exact .fail _

theorem Shuns.readAttribute? {owner : Value} (ho : owner ≠ .model x) (name : String) :
    InStep (Abreast x own b c F) (E.readAttribute? owner name) (E.readAttribute? owner name) := by
  refine .bind (.attempt (hE.readAttribute ho name)) (fun r => ?_)
  cases r with
  | ok a => exact .pure _
  | error f => exact .ite (.pure _) (.fail _)

theorem Shuns.currentState {y : String} (hy : y ≠ x) (m : MachineId) :
    InStep (Abreast x own b c F) (E.currentState m (.model y)) (E.currentState m (.model y)) := by
  refine .bind (.get_bind (fun w v h => ?_)) (fun a => abreast_lookupState m a)
  rw [h.machine]
  split
  · exact hE.readAttribute (fun e => hy (Value.model.inj e)) _ w v h
  · refine .get_bind ?_
    rw [h.ledgers _ y hy]
    split
    · exact InStep.bind (.change (fun _ _ h => h.record _)) (fun _ => .pure _) w v h
    · exact .fail h _

theorem Shuns.apply (target : Target) (call : Call) :
    InStep (Abreast x own b c F) (target.apply E call) (target.apply E call) := by
  unfold Target.apply
  split
  · exact hE _ _ _
  · exact .pure _
  · split
    · exact .pure _
    · exact .fail _
  · exact .fail _
  · exact .pure _
  · exact .pure _
  · exact .fail _

end Reading

section Consulting

variable {i : FiringId} (hE : E.Shuns x own b c F)
  (hi : ∀ firings machines, F firings machines → (firings.get i).model ≠ .model x)

include hE hi

theorem Shuns.resolve (m : MachineId) (callback : Callback) :
    InStep (Abreast x own b c F) (E.resolve m callback i) (E.resolve m callback i) := by
  unfold Engine.resolve
  split
  · refine .get_bind (fun w v h => ?_)
    rw [h.machine]
    split
    · refine .get_bind ?_
      rw [h.firings]
      refine InStepAt.bind (hE.readAttribute? (hi _ _ h.facts) _ w v h) (fun found w' v' _ _ h' => ?_)
      cases found with
      | some a => exact .pure h' _
      | none => exact .ofExcept h' _
    · refine InStep.bind (.change (fun _ _ h => h.record _)) (fun _ => ?_) w v h
      split
      · exact .pure _
      · exact .fail _
  · exact .pure _

theorem Shuns.consult (m : MachineId) (callback : Callback) :
    InStep (Abreast x own b c F) (E.consult m callback i) (E.consult m callback i) := by
  have callFor : InStep (Abreast x own b c F) (callFor m i) (callFor m i) := by
    refine .get_bind (fun w v h => ?_)
    simp only [h.machine, h.firings]
    split
    · exact .pure h _
    · exact .pure h _
  exact .bind (hE.resolve hi m callback) (fun target => callFor.bind (fun call => hE.apply target call))

theorem Shuns.runCallback (m : MachineId) (callback : Callback) :
    InStep (Abreast x own b c F) (E.runCallback m callback i) (E.runCallback m callback i) :=
  .bind (hE.consult hi m callback) (fun _ => abreast_remark _ _ _ _)

theorem Shuns.runCallbacks (m : MachineId) (callbacks : List Callback) :
    InStep (Abreast x own b c F) (E.runCallbacks m callbacks i) (E.runCallbacks m callbacks i) :=
  .forM (fun callback => hE.runCallback hi m callback)

theorem Shuns.runGrowing (m : MachineId) {read : World → List Callback}
    (hread : ∀ w v, Abreast x own b c F w v → read v = read w) (fuel position : Nat) :
    InStep (Abreast x own b c F) (E.runGrowing m read i fuel position) (E.runGrowing m read i fuel position) := by
  induction fuel generalizing position with
  | zero => exact .exhausted
  | succ fuel ih =>
    refine .get_bind (fun w v h => ?_)
    rw [hread w v h]
    split
    · exact InStep.bind (hE.runCallback hi m _) (fun _ => ih _) w v h
    · exact .pure h _

theorem Shuns.checkAll (m : MachineId) (guards : List Guard) :
    InStep (Abreast x own b c F) (E.checkAll m i guards) (E.checkAll m i guards) := by
  induction guards with
  | nil => exact .pure _
  | cons guard rest ih =>
    refine .bind (.bind (hE.consult hi m _) (fun _ => .pure _)) (fun passed => .ite ih ?_)
    exact .bind (abreast_remark _ _ _ _) (fun _ => .pure _)

/-- The callbacks of a state are the same if they were at the beginning. -/
theorem Shuns.runStage (m : MachineId) {s : StateId} {stage : StateStage}
    (hs : (c.states.get s).callbacks stage = (b.states.get s).callbacks stage) :
    InStep (Abreast x own b c F) (E.runStage m s stage i) (E.runStage m s stage i) := by
  refine .get_bind (fun w v h => ?_)
  rw [h.name]
  have lists (w v : World) (h : Abreast x own b c F w v) :
      (v.states.get s).callbacks stage = (w.states.get s).callbacks stage := by rw [h.right, h.left, hs]
  exact InStep.bind (abreast_remark _ _ _ _) (fun _ =>
    .bind (hE.runGrowing hi m lists _ _) (fun _ => abreast_remark _ _ _ _)) w v h

end Consulting

theorem abreast_place {y : String} (hy : y ≠ x) (m : MachineId) (state : Value) :
    InStep (Abreast x own b c F) (place m state (.model y)) (place m state (.model y)) := by
  have written (a : Value) :
      InStep (Abreast x own b c F) (writeState m (.model y) a) (writeState m (.model y) a) := by
    refine .get_bind (fun w v h => ?_)
    rw [h.machine]
    split
    · refine InStep.advance (fun w v h => ?_) w v h
      unfold World.writeAttribute
      simp only [h.models y hy]
      split
      · exact .inl ⟨_, rfl, rfl⟩
      · exact .inr ⟨_, _, rfl, rfl, h.updateModel hy _⟩
    · exact InStep.change (fun w v h => (h.insertLedger _ a).record _) w v h
  refine .bind (.ask (fun _ _ h => h.stateFor m state)) (fun s => .get_bind (fun w v h => ?_))
  rw [h.values]
  exact InStep.bind (written _) (fun _ => .pure _) w v h

end Engine

namespace World

variable {x : String} {own : String → Prop} {w v b c : World} {F : Heap Firing → Heap Machine → Prop}

/-- States are looked up as they were at the beginning. -/
theorem Abreast.lookupState_left (h : Abreast x own b c F w v) (n : MachineId) (reference : Value) :
    w.lookupState n reference = b.lookupState n reference := by
  have name (reference : Value) : w.nameOf reference = b.nameOf reference := by
    cases reference <;> simp [World.nameOf, h.left]
  simp only [World.lookupState, name, h.registered]

/-- What is known of a firing on the model `y` while it is processed. -/
structure Told (b : World) (y : String) (e : EventId) (i : FiringId) (firings : Heap Firing) : Prop where
  model : (firings.get i).model = .model y
  event : (firings.get i).event = e
  machine : (firings.get i).machine = (b.events.get e).machine

theorem Told.modify {y : String} {e : EventId} {i : FiringId} {firings : Heap Firing} {f : Firing → Firing}
    (h : Told b y e i firings) (hf : ∀ firing, (f firing).model = firing.model ∧
      (f firing).event = firing.event ∧ (f firing).machine = firing.machine) :
    Told b y e i (firings.modify i f) := by
  obtain ⟨model, event, machine⟩ := hf (firings.get i)
  constructor <;> simp only [Heap.get_modify, if_pos]
  · exact model.trans h.model
  · exact event.trans h.event
  · exact machine.trans h.machine

/-- The callbacks of states that a firing of an event may run: those at the exit of a source, and those at
the entry of a destination. -/
def Visits (w : World) (e : EventId) (s : StateId) (stage : StateStage) : Prop :=
  ∃ t, w.Filed e t ∧ w.lookupState (w.events.get e).machine
    (match stage with
      | .exit => (w.transitions.get t).source
      | .enter => (w.transitions.get t).dest) = .ok s

/-- Whatever a firing of an event may run of the callbacks of states is the same in another world. -/
def Agrees (b c : World) (e : EventId) : Prop :=
  ∀ s stage, b.Visits e s stage → (c.states.get s).callbacks stage = (b.states.get s).callbacks stage

end World

namespace Engine

section Firing

variable {x y : String} {own : String → Prop} {b c : World} {e : EventId} {i : FiringId} {E : Engine}
  {M : Heap Machine → Prop}

/-- What is known of two worlds while a firing on the model `y` is processed in both. -/
abbrev Processing (x y : String) (own : String → Prop) (b c : World) (e : EventId) (i : FiringId)
    (M : Heap Machine → Prop) : World → World → Prop :=
  Abreast x own b c (fun firings machines => Told b y e i firings ∧ M machines)

theorem told_other (hy : y ≠ x) (firings : Heap Firing) (machines : Heap Machine)
    (told : Told b y e i firings ∧ M machines) : (firings.get i).model ≠ .model x :=
  fun same => hy (Value.model.inj (told.1.model.symm.trans same))

theorem processing_updateFiring {f : Firing → Firing} (hf : ∀ firing, (f firing).model = firing.model ∧
      (f firing).event = firing.event ∧ (f firing).machine = firing.machine) :
    InStep (Processing x y own b c e i M) (Act.change (World.updateFiring i f))
      (Act.change (World.updateFiring i f)) :=
  .change (fun _ _ h => h.updateFiring (fun _ _ told => ⟨told.1.modify hf, told.2⟩))

theorem processing_relocate (hy : y ≠ x) (m : MachineId) (dest : Value) :
    InStep (Processing x y own b c e i M) (relocate m dest i) (relocate m dest i) := by
  refine .get_bind (fun w v h => ?_)
  rw [h.firings, h.facts.1.model]
  refine InStep.bind (abreast_place hy m dest) (fun _ => ?_) w v h
  refine .bind (.ask (fun _ _ h => h.stateFor m dest)) (fun d => ?_)
  exact .bind (processing_updateFiring (fun _ => ⟨rfl, rfl, rfl⟩)) (fun _ => abreast_lookupState m dest)

/-- Both worlds have the same candidates. -/
theorem processing_candidatesFor :
    InStep (Processing x y own b c e i M) (candidatesFor i) (candidatesFor i) := by
  refine .get_bind (fun w v h => ?_)
  simp only [h.firings, h.events, h.name]
  split
  · exact .pure h _
  · exact InStep.bind (.change (fun _ _ h => h.fileSource _ _)) (fun _ => .pure _) w v h

theorem ok_of_relocate {m : MachineId} {dest : Value} {w u : World} {d : StateId}
    (h : relocate m dest i w = (.ok d, u)) : u.lookupState m dest = .ok d := by
  obtain ⟨_, _, -, h⟩ := ok_of_bind_apply h
  obtain ⟨_, _, -, h⟩ := ok_of_bind_apply h
  obtain ⟨_, _, -, h⟩ := ok_of_bind_apply h
  obtain ⟨_, _, -, h⟩ := ok_of_bind_apply h
  obtain ⟨found, rfl⟩ := ok_of_ask h
  exact found

variable (hE : E.Shuns x own b c (fun firings machines => Told b y e i firings ∧ M machines)) (hy : y ≠ x)

include hE hy

theorem Shuns.changeState {m : MachineId} {source dest : Value}
    (hs : ∀ s, b.lookupState m source = .ok s → (c.states.get s).callbacks .exit = (b.states.get s).callbacks .exit)
    (hd : ∀ d, b.lookupState m dest = .ok d →
      (c.states.get d).callbacks .enter = (b.states.get d).callbacks .enter) :
    InStep (Processing x y own b c e i M) (E.changeState m source dest i) (E.changeState m source dest i) := by
  have other := told_other (b := b) (e := e) (i := i) (M := M) hy
  intro w v h
  refine InStepAt.bind (abreast_lookupState m source w v h) (fun s w' v' found _ h' => ?_)
  have found := (ok_of_ask found).1
  rw [h.lookupState_left] at found
  refine InStepAt.bind (hE.runStage other m (hs s found) w' v' h') (fun _ w₁ v₁ _ _ h₁ => ?_)
  refine InStepAt.bind (processing_relocate hy m dest w₁ v₁ h₁) (fun d w₂ v₂ found' _ h₂ => ?_)
  have found' := ok_of_relocate found'
  rw [h₂.lookupState_left] at found'
  exact hE.runStage other m (hd d found') w₂ v₂ h₂

theorem Shuns.execute (agrees : b.Agrees c e) {t : TransitionId} (ht : b.Filed e t) :
    InStep (Processing x y own b c e i M) (E.execute t i) (E.execute t i) := by
  have other := told_other (b := b) (e := e) (i := i) (M := M) hy
  refine .get_bind (fun w v h => ?_)
  rw [h.firings, h.facts.1.machine, h.transitions, h.known]
  have prepare (w v : World) (h : Processing x y own b c e i M w v) :
      (v.transitions.get t).prepare = (w.transitions.get t).prepare := by rw [h.transitions]
  have carried : InStep (Processing x y own b c e i M)
      (E.carryOut (b.events.get e).machine t (b.transitions.get t) i)
      (E.carryOut (b.events.get e).machine t (b.transitions.get t) i) := by
    have moved : InStep (Processing x y own b c e i M)
        (E.moveAlong (b.events.get e).machine (b.transitions.get t) i)
        (E.moveAlong (b.events.get e).machine (b.transitions.get t) i) :=
      .ite (.pure _) (hE.changeState hy (fun s found => agrees s .exit ⟨t, ht, found⟩)
        (fun d found => agrees d .enter ⟨t, ht, found⟩))
    refine .get_bind (fun w v h => ?_)
    rw [h.machine, h.transitions]
    refine InStep.bind (hE.runCallbacks other _ _) (fun _ => .bind (abreast_remark _ _ _ _) (fun _ =>
      .bind moved (fun _ => .get_bind (fun w v h => ?_)))) w v h
    rw [h.machine, h.transitions]
    exact InStep.bind (hE.runCallbacks other _ _) (fun _ => abreast_remark _ _ _ _) w v h
  refine InStep.bind (abreast_remark _ _ _ _) (fun _ => .bind (hE.runGrowing other _ prepare _ _) (fun _ =>
    .bind (abreast_remark _ _ _ _) (fun _ => .get_bind (fun w v h => ?_)))) w v h
  rw [h.transitions]
  exact InStep.bind (hE.checkAll other _ _) (fun passed =>
    .ite (.bind carried (fun _ => .pure _)) (.pure _)) w v h

theorem Shuns.tryCandidates (agrees : b.Agrees c e) {ts : List TransitionId} (hts : ∀ t ∈ ts, b.Filed e t) :
    InStep (Processing x y own b c e i M) (E.tryCandidates i ts) (E.tryCandidates i ts) := by
  induction ts with
  | nil => exact .pure _
  | cons t rest ih =>
    refine .bind (processing_updateFiring (fun _ => ⟨rfl, rfl, rfl⟩)) (fun _ => ?_)
    refine .bind (hE.execute hy agrees (hts t List.mem_cons_self)) (fun fired => .ite ?_ ?_)
    · exact processing_updateFiring (fun _ => ⟨rfl, rfl, rfl⟩)
    · exact ih (fun t ht => hts t (List.mem_cons_of_mem _ ht))

/-- All candidates were filed at the beginning. -/
theorem Shuns.attemptMoves (agrees : b.Agrees c e) (m : MachineId) :
    InStep (Processing x y own b c e i M) (E.attemptMoves m i) (E.attemptMoves m i) := by
  have other := told_other (b := b) (e := e) (i := i) (M := M) hy
  refine .get_bind (fun w v h => ?_)
  rw [h.machine]
  refine InStep.bind (hE.runCallbacks other _ _) (fun _ => .bind (abreast_remark _ _ _ _) (fun _ w v h => ?_)) w v h
  refine InStepAt.bind (processing_candidatesFor w v h) (fun ts w' v' found _ h' => ?_)
  have filed (t : TransitionId) (ht : t ∈ ts) : b.Filed e t := by
    have now := World.filed_of_candidatesFor found ht
    rw [h.facts.1.event] at now
    exact h.filed e t now
  exact hE.tryCandidates hy agrees filed w' v' h'

theorem Shuns.processFiring (agrees : b.Agrees c e) :
    InStep (Processing x y own b c e i M) (E.processFiring i) (E.processFiring i) := by
  have other := told_other (b := b) (e := e) (i := i) (M := M) hy
  refine .get_bind (fun w v h => ?_)
  rw [h.firings, h.facts.1.machine]
  have noted (ended : Except Fault Unit) :
      InStep (Processing x y own b c e i M) (noteError i ended) (noteError i ended) := by
    cases ended with
    | ok _ => exact .pure _
    | error f => exact .ite (processing_updateFiring (fun _ => ⟨rfl, rfl, rfl⟩)) (.pure _)
  have closed (ended : Except Fault Unit) : InStep (Processing x y own b c e i M)
      (E.closeFiring (b.events.get e).machine i ended) (E.closeFiring (b.events.get e).machine i ended) := by
    refine .get_bind (fun w v h => ?_)
    rw [h.machine]
    refine InStep.bind (hE.runCallbacks other _ _) (fun _ => .bind (abreast_remark _ _ _ _) (fun _ =>
      .bind (.ofExcept ended) (fun _ => .get_bind (fun w v h => ?_)))) w v h
    rw [h.firings]
    exact .pure h _
  exact InStep.bind (.attempt (hE.attemptMoves hy agrees _)) (fun ended =>
    .bind (noted ended) (fun _ => closed ended)) w v h

end Firing

section Triggering

variable {x y : String} {own : String → Prop} {b c : World} {E : Engine}

/-- Firing an event on another model goes the same way, and leaves machines as they are known. -/
theorem fireNow_abreast (hE : ∀ F, E.Shuns x own b c F) (hy : y ≠ x) {e : EventId} (agrees : b.Agrees c e)
    (M : Heap Machine → Prop) (args : List Value) (named : Named) :
    InStep (Abreast x own b c (fun _ machines => M machines)) (E.fireNow e (.model y) args named)
      (E.fireNow e (.model y) args named) := by
  refine .get_bind (fun w v h => ?_)
  rw [h.events, h.owners]
  refine InStep.bind ((hE _).currentState hy _) (fun s => .get_bind (fun w v h => ?_)) w v h
  simp only [h.events, h.name, h.firings, h.ignoreFlag, h.machine]
  split
  · have told : Told b y e w.firings.next (w.firings.push
        { state := s, event := e, machine := (b.events.get e).machine, model := .model y, args, named }) := by
      constructor <;> simp
    have opened := h.openFiring (G := fun firings machines => Told b y e w.firings.next firings ∧ M machines)
      ⟨told, h.facts⟩
    rw [h.firings, h.events] at opened
    have processed := (hE _).processFiring hy agrees _ _ opened
    refine .set_bind (InStepAt.mono (R := Processing x y own b c e w.firings.next M) (fun _ _ h => ?_) processed)
    exact h.mono (fun _ _ facts => facts.2)
  · split
    · exact InStep.bind (abreast_remark _ _ _ _) (fun _ => .pure _) w v h
    · exact .fail h _

/-- The lines of a machine hold nothing but tasks of one event on one model. -/
def LineOf (m : MachineId) (e : EventId) (y : String) (args : List Value) (named : Named)
    (machines : Heap Machine) : Prop :=
  ∀ tasks, (machines.get m).line = .queued tasks → ∀ task ∈ tasks, task = .fire e (.model y) args named

private abbrev Lined (x y : String) (own : String → Prop) (b c : World) (m : MachineId) (e : EventId)
    (args : List Value) (named : Named) : World → World → Prop :=
  Abreast x own b c (fun _ machines => LineOf m e y args named machines)

variable {m : MachineId} {e : EventId} {args : List Value} {named : Named}

private theorem lined_store (label : String) {line : Line Task}
    (hl : ∀ tasks, line = .queued tasks → ∀ task ∈ tasks, task = .fire e (.model y) args named) :
    InStep (Lined x y own b c m e args named) ((E.setting m label).store line)
      ((E.setting m label).store line) := by
  refine .change (fun w v h => h.updateLine m line (fun tasks hq => hl tasks ?_))
  simpa using hq

/-- A queue with nothing but firings on another model is worked off the same way. -/
theorem drain_abreast (hE : ∀ F, E.Shuns x own b c F) (hy : y ≠ x) (agrees : b.Agrees c e)
    (label : String) (fuel : Nat) :
    InStep (Abreast x own b c (fun _ machines => LineOf m e y args named machines))
      ((E.setting m label).drain fuel) ((E.setting m label).drain fuel) := by
  induction fuel with
  | zero => exact .exhausted
  | succ fuel ih =>
    refine .get_bind (fun w v h => ?_)
    have read (w v : World) (h : Lined x y own b c m e args named w v) :
        (E.setting m label).slot.read v = (E.setting m label).slot.read w := congrArg Machine.line (h.machine m)
    rw [read w v h]
    split
    · rename_i task rest hline
      have known := h.facts _ hline
      obtain rfl := known task List.mem_cons_self
      have served : InStep (Lined x y own b c m e args named)
          ((E.setting m label).serve (.fire e (.model y) args named))
          ((E.setting m label).serve (.fire e (.model y) args named)) := by
        refine .bind (fireNow_abreast hE hy agrees _ args named) (fun _ => .get_bind (fun w v h => ?_))
        rw [read w v h]
        split
        · rename_i head rest hline
          have known := h.facts _ hline
          refine lined_store label (fun tasks hq => ?_) w v h
          cases hq
          exact fun task ht => known task (List.mem_cons_of_mem _ ht)
        · exact .fail h _
      refine InStep.bind served.attempt (fun ended => ?_) w v h
      cases ended with
      | ok _ => exact ih
      | error f =>
        refine .ite (.get_bind (fun w v h => ?_)) (.fail _)
        rw [read w v h]
        refine InStep.bind (.change (fun _ _ h => h.record _)) (fun _ => .bind ?_ (fun _ => .fail _)) w v h
        exact lined_store label (fun tasks hq => by cases hq; simp)
    · exact .pure h _

/-- Handing in a firing on another model goes the same way. -/
theorem submit_abreast (hE : ∀ F, E.Shuns x own b c F) (hy : y ≠ x) (agrees : b.Agrees c e) :
    InStep (Abreast x own b c (fun _ _ => True)) (E.submit m (.fire e (.model y) args named))
      (E.submit m (.fire e (.model y) args named)) := by
  refine .get_bind (fun w v h => ?_)
  rw [h.machine]
  obtain ⟨label, hlabel⟩ : ∃ label, label = (w.machine m).label := ⟨_, rfl⟩
  rw [← hlabel]
  have store (line : Line Task) : InStep (Abreast x own b c (fun _ _ => True))
      ((E.setting m label).store line) ((E.setting m label).store line) :=
    .change (fun _ _ h => h.updateLine m line trivial)
  refine InStep.get_bind (fun w v h => ?_) w v h
  rw [show (E.setting m label).slot.read v = (E.setting m label).slot.read w from congrArg Machine.line (h.machine m)]
  split
  · exact .fail h _
  · refine InStep.bind (store _) (fun _ => .bind (.attempt ?_) (fun ended => ?_)) w v h
    · exact fireNow_abreast hE hy agrees (fun _ => True) args named
    · exact .bind (store _) (fun _ => .ofExcept _)
  · have lined := h.updateLine m (.queued [.fire e (.model y) args named])
      (G := fun _ machines => LineOf m e y args named machines) (fun tasks hq => by
        obtain rfl : [.fire e (.model y) args named] = tasks := by simpa using hq
        simp)
    refine InStepAt.mono (fun _ _ h => ?_) (drain_abreast hE hy agrees label _ _ _ lined)
    exact World.Abreast.mono (F := fun _ machines => LineOf m e y args named machines) (fun _ _ _ => trivial) h
  · exact InStep.bind (store _) (fun _ => .bind (.change (fun _ _ h => h.record _)) (fun _ => .pure _)) w v h

/-- A trigger on another model does the same, if the event behind it finds the callbacks of states that it
may run unchanged. -/
theorem trigger_abreast (hE : ∀ F, E.Shuns x own b c F) (hy : y ≠ x) {m : MachineId} {name : Value}
    (args : List Value) (named : Named) {w v : World} (h : Abreast x own b c (fun _ _ => True) w v)
    (agrees : ∀ e, w.eventOf? m name = .ok (some e) → b.Agrees c e) :
    InStepAt (Abreast x own b c (fun _ _ => True)) w v (E.trigger m (.model y) name args named)
      (E.trigger m (.model y) name args named) := by
  unfold Engine.trigger
  split
  · exact .fail h _
  · have asked : InStep (Abreast x own b c (fun _ _ => True)) (Act.ask (fun w => w.eventOf? m name))
        (Act.ask (fun w => w.eventOf? m name)) := .ask (fun _ _ h => h.eventOf? m name)
    refine InStepAt.bind (asked w v h) (fun found w' v' hw hv h' => ?_)
    cases found with
    | some e =>
      have agrees := agrees e (ok_of_ask hw).1
      refine .get_bind ?_
      rw [h'.events]
      exact submit_abreast hE hy agrees w' v' h'
    | none =>
      refine InStepAt.bind ((hE _).currentState hy m w' v' h') (fun s w₁ v₁ _ _ h₁ => .get_bind ?_)
      rw [h₁.ignoreFlag]
      split
      · exact InStep.bind (abreast_remark _ _ _ _) (fun _ => .pure _) w₁ v₁ h₁
      · exact .fail h₁ _

end Triggering

end Engine

end StateEngine
