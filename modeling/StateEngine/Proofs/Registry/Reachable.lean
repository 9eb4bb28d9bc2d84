import StateEngine.Proofs.Registry.Firing
import StateEngine.Proofs.Registry.Registering

/-! The worlds that operations can lead to. Every operation goes by steps, whatever callbacks do meanwhile,
and all but the filing of a transition made elsewhere change the registries by the steps that check what they
register. -/
namespace StateEngine
open Act World

/-- Files no transition that was made elsewhere: all other operations check what they register. -/
def Operation.Checked : Operation → Prop
  | .adopt .. => False
  | _ => True

/-- All operations that a program may perform are of a kind. -/
def Program.Within (P : Operation → Prop) : Program → Prop
  | .done _ | .fail _ => True
  | .read _ _ next => ∀ r, (next r).Within P
  | .perform _ request next => (∀ w op, request w = .ok op → P op) ∧ ∀ r, (next r).Within P

/-- All operations that the callbacks of a host may perform are of a kind. -/
def Host.Within (P : Operation → Prop) (host : Host) : Prop :=
  ∀ callback call w count, (host.behaviour callback call w count).Within P

/-- A kind of operations with which goes the initial state of every machine that one of them makes. -/
def Operation.Kind (P : Operation → Prop) : Prop :=
  ∀ name plan m, P (.create name plan) → P (.setInitial m plan.options.initial)

namespace Engine

variable {E : Engine} {P : Operation → Prop} {R : World → World → Prop}

/-- An engine whose dealings with rosters, initial states and lines go by steps of a kind. -/
structure Obeys (E : Engine) (P : Operation → Prop) (R : World → World → Prop) : Prop where
  bind : ∀ m initial model, Act.Walks R (E.bindModel m initial model)
  settle : ∀ m v, P (.setInitial m v) → Act.Walks R (E.setInitial m v)
  submit : ∀ m task, Act.Walks R (E.submit m task)

theorem Walks.create (hE : E.Walks R) (hR : Permits P R) (hO : E.Obeys P R) {plan : Blueprint}
    (hp : ∀ m, P (.setInitial m plan.options.initial)) : Act.Walks R (E.create plan) := by
  have part {v : Value} {action : Value → Run Unit} (h : Act.Walks R (action v)) :
      Act.Walks R (unlessNull v action) := by
    unfold unlessNull
    split
    · exact .pure _
    · exact h
  refine .ask_set (fun _ _ _ h => hR.step (.makeMachine h)) (fun m => .bind (.pure m) (fun m => ?_))
  refine .bind (part (hE.addStates hR m _ {})) (fun _ => ?_)
  refine .bind (part (hO.settle m _ (hp m))) (fun _ => ?_)
  refine .bind (part (walks_connectDefinitions hR m _)) (fun _ => ?_)
  have ended : Act.Walks R (do
      unlessNull plan.models (fun v => E.bindModels m v .null)
      return m) :=
    .bind (part (walks_bindModels hO.bind m _ .null)) (fun _ => .pure _)
  exact .ite (.bind (walks_connectRow hR m {}) (fun _ => ended)) ended

theorem Walks.perform (hE : E.Walks R) (hR : Permits P R) (hO : E.Obeys P R) (hP : Operation.Kind P)
    {op : Operation} (h : P op) : Act.Walks R (E.perform op) := by
  cases op with
  | adopt m trigger t => exact .bind (.advance (fun _ _ ha => hR.step (.adopt h ha))) (fun _ => .pure _)
  | create name plan =>
    refine .bind (hE.create hR hO (fun m => hP name plan m h)) (fun _ => .bind ?_ (fun _ => .pure _))
    exact walks_note hR (fun _ => ⟨rfl, fun _ => rfl⟩)
  | makeState name value onEnter onExit ignore =>
    refine .get_bind (fun w => WalksFrom.bind ?_ (fun _ v _ => Walks.view _ v))
    exact hR.noted (.makeState w _) ⟨rfl, fun _ => rfl⟩
  | makeTransition name source dest hooks =>
    refine .get_bind (fun w => WalksFrom.bind ?_ (fun _ v _ => Walks.pure _ v))
    exact hR.noted (.makeTransition w _) ⟨rfl, fun _ => rfl⟩
  | writeAttribute model name v =>
    exact .bind (.advance (fun _ _ h => hR.note (.writeAttribute h))) (fun _ => .pure _)
  | dropAttribute model name =>
    exact .bind (.advance (fun _ _ h => hR.note (.dropAttribute h))) (fun _ => .pure _)
  | bindModels m models initial => exact .bind (walks_bindModels hO.bind m models initial) (fun _ => .pure _)
  | unbindModels m models => exact .bind (walks_unbindModels hR m models) (fun _ => .pure _)
  | findState m state => exact .bind (.ask _) (fun s => .view _)
  | currentState m model => exact .bind (hE.currentState m model) (fun s => .view _)
  | isIn m model state =>
    exact .bind (hE.readState m model) (fun _ => .bind (.ask _) (fun _ => .bind .get (fun _ => .pure _)))
  | place m state models => exact .bind (walks_placing hR m state models) (fun _ => .pure _)
  | addStates m states options => exact .bind (hE.addStates hR m states options) (fun _ => .pure _)
  | setInitial m v => exact .bind (hO.settle m v h) (fun _ => .bind .get (fun _ => .pure _))
  | assign m setting v =>
    exact .bind (.change (fun w => hR.step (.assign w m setting v h))) (fun _ => .bind .get (fun _ => .pure _))
  | hookState m state stage callback =>
    exact .bind (.advance (fun _ _ h => hR.hookState h)) (fun _ => .pure _)
  | hasHook m state stage callback =>
    exact .bind (.ask _) (fun _ => .bind .get (fun _ => .pure _))
  | connect m trigger source dest hooks =>
    exact .bind (walks_connect hR m trigger source dest hooks) (fun _ => .pure _)
  | connectAll m definitions => exact .bind (walks_connectDefinitions hR m definitions) (fun _ => .pure _)
  | connectRow m row => exact .bind (walks_connectRow hR m row) (fun _ => .pure _)
  | select m trigger source dest => exact .bind (.ask _) (fun _ => .bind .get (fun _ => .pure _))
  | disconnect m trigger source dest =>
    exact .bind (.advance (fun _ _ h => hR.step (.disconnect h))) (fun _ => .pure _)
  | triggersFrom m states => exact .bind (.ask _) (fun _ => .pure _)
  | hookEvent m trigger stage callback =>
    exact .bind (.advance (fun _ _ h => hR.hookEvent h)) (fun _ => .pure _)
  | hookTransition t stage callback =>
    exact .bind (.advance (fun _ _ h => hR.hookTransition h)) (fun _ => .pure _)
  | trigger m model name args named =>
    exact .bind (hE.trigger hO.submit m model name args named) (fun _ => .pure _)
  | triggerAll m name args named => exact .bind (hE.triggerAll hO.submit m name args named) (fun _ => .pure _)
  | submit m callback => exact .bind (hO.submit m _) (fun _ => .pure _)
  | pending m => exact .bind .get (fun _ => .pure _)
  | ignoreFlag m state => exact .bind (.ask _) (fun _ => .bind .get (fun _ => .pure _))
  | overview m => exact .view _
  | makeFiring m name model trigger args named =>
    refine .bind (hE.currentState m model) (fun s => .bind (.ask _) (fun e => .get_bind (fun w => ?_)))
    refine WalksFrom.bind ?_ (fun _ v _ => Walks.view _ v)
    exact hR.noted (.openFiring w _) ⟨rfl, fun _ => rfl⟩
  | check i guard => exact .bind .get (fun _ => .bind (hE.check _ guard i) (fun _ => .pure _))
  | execute t i => exact .bind (hE.execute hR t i) (fun _ => .bind .get (fun _ => .pure _))
  | update i state =>
    refine .bind .get (fun _ => .bind (.ask _) (fun s => .bind ?_ (fun _ => .view _)))
    exact .change (fun w => hR.step (.restate w i s))
  | runStage m state stage i =>
    exact .bind (.ask _) (fun s => .bind .get (fun _ => .bind (hE.runStage _ s stage i) (fun _ => .pure _)))
  | runCallbacks m callbacks i =>
    exact .bind (.ofExcept _) (fun cs => .bind (hE.runCallbacks m cs i) (fun _ => .pure _))
  | resolve m callback i args named =>
    exact .bind (hE.resolve m callback i) (fun target => .bind (hE.apply target _) (fun _ => .pure _))
  | describe m subject => exact .bind (.ask _) (fun _ => .pure _)

theorem Walks.runProgram (hE : E.Walks R) (hR : Permits P R) (hO : E.Obeys P R) (hP : Operation.Kind P)
    {p : Program} (h : p.Within P) : Act.Walks R (E.runProgram p) := by
  induction p with
  | done v => exact .pure v
  | fail f => exact .fail f
  | read owner name next ih =>
    exact .bind (.attempt (hE.readAttribute owner name)) (fun r => ih r (h r))
  | perform verb request next ih =>
    obtain ⟨hop, hnext⟩ := h
    have asked : Act.Walks R (E.request request) := by
      refine .bind (walks_note hR (fun _ => ⟨rfl, fun _ => rfl⟩)) (fun _ => ?_)
      exact .ask_bind (fun w op ho => hE.perform hR hO hP (hop w op ho) w)
    refine .bind (.attempt asked) (fun r => .bind ?_ (fun _ => ih r (hnext r)))
    exact walks_note hR (fun _ => ⟨rfl, fun _ => rfl⟩)

theorem noted_enterCallback (label callback : String) (call : Call) :
    Act.Walks Noted (enterCallback label callback call) := by
  refine .get_bind (fun w => WalksFrom.bind ?_ (fun _ v _ => Walks.pure _ v))
  exact .single ⟨rfl, fun _ => rfl⟩

/-- Callbacks that perform operations of a kind only go by its steps, if the engine's own dealings do. -/
theorem walks_ofHost {host : Host} (h : host.Within P) (hR : Permits P R) (hP : Operation.Kind P)
    (bound : Nat) (hO : ∀ depth, (ofHost host bound depth).Walks R → (ofHost host bound depth).Obeys P R)
    (depth : Nat) : (ofHost host bound depth).Walks R := by
  have record (w : World) (entry : Entry) : Relation.ReflTransGen R w (w.record entry) :=
    hR.note ⟨rfl, fun _ => rfl⟩
  induction depth with
  | zero => exact ⟨fun _ _ _ => .exhausted, record⟩
  | succ depth ih =>
    refine ⟨fun label callback call => ?_, record⟩
    have entered := (noted_enterCallback label callback call).mono (fun _ _ h => hR.note h)
    refine .bind entered (fun before => .bind .get (fun w => ?_))
    exact ih.runProgram hR (hO depth ih) hP (h callback call w before)

theorem kind_checked : Operation.Kind Operation.Checked := fun _ _ _ _ => trivial

theorem permits_checked : Permits Operation.Checked Change := permits_change (fun _ _ _ h => h)

theorem Walks.obeys (hE : E.Walks Change) : E.Obeys Operation.Checked Change where
  bind _ initial _ := hE.bindModel permits_checked (fun _ => Aside.steps ⟨rfl, rfl, rfl, rfl⟩) initial
  settle m v _ :=
    hE.setInitial permits_checked (fun _ w => .single (.tune w m (fun _ => ⟨rfl, rfl, rfl⟩))) v
  submit m task :=
    hE.submit permits_checked (fun _ w => .single (.tune w m (fun _ => ⟨rfl, rfl, rfl⟩))) task

/-- Callbacks that perform checked operations only change the registries by steps. -/
theorem changes_ofHost {host : Host} (h : host.Within Operation.Checked) (bound depth : Nat) :
    (ofHost host bound depth).Walks Change :=
  walks_ofHost h permits_checked kind_checked bound (fun _ hE => hE.obeys) depth

end Engine

namespace World

/-- Nothing is registered in a world. -/
structure Blank (w : World) : Prop where
  states : w.states = {}
  transitions : w.transitions = {}
  events : w.events = {}
  machines : w.machines = {}

theorem Blank.machine {w : World} (h : w.Blank) (m : MachineId) : w.machine m = default := by
  rw [World.machine, h.machines]
  rfl

theorem Blank.event {w : World} (h : w.Blank) (e : EventId) : w.events.get e = default := by
  rw [h.events]
  rfl

/-- A world that steps have made from one in which nothing was registered: between any two operations,
and in the midst of one. -/
def Reachable (w : World) : Prop := ∃ start, Blank start ∧ Changes start w

theorem Reachable.later {w v : World} (h : w.Reachable) (hv : Changes w v) : v.Reachable := by
  obtain ⟨start, blank, steps⟩ := h
  exact ⟨start, blank, steps.trans hv⟩

/-- Operations lead from reachable worlds to reachable ones, failed and exhausted ones included. -/
theorem Reachable.perform {w : World} (hw : w.Reachable) {host : Host}
    (h : host.Within Operation.Checked) (bound depth : Nat) {op : Operation} (hop : op.Checked) :
    ((Engine.ofHost host bound depth).perform op w).2.Reachable := by
  obtain ⟨start, blank, steps⟩ := hw
  have walks := Engine.changes_ofHost h bound depth
  exact ⟨start, blank, steps.trans (walks.perform Engine.permits_checked walks.obeys Engine.kind_checked hop w)⟩

end World

end StateEngine
