import Mathlib
import StateEngine.Proofs.Registry.Lookup

/-! What operations keep up in every machine, whatever callbacks do between their steps and wherever they
break off: no model is bound twice, and the initial state is a registered one. -/
namespace StateEngine
open Act World Relation

/-- What a state is referred to by: its name, a member that gives its name, or the state itself; or
nothing. -/
def Value.Refers : Value → Prop
  | .null | .text _ | .member .. | .state _ => True
  | _ => False

/-- Files no transition that was made elsewhere, and makes nothing the initial state but what refers to
one. -/
def Operation.Proper : Operation → Prop
  | .adopt .. => False
  | .setInitial _ v => v.Refers
  | .create _ plan => plan.options.initial.Refers
  | _ => True

theorem kind_proper : Operation.Kind Operation.Proper := fun _ _ _ h => h

theorem Operation.Proper.checked {op : Operation} (h : op.Proper) : op.Checked := by
  cases op with
  | adopt => exact h
  | _ => trivial

theorem Program.Within.mono {P Q : Operation → Prop} (hPQ : ∀ op, P op → Q op) {p : Program}
    (h : p.Within P) : p.Within Q := by
  induction p with
  | done v => trivial
  | fail f => trivial
  | read owner name next ih => exact fun r => ih r (h r)
  | perform verb request next ih => exact ⟨fun w op ho => hPQ op (h.1 w op ho), fun r => ih r (h.2 r)⟩

theorem Host.Within.checked {host : Host} (h : host.Within Operation.Proper) :
    host.Within Operation.Checked := fun callback call w count =>
  (h callback call w count).mono (fun _ => Operation.Proper.checked)

/-- One operation of a kind, of an engine for a host, however it ends. -/
def Host.Performs (host : Host) (P : Operation → Prop) (w v : World) : Prop :=
  ∃ op bound depth, P op ∧ v = ((Engine.ofHost host bound depth).perform op w).2

/-- A callback of a host that performs no operation. -/
def Host.Silent (host : Host) (callback : String) : Prop :=
  ∀ call w count, (host.behaviour callback call w count).Within (fun _ => False)

namespace World

/-- What runs while attributes of models are read performs no operation. -/
def Discreet (host : Host) (w : World) : Prop :=
  ∀ x name callback, (w.model x).properties.find? name = some callback → host.Silent callback

theorem Discreet.of_properties {host : Host} {w v : World} (h : w.Discreet host)
    (hp : ∀ x, (v.model x).properties = (w.model x).properties) : v.Discreet host :=
  fun x name callback hf => h x name callback (by rw [← hp x]; exact hf)

/-- Rosters and machines stay as they are, if reading attributes leaves them alone. -/
def Untouched (host : Host) (w v : World) : Prop :=
  w.Discreet host → v.Discreet host ∧ v.rosters = w.rosters ∧ v.machines = w.machines

variable {host : Host}

instance : Std.Refl (Untouched host) := ⟨fun _ h => ⟨h, rfl, rfl⟩⟩

instance : IsTrans World (Untouched host) where
  trans _ _ _ h h' hw := by
    obtain ⟨hv, rosters, machines⟩ := h hw
    obtain ⟨hu, rosters', machines'⟩ := h' hv
    exact ⟨hu, rosters'.trans rosters, machines'.trans machines⟩

theorem Noted.untouched (host : Host) {w v : World} (h : Noted w v) : Untouched host w v := by
  intro hw
  have rest := h.rest
  exact ⟨hw.of_properties h.properties, by rw [rest], by rw [rest]⟩

theorem untouched_of_walk {α : Type} {w v : World} {x : Run α} {r : Except Stop α}
    (h : Act.Walks (Untouched host) x) (hx : x w = (r, v)) : Untouched host w v := by
  have steps := h.steps hx
  rwa [reflTransGen_eq_self] at steps

end World

namespace Engine

section Reading

variable {host : Host} {E : Engine}

theorem untouched_runProgram (hE : ∀ owner name, Act.Walks (Untouched host) (E.readAttribute owner name))
    {p : Program} (h : p.Within (fun _ => False)) : Act.Walks (Untouched host) (E.runProgram p) := by
  induction p with
  | done v => exact .pure v
  | fail f => exact .fail f
  | read owner name next ih => exact .bind (.attempt (hE owner name)) (fun r => ih r (h r))
  | perform verb request next ih =>
    obtain ⟨hop, hnext⟩ := h
    have asked : Act.Walks (Untouched host) (E.request request) := by
      refine .bind (.change (fun w => .single (Noted.untouched host ⟨rfl, fun _ => rfl⟩))) (fun _ => ?_)
      exact .ask_bind (fun w op ho => (hop w op ho).elim)
    refine .bind (.attempt asked) (fun r => .bind ?_ (fun _ => ih r (hnext r)))
    exact .change (fun w => .single (Noted.untouched host ⟨rfl, fun _ => rfl⟩))

theorem untouched_readAttribute_of
    (hE : ∀ callback, host.Silent callback →
      ∀ label call, Act.Walks (Untouched host) (E.call label callback call)) (owner : Value) (name : String) :
    Act.Walks (Untouched host) (E.readAttribute owner name) := by
  unfold readAttribute
  split
  · refine .get_bind (fun w => ?_)
    by_cases hw : w.Discreet host
    · simp only []
      split
      · rename_i callback hf
        exact hE callback (hw _ name callback hf) _ _ w
      · split
        · exact .refl
        · exact .refl
        · exact .refl
    · exact .single (fun h => absurd h hw)
  · exact .fail _

/-- Reading an attribute leaves rosters and machines alone if what it runs performs no operation, and what
that runs in turn by reading attributes. -/
theorem untouched_readAttribute (host : Host) (bound depth : Nat) (owner : Value) (name : String) :
    Act.Walks (Untouched host) ((ofHost host bound depth).readAttribute owner name) := by
  induction depth generalizing owner name with
  | zero => exact untouched_readAttribute_of (fun _ _ _ _ => .exhausted) owner name
  | succ depth ih =>
    refine untouched_readAttribute_of (fun callback silent label call => ?_) owner name
    have entered := (noted_enterCallback label callback call).mono
      (fun _ _ h => .single (h.untouched host))
    refine .bind entered (fun before => .bind .get (fun w => ?_))
    exact untouched_runProgram ih (silent call w before)

theorem takesUp_untouched (host : Host) (bound depth : Nat) :
    (ofHost host bound depth).TakesUp (Untouched host) where
  read := untouched_readAttribute host bound depth
  hook _ _ _ _ := .single (fun h => ⟨h, rfl, rfl⟩)
  record _ _ := .single (fun h => ⟨h, rfl, rfl⟩)

end Reading

end Engine

namespace World

/-- No roster has a model twice, and every initial state is a registered one, among models whose attributes
may be read without harm. -/
structure Orderly (host : Host) (w : World) : Prop where
  discreet : w.Discreet host
  distinct : ∀ r, (w.rosters.get r).Pairwise (fun x y => (x == y) = false)
  settled : ∀ m, w.PlainNames m →
    (w.machine m).initial = .null ∨ (w.machine m).initial ∈ (w.machine m).states.keys

def KeepsOrder (host : Host) (w v : World) : Prop := w.Orderly host → v.Orderly host

variable {host : Host} {w v : World}

/-- Machines may get more states. -/
theorem Orderly.of_more (h : w.Orderly host) (hp : ∀ x, (v.model x).properties = (w.model x).properties)
    (hr : ∀ r, (v.rosters.get r).Pairwise (fun x y => (x == y) = false))
    (hm : ∀ n, (v.machine n).initial = (w.machine n).initial ∧
      ∀ k ∈ (w.machine n).states.keys, k ∈ (v.machine n).states.keys) : v.Orderly host where
  discreet := h.discreet.of_properties hp
  distinct := hr
  settled n hn := by
    obtain ⟨initial, keys⟩ := hm n
    rw [initial]
    exact (h.settled n (fun k hk => hn k (keys k hk))).imp_right (keys _)

theorem keeps_of_same (hp : ∀ x, (v.model x).properties = (w.model x).properties)
    (hr : v.rosters = w.rosters)
    (hm : ∀ n, (v.machine n).initial = (w.machine n).initial ∧
      ∀ k ∈ (w.machine n).states.keys, k ∈ (v.machine n).states.keys) : KeepsOrder host w v :=
  fun h => h.of_more hp (hr ▸ h.distinct) hm

theorem keeps_updateMachine {m : MachineId} {f : Machine → Machine}
    (hf : ∀ machine, (f machine).initial = machine.initial ∧ (f machine).states = machine.states) :
    KeepsOrder host w (w.updateMachine m f) := by
  refine keeps_of_same (fun _ => rfl) rfl (fun n => ?_)
  rw [machine_updateMachine]
  split
  · obtain ⟨initial, states⟩ := hf (w.machine n)
    exact ⟨initial, fun k hk => states ▸ hk⟩
  · exact ⟨rfl, fun _ hk => hk⟩

theorem Relisted.keeps (h : Relisted w v) : KeepsOrder host w v := by
  have rest := h.rest
  refine keeps_of_same (fun x => by rw [rest]; rfl) (by rw [rest]) (fun n => ?_)
  obtain ⟨_, machine⟩ := h.machine n
  rw [machine]
  exact ⟨rfl, fun _ hk => hk⟩

theorem keeps_unbind (w : World) (m : MachineId) (model : Value) :
    KeepsOrder host w ({ w with rosters := w.rosters.push ((w.boundModels m).filter (fun x => !x.same model)) }
      |>.updateMachine m (fun machine => { machine with roster := w.rosters.next })) := by
  intro h
  refine h.of_more (fun _ => rfl) (fun r => ?_) (fun n => ?_)
  · simp only [updateMachine, Heap.get_push]
    split
    · exact (h.distinct _).filter _
    · exact h.distinct r
  · rw [machine_updateMachine]
    split <;> exact ⟨rfl, fun _ hk => hk⟩

theorem keeps_makeMachine {plan : Blueprint} {m : MachineId} (hm : w.makeMachine plan = .ok (m, v)) :
    KeepsOrder host w v := by
  obtain ⟨machine, ledgers, -, hs, -, hi, -, rfl⟩ := makeMachine_cases hm
  intro h
  refine h.of_more (fun _ => rfl) (fun r => ?_) (fun n => ?_)
  · simp only [Heap.get_push]
    split
    · exact .nil
    · exact h.distinct r
  · rcases machine_push w machine n with kept | ⟨old, new⟩
    · exact ⟨congrArg Machine.initial kept, fun _ hk => (congrArg Machine.states kept) ▸ hk⟩
    · refine ⟨(congrArg Machine.initial new).trans ?_, fun k hk => ?_⟩
      · rw [hi, old]
        rfl
      · rw [old] at hk
        cases hk

theorem Step.keeps (h : Step Operation.Proper w v) : KeepsOrder host w v := by
  have apart (hp : v.models = w.models) (hr : v.rosters = w.rosters) (hm : v.machines = w.machines) :
      KeepsOrder host w v :=
    keeps_of_same (fun x => by rw [model, model, hp]) hr
      (fun n => by rw [machine, machine, hm]; exact ⟨rfl, fun _ hk => hk⟩)
  cases h with
  | note h =>
    have rest := h.rest
    refine keeps_of_same h.properties (by rw [rest]) (fun n => ?_)
    rw [rest]
    exact ⟨rfl, fun _ hk => hk⟩
  | makeState s => exact apart rfl rfl rfl
  | enroll m s hk hnew =>
    refine keeps_of_same (fun _ => rfl) rfl (fun n => ⟨?_, (Change.enroll w m s hk hnew).keys n⟩)
    rw [machine_updateMachine]
    split <;> rfl
  | hookState s c stage => exact apart rfl rfl rfl
  | makeTransition t => exact apart rfl rfl rfl
  | connect h => exact (relisted_connect h).keeps
  | disconnect h => exact (relisted_disconnect h).keeps
  | adopt hp h => exact absurd hp id
  | hookTransition t c stage => exact apart rfl rfl rfl
  | fileSource _ => exact apart rfl rfl rfl
  | assign m setting x hp =>
    refine keeps_updateMachine (fun machine => ?_)
    cases setting <;> exact ⟨rfl, rfl⟩
  | unbind m model => exact keeps_unbind w m model
  | makeMachine h => exact keeps_makeMachine h
  | openFiring firing => exact apart rfl rfl rfl
  | restate i s => exact apart rfl rfl rfl

theorem permits_keeps : Permits Operation.Proper (KeepsOrder host) where
  step h := .single h.keeps
  fresh _ := .inr (fun _ _ => .single (keeps_of_same (fun _ => rfl) rfl (fun _ => ⟨rfl, fun _ hk => hk⟩)))

/-- A state that is made from a reference goes by the name that this gives. -/
theorem name_stateOf {options : StateOptions} {x : Value} {s : StateId} (hx : x.Refers)
    (h : w.stateOf options x = .ok (s, v)) : (v.states.get s).name = w.nameOf x := by
  cases x with
  | text a =>
    cases h
    simp [nameOf, State.name]
  | member e n textual own =>
    cases h
    simp [nameOf, State.name]
  | state t =>
    cases h
    rfl
  | null => cases h
  | _ => exact absurd hx id

theorem key_enroll {m : MachineId} {options : StateOptions} {x : Value} {s : StateId} (hx : x.Refers)
    (h : w.enroll m options x = .ok (s, v)) : w.nameOf x ∈ (v.machine m).states.keys := by
  obtain ⟨⟨s', u⟩, hs, h⟩ := ok_of_bind h
  simp only [] at h
  split at h
  · cases h
  · split at h
    · cases h
    · rename_i hnew
      cases h
      have unused : (u.machine m).states.contains (u.states.get s).name = false := by simpa using hnew
      rw [machine_updateMachine, if_pos rfl, Table.keys_insert_of_not_contains unused, name_stateOf hx hs]
      exact List.mem_append_right _ List.mem_cons_self

/-- A name that gives a registered state is a key where all keys are texts. -/
theorem key_of_contains {m : MachineId} {x : Value} (hn : w.PlainNames m)
    (hc : (w.machine m).states.contains (w.nameOf x) = true) : w.nameOf x ∈ (w.machine m).states.keys := by
  obtain ⟨s, hs⟩ := Option.isSome_iff_exists.mp hc
  obtain ⟨k, hk, hmem⟩ := Table.mem_of_find? hs
  obtain ⟨a, rfl⟩ := hn k (mem_keys hmem)
  rw [nameOf_text (Value.text_beq_iff.mp hk)]
  exact mem_keys hmem

end World

namespace Engine

variable {host : Host} {E : Engine} {bound depth : Nat}

/-- Between the look at the roster and the entry in it only attributes are read and written, so the model
is still not there. -/
theorem keeps_bindModel (hE : (ofHost host bound depth).Walks (KeepsOrder host)) (m : MachineId)
    (initial model : Value) :
    Act.Walks (KeepsOrder host) ((ofHost host bound depth).bindModel m initial model) := by
  refine .get_bind (fun w => ?_)
  by_cases hw : w.Orderly host
  · split
    · exact .refl
    · rename_i hnew
      refine WalksFrom.bind ((hE.takesUp permits_keeps).bindToStates m model w) (fun _ v hv => ?_)
      refine WalksFrom.bind (walks_placing permits_keeps m initial model v) (fun _ u hu => .single ?_)
      have took := untouched_of_walk ((takesUp_untouched host bound depth).bindToStates m model) hv
      have placed := untouched_of_walk
        ((noted_place m initial model).mono (fun _ _ h => .single (h.untouched host))) hu
      obtain ⟨-, rosters, machines⟩ := IsTrans.trans _ _ _ took placed hw.discreet
      have roster : u.rosters.get (u.machine m).roster = w.boundModels m := by
        rw [boundModels, machine, machine, rosters, machines]
      rw [change_apply]
      intro h
      refine h.of_more (fun _ => rfl) (fun r => ?_) (fun _ => ⟨rfl, fun _ hk => hk⟩)
      simp only [Heap.get_modify]
      split
      · rename_i hr
        subst hr
        refine List.pairwise_append.mpr ⟨h.distinct _, List.pairwise_singleton _ _, fun x hx y hy => ?_⟩
        rw [roster] at hx
        cases List.mem_singleton.mp hy
        exact Bool.eq_false_iff.mpr (fun same => hnew (List.any_eq_true.mpr ⟨x, hx, same⟩))
      · exact h.distinct r
  · exact .single (fun h => absurd h hw)

/-- What refers to a state that is new registers its name. -/
theorem key_addStates (hE : E.Walks Change) {w v : World} {m : MachineId} {x : Value} (hx : x.Refers)
    (h : E.addStates m x {} w = (.ok ⟨⟩, v)) : x = .null ∨ w.nameOf x ∈ (v.machine m).states.keys := by
  have one (hitems : x.items = [x]) : w.nameOf x ∈ (v.machine m).states.keys := by
    unfold addStates at h
    rw [hitems] at h
    obtain ⟨_, z, added, h⟩ := ok_of_bind_apply h
    cases h
    obtain ⟨⟨s, u⟩, w', enrolled, rest⟩ := ok_of_bind_apply added
    obtain ⟨enrolled, rfl⟩ := ok_of_ask enrolled
    have later : Changes u v := (hE.settleState permits_checked m s).steps rest
    exact later.extends.1.keys m _ (key_enroll hx enrolled)
  cases x with
  | null => exact .inl rfl
  | text a => exact .inr (one rfl)
  | member e n textual own => exact .inr (one rfl)
  | state t => exact .inr (one rfl)
  | _ => exact absurd hx id

/-- A machine settles on a name that is registered by then. -/
theorem keeps_setInitial (hE : E.Walks (KeepsOrder host)) (hC : E.Walks Change) (m : MachineId) {x : Value}
    (hx : x.Refers) : Act.Walks (KeepsOrder host) (E.setInitial m x) := by
  refine .get_bind (fun w => ?_)
  have settle (v : World) (hv : v.PlainNames m → x = .null ∨ w.nameOf x ∈ (v.machine m).states.keys) :
      KeepsOrder host v (v.updateMachine m (fun machine => { machine with initial := w.nameOf x })) := by
    intro h
    have same (n : MachineId) : ((v.updateMachine m (fun machine =>
        { machine with initial := w.nameOf x })).machine n).states = (v.machine n).states := by
      rw [machine_updateMachine]
      split <;> rfl
    refine ⟨h.discreet, h.distinct, fun n hn => ?_⟩
    unfold PlainNames at hn
    rw [same] at hn ⊢
    rw [machine_updateMachine]
    split
    · rename_i hmn
      subst hmn
      refine (hv hn).imp_left (fun none => ?_)
      rw [none]
      rfl
    · exact h.settled n hn
  simp only []
  split
  · exact .bind .refl (fun _ _ h => by cases h)
  · split
    · refine WalksFrom.bind (hE.addStates permits_keeps m x {} w) (fun _ v hv => .single ?_)
      exact settle v (fun _ => key_addStates hC hx hv)
    · rename_i hc
      have known : (w.machine m).states.contains (w.nameOf x) = true := by simpa using hc
      have settled : KeepsOrder host w (w.updateMachine m (fun machine =>
          { machine with initial := w.nameOf x })) := settle w (fun hn => .inr (key_of_contains hn known))
      split
      · split
        · exact .bind .refl (fun _ _ h => by cases h)
        · exact .single settled
      · exact .single settled

theorem obeys_keeps (hE : (ofHost host bound depth).Walks (KeepsOrder host))
    (hC : (ofHost host bound depth).Walks Change) :
    (ofHost host bound depth).Obeys Operation.Proper (KeepsOrder host) where
  bind := keeps_bindModel hE
  settle m _ hx := keeps_setInitial hE hC m hx
  submit _ task :=
    hE.submit permits_keeps (fun _ _ => .single (keeps_updateMachine (fun _ => ⟨rfl, rfl⟩))) task

theorem keeps_ofHost (h : host.Within Operation.Proper) (hC : ∀ depth, (ofHost host bound depth).Walks Change)
    (depth : Nat) : (ofHost host bound depth).Walks (KeepsOrder host) :=
  walks_ofHost h permits_keeps kind_proper bound (fun depth hE => obeys_keeps hE (hC depth)) depth

end Engine

namespace World

variable {host : Host}

theorem Orderly.perform {w : World} (hw : w.Orderly host) (h : host.Within Operation.Proper)
    (bound depth : Nat) {op : Operation} (hop : op.Proper) :
    ((Engine.ofHost host bound depth).perform op w).2.Orderly host := by
  have changes := Engine.changes_ofHost h.checked bound
  have walks := Engine.keeps_ofHost h changes depth
  have obeys := Engine.obeys_keeps walks (changes depth)
  exact (walks.perform permits_keeps obeys kind_proper hop).keeps (fun _ _ step h => step h) hw

/-- The registries of a machine are in order. -/
structure InOrder (w : World) (m : MachineId) : Prop where
  states : ∀ x ∈ (w.machine m).states.entries, (w.states.get x.2).name = x.1
  events : ∀ x ∈ (w.machine m).events.entries, (w.events.get x.2).machine = m ∧ w.Listed m x
  transitions : ∀ e, (w.events.get e).machine = m →
    ∀ c ∈ (w.events.get e).candidates.entries, ∀ t ∈ c.2, w.Connects m c.1 t
  initial : (w.machine m).initial = .null ∨ (w.machine m).initial ∈ (w.machine m).states.keys
  models : (w.boundModels m).Nodup

theorem Orderly.inOrder {w : World} (h : w.Orderly host) (hw : w.Reachable) {m : MachineId}
    (hn : w.PlainNames m) : w.InOrder m where
  states := hw.regular.filed m hn
  events x hx := ⟨(hw.regular.owned m x hx).2, hw.sorted.listed m x hx⟩
  transitions e he c hc t ht := he ▸ hw.regular.connected e (he ▸ hn) c hc t ht
  initial := h.settled m hn
  models := by
    refine (h.distinct (w.machine m).roster).imp (fun {x y} differ same => ?_)
    rw [same, ReflBEq.rfl] at differ
    cases differ

/-- Whatever transition is filed for a machine at a later moment finds its way whenever it is taken from
then on, wherever callbacks have led in between. -/
def FindsWays (host : Host) (w : World) (m : MachineId) : Prop :=
  ∀ z, Changes w z → z.PlainNames m → ∀ e, (z.events.get e).machine = m → ∀ t, z.Filed e t →
    ∀ v u, Changes z v → Changes v u → ∀ bound depth,
      (Engine.ofHost host bound depth).FindsWay m (v.transitions.get t) u

theorem Reachable.findsWays {w : World} (hw : w.Reachable) (h : host.Within Operation.Checked)
    (m : MachineId) : w.FindsWays host m := by
  intro z hz plain e he t ht v u hv hu bound depth
  obtain ⟨start, blank, steps⟩ := hw
  have later : z.Reachable := ⟨start, blank, steps.trans hz⟩
  obtain ⟨c, hc, ht⟩ := ht
  have connects := later.regular.connected e (he ▸ plain) c hc t ht
  exact Connects.findsWay (Engine.changes_ofHost h bound depth) plain (he ▸ connects) hv hu

/-- Whatever operations a host performs, from callbacks too and however they end, every machine that names
its states by texts has its registries in order: states and events are filed under their own names, and
none of these is that of the state attribute; transitions are filed under their sources and lead from and to
registered states; the initial state is one of these, and no model is bound twice. A transition that is
filed at any later moment, in the midst of an operation too, then always finds the states it moves between. -/
theorem machines_stay_in_order (hhost : host.Within Operation.Proper) {start w : World}
    (blank : start.Blank) (empty : start.rosters = {}) (discreet : start.Discreet host)
    (history : ReflTransGen (host.Performs Operation.Proper) start w) {m : MachineId} (hn : w.PlainNames m) :
    w.InOrder m ∧ w.FindsWays host m := by
  have checked := hhost.checked
  suffices reached : w.Reachable ∧ w.Orderly host from
    ⟨reached.2.inOrder reached.1 hn, reached.1.findsWays checked m⟩
  clear hn
  induction history with
  | refl =>
    refine ⟨⟨start, blank, .refl⟩, discreet, fun r => ?_, fun _ _ => ?_⟩
    · rw [empty]
      exact .nil
    · rw [blank.machine]
      exact .inl rfl
  | tail _ step ih =>
    obtain ⟨op, bound, depth, hop, rfl⟩ := step
    exact ⟨ih.1.perform checked bound depth hop.checked, ih.2.perform hhost bound depth hop⟩

end World

/-- A lift that gets another floor while it rises, where it is at home from then on; whoever binds it again
is not heard. Its lamp glows when it is asked how it enters the ground floor. -/
def liftHost : Host where
  behaviour := fun callback _ _ _ =>
    match callback with
    | "extend" => .perform "add_states" (fun _ => .ok (.addStates 0 (.text "roof") {}))
        (fun _ => .perform "initial" (fun _ => .ok (.setInitial 0 (.text "roof")))
          (fun _ => .perform "add_model" (fun _ => .ok (.bindModels 0 (.model "lift") .null))
            (fun _ => .done .null)))
    | "glow" => .read (.model "lift") "lamp" (fun _ => .done .null)
    | _ => .done .null

def liftPlan : Blueprint where
  options := { initial := .text "ground", autoTransitions := .bool false }
  states := .list [.text "ground", .text "first"]
  transitions := .list [
    .list [.text "rise", .text "ground", .text "first", .null, .null, .callback "extend"]]
  models := .list [.model "lift", .model "lift"]

def liftStart : World where
  models := ⟨[("lift", { properties := ⟨[("on_enter_ground", "glow")]⟩ })]⟩

def liftBuilt : World := ((Engine.ofHost liftHost 8 3).perform (.create "lifts" liftPlan) liftStart).2

/-- The lift when it has risen. -/
def liftWorld : World :=
  ((Engine.ofHost liftHost 8 3).perform (.trigger 0 (.model "lift") (.text "rise") [] []) liftBuilt).2

theorem liftHost_proper : liftHost.Within Operation.Proper := by
  intro callback call w count
  unfold liftHost
  simp only []
  split
  · refine ⟨fun _ _ h => ?_, fun _ => ⟨fun _ _ h => ?_, fun _ => ⟨fun _ _ h => ?_, fun _ => trivial⟩⟩⟩
    all_goals
      cases h
      trivial
  · exact fun _ => trivial
  · trivial

theorem liftStart_discreet : liftStart.Discreet liftHost := by
  intro x name callback hf
  by_cases hx : "lift" = x
  · subst hx
    by_cases hname : "on_enter_ground" = name
    · subst hname
      cases hf
      exact fun _ _ _ _ => trivial
    · simp [World.model, liftStart, Table.find?, hname] at hf
  · have other : liftStart.model x = default := by simp [World.model, liftStart, Table.find?, hx]
    rw [other] at hf
    cases hf

theorem liftWorld_facts :
    (liftWorld.machine 0).states.keys = [.text "ground", .text "first", .text "roof"] ∧
      (liftWorld.machine 0).initial = .text "roof" ∧ liftWorld.boundModels 0 = [.model "lift"] := by
  -- the world is evaluated once for all that is looked up in it
  have look : (some liftWorld).map (fun w => ((w.machine 0).states.keys, (w.machine 0).initial,
      w.boundModels 0)) =
      some ([.text "ground", .text "first", .text "roof"], .text "roof", [.model "lift"]) := by cbv
  simpa only [Option.map_some, Option.some.injEq, Prod.mk.injEq] using look

theorem liftWorld_plain : liftWorld.PlainNames 0 := by
  obtain ⟨keys, -⟩ := liftWorld_facts
  intro k hk
  rw [keys] at hk
  simp only [List.mem_cons, List.not_mem_nil, or_false] at hk
  rcases hk with rfl | rfl | rfl <;> exact ⟨_, rfl⟩

/-- The roof has become the initial state, and the lift is still bound once. -/
theorem lift_stays_in_order :
    liftWorld.InOrder 0 ∧ (liftWorld.machine 0).initial = .text "roof" ∧
      liftWorld.boundModels 0 = [.model "lift"] ∧ liftWorld.FindsWays liftHost 0 := by
  obtain ⟨-, initial, models⟩ := liftWorld_facts
  have history : ReflTransGen (liftHost.Performs Operation.Proper) liftStart liftWorld :=
    .tail (.single ⟨.create "lifts" liftPlan, 8, 3, trivial, rfl⟩)
      ⟨.trigger 0 (.model "lift") (.text "rise") [] [], 8, 3, trivial, rfl⟩
  obtain ⟨order, ways⟩ := World.machines_stay_in_order liftHost_proper ⟨rfl, rfl, rfl, rfl⟩ rfl
    liftStart_discreet history liftWorld_plain
  exact ⟨order, initial, models, ways⟩

end StateEngine
