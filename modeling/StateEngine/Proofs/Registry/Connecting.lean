import StateEngine.Proofs.Routes.Basic

/-! What connecting states under a trigger asks for and what it does: all names are checked before anything is made, so a
call is refused as a whole, or makes one transition for each source and files it behind the others there. -/
namespace StateEngine
open Act

namespace Table

/-- What is inserted under a text is found under whatever is this text, and only there. -/
theorem find?_insert_key {α : Type} (t : Table Value α) (b : String) (other : Value) (a : α) :
    (t.insert (.text b) a).find? other = if Value.text b == other then some a else t.find? other := by
  have key {k : Value} : (k == .text b) = true ↔ k.text? = some b := Value.beq_text_iff
  refine find?_insert_of a (fun k same => ?_) (fun same k => ?_)
  · rw [Bool.eq_iff_iff, Value.beq_iff_of_text (key.mp same), Value.beq_iff_of_text (a := b) rfl]
  · have text : other.text? = some b := (Value.beq_iff_of_text (a := b) rfl).mp same
    rw [Bool.eq_iff_iff, Value.beq_iff_text_of text, key]

end Table

/-- A list of questions that all have an answer has a list of answers. -/
theorem mapM_of_ok {α β ε : Type} {f : α → Except ε β} {g : α → β} {xs : List α} (h : ∀ x ∈ xs, f x = .ok (g x)) :
    xs.mapM f = .ok (xs.map g) := by
  induction xs with
  | nil => rfl
  | cons x xs ih =>
    rw [List.mapM_cons, h x List.mem_cons_self, ih (fun y hy => h y (List.mem_cons_of_mem x hy))]
    rfl

theorem ok_of_mapM {α β ε : Type} {f : α → Except ε β} {xs : List α} {ys : List β} (h : xs.mapM f = .ok ys) :
    ∀ x ∈ xs, ∃ y, f x = .ok y := by
  induction xs generalizing ys with
  | nil => exact fun x hx => absurd hx List.not_mem_nil
  | cons x xs ih =>
    rw [List.mapM_cons] at h
    obtain ⟨y, hy, h⟩ := ok_of_bind h
    obtain ⟨_, rest, -⟩ := ok_of_bind h
    intro z hz
    rcases List.mem_cons.mp hz with rfl | hz
    · exact ⟨y, hy⟩
    · exact ih rest z hz

/-- A chain of outcomes that ends in an error has one at its first link or behind it. -/
theorem error_of_bind {ε α β : Type} {x : Except ε α} {g : α → Except ε β} {e : ε} (h : x >>= g = .error e) :
    x = .error e ∨ ∃ a, x = .ok a ∧ g a = .error e := by
  cases x with
  | error e' => exact .inl (congrArg Except.error (Except.error.inj h))
  | ok a => exact .inr ⟨a, rfl, h⟩

/-- What holds of every fault that a question may have holds of the fault of a list of them. -/
theorem error_of_mapM {α β ε : Type} {P : ε → Prop} {g : α → Except ε β} {xs : List α} {e : ε}
    (hg : ∀ x ∈ xs, ∀ e, g x = .error e → P e) (h : xs.mapM g = .error e) : P e := by
  induction xs with
  | nil => cases h
  | cons x xs ih =>
    rw [List.mapM_cons] at h
    rcases error_of_bind h with h | ⟨y, -, h⟩
    · exact hg x List.mem_cons_self e h
    · rcases error_of_bind h with h | ⟨ys, -, h⟩
      · exact ih (fun z hz => hg z (List.mem_cons_of_mem x hz)) h
      · cases h

namespace World

variable {w v : World} {m : MachineId} {trigger source dest : Value} {hooks : Hooks}

/-- A machine knows what a reference refers to: this very state, or else a state of this name. -/
def Knows (w : World) (m : MachineId) : Value → Prop
  | .state s => w.owns m s = true
  | v => (w.nameOf v).hashable = true ∧ (w.machine m).states.contains (w.nameOf v) = true

/-- The names of the states that a source stands for at the moment. -/
def namesFor (w : World) (m : MachineId) (source : Value) : List Value :=
  if source.same everyState then (w.machine m).states.keys else source.items.map w.nameOf

/-- Where a transition from a state of some name leads. -/
def leadsTo (w : World) (dest name : Value) : Value :=
  if dest.same sameState then name
  else match dest with
    | .null => .null
    | d => w.nameOf d

/-- The moves that a source and a destination stand for, one from each state in order. -/
def movesFor (w : World) (m : MachineId) (source dest : Value) : List (Value × Value) :=
  (w.namesFor m source).map (fun name => (name, w.leadsTo dest name))

/-- A call is in order: its trigger is free and can be a key, and all states are known that it refers to. -/
structure Connectable (w : World) (m : MachineId) (trigger source dest : Value) : Prop where
  free : trigger.same (.text (w.machine m).accessor.name) = false
  hashable : trigger.hashable = true
  sources : source.same everyState = true ∨ ∀ x ∈ source.items, w.Knows m x
  dest : w.namesFor m source = [] ∨ dest.same sameState = true ∨ dest = .null ∨ w.Knows m dest

theorem registeredName_of_knows {x : Value} (h : w.Knows m x) : w.registeredName m x = .ok (w.nameOf x) := by
  have lookup (named : (w.nameOf x).hashable = true ∧ (w.machine m).states.contains (w.nameOf x) = true) :
      (w.lookupState m x).map (fun _ => w.nameOf x) = .ok (w.nameOf x) := by
    obtain ⟨s, hs⟩ := Option.isSome_iff_exists.mp named.2
    simp only [lookupState, named.1, if_true, hs, Except.map]
  cases x with
  | state s => exact if_pos h
  | _ => exact lookup h

theorem knows_of_registeredName {x name : Value} (h : w.registeredName m x = .ok name) : w.Knows m x := by
  have lookup {y : Value} (found : (w.lookupState m y).map (fun _ => w.nameOf y) = .ok name) :
      (w.nameOf y).hashable = true ∧ (w.machine m).states.contains (w.nameOf y) = true := by
    by_cases key : (w.nameOf y).hashable = true
    · refine ⟨key, ?_⟩
      cases filed : (w.machine m).states.find? (w.nameOf y) with
      | none => simp [lookupState, key, filed, Except.map] at found
      | some s => rw [Table.contains, filed]; rfl
    · simp [lookupState, key, Except.map] at found
  cases x with
  | state s =>
    by_cases owned : w.owns m s = true
    · exact owned
    · simp [registeredName, owned] at h
  | _ => exact lookup h

/-- A machine knows its states by their names. -/
theorem knows_key {a : String} (h : .text a ∈ (w.machine m).states.keys) : w.Knows m (.text a) := by
  obtain ⟨s, hs⟩ := lookupState_key h
  have named : w.registeredName m (.text a) = .ok (.text a) := by
    simp only [registeredName, hs]
    rfl
  exact knows_of_registeredName named

theorem destName_of_known {name : Value} (h : dest.same sameState = true ∨ dest = .null ∨ w.Knows m dest) :
    w.destName m dest name = .ok (w.leadsTo dest name) := by
  unfold destName leadsTo
  split
  · rfl
  · rename_i other
    rcases h with same | rfl | known
    · exact absurd same other
    · rfl
    · cases dest with
      | null => rfl
      | _ => exact registeredName_of_knows known

theorem known_of_destName {name d : Value} (h : w.destName m dest name = .ok d) :
    dest.same sameState = true ∨ dest = .null ∨ w.Knows m dest := by
  unfold destName at h
  split at h
  · exact .inl ‹_›
  · split at h
    · exact .inr (.inl rfl)
    · exact .inr (.inr (knows_of_registeredName h))

/-- The moves of a call are checked with success exactly where it refers to known states only. -/
theorem movesOf_eq (hs : source.same everyState = true ∨ ∀ x ∈ source.items, w.Knows m x)
    (hd : w.namesFor m source = [] ∨ dest.same sameState = true ∨ dest = .null ∨ w.Knows m dest) :
    w.movesOf m source dest = .ok (w.movesFor m source dest) := by
  have sources : w.sourceNames m source = .ok (w.namesFor m source) := by
    unfold sourceNames namesFor
    split
    · rfl
    · rename_i other
      exact mapM_of_ok (fun x hx => registeredName_of_knows ((hs.resolve_left other) x hx))
  rw [movesOf, sources]
  refine mapM_of_ok (fun name hname => ?_)
  rw [destName_of_known (hd.resolve_left (List.ne_nil_of_mem hname))]
  rfl

theorem known_of_movesOf {moves : List (Value × Value)} (h : w.movesOf m source dest = .ok moves) :
    (source.same everyState = true ∨ ∀ x ∈ source.items, w.Knows m x) ∧
      (w.namesFor m source = [] ∨ dest.same sameState = true ∨ dest = .null ∨ w.Knows m dest) := by
  obtain ⟨names, hnames, h⟩ := ok_of_bind h
  have known : source.same everyState = true ∨ ∀ x ∈ source.items, w.Knows m x := by
    unfold sourceNames at hnames
    split at hnames
    · exact .inl ‹_›
    · refine .inr (fun x hx => ?_)
      obtain ⟨_, hx⟩ := ok_of_mapM hnames x hx
      exact knows_of_registeredName hx
  refine ⟨known, ?_⟩
  have same : names = w.namesFor m source := by
    unfold sourceNames at hnames
    unfold namesFor
    split at hnames
    · rw [if_pos ‹_›]
      exact (Except.ok.inj hnames).symm
    · rename_i other
      rw [if_neg other]
      refine Except.ok.inj (hnames.symm.trans (mapM_of_ok (fun x hx => ?_)))
      exact registeredName_of_knows ((known.resolve_left other) x hx)
  cases names with
  | nil => exact .inl same.symm
  | cons name names =>
    obtain ⟨_, hmove⟩ := ok_of_mapM h name List.mem_cons_self
    obtain ⟨d, hd, -⟩ := ok_of_bind hmove
    exact .inr (known_of_destName hd)

/-- A call that is in order is carried out. -/
theorem connect_of_connectable (h : w.Connectable m trigger source dest) :
    w.connect m trigger source dest hooks = .ok ((w.movesFor m source dest).foldl
      (addMove hooks (w.ensureEvent m trigger).1) (w.ensureEvent m trigger).2) := by
  unfold World.connect
  rw [h.free, movesOf_eq h.sources h.dest]
  simp [h.hashable, bind, Except.bind, pure, Except.pure]

/-- Only a call that is in order is carried out. -/
theorem connectable_of_connect (h : w.connect m trigger source dest hooks = .ok v) :
    w.Connectable m trigger source dest := by
  obtain ⟨free, moves, hmoves, -⟩ := connect_cases h
  obtain ⟨sources, dests⟩ := known_of_movesOf hmoves
  refine ⟨free, ?_, sources, dests⟩
  by_contra unhashable
  unfold World.connect at h
  rw [free, hmoves] at h
  simp [unhashable, bind, Except.bind] at h

/-- The transitions with a source among some that are made one after the other. -/
def madeFrom (next : TransitionId) (moves : List (Value × Value)) (name : Value) : List TransitionId :=
  (moves.zipIdx.filter (fun move => move.1.1 == name)).map (fun move => next + move.2)

theorem madeFrom_append (next : TransitionId) (moves : List (Value × Value)) (move : Value × Value) (name : Value) :
    madeFrom next (moves ++ [move]) name =
      madeFrom next moves name ++ if move.1 == name then [next + moves.length] else [] := by
  rw [madeFrom, List.zipIdx_append, List.filter_append, List.map_append, madeFrom]
  by_cases same : (move.1 == name) = true <;> simp [same]

/-- One event has got transitions that were made for some moves, each behind the others of its source. -/
structure Filled (w : World) (e : EventId) (hooks : Hooks) (moves : List (Value × Value)) (v : World) : Prop where
  rest : v = { w with transitions := v.transitions, events := v.events }
  transitions : v.transitions.cells.toList =
    w.transitions.cells.toList ++ moves.map (fun move => .ofHooks move.1 move.2 hooks)
  others : ∀ i, i ≠ e → v.events.get i = w.events.get i
  event : v.events.get e = { w.events.get e with candidates := (v.events.get e).candidates }
  filed : ∀ name, (v.events.get e).candidates.find? name =
    if madeFrom w.transitions.next moves name = [] then (w.events.get e).candidates.find? name
    else some (((w.events.get e).candidates.find? name).getD [] ++ madeFrom w.transitions.next moves name)
  order : (w.events.get e).candidates.keys <+: (v.events.get e).candidates.keys

theorem Filled.next {e : EventId} {moves : List (Value × Value)} (h : Filled w e hooks moves v) :
    v.transitions.next = w.transitions.next + moves.length := by
  have := congrArg List.length h.transitions
  simpa [Heap.next] using this

/-- What is there keeps its place when more is inserted. -/
theorem keys_before_insert (t : Table Value (List TransitionId)) (key : Value) (a : List TransitionId) :
    t.keys <+: (t.insert key a).keys := by
  cases found : t.find? key with
  | none =>
    have new : t.contains key = false := by rw [Table.contains, found]; rfl
    rw [Table.keys_insert_of_not_contains new]
    exact List.prefix_append _ _
  | some old =>
    obtain ⟨front, k, back, -, before, after⟩ := Table.entries_insert_of_find? found a
    rw [Table.keys, Table.keys, before, after]
    simp

/-- One move more. -/
theorem Filled.addMove {e : EventId} {moves : List (Value × Value)} (h : Filled w e hooks moves v) (a : String)
    (d : Value) : Filled w e hooks (moves ++ [(.text a, d)]) (World.addMove hooks e v (.text a, d)) := by
  obtain ⟨u, hu⟩ : ∃ u, u = World.addMove hooks e v (.text a, d) := ⟨_, rfl⟩
  have transitions : u.transitions = v.transitions.push (.ofHooks (.text a) d hooks) := by
    rw [hu]
    rfl
  have events : u.events = v.events.modify e (fun event => { event with
      candidates := event.candidates.insert (.text a)
        ((event.candidates.find? (.text a)).getD [] ++ [v.transitions.next]) }) := by
    simp [hu, World.addMove, addCandidate, updateEvent, addTransition, Transition.ofHooks]
  have candidates : (u.events.get e).candidates = (v.events.get e).candidates.insert (.text a)
      (((v.events.get e).candidates.find? (.text a)).getD [] ++ [v.transitions.next]) := by
    rw [events, Heap.get_modify, if_pos rfl]
  rw [← hu]
  refine ⟨?_, ?_, fun i hi => ?_, ?_, fun name => ?_, ?_⟩
  · have rest : u = { v with transitions := u.transitions, events := u.events } := by
      rw [hu]
      rfl
    rw [rest, h.rest]
  · rw [transitions, Heap.push, Array.toList_push, h.transitions, List.map_append, List.append_assoc]
    rfl
  · rw [events, Heap.get_modify, if_neg (Ne.symm hi), h.others i hi]
  · rw [events, Heap.get_modify, if_pos rfl, h.event]
  · rw [candidates, Table.find?_insert_key, madeFrom_append]
    by_cases same : (Value.text a == name) = true
    · -- what is the same text is found where the text is
      have under : (v.events.get e).candidates.find? name = (v.events.get e).candidates.find? (.text a) := by
        have text := (Value.beq_iff_of_text (a := a) rfl).mp same
        have alike (k : Value) : (k == name) = (k == .text a) := by
          rw [Bool.eq_iff_iff, Value.beq_iff_text_of text, Value.beq_text_iff]
        simp only [Table.find?, alike]
      rw [if_pos same, if_pos same, if_neg (by simp), ← under, h.filed name, h.next]
      by_cases none : madeFrom w.transitions.next moves name = []
      · rw [if_pos none, none, List.nil_append]
      · rw [if_neg none, Option.getD_some, List.append_assoc]
    · rw [if_neg same, if_neg same, List.append_nil]
      exact h.filed name
  · rw [candidates]
    exact h.order.trans (keys_before_insert _ _ _)

/-- Moves from states with text names are filed one after the other. -/
theorem filled_addMoves (w : World) (e : EventId) (hooks : Hooks) {moves : List (Value × Value)}
    (texts : ∀ move ∈ moves, ∃ a : String, move.1 = .text a) :
    Filled w e hooks moves (moves.foldl (World.addMove hooks e) w) := by
  induction moves using List.reverseRecOn with
  | nil => exact ⟨rfl, (List.append_nil _).symm, fun _ _ => rfl, rfl, fun _ => (if_pos rfl).symm, List.prefix_refl _⟩
  | append_singleton moves move ih =>
    obtain ⟨a, ha⟩ := texts move (by simp)
    rw [List.foldl_append]
    obtain ⟨source, d⟩ := move
    obtain rfl : source = .text a := ha
    exact (ih (fun other hother => texts other (List.mem_append_left _ hother))).addMove a d

/-- The event of a trigger as it is before a call: the one that is listed, or an empty one. -/
def eventBefore (w : World) (m : MachineId) (trigger : Value) : Event :=
  ((w.machine m).events.find? trigger).elim { name := trigger, machine := m } w.events.get

/-- Nothing between two worlds but transitions for some moves under a trigger of a machine: its event is there, made and
listed behind the others if it was not, and has got one transition for each move, in order and behind those that the
source had. -/
structure Gains (w : World) (m : MachineId) (trigger : Value) (hooks : Hooks) (moves : List (Value × Value))
    (v : World) : Prop where
  rest : v = { w with transitions := v.transitions, events := v.events, machines := v.machines }
  machine : v.machine m = { w.machine m with events := (v.machine m).events }
  machines : ∀ n, n ≠ m → v.machine n = w.machine n
  listed : (v.machine m).events.entries = (w.machine m).events.entries ++
    if (w.machine m).events.contains trigger then [] else [(trigger, w.events.next)]
  transitions : v.transitions.cells.toList =
    w.transitions.cells.toList ++ moves.map (fun move => .ofHooks move.1 move.2 hooks)
  event : ∃ e, (v.machine m).events.find? trigger = some e ∧ (∀ i, i ≠ e → v.events.get i = w.events.get i) ∧
    v.events.get e = { w.eventBefore m trigger with candidates := (v.events.get e).candidates } ∧
    (w.eventBefore m trigger).candidates.keys <+: (v.events.get e).candidates.keys ∧
    ∀ name, (v.events.get e).candidates.find? name =
      if madeFrom w.transitions.next moves name = [] then (w.eventBefore m trigger).candidates.find? name
      else some (((w.eventBefore m trigger).candidates.find? name).getD [] ++
        madeFrom w.transitions.next moves name)

/-- The event of a trigger with the moves of a call. -/
theorem gains_addMoves {moves : List (Value × Value)} (texts : ∀ move ∈ moves, ∃ a : String, move.1 = .text a) :
    Gains w m trigger hooks moves (moves.foldl (addMove hooks (w.ensureEvent m trigger).1) (w.ensureEvent m trigger).2) := by
  have filled := filled_addMoves (w.ensureEvent m trigger).2 (w.ensureEvent m trigger).1 hooks texts
  generalize hv : moves.foldl (addMove hooks (w.ensureEvent m trigger).1) (w.ensureEvent m trigger).2 = v at filled ⊢
  rcases ensureEvent_cases w m trigger with ⟨e, found, ensured⟩ | ⟨unused, ensured⟩
  · rw [ensured] at filled
    have kept (n : MachineId) : v.machine n = w.machine n := by rw [World.machine, filled.rest, World.machine]
    have before : w.eventBefore m trigger = w.events.get e := by rw [eventBefore, found]; rfl
    refine ⟨by rw [filled.rest], by rw [kept m], fun n _ => kept n, ?_, filled.transitions, e, ?_, filled.others, ?_⟩
    · rw [kept m, if_pos (by rw [Table.contains, found]; rfl), List.append_nil]
    · rw [kept m]
      exact found
    · rw [before]
      exact ⟨filled.event, filled.order, filled.filed⟩
  · rw [ensured] at filled
    have machines : v.machines = (w.newEvent m trigger).machines := by rw [filled.rest]
    have before : w.eventBefore m trigger = (w.newEvent m trigger).events.get w.events.next := by
      rw [eventBefore, unused, event_newEvent, if_pos rfl]
      rfl
    have new : (w.machine m).events.contains trigger = false := by rw [Table.contains, unused]; rfl
    have here : v.machine m = { w.machine m with events := (w.machine m).events.insert trigger w.events.next } := by
      rw [World.machine, machines]
      exact (machine_updateMachine _ m m _).trans (if_pos rfl)
    refine ⟨?_, by rw [here], fun n hn => ?_, ?_, filled.transitions, w.events.next, ?_, fun i hi => ?_, ?_⟩
    · rw [filled.rest]
      rfl
    · rw [World.machine, machines]
      exact (machine_updateMachine _ m n _).trans (if_neg (Ne.symm hn))
    · rw [here, Table.entries_insert_of_not_contains new, if_neg (by rw [new]; exact Bool.false_ne_true)]
    · rw [here, Table.find?, Table.entries_insert_of_not_contains new, List.find?_append]
      have nothing : (w.machine m).events.entries.find? (fun x => x.1 == trigger) = none :=
        Option.map_eq_none_iff.mp unused
      simp [nothing]
    · rw [filled.others i hi, event_newEvent, if_neg hi]
    · rw [before]
      exact ⟨filled.event, filled.order, filled.filed⟩

/-- A call is carried out as a whole if it is in order, and refused as a whole if it is not. -/
theorem connect_gains_or_fails (hw : w.Reachable) (hn : w.PlainNames m) (trigger source dest : Value) (hooks : Hooks) :
    (w.Connectable m trigger source dest ∧ ∃ v, w.connect m trigger source dest hooks = .ok v ∧
      w.Gains m trigger hooks (w.movesFor m source dest) v) ∨
    (¬ w.Connectable m trigger source dest ∧ ∃ f, w.connect m trigger source dest hooks = .error f) := by
  by_cases inOrder : w.Connectable m trigger source dest
  · refine .inl ⟨inOrder, _, connect_of_connectable inOrder, gains_addMoves (fun move hmove => ?_)⟩
    exact hn _ (movesOf_mem hw.regular hn (movesOf_eq inOrder.sources inOrder.dest) move hmove).1
  · refine .inr ⟨inOrder, ?_⟩
    cases refused : w.connect m trigger source dest hooks with
    | error f => exact ⟨f, rfl⟩
    | ok v => exact absurd (connectable_of_connect refused) inOrder

end World

end StateEngine
