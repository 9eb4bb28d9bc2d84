import Mathlib
import StateEngine.Machine.Program

/-! How the entries of a call that registers states may be spelled: a state by its name or member alone, or by a
map of its parameters. The spelling decides which options of the call reach the state. -/
namespace StateEngine

/-- What a state is named by when it is made: a text, or a member, which gives its own name. -/
def Value.Names : Value → Prop
  | .text _ | .member .. => True
  | _ => False

/-- The options that an entry sets for its own state. -/
structure OwnOptions where
  onEnter : Option Value := none
  onExit : Option Value := none
  ignore : Option Value := none

/-- An entry of a call names a state and sets options of its own, either as the name alone, which sets none, or
as a map. -/
inductive Spells : Value → Value → Bool → OwnOptions → Prop where
  | plain {name : Value} (hname : name.Names) : Spells name name false {}
  | mapped (named : Named) {entries : List (Value × Value)} {name : Value} (hname : name.Names)
      (hnamed : World.namedEntries entries = .ok named) (hgiven : named.lookup "name" = some name)
      (known : ∀ n ∈ named, n.1 ∈ ["name", "on_enter", "on_exit", "ignore_invalid_triggers"]) :
      Spells (.map entries) name true
        ⟨named.lookup "on_enter", named.lookup "on_exit", named.lookup "ignore_invalid_triggers"⟩

/-- An entry that is spelled in one of the two ways. -/
structure Spelling where
  entry : Value
  name : Value
  mapped : Bool
  own : OwnOptions
  spells : Spells entry name mapped own

namespace Spelling

/-- A name by itself. -/
def plain (name : Value) (hname : name.Names) : Spelling := ⟨name, name, false, {}, .plain hname⟩

/-- A map that sets nothing but the name. -/
def named (name : Value) (hname : name.Names) : Spelling :=
  ⟨.map [(.text "name", name)], name, true, {},
    .mapped [("name", name)] hname rfl rfl (by simp)⟩

/-- The options that a state gets: its own, and for the rest those of the call, of which a map takes the ignore
flag only. -/
def options (s : Spelling) (o : StateOptions) : StateOptions where
  onEnter := s.own.onEnter.getD (if s.mapped then .null else o.onEnter)
  onExit := s.own.onExit.getD (if s.mapped then .null else o.onExit)
  ignore := s.own.ignore.getD o.ignore

/-- Its own options, and those of the call for the rest. -/
def completed (s : Spelling) (o : StateOptions) : StateOptions where
  onEnter := s.own.onEnter.getD o.onEnter
  onExit := s.own.onExit.getD o.onExit
  ignore := s.own.ignore.getD o.ignore

/-- No callbacks of the call are for the state of a map that leaves them out. -/
structure Settled (s : Spelling) (o : StateOptions) : Prop where
  onEnter : s.mapped = true → s.own.onEnter = none → o.onEnter.items = []
  onExit : s.mapped = true → s.own.onExit = none → o.onExit.items = []

end Spelling

namespace World

variable {w : World} {o o' : StateOptions}

/-- A state is made by its name with the options of the call. -/
theorem stateOf_name {name : Value} (h : name.Names) :
    w.stateOf o name = .ok (w.addState ⟨name, o.onEnter.items, o.onExit.items, o.ignore⟩) := by
  cases name with
  | text | member => rfl
  | _ => exact h.elim

/-- A state is made by a map with the options in it, and with the flag of the call if it has none in it. -/
theorem stateOf_map {entries : List (Value × Value)} {named : Named} {name : Value}
    (hnamed : namedEntries entries = .ok named) (hgiven : named.lookup "name" = some name)
    (known : ∀ n ∈ named, n.1 ∈ ["name", "on_enter", "on_exit", "ignore_invalid_triggers"]) :
    w.stateOf o (.map entries) = .ok (w.addState ⟨name, ((named.lookup "on_enter").getD .null).items,
      ((named.lookup "on_exit").getD .null).items, (named.lookup "ignore_invalid_triggers").getD o.ignore⟩) := by
  have bound : (stateParameters o.ignore).bind [] named = .ok [name, (named.lookup "on_enter").getD .null,
      (named.lookup "on_exit").getD .null, (named.lookup "ignore_invalid_triggers").getD o.ignore] := by
    refine Signature.bind_named (fun n hn => ?_) ?_
    · simpa [stateParameters, eq_comm] using known n hn
    · simp only [stateParameters, List.mapM_cons, List.mapM_nil, hgiven, Option.or_some, Option.some_or]
      rfl
  show (namedEntries entries >>= fun named => (stateParameters o.ignore).bind [] named >>= _) = _
  rw [hnamed]
  show ((stateParameters o.ignore).bind [] named >>= _) = _
  rw [bound]
  rfl

/-- Only the callbacks count that options have, and the flag. -/
theorem stateOf_congr {name : Value} (h : name.Names) (henter : o.onEnter.items = o'.onEnter.items)
    (hexit : o.onExit.items = o'.onExit.items) (hignore : o.ignore = o'.ignore) :
    w.stateOf o name = w.stateOf o' name := by
  rw [stateOf_name h, stateOf_name h, henter, hexit, hignore]

/-- However an entry is spelled, it makes the state that its name makes with the options that are for it. -/
theorem stateOf_spelled (s : Spelling) : w.stateOf o s.entry = w.stateOf (s.options o) s.name := by
  obtain ⟨entry, name, mapped, own, spells⟩ := s
  cases spells with
  | plain hname => rfl
  | mapped _ hname hnamed hgiven known =>
    rw [stateOf_map hnamed hgiven known, stateOf_name hname]
    rfl

end World

namespace Engine

variable {m : MachineId} {o o' : StateOptions}

/-- Entries that make the same states register the same. -/
theorem addState_congr {entry other : Value} (E : Engine) (m : MachineId)
    (h : ∀ w : World, w.stateOf o entry = w.stateOf o' other) : E.addState m o entry = E.addState m o' other := by
  have enrolled (w : World) : w.enroll m o entry = w.enroll m o' other := by
    unfold World.enroll
    rw [h w]
  unfold addState
  simp only [enrolled]

theorem addState_spelled (E : Engine) (m : MachineId) (o : StateOptions) (s : Spelling) :
    E.addState m o s.entry = E.addState m (s.options o) s.name :=
  addState_congr E m (fun _ => World.stateOf_spelled s)

end Engine

namespace Spelling

variable {s : Spelling} {o : StateOptions}

theorem names (s : Spelling) : s.name.Names := by
  obtain ⟨entry, name, mapped, own, spells⟩ := s
  cases spells with
  | plain hname => exact hname
  | mapped _ hname => exact hname

/-- Callbacks that are missing are no callbacks. -/
theorem items_getD {own : Option Value} {mapped : Bool} {v : Value}
    (h : mapped = true → own = none → v.items = []) :
    (own.getD (if mapped then .null else v)).items = (own.getD v).items := by
  cases own with
  | some own => rfl
  | none =>
    cases mapped with
    | false => rfl
    | true => exact (h rfl rfl).symm

/-- A settled state gets its own options and those of the call for the rest. -/
theorem Settled.addState (h : s.Settled o) (E : Engine) (m : MachineId) :
    E.addState m (s.options o) s.name = E.addState m (s.completed o) s.name :=
  Engine.addState_congr E m
    (fun _ => World.stateOf_congr s.names (items_getD h.onEnter) (items_getD h.onExit) rfl)

/-- What sets nothing is completed by all options of the call. -/
theorem completed_of_own (h : s.own = {}) : s.completed o = o := by
  unfold completed
  rw [h]
  rfl

end Spelling

namespace Engine

/-- Going through what a list is mapped to is going through the list. -/
theorem forM_map {σ α β : Type} {xs : List α} {e : α → β} {f : β → Act σ PUnit} {g : α → Act σ PUnit}
    (h : ∀ x ∈ xs, f (e x) = g x) : (xs.map e).forM f = xs.forM g := by
  induction xs with
  | nil => rfl
  | cons x xs ih =>
    show (f (e x) >>= fun _ => (xs.map e).forM f) = (g x >>= fun _ => xs.forM g)
    rw [h x List.mem_cons_self, ih (fun y hy => h y (List.mem_cons_of_mem _ hy))]

/-- Registering states by entries of either spelling is registering them by name one after the other, each with
the options that are for it: in every world, with the same outcome and the same world behind. These are its own
options and those of the call for the rest, except for callbacks of the call that a map leaves out; so the
spellings of a name can be exchanged wherever the call has no callbacks. -/
theorem states_are_registered_as_spelled (E : Engine) (m : MachineId) (o : StateOptions)
    (spellings : List Spelling) :
    E.addStates m (.list (spellings.map Spelling.entry)) o =
        spellings.forM (fun s => E.addState m (s.options o) s.name) ∧
      ((∀ s ∈ spellings, s.Settled o) →
        E.addStates m (.list (spellings.map Spelling.entry)) o =
          spellings.forM (fun s => E.addState m (s.completed o) s.name)) ∧
      ((∀ s ∈ spellings, s.own = {}) → o.onEnter.items = [] → o.onExit.items = [] →
        E.addStates m (.list (spellings.map Spelling.entry)) o =
          E.addStates m (.list (spellings.map Spelling.name)) o) := by
  have settled (h : ∀ s ∈ spellings, s.Settled o) : E.addStates m (.list (spellings.map Spelling.entry)) o =
      spellings.forM (fun s => E.addState m (s.completed o) s.name) :=
    forM_map (fun s hs => (addState_spelled E m o s).trans ((h s hs).addState E m))
  refine ⟨forM_map (fun s _ => addState_spelled E m o s), settled, fun hown henter hexit => ?_⟩
  have named : E.addStates m (.list (spellings.map Spelling.name)) o =
      spellings.forM (fun s => E.addState m (s.completed o) s.name) :=
    forM_map (fun s hs => by rw [Spelling.completed_of_own (hown s hs)])
  rw [settled (fun s _ => ⟨fun _ _ => henter, fun _ _ => hexit⟩), named]

end Engine

/-- Callbacks that give nothing. -/
def blindHost : Host where
  behaviour := fun _ _ _ _ => .done .null

def blindEngine : Engine := Engine.ofHost blindHost 4 1

/-- A window blind that can only be shut as yet. -/
def blindWorld : World :=
  (blindEngine.perform
    (.create "blinds" { options := { initial := .text "shut", autoTransitions := .bool false } }) {}).2

/-- The map of a blind that is ajar, with a callback of its own. -/
def ajar : Spelling where
  entry := .map [(.text "name", .text "ajar"), (.text "on_enter", .callback "creak")]
  name := .text "ajar"
  mapped := true
  own := { onEnter := some (.callback "creak") }
  spells := .mapped [("name", .text "ajar"), ("on_enter", .callback "creak")] trivial rfl rfl (by simp)

/-- Both spellings of an open blind come to the same where the call sets the ignore flag only, and a blind that is
ajar keeps its own callback where the call brings another one. -/
theorem blinds_are_registered_alike :
    blindEngine.addStates 0 (.list [.text "half", .map [(.text "name", .text "open")]]) { ignore := .bool true } =
        blindEngine.addStates 0 (.list [.text "half", .text "open"]) { ignore := .bool true } ∧
      blindEngine.addStates 0 (.list [ajar.entry]) { onEnter := .callback "cheer", ignore := .bool true } =
        [ajar].forM
          (fun s => blindEngine.addState 0 { onEnter := .callback "creak", ignore := .bool true } s.name) := by
  obtain ⟨-, -, alike⟩ := Engine.states_are_registered_as_spelled blindEngine 0 { ignore := .bool true }
    [.plain (.text "half") trivial, .named (.text "open") trivial]
  obtain ⟨-, settled, -⟩ := Engine.states_are_registered_as_spelled blindEngine 0
    { onEnter := .callback "cheer", ignore := .bool true } [ajar]
  refine ⟨alike (fun s hs => ?_) rfl rfl, settled (fun s hs => ?_)⟩
  · rcases List.mem_cons.mp hs with rfl | hs
    · rfl
    · obtain rfl := List.mem_singleton.mp hs
      rfl
  · obtain rfl := List.mem_singleton.mp hs
    exact ⟨fun _ => nofun, fun _ _ => rfl⟩

/-- The callbacks with which an open blind is entered that an entry registers, where the call brings one. -/
def openedBy (entry : Value) : Option (List Callback) :=
  let v := (blindEngine.addStates 0 (.list [entry]) { onEnter := .callback "cheer" } blindWorld).2
  ((v.machine 0).states.find? (.text "open")).map (fun s => (v.states.get s).onEnter)

/-- The callback of the call reaches an open blind that is registered by its name, but not one that is registered
by a map of its name. -/
theorem mapped_blind_lacks_cheer :
    openedBy (.text "open") = some [.callback "cheer"] ∧ openedBy (.map [(.text "name", .text "open")]) = some [] ∧
      blindEngine.addStates 0 (.list [.map [(.text "name", .text "open")]]) { onEnter := .callback "cheer" } ≠
        blindEngine.addStates 0 (.list [.text "open"]) { onEnter := .callback "cheer" } := by
  have plain : openedBy (.text "open") = some [.callback "cheer"] := by cbv
  have mapped : openedBy (.map [(.text "name", .text "open")]) = some [] := by cbv
  refine ⟨plain, mapped, fun alike => ?_⟩
  unfold openedBy at plain mapped
  rw [alike, plain] at mapped
  cases mapped

end StateEngine
