import StateEngine.Proofs.Registry.Connecting
import StateEngine.Proofs.Rows.Plan

/-! A row of transitions is registered as a whole or not at all. Told place by place, its registration asks lists for items
that have to be there; it is the same registration, so none of them is ever missing. -/
namespace StateEngine
open Act

/-- The item of a list at a place, where one has to be. -/
def itemAt {α : Type} (xs : List α) (i : Nat) : Run α :=
  match xs[i]? with
  | some x => return x
  | none => Act.fail .missingIndex

/-- The last item of a list, which has to have one. -/
def lastItem {α : Type} (xs : List α) : Run α :=
  match xs.getLast? with
  | some x => return x
  | none => Act.fail .missingIndex

/-- The callbacks of several transitions, kind by kind. -/
structure Entries where
  conditions : List Value
  exclusions : List Value
  before : List Value
  after : List Value
  prepare : List Value

/-- The callbacks for one transition. -/
def Entries.at (entries : Entries) (i : Nat) : Hooks where
  conditions := entries.conditions.getD i .null
  exclusions := entries.exclusions.getD i .null
  before := entries.before.getD i .null
  after := entries.after.getD i .null
  prepare := entries.prepare.getD i .null

/-- There is an entry of each kind for each of some transitions. -/
structure Entries.Even (entries : Entries) (count : Nat) : Prop where
  conditions : entries.conditions.length = count
  exclusions : entries.exclusions.length = count
  before : entries.before.length = count
  after : entries.after.length = count
  prepare : entries.prepare.length = count

/-- One entry of each kind, as it is picked from a list. -/
def Entries.pick (entries : Entries) (item : List Value → Run Value) : Run Hooks := do
  let conditions ← item entries.conditions
  let exclusions ← item entries.exclusions
  let before ← item entries.before
  let after ← item entries.after
  let prepare ← item entries.prepare
  return { conditions, exclusions, before, after, prepare }

/-- The entries that arguments give to some transitions. -/
def entriesFor (count : Nat) (hooks : Hooks) : Except Fault Entries := do
  let conditions ← spread count hooks.conditions
  let exclusions ← spread count hooks.exclusions
  let before ← spread count hooks.before
  let after ← spread count hooks.after
  let prepare ← spread count hooks.prepare
  return { conditions, exclusions, before, after, prepare }

/-- The names of a row, all of them checked. -/
def World.namesOfRow (w : World) (m : MachineId) (states : Value) : Except Fault (List Value) :=
  match states with
  | .null => .ok (w.machine m).states.keys
  | v => v.items.mapM (w.registeredName m)

/-- The names of a row from the initial one on, and the one that a loop leads back to. -/
def turnTo (initial : Value) (names : List Value) (includesInitial : Bool) : Run (List Value × Value) :=
  if initial.isIn names then do
    let place := names.findIdx (fun n => n == initial)
    let turned := names.drop place ++ names.take place
    let first ← itemAt turned (if includesInitial then 0 else 1)
    return (turned, first)
  else do
    let first ← itemAt names 0
    return (names, first)

/-- Connects each of some names with the next one, and the last one with the one that a loop leads back to. -/
def layByPlaces (m : MachineId) (trigger : Value) (names : List Value) (first : Value) (entries : Entries)
    (loop : Bool) : Run Unit := do
  (List.range (names.length - 1)).forM (fun i => do
    let source ← itemAt names i
    let dest ← itemAt names (i + 1)
    let hooks ← entries.pick (itemAt · i)
    Act.advance (fun w => w.connect m trigger source dest hooks))
  if loop then do
    let source ← lastItem names
    let hooks ← entries.pick lastItem
    Act.advance (fun w => w.connect m trigger source first hooks)

/-- Registers a row place by place. -/
def connectRowByPlaces (m : MachineId) (row : Row) : Run Unit := do
  let names ← Act.ask (fun w => w.namesOfRow m row.states)
  if names.length < 2 then Act.fail .tooFewStates
  let entries ← Act.ofExcept (entriesFor (moveCount names.length row.loop.truthy) row.hooks)
  let turned ← turnTo ((← get).machine m).initial names row.loopIncludesInitial.truthy
  layByPlaces m row.trigger turned.1 turned.2 entries row.loop.truthy

section Places

variable {α : Type}

theorem itemAt_of_lt {xs : List α} {i : Nat} {x : α} (h : xs[i]? = some x) : itemAt xs i = pure x := by
  rw [itemAt, h]

theorem lastItem_eq {xs : List α} {x : α} (h : xs[xs.length - 1]? = some x) : lastItem xs = pure x := by
  rw [lastItem, List.getLast?_eq_getElem?, h]

theorem Entries.Even.pick {entries : Entries} {count : Nat} (h : entries.Even count) {item : List Value → Run Value}
    (i : Nat) (hitem : ∀ xs : List Value, xs.length = count → item xs = pure (xs.getD i .null)) :
    entries.pick item = pure (entries.at i) := by
  unfold Entries.pick
  rw [hitem _ h.conditions, hitem _ h.exclusions, hitem _ h.before, hitem _ h.after, hitem _ h.prepare]
  rfl

theorem Entries.Even.pick_itemAt {entries : Entries} {count i : Nat} (h : entries.Even count) (hi : i < count) :
    entries.pick (itemAt · i) = pure (entries.at i) :=
  h.pick i (fun xs length => itemAt_of_lt (by simp [length, hi]))

theorem Entries.Even.pick_lastItem {entries : Entries} {count : Nat} (h : entries.Even (count + 1)) :
    entries.pick lastItem = pure (entries.at count) :=
  h.pick count (fun xs length => lastItem_eq (by simp [length]))

end Places

/-- An argument that is spread was accepted. -/
theorem accepts_of_spread {count : Nat} {argument : Value} {vs : List Value} (h : spread count argument = .ok vs) :
    Accepts count argument := by
  unfold spread at h
  split at h
  · rename_i one
    exact .inl (by rw [one]; rfl)
  · split at h
    · rename_i all
      exact .inr (by exact_mod_cast all)
    · cases h

theorem spread_error {count : Nat} {argument : Value} {f : Fault} (h : spread count argument = .error f) :
    f = .argumentCount := by
  unfold spread at h
  split at h
  · cases h
  · split at h
    · cases h
    · exact (Except.error.inj h).symm

theorem entriesFor_even {count : Nat} {hooks : Hooks} {entries : Entries} (h : entriesFor count hooks = .ok entries) :
    hooks.Fit count ∧ entries.Even count := by
  obtain ⟨conditions, hc, h⟩ := ok_of_bind h
  obtain ⟨exclusions, he, h⟩ := ok_of_bind h
  obtain ⟨before, hb, h⟩ := ok_of_bind h
  obtain ⟨after, ha, h⟩ := ok_of_bind h
  obtain ⟨prepare, hp, h⟩ := ok_of_bind h
  cases h
  exact ⟨⟨accepts_of_spread hc, accepts_of_spread he, accepts_of_spread hb, accepts_of_spread ha, accepts_of_spread hp⟩,
    ⟨length_of_spread hc, length_of_spread he, length_of_spread hb, length_of_spread ha, length_of_spread hp⟩⟩

/-- The sets of callbacks for several transitions are the entries kind by kind, side by side. -/
theorem spreadHooks_eq (count : Nat) (hooks : Hooks) :
    World.spreadHooks count hooks = (entriesFor count hooks).map (fun entries => (List.range count).map entries.at) := by
  unfold World.spreadHooks entriesFor
  cases spread count hooks.conditions with
  | error f => rfl
  | ok conditions =>
    cases spread count hooks.exclusions with
    | error f => rfl
    | ok exclusions =>
      cases spread count hooks.before with
      | error f => rfl
      | ok before =>
        cases spread count hooks.after with
        | error f => rfl
        | ok after => cases spread count hooks.prepare <;> rfl

theorem entriesFor_of_fit {count : Nat} {hooks : Hooks} (h : hooks.Fit count) :
    ∃ entries, entriesFor count hooks = .ok entries := by
  have fits := spreadHooks_of_fit h
  rw [spreadHooks_eq] at fits
  cases given : entriesFor count hooks with
  | error f => rw [given] at fits; cases fits
  | ok entries => exact ⟨entries, rfl⟩

theorem turned_eq {initial : Value} {names : List Value} (h : initial.isIn names = true) :
    names.drop (names.findIdx (fun n => n == initial)) ++ names.take (names.findIdx (fun n => n == initial)) =
      rotateTo initial names := by
  have front : names.takeWhile (fun n => !(n == initial)) = names.take (names.findIdx (fun n => n == initial)) := by
    simpa using @List.takeWhile_eq_take_findIdx_not _ names (fun n => !(n == initial))
  have length : (names.take (names.findIdx (fun n => n == initial))).length = names.findIdx (fun n => n == initial) :=
    List.length_take_of_le List.findIdx_le_length
  rw [rotateTo, if_pos h, front, length]

/-- There is a name for a loop to lead back to. -/
theorem turnTo_eq {initial : Value} {names : List String} (hlen : 2 ≤ names.length) (includesInitial : Bool) :
    turnTo initial (names.map .text) includesInitial =
      pure ((rowFrom initial names).map .text,
        .text ((rowFrom initial names).getD (loopEnd initial names includesInitial) "")) := by
  have item (i : Nat) (hi : i < 2) : itemAt ((rowFrom initial names).map Value.text) i =
      pure (.text ((rowFrom initial names).getD i "")) := by
    have hlt : i < (rowFrom initial names).length := by
      rw [length_rowFrom]
      omega
    exact itemAt_of_lt (by simp [hlt])
  unfold turnTo loopEnd
  by_cases there : initial.isIn (names.map .text) = true
  · simp only [turned_eq there, rotateTo_map, there]
    rw [item _ (by split <;> omega)]
    cases includesInitial <;> rfl
  · have kept : (rowFrom initial names).map Value.text = names.map .text := by
      rw [← rotateTo_map, rotateTo, if_neg there]
    rw [if_neg there, ← kept, item 0 (by omega), kept, Bool.eq_false_iff.mpr there]
    rfl

theorem forM_congr {α : Type} {f g : α → Run Unit} {xs : List α} (h : ∀ x ∈ xs, f x = g x) : xs.forM f = xs.forM g := by
  induction xs with
  | nil => rfl
  | cons x xs ih =>
    rw [List.forM_eq_forM, List.forM_cons, h x List.mem_cons_self, ← List.forM_eq_forM,
      ih (fun y hy => h y (List.mem_cons_of_mem x hy))]
    rfl

/-- Each of the places of a row is there when it is asked for. -/
theorem layByPlaces_eq {m : MachineId} {trigger initial : Value} {names : List String} {entries : Entries}
    {loop includesInitial : Bool} (hlen : 2 ≤ names.length) (even : entries.Even (moveCount names.length loop)) :
    layByPlaces m trigger ((rowFrom initial names).map .text)
        (.text ((rowFrom initial names).getD (loopEnd initial names includesInitial) "")) entries loop =
      ((rowMoves initial (names.map .text) loop includesInitial).zip
        ((List.range (moveCount names.length loop)).map entries.at)).forM (fun move =>
          Act.advance (fun w => w.connect m trigger move.1.1 move.1.2 move.2)) := by
  generalize hrow : rowFrom initial names = row
  have length : row.length = names.length := by rw [← hrow, length_rowFrom]
  have item {i : Nat} (hi : i < names.length) : (row.map Value.text)[i]? = some (.text (row.getD i "")) := by
    rw [← length] at hi
    simp [hi]
  have step {i : Nat} (hi : i < names.length - 1) : (do
      let source ← itemAt (row.map Value.text) i
      let dest ← itemAt (row.map Value.text) (i + 1)
      let hooks ← entries.pick (itemAt · i)
      Act.advance (fun w => w.connect m trigger source dest hooks)) =
      Act.advance (fun w => w.connect m trigger (.text (row.getD i "")) (.text (row.getD
        (placeAfter names.length (loopEnd initial names includesInitial) i) "")) (entries.at i)) := by
    have inside : i < moveCount names.length loop := by
      unfold moveCount
      split <;> omega
    have next : placeAfter names.length (loopEnd initial names includesInitial) i = i + 1 := if_pos (by omega)
    rw [itemAt_of_lt (item (by omega)), itemAt_of_lt (item (i := i + 1) (by omega)), even.pick_itemAt inside, next]
    rfl
  have steps : (List.range (names.length - 1)).forM (fun i => do
      let source ← itemAt (row.map Value.text) i
      let dest ← itemAt (row.map Value.text) (i + 1)
      let hooks ← entries.pick (itemAt · i)
      Act.advance (fun w => w.connect m trigger source dest hooks)) =
      (List.range (names.length - 1)).forM (fun i => Act.advance (fun w => w.connect m trigger
        (.text (row.getD i "")) (.text (row.getD
          (placeAfter names.length (loopEnd initial names includesInitial) i) "")) (entries.at i))) :=
    forM_congr (fun i hi => step (List.mem_range.mp hi))
  have moves : (rowMoves initial (names.map .text) loop includesInitial).zip
      ((List.range (moveCount names.length loop)).map entries.at) =
      (List.range (moveCount names.length loop)).map (fun i => ((.text (row.getD i ""), .text (row.getD
        (placeAfter names.length (loopEnd initial names includesInitial) i) "")), entries.at i)) := by
    rw [rowMoves_map hlen, List.zip_map', hrow]
  rw [moves, List.forM_eq_forM, List.forM_map]
  unfold layByPlaces
  rw [List.length_map, length, steps]
  cases loop with
  | false => exact bind_pure_unit
  | true =>
    have count : moveCount names.length true = names.length - 1 + 1 := by
      unfold moveCount
      rw [if_pos rfl]
      omega
    have last : lastItem (row.map Value.text) = pure (.text (row.getD (names.length - 1) "")) :=
      lastItem_eq (by rw [List.length_map, length, item (by omega)])
    have closing : placeAfter names.length (loopEnd initial names includesInitial) (names.length - 1) =
        loopEnd initial names includesInitial := if_neg (by omega)
    rw [count] at even ⊢
    rw [List.range_succ, List.forM_append, List.forM_eq_forM, List.forM_cons, List.forM_nil, if_pos rfl, last,
      even.pick_lastItem, closing]
    simp only [pure_bind, bind_pure_unit]

end StateEngine
