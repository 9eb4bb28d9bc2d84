import Mathlib.Data.List.Rotate
import StateEngine.Machine.States
import StateEngine.Proofs.Routes.Adding

/-! What a row of transitions consists of: it begins at the initial state if that is among its states, goes from each to
the next, and a loop leads back to the first one, or past the initial state to the second. -/
namespace StateEngine

/-- The names of a row, from the initial state on if it is among them. -/
def rowFrom (initial : Value) (names : List String) : List String :=
  names.rotate ((names.findIdx? (fun a => Value.text a == initial)).getD 0)

/-- The place in a row to which a loop leads back. -/
def loopEnd (initial : Value) (names : List String) (includesInitial : Bool) : Nat :=
  if initial.isIn (names.map .text) && !includesInitial then 1 else 0

/-- The place in a row that comes behind another one. -/
def placeAfter (length back i : Nat) : Nat := if i + 1 < length then i + 1 else back

/-- The number of transitions in a row. -/
def moveCount (length : Nat) (loop : Bool) : Nat := if loop then length else length - 1

/-- The entry of an argument for one of the transitions: a single item serves them all. -/
def entryAt (argument : Value) (i : Nat) : Value :=
  match entriesOf argument with
  | [v] => v
  | vs => vs.getD i .null

/-- The callbacks for one of the transitions. -/
def Hooks.at (hooks : Hooks) (i : Nat) : Hooks where
  conditions := entryAt hooks.conditions i
  exclusions := entryAt hooks.exclusions i
  before := entryAt hooks.before i
  after := entryAt hooks.after i
  prepare := entryAt hooks.prepare i

/-- An argument has one entry for each of some transitions, or a single one. -/
def Accepts (count : Nat) (argument : Value) : Prop :=
  (entriesOf argument).length = 1 ∨ (entriesOf argument).length = count

/-- All callbacks are accepted for a number of transitions. -/
structure Hooks.Fit (hooks : Hooks) (count : Nat) : Prop where
  conditions : Accepts count hooks.conditions
  exclusions : Accepts count hooks.exclusions
  before : Accepts count hooks.before
  after : Accepts count hooks.after
  prepare : Accepts count hooks.prepare

theorem length_rowFrom (initial : Value) (names : List String) : (rowFrom initial names).length = names.length :=
  List.length_rotate ..

/-- Every place of a row has one of its names. -/
theorem getD_rowFrom_mem (initial : Value) {names : List String} {i : Nat} (hi : i < names.length) :
    (rowFrom initial names).getD i "" ∈ names := by
  have hlt : i < (rowFrom initial names).length := by rwa [length_rowFrom]
  rw [List.getD_eq_getElem _ _ hlt]
  exact List.mem_rotate.mp (List.getElem_mem hlt)

/-- No two places of a row have the same name. -/
theorem getD_rowFrom_inj {initial : Value} {names : List String} (hnodup : names.Nodup) {i j : Nat}
    (hi : i < names.length) (hj : j < names.length)
    (same : (rowFrom initial names).getD i "" = (rowFrom initial names).getD j "") : i = j := by
  have hi : i < (rowFrom initial names).length := by rwa [length_rowFrom]
  have hj : j < (rowFrom initial names).length := by rwa [length_rowFrom]
  rw [List.getD_eq_getElem _ _ hi, List.getD_eq_getElem _ _ hj] at same
  exact (List.Nodup.getElem_inj_iff (List.nodup_rotate.mpr hnodup)).mp same

theorem loopEnd_le_one (initial : Value) (names : List String) (includesInitial : Bool) :
    loopEnd initial names includesInitial ≤ 1 := by
  unfold loopEnd
  split <;> omega

theorem placeAfter_lt {length back : Nat} (hlen : 2 ≤ length) (hback : back ≤ 1) (i : Nat) :
    placeAfter length back i < length := by
  unfold placeAfter
  split <;> omega

/-- What stands in front of the initial state. -/
theorem takeWhile_text (initial : Value) (names : List String) :
    (names.map Value.text).takeWhile (fun n => !(n == initial)) =
      (names.take (names.findIdx (fun a => Value.text a == initial))).map .text := by
  induction names with
  | nil => rfl
  | cons a names ih =>
    rw [List.map_cons, List.findIdx_cons]
    cases h : Value.text a == initial with
    | true => simp [h]
    | false => simpa [h] using ih

theorem rotateTo_map (initial : Value) (names : List String) :
    rotateTo initial (names.map .text) = (rowFrom initial names).map .text := by
  unfold rotateTo rowFrom
  cases found : names.findIdx? (fun a => Value.text a == initial) with
  | none =>
    have missing : initial.isIn (names.map .text) = false := by
      rw [Value.isIn, List.any_map]
      exact List.any_eq_false.mpr (fun a ha => by simpa using List.findIdx?_eq_none_iff.mp found a ha)
    simp [missing]
  | some i =>
    obtain ⟨hlt, here, before⟩ := List.findIdx?_eq_some_iff_getElem.mp found
    have there : initial.isIn (names.map .text) = true := by
      rw [Value.isIn, List.any_map]
      exact List.any_eq_true.mpr ⟨names[i], List.getElem_mem hlt, here⟩
    have place : names.findIdx (fun a => Value.text a == initial) = i :=
      (List.findIdx?_eq_some_iff_findIdx_eq.mp found).2
    rw [if_pos there, takeWhile_text, place, List.length_map, List.length_take_of_le (Nat.le_of_lt hlt), Option.getD_some,
      List.rotate_eq_drop_append_take (Nat.le_of_lt hlt), List.map_append, List.map_drop]

theorem rowMoves_map {initial : Value} {names : List String} (hlen : 2 ≤ names.length) (loop includesInitial : Bool) :
    rowMoves initial (names.map .text) loop includesInitial =
      (List.range (moveCount names.length loop)).map (fun i =>
        (.text ((rowFrom initial names).getD i ""),
          .text ((rowFrom initial names).getD (placeAfter names.length (loopEnd initial names includesInitial) i) ""))) := by
  generalize hrow : rowFrom initial names = row
  have length : row.length = names.length := by rw [← hrow, length_rowFrom]
  rw [← length] at hlen ⊢
  have steps : (row.map Value.text).zip (row.map Value.text).tail = (List.range (row.length - 1)).map (fun i =>
      (.text (row.getD i ""), .text (row.getD (placeAfter row.length (loopEnd initial names includesInitial) i) ""))) := by
    refine List.ext_getElem (by simp) (fun i h _ => ?_)
    have hi : i + 1 < row.length := by
      simp at h
      omega
    simp [placeAfter, hi, Nat.lt_of_succ_lt hi]
  have back : (if initial.isIn (names.map .text) && !includesInitial then (row.map Value.text)[1]?
      else (row.map Value.text).head?) = some (.text (row.getD (loopEnd initial names includesInitial) "")) := by
    have head : 0 < row.length := by omega
    unfold loopEnd
    split
    · simp [Nat.lt_of_succ_le hlen]
    · simp [List.head?_eq_getElem?, head]
  have last : (row.map Value.text).getLast? = some (.text (row.getD (row.length - 1) "")) := by
    have : row.length - 1 < row.length := by omega
    simp [List.getLast?_eq_getElem?, this]
  unfold rowMoves
  simp only [rotateTo_map, hrow, steps, back, last]
  cases loop with
  | false => rfl
  | true =>
    have count : moveCount row.length true = row.length - 1 + 1 := by
      unfold moveCount
      rw [if_pos rfl]
      omega
    have closing : placeAfter row.length (loopEnd initial names includesInitial) (row.length - 1) =
        loopEnd initial names includesInitial := if_neg (by omega)
    rw [count, List.range_succ, List.map_append, List.map_singleton, closing]

theorem spread_of_accepts {count : Nat} {argument : Value} (h : Accepts count argument) :
    ∃ vs, spread count argument = .ok vs ∧ ∀ i < count, vs.getD i .null = entryAt argument i := by
  unfold spread entryAt
  rcases h with one | all
  · obtain ⟨v, hv⟩ := List.length_eq_one_iff.mp one
    simp only [hv]
    refine ⟨_, rfl, fun i hi => ?_⟩
    simp [hi]
  · cases he : entriesOf argument with
    | nil =>
      rw [he] at all
      exact ⟨[], if_pos (by exact_mod_cast all), fun _ _ => rfl⟩
    | cons v vs =>
      cases vs with
      | nil =>
        refine ⟨_, rfl, fun i hi => ?_⟩
        simp [hi]
      | cons v' vs =>
        rw [he] at all
        exact ⟨v :: v' :: vs, if_pos (by exact_mod_cast all), fun _ _ => rfl⟩

theorem spreadHooks_of_fit {count : Nat} {hooks : Hooks} (h : hooks.Fit count) :
    World.spreadHooks count hooks = .ok ((List.range count).map hooks.at) := by
  obtain ⟨conditions, hc, hc'⟩ := spread_of_accepts h.conditions
  obtain ⟨exclusions, he, he'⟩ := spread_of_accepts h.exclusions
  obtain ⟨before, hb, hb'⟩ := spread_of_accepts h.before
  obtain ⟨after, ha, ha'⟩ := spread_of_accepts h.after
  obtain ⟨prepare, hp, hp'⟩ := spread_of_accepts h.prepare
  unfold World.spreadHooks
  rw [hc, he, hb, ha, hp]
  refine congrArg Except.ok (List.map_congr_left (fun i hi => ?_))
  have hlt := List.mem_range.mp hi
  simp only [Hooks.at, hc' i hlt, he' i hlt, hb' i hlt, ha' i hlt, hp' i hlt]

namespace World

variable {w : World} {m : MachineId}

/-- The plan of a row of registered states. -/
def rowPlan (w : World) (m : MachineId) (names : List String) (row : Row) : List ((Value × Value) × Hooks) :=
  let first := rowFrom (w.machine m).initial names
  (List.range (moveCount names.length row.loop.truthy)).map (fun i =>
    ((.text (first.getD i ""), .text (first.getD (placeAfter names.length
      (loopEnd (w.machine m).initial names row.loopIncludesInitial.truthy) i) "")), row.hooks.at i))

theorem planRow_eq {names : List String} {row : Row} (hstates : row.states.items = names.map .text)
    (hreg : ∀ a ∈ names, .text a ∈ (w.machine m).states.keys) (hlen : 2 ≤ names.length)
    (hfit : row.hooks.Fit (moveCount names.length row.loop.truthy)) :
    w.planRow m row = .ok (w.rowPlan m names row) := by
  have length : (rowMoves (w.machine m).initial (names.map .text) row.loop.truthy
      row.loopIncludesInitial.truthy).length = moveCount names.length row.loop.truthy := by
    rw [rowMoves_map hlen, List.length_map, List.length_range]
  have named : row.states.items.mapM (w.registeredName m) = .ok (names.map .text) := by
    rw [hstates]
    clear hlen length hfit hstates
    induction names with
    | nil => rfl
    | cons a names ih =>
      rw [List.map_cons, List.mapM_cons, registeredName_text (hreg a List.mem_cons_self),
        ih (fun b hb => hreg b (List.mem_cons_of_mem a hb))]
      rfl
  have plan : w.planRow m row = (do
      let names ← row.states.items.mapM (w.registeredName m)
      if names.length < 2 then .error .tooFewStates
      let moves := rowMoves (w.machine m).initial names row.loop.truthy row.loopIncludesInitial.truthy
      return moves.zip (← spreadHooks moves.length row.hooks)) := by
    unfold planRow
    cases hrow : row.states with
    | null =>
      rw [hrow] at hstates
      rw [← List.length_map (f := Value.text), ← hstates] at hlen
      cases hlen
    | _ => rfl
  have enough : ¬ (names.map Value.text).length < 2 := by
    rw [List.length_map]
    omega
  rw [plan, named]
  simp only [bind, Except.bind, if_neg enough, pure, Except.pure, length, spreadHooks_of_fit hfit]
  rw [rowMoves_map hlen, List.zip_map', rowPlan]

end World

end StateEngine
