import Mathlib.Data.Set.List
import StateEngine.Machine.Program
import StateEngine.Proofs.Rows.Indexed

/-! Registering transitions is all or nothing, for one call as for a whole row: whatever is refused has been refused before
the first transition is made. -/
namespace StateEngine
open Act

/-- The ways in which a registration of transitions is refused. -/
def refusals : List String :=
  ["TriggerNameError", "RegisteredStateError", "UnknownStateError", "InsufficientStatesError", "ArgumentsError",
    "TypeError"]

namespace World

variable {w v : World} {m : MachineId} {row : Row} {f : Fault}

/-- The names of the states of a row. -/
def rowNames (w : World) (m : MachineId) (states : Value) : List Value :=
  match states with
  | .null => (w.machine m).states.keys
  | v => v.items.map w.nameOf

/-- A row is in order: its trigger is free and can be a key, all its states are known and there are two at least, and each
argument has one entry or as many as there are transitions. -/
structure Layable (w : World) (m : MachineId) (row : Row) : Prop where
  free : row.trigger.same (.text (w.machine m).accessor.name) = false
  hashable : row.trigger.hashable = true
  known : ∀ x ∈ row.states.items, w.Knows m x
  enough : 2 ≤ (w.rowNames m row.states).length
  hooks : row.hooks.Fit (moveCount (w.rowNames m row.states).length row.loop.truthy)

theorem namesOfRow_eq {states : Value} (known : ∀ x ∈ states.items, w.Knows m x) :
    w.namesOfRow m states = .ok (w.rowNames m states) := by
  cases states with
  | null => rfl
  | _ => exact mapM_of_ok (fun x hx => registeredName_of_knows (known x hx))

theorem known_of_namesOfRow {states : Value} {names : List Value} (h : w.namesOfRow m states = .ok names) :
    ∀ x ∈ states.items, w.Knows m x := by
  have each {xs : List Value} (h : xs.mapM (w.registeredName m) = .ok names) : ∀ x ∈ xs, w.Knows m x := by
    intro x hx
    obtain ⟨_, hx⟩ := ok_of_mapM h x hx
    exact knows_of_registeredName hx
  cases states with
  | null => exact fun x hx => absurd hx List.not_mem_nil
  | _ => exact each h

/-- The names of a row of known states are texts, and registered. -/
theorem texts_of_namesOfRow (hw : w.Reachable) (hn : w.PlainNames m) {states : Value} {names : List Value}
    (h : w.namesOfRow m states = .ok names) :
    ∃ texts : List String, names = texts.map .text ∧ ∀ a ∈ texts, .text a ∈ (w.machine m).states.keys := by
  have keys : ∀ k ∈ names, k ∈ (w.machine m).states.keys := by
    have each {xs : List Value} (h : xs.mapM (w.registeredName m) = .ok names) :
        ∀ k ∈ names, k ∈ (w.machine m).states.keys :=
      forall_mem_of_mapM (fun _ _ _ => registeredName_mem hw.regular hn) h
    cases states with
    | null =>
      cases h
      exact fun k hk => hk
    | _ => exact each h
  have texts : names ∈ Set.range (List.map Value.text) := by
    rw [Set.range_list_map]
    exact fun k hk => (hn k (keys k hk)).imp (fun _ h => h.symm)
  obtain ⟨texts, rfl⟩ := texts
  exact ⟨texts, rfl, fun a ha => keys _ (List.mem_map_of_mem ha)⟩

theorem planRow_eq_names (w : World) (m : MachineId) (row : Row) : w.planRow m row = (do
    let names ← w.namesOfRow m row.states
    if names.length < 2 then .error .tooFewStates
    let moves := rowMoves (w.machine m).initial names row.loop.truthy row.loopIncludesInitial.truthy
    return moves.zip (← spreadHooks moves.length row.hooks)) := by
  unfold planRow namesOfRow
  cases row.states <;> rfl

theorem planRow_short {names : List Value} (hnames : w.namesOfRow m row.states = .ok names) (hlen : names.length < 2) :
    w.planRow m row = .error .tooFewStates := by
  rw [planRow_eq_names, hnames]
  exact if_pos hlen

/-- The plan of a row with names enough, as far as its arguments go round. -/
theorem planRow_named {names : List String} (hnames : w.namesOfRow m row.states = .ok (names.map .text))
    (hlen : 2 ≤ names.length) :
    w.planRow m row = (entriesFor (moveCount names.length row.loop.truthy) row.hooks).map (fun entries =>
      (rowMoves (w.machine m).initial (names.map .text) row.loop.truthy row.loopIncludesInitial.truthy).zip
        ((List.range (moveCount names.length row.loop.truthy)).map entries.at)) := by
  have count : (rowMoves (w.machine m).initial (names.map .text) row.loop.truthy
      row.loopIncludesInitial.truthy).length = moveCount names.length row.loop.truthy := by
    rw [rowMoves_map hlen, List.length_map, List.length_range]
  have enough : ¬ (names.map Value.text).length < 2 := by
    rw [List.length_map]
    omega
  rw [planRow_eq_names, hnames]
  simp only [bind, Except.bind, if_neg enough, pure, Except.pure, count, spreadHooks_eq]
  cases entriesFor (moveCount names.length row.loop.truthy) row.hooks <;> rfl

/-- Told place by place, the registration of a row is the same. -/
theorem connectRow_by_places (hw : w.Reachable) (hn : w.PlainNames m) (row : Row) :
    connectRow m row w = connectRowByPlaces m row w := by
  unfold connectRow connectRowByPlaces
  cases hnames : w.namesOfRow m row.states with
  | error f =>
    have refused : w.planRow m row = .error f := by rw [planRow_eq_names, hnames]; rfl
    rw [bind_of_error (by rw [ask_apply, refused]; rfl), bind_of_error (by rw [ask_apply, hnames]; rfl)]
  | ok names =>
    obtain ⟨texts, rfl, -⟩ := texts_of_namesOfRow hw hn hnames
    have asked : Act.ask (fun w => w.namesOfRow m row.states) w = (.ok (texts.map .text), w) := ask_ok hnames
    rw [bind_of_ok asked]
    by_cases hlen : 2 ≤ texts.length
    · simp only [List.length_map, if_neg (Nat.not_lt.mpr hlen)]
      have planned := planRow_named hnames hlen
      cases given : entriesFor (moveCount texts.length row.loop.truthy) row.hooks with
      | error f =>
        have refused : (Act.ofExcept (.error f) : Run Entries) w = (.error (.fault f), w) := rfl
        rw [given] at planned
        rw [bind_of_error (by rw [ask_apply, planned]; rfl), bind_of_error refused]
      | ok entries =>
        have handed : (Act.ofExcept (.ok entries) : Run Entries) w = (.ok entries, w) := rfl
        rw [given] at planned
        rw [bind_of_ok (a := _) (ask_ok (f := fun w => w.planRow m row) (s := w) planned), bind_of_ok handed,
          bind_of_ok (get_apply w), turnTo_eq hlen, pure_bind, layByPlaces_eq hlen (entriesFor_even given).2]
    · have short : (texts.map Value.text).length < 2 := by
        rw [List.length_map]
        omega
      rw [bind_of_error (by rw [ask_apply, planRow_short hnames short]; rfl)]
      simp only [if_pos short]
      rfl

/-- A planned transition leads from one registered name to another. -/
def Links (w : World) (m : MachineId) (move : (Value × Value) × Hooks) : Prop :=
  ∃ a b : String, move.1 = (.text a, .text b) ∧ .text a ∈ (w.machine m).states.keys ∧
    .text b ∈ (w.machine m).states.keys

theorem Links.connectable {trigger : Value} {move : (Value × Value) × Hooks} (h : w.Links m move)
    (free : trigger.same (.text (w.machine m).accessor.name) = false) (hashable : trigger.hashable = true) :
    w.Connectable m trigger move.1.1 move.1.2 := by
  obtain ⟨⟨source, dest⟩, hooks⟩ := move
  obtain ⟨a, b, ends, ha, hb⟩ := h
  obtain ⟨rfl, rfl⟩ := Prod.mk.inj ends
  refine ⟨free, hashable, .inr (fun x hx => ?_), .inr (.inr (.inr (knows_key hb)))⟩
  obtain rfl := List.mem_singleton.mp hx
  exact knows_key ha

/-- Between registered names one transition after the other is made under a free trigger. -/
theorem connect_links {trigger : Value} (free : trigger.same (.text (w.machine m).accessor.name) = false)
    (hashable : trigger.hashable = true) {plan : List ((Value × Value) × Hooks)} (links : ∀ move ∈ plan, w.Links m move) :
    ∃ v, plan.forM (fun move => Act.advance (fun w => w.connect m trigger move.1.1 move.1.2 move.2)) w = (.ok (), v) ∧
      plan.foldlM (fun w move => w.connect m trigger move.1.1 move.1.2 move.2) w = .ok v := by
  induction plan generalizing w with
  | nil => exact ⟨w, rfl, rfl⟩
  | cons move plan ih =>
    have connected : w.connect m trigger move.1.1 move.1.2 move.2 = _ :=
      connect_of_connectable ((links move List.mem_cons_self).connectable free hashable)
    generalize (w.movesFor m move.1.1 move.1.2).foldl _ _ = u at connected
    -- a new transition leaves the states and the name of the attribute as they are
    obtain ⟨events, machine⟩ := (relisted_connect connected).machine m
    obtain ⟨v, ran, folded⟩ := ih (w := u) (by rw [machine]; exact free) (fun other hother => by
      obtain ⟨a, b, ends, ha, hb⟩ := links other (List.mem_cons_of_mem _ hother)
      exact ⟨a, b, ends, by rw [machine]; exact ha, by rw [machine]; exact hb⟩)
    refine ⟨v, (bind_of_ok (advance_ok connected)).trans ran, ?_⟩
    rw [List.foldlM_cons, connected]
    exact folded

/-- A planned row leads from one to another of its names. -/
theorem links_of_planRow (hw : w.Reachable) (hn : w.PlainNames m) {plan : List ((Value × Value) × Hooks)}
    (h : w.planRow m row = .ok plan) : (∀ move ∈ plan, w.Links m move) ∧ plan ≠ [] ∧
      (∀ x ∈ row.states.items, w.Knows m x) ∧ 2 ≤ (w.rowNames m row.states).length ∧
      row.hooks.Fit (moveCount (w.rowNames m row.states).length row.loop.truthy) := by
  cases hnames : w.namesOfRow m row.states with
  | error f =>
    rw [planRow_eq_names, hnames] at h
    cases h
  | ok names =>
    have known := known_of_namesOfRow hnames
    obtain rfl : names = w.rowNames m row.states := Except.ok.inj (hnames.symm.trans (namesOfRow_eq known))
    obtain ⟨texts, same, keys⟩ := texts_of_namesOfRow hw hn hnames
    by_cases hlen : 2 ≤ texts.length
    · rw [same] at hnames ⊢
      rw [planRow_named hnames hlen] at h
      cases given : entriesFor (moveCount texts.length row.loop.truthy) row.hooks with
      | error f =>
        rw [given] at h
        cases h
      | ok entries =>
        rw [given] at h
        cases h
        rw [List.length_map]
        refine ⟨fun move hmove => ?_, fun none => ?_, known, hlen, (entriesFor_even given).1⟩
        · have hmove := List.of_mem_zip hmove
          rw [rowMoves_map hlen] at hmove
          obtain ⟨i, hi, ends⟩ := List.mem_map.mp hmove.1
          have inside : i < texts.length := by
            have := List.mem_range.mp hi
            unfold moveCount at this
            split at this <;> omega
          exact ⟨_, _, ends.symm, keys _ (getD_rowFrom_mem _ inside),
            keys _ (getD_rowFrom_mem _ (placeAfter_lt hlen (loopEnd_le_one _ _ _) i))⟩
        · have := congrArg List.length none
          rw [List.length_zip, rowMoves_map hlen, List.length_map, List.length_map, List.length_range, Nat.min_self,
            List.length_nil, moveCount] at this
          split at this <;> omega
    · rw [planRow_short hnames (by rw [same, List.length_map]; omega)] at h
      cases h

/-- A row that is in order has a plan. -/
theorem planRow_of_layable (hw : w.Reachable) (hn : w.PlainNames m) (h : w.Layable m row) :
    ∃ plan, w.planRow m row = .ok plan := by
  have hnames := namesOfRow_eq h.known
  obtain ⟨texts, same, -⟩ := texts_of_namesOfRow hw hn hnames
  have enough := h.enough
  have hooks := h.hooks
  rw [same, List.length_map] at enough hooks
  rw [same] at hnames
  obtain ⟨entries, given⟩ := entriesFor_of_fit hooks
  exact ⟨_, by rw [planRow_named hnames enough, given]; rfl⟩

/-- A row is laid as a whole if it is in order, and refused as a whole if it is not. -/
theorem connectRow_lays_or_fails (hw : w.Reachable) (hn : w.PlainNames m) (row : Row) :
    (w.Layable m row ∧ ∃ plan v, w.planRow m row = .ok plan ∧ connectRow m row w = (.ok (), v) ∧
      plan.foldlM (fun w move => w.connect m row.trigger move.1.1 move.1.2 move.2) w = .ok v) ∨
    (¬ w.Layable m row ∧ ∃ f, connectRow m row w = (.error (.fault f), w) ∧
      (w.planRow m row = .error f ∨ ∃ source dest hooks, w.connect m row.trigger source dest hooks = .error f)) := by
  cases planned : w.planRow m row with
  | error f =>
    refine .inr ⟨fun layable => ?_, f, ?_, .inl rfl⟩
    · obtain ⟨plan, h⟩ := planRow_of_layable hw hn layable
      cases planned.symm.trans h
    · rw [connectRow, bind_of_error (by rw [ask_apply, planned]; rfl)]
  | ok plan =>
    obtain ⟨links, some, known, enough, hooks⟩ := links_of_planRow hw hn planned
    have asked : Act.ask (fun w => w.planRow m row) w = (.ok plan, w) := ask_ok planned
    by_cases usable : row.trigger.same (.text (w.machine m).accessor.name) = false ∧ row.trigger.hashable = true
    · obtain ⟨v, ran, folded⟩ := connect_links usable.1 usable.2 links
      refine .inl ⟨⟨usable.1, usable.2, known, enough, hooks⟩, plan, v, rfl, ?_, folded⟩
      rw [connectRow, bind_of_ok asked]
      exact ran
    · -- the first transition is refused for its trigger, before any is made
      refine .inr ⟨fun layable => usable ⟨layable.free, layable.hashable⟩, ?_⟩
      obtain ⟨move, rest, rfl⟩ := List.exists_cons_of_ne_nil some
      cases refused : w.connect m row.trigger move.1.1 move.1.2 move.2 with
      | ok v =>
        have connectable := connectable_of_connect refused
        exact absurd ⟨connectable.free, connectable.hashable⟩ usable
      | error f =>
        refine ⟨f, ?_, .inr ⟨_, _, _, refused⟩⟩
        rw [connectRow, bind_of_ok asked]
        exact bind_of_error (advance_error refused)

section Refusals

variable {trigger source dest x : Value} {hooks : Hooks}

theorem lookupState_refusal (h : w.lookupState m x = .error f) : f.kind ∈ refusals := by
  unfold lookupState at h
  simp only [] at h
  split at h
  · split at h
    · cases h
    · cases h
      simp [Fault.kind, refusals]
  · cases h
    simp [Fault.kind, refusals]

theorem registeredName_refusal (h : w.registeredName m x = .error f) : f.kind ∈ refusals := by
  unfold registeredName at h
  split at h
  · simp only [] at h
    split at h
    · cases h
    · cases h
      simp [Fault.kind, refusals]
  · cases looked : w.lookupState m x with
    | ok s =>
      rw [looked] at h
      cases h
    | error f' =>
      rw [looked] at h
      cases h
      exact lookupState_refusal looked

theorem names_refusal {xs : List Value} (h : xs.mapM (w.registeredName m) = .error f) : f.kind ∈ refusals :=
  error_of_mapM (P := fun f => f.kind ∈ refusals) (fun _ _ _ => registeredName_refusal) h

theorem destName_refusal {name : Value} (h : w.destName m dest name = .error f) : f.kind ∈ refusals := by
  unfold destName at h
  split at h
  · cases h
  · split at h
    · cases h
    · exact registeredName_refusal h

theorem movesOf_refusal (h : w.movesOf m source dest = .error f) : f.kind ∈ refusals := by
  rcases error_of_bind h with h | ⟨names, -, h⟩
  · unfold sourceNames at h
    split at h
    · cases h
    · exact names_refusal h
  · refine error_of_mapM (P := fun f => f.kind ∈ refusals) (fun name _ f hmove => ?_) h
    rcases error_of_bind hmove with hd | ⟨d, -, hmove⟩
    · exact destName_refusal hd
    · cases hmove

theorem connect_refusal (h : w.connect m trigger source dest hooks = .error f) : f.kind ∈ refusals := by
  unfold World.connect at h
  simp only [] at h
  split at h
  · cases h
    simp [Fault.kind, refusals]
  · rcases error_of_bind h with h | ⟨moves, -, h⟩
    · exact movesOf_refusal h
    · split at h
      · cases h
        simp [Fault.kind, refusals]
      · cases h

theorem entriesFor_refusal {count : Nat} (h : entriesFor count hooks = .error f) : f = .argumentCount := by
  rcases error_of_bind h with h | ⟨_, -, h⟩
  · exact spread_error h
  rcases error_of_bind h with h | ⟨_, -, h⟩
  · exact spread_error h
  rcases error_of_bind h with h | ⟨_, -, h⟩
  · exact spread_error h
  rcases error_of_bind h with h | ⟨_, -, h⟩
  · exact spread_error h
  rcases error_of_bind h with h | ⟨_, -, h⟩
  · exact spread_error h
  · cases h

theorem planRow_refusal (h : w.planRow m row = .error f) : f.kind ∈ refusals := by
  rw [planRow_eq_names] at h
  rcases error_of_bind h with h | ⟨names, -, h⟩
  · unfold namesOfRow at h
    split at h
    · cases h
    · exact names_refusal h
  · split at h
    · cases h
      simp [Fault.kind, refusals]
    · rcases error_of_bind h with h | ⟨hooks, -, h⟩
      · rw [spreadHooks_eq] at h
        cases given : entriesFor (rowMoves (w.machine m).initial names row.loop.truthy
            row.loopIncludesInitial.truthy).length row.hooks with
        | error f' =>
          rw [given] at h
          cases h
          rw [entriesFor_refusal given]
          simp [Fault.kind, refusals]
        | ok entries =>
          rw [given] at h
          cases h
      · cases h

end Refusals

/-- Transitions are registered as a whole or not at all. A call that is in order makes one for each source, behind the
others there, under an event that is made if there is none, and changes nothing else; any other call is refused and leaves
the world as it is. A row in order is registered call by call; any other one is refused before the first call. It is the
same registration that asks its lists for items place by place, and none of them is ever missing. -/
theorem registration_is_all_or_nothing (E : Engine) (hw : w.Reachable) (hn : w.PlainNames m) :
    (∀ trigger source dest hooks,
      (w.Connectable m trigger source dest ∧ ∃ v,
        E.perform (.connect m trigger source dest hooks) w = (.ok (.value .null), v) ∧
          w.Gains m trigger hooks (w.movesFor m source dest) v) ∨
      (¬ w.Connectable m trigger source dest ∧ ∃ f,
        E.perform (.connect m trigger source dest hooks) w = (.error (.fault f), w) ∧ f.kind ∈ refusals)) ∧
    ∀ row, connectRow m row w = connectRowByPlaces m row w ∧
      ((w.Layable m row ∧ ∃ plan v, w.planRow m row = .ok plan ∧
        E.perform (.connectRow m row) w = (.ok (.value .null), v) ∧
          plan.foldlM (fun w move => w.connect m row.trigger move.1.1 move.1.2 move.2) w = .ok v) ∨
      (¬ w.Layable m row ∧ ∃ f,
        E.perform (.connectRow m row) w = (.error (.fault f), w) ∧ f.kind ∈ refusals)) := by
  constructor
  · intro trigger source dest hooks
    rcases connect_gains_or_fails hw hn trigger source dest hooks with ⟨inOrder, v, connected, gains⟩ | ⟨not, f, refused⟩
    · exact .inl ⟨inOrder, v, bind_of_ok (advance_ok connected), gains⟩
    · exact .inr ⟨not, f, bind_of_error (advance_error refused), connect_refusal refused⟩
  · intro row
    refine ⟨connectRow_by_places hw hn row, ?_⟩
    rcases connectRow_lays_or_fails hw hn row with ⟨inOrder, plan, v, planned, laid, folded⟩ | ⟨not, f, refused, cause⟩
    · exact .inl ⟨inOrder, plan, v, planned, bind_of_ok laid, folded⟩
    · refine .inr ⟨not, f, bind_of_error refused, ?_⟩
      rcases cause with unplanned | ⟨source, dest, hooks, unconnected⟩
      · exact planRow_refusal unplanned
      · exact connect_refusal unconnected

end World

/-- A ferry between two shores and an isle, with no line yet. -/
def ferryPlan : Blueprint where
  options := { initial := .text "isle", autoTransitions := .bool false }
  states := .list [.text "north", .text "isle", .text "south"]

/-- Nobody waits for the ferry. -/
def ferryHost : Host where
  behaviour := fun _ _ _ _ => .done .null

def ferryEngine : Engine := Engine.ofHost ferryHost 4 1

def ferryWorld : World := (ferryEngine.perform (.create "ferry" ferryPlan) {}).2

theorem ferryWorld_reachable : ferryWorld.Reachable := by
  have checked : ferryHost.Within Operation.Checked := fun _ _ _ _ => trivial
  exact World.Reachable.perform ⟨{}, ⟨rfl, rfl, rfl, rfl⟩, .refl⟩ checked 4 1 trivial

theorem ferryWorld_facts :
    (ferryWorld.machine 0).states.keys = [.text "north", .text "isle", .text "south"] ∧
      (ferryWorld.machine 0).states.contains (.text "moon") = false ∧
      (ferryWorld.machine 0).accessor.name = "state" ∧ ferryWorld.transitions.cells.toList = [] := by
  have look : (some ferryWorld).map (fun w => ((w.machine 0).states.keys, (w.machine 0).states.contains (.text "moon"),
      (w.machine 0).accessor.name, w.transitions.cells.size)) =
      some ([.text "north", .text "isle", .text "south"], false, "state", 0) := by cbv
  simp only [Option.map_some, Option.some.injEq, Prod.mk.injEq] at look
  obtain ⟨keys, unknown, field, none⟩ := look
  exact ⟨keys, unknown, field, by simpa using none⟩

theorem ferryWorld_plainNames : ferryWorld.PlainNames 0 := by
  intro k hk
  rw [ferryWorld_facts.1] at hk
  simp only [List.mem_cons, List.not_mem_nil, or_false] at hk
  rcases hk with rfl | rfl | rfl <;> exact ⟨_, rfl⟩

/-- A line to the south from everywhere gives the ferry three transitions; one that begins at the moon as well gives it none,
nor does a round trip with two prices for its three trips. -/
theorem ferry_sails_from_everywhere_or_nowhere :
    ferryWorld.Reachable ∧ ferryWorld.PlainNames 0 ∧
      (∃ v, ferryEngine.perform (.connect 0 (.text "sail") everyState (.text "south") {}) ferryWorld =
          (.ok (.value .null), v) ∧
        v.transitions.cells.toList = [.ofHooks (.text "north") (.text "south") {},
          .ofHooks (.text "isle") (.text "south") {}, .ofHooks (.text "south") (.text "south") {}]) ∧
      (∃ f, ferryEngine.perform (.connect 0 (.text "sail") (.list [.text "north", .text "moon"]) (.text "south") {})
        ferryWorld = (.error (.fault f), ferryWorld)) ∧
      ∃ f, ferryEngine.perform (.connectRow 0 { hooks := { conditions := .list [.text "cheap", .text "dear"] } })
        ferryWorld = (.error (.fault f), ferryWorld) := by
  obtain ⟨keys, unknown, field, none⟩ := ferryWorld_facts
  obtain ⟨calls, rows⟩ := World.registration_is_all_or_nothing ferryEngine ferryWorld_reachable ferryWorld_plainNames
  refine ⟨ferryWorld_reachable, ferryWorld_plainNames, ?_, ?_, ?_⟩
  · have moves : ferryWorld.movesFor 0 everyState (.text "south") = [(.text "north", .text "south"),
        (.text "isle", .text "south"), (.text "south", .text "south")] := by
      simp [World.movesFor, World.namesFor, everyState, keys, World.leadsTo, sameState, World.nameOf,
        Value.registrationName]
    have inOrder : ferryWorld.Connectable 0 (.text "sail") everyState (.text "south") := by
      refine ⟨by simp [field], Value.hashable_text _, .inl (by simp [everyState]), .inr (.inr (.inr ?_))⟩
      exact World.knows_key (by rw [keys]; simp)
    rcases calls (.text "sail") everyState (.text "south") {} with ⟨-, v, ran, gains⟩ | ⟨not, -⟩
    · refine ⟨v, ran, ?_⟩
      rw [gains.transitions, none, moves]
      rfl
    · exact absurd inOrder not
  · rcases calls (.text "sail") (.list [.text "north", .text "moon"]) (.text "south") {} with ⟨inOrder, -⟩ | ⟨-, f, refused, -⟩
    · rcases inOrder.sources with every | known
      · exact absurd every (by simp [everyState, Value.same])
      · have known := (known (.text "moon") (by simp [Value.items])).2
        exact absurd known (by rw [show ferryWorld.nameOf (.text "moon") = .text "moon" from rfl, unknown]; decide)
    · exact ⟨f, refused⟩
  · rcases (rows { hooks := { conditions := .list [.text "cheap", .text "dear"] } }).2 with ⟨inOrder, -⟩ | ⟨-, f, refused, -⟩
    · have three : (ferryWorld.rowNames 0 .null).length = 3 := by rw [World.rowNames, keys]; rfl
      have fits := inOrder.hooks.conditions
      rw [three] at fits
      exact absurd fits (by unfold Accepts; decide)
    · exact ⟨f, refused⟩

end StateEngine
