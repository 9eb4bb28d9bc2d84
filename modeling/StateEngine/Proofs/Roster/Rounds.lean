import Mathlib
import StateEngine.Proofs.Roster.Requests

/-! Firing a trigger on every bound model. The loop goes through the roster that was in use when it began, which grows at its
end as long as it is in use. So it takes the models that were bound, whoever is unbound meanwhile, and after these the
ones that join before anybody is to leave. -/
namespace StateEngine
open Act Relation World Deed

namespace World

variable {w v : World}

/-- One operation of a host, on machines that have been made, as all that its callbacks ask for. It may end in any way. -/
def Addressed (w v : World) : Prop :=
  ∃ (host : Host) (bound depth : Nat) (op : Operation), host.Asks Addresses ∧ w.Addresses op ∧
    v = ((Engine.ofHost host bound depth).perform op w).2

theorem Housed.addressed (housed : w.Housed) (h : Addressed w v) : v.Housed := by
  obtain ⟨host, bound, depth, op, asks, allowed, rfl⟩ := h
  have steps := (goesFrom_addresses (seats_ofHost (m := 0) asks bound depth) allowed).all
  exact (trail_of_steps steps housed (Nat.zero_le _)).2

theorem Blank.housed_of_history (blank : w.Blank) (history : ReflTransGen Addressed w v) : v.Housed := by
  induction history with
  | refl => exact blank.housed
  | tail _ step ih => exact ih.addressed step

end World

variable {E : Engine} {m : MachineId} {w u v : World} {name : Value} {args : List Value} {named : Named}
  {turns : List (Value × Value)} {deeds : List Deed}

/-- From a world on, a trigger has been fired on models one after another, and on nobody else: with each of them stands
the answer that it has given. -/
inductive Engine.Rounds (E : Engine) (m : MachineId) (name : Value) (args : List Value) (named : Named) (w : World) :
    List (Value × Value) → World → Prop where
  | none : Rounds E m name args named w [] w
  | next {turns : List (Value × Value)} {x answer : Value} {u v : World} (before : Rounds E m name args named w turns u)
      (fired : E.trigger m x name args named u = (.ok answer, v)) :
      Rounds E m name args named w (turns ++ [(x, answer)]) v

/-- How firing a trigger on models in order may end. It has been fired on all of them, and gives whether all their answers
were true; or it fails as firing on one of them did, and none comes after that one. -/
inductive Engine.RoundsEnd (E : Engine) (m : MachineId) (name : Value) (args : List Value) (named : Named) (w : World)
    (models : List Value) : Except Stop Value → World → Prop where
  | all {turns : List (Value × Value)} {v : World} (fired : Rounds E m name args named w turns v)
      (each : turns.map Prod.fst = models) :
      RoundsEnd E m name args named w models (.ok (.bool (turns.all (·.2.truthy)))) v
  | failed {turns : List (Value × Value)} {x : Value} {f : Fault} {u v : World}
      (before : Rounds E m name args named w turns u)
      (raised : E.trigger m x name args named u = (.error (.fault f), v))
      (last : turns.map Prod.fst ++ [x] <+: models) :
      RoundsEnd E m name args named w models (.error (.fault f)) v

open Engine

section Loop

variable (hE : E.Goes True (Seats m 0)) (housed : w.Housed) (made : m < w.machines.next)

include housed made

/-- What becomes of the models that are gone through: there may be more of them, behind the others. -/
theorem roster_grows (trail : Trail m w deeds u) {more : List Deed} (later : Trail m u more v) :
    u.rosters.get (w.machine m).roster <+: v.rosters.get (w.machine m).roster := by
  have spare := housed.rosters m made
  rw [(trail.roster made spare).1, ((trail.trans later).roster made spare).1, joinedFirst_append, ← List.append_assoc]
  exact List.prefix_append _ _

include hE

/-- As many models have been gone through as are first in the roster, and the others come next. -/
theorem rounds_of_triggerEach {r : Except Stop Value} (fuel : Nat) (trail : Trail m w deeds u) (housed' : u.Housed)
    (rounds : Rounds E m name args named w turns u)
    (fired : turns.map Prod.fst = (u.rosters.get (w.machine m).roster).take turns.length)
    (h : E.triggerEach m (w.machine m).roster name args named fuel turns.length (turns.all (·.2.truthy)) u = (r, v))
    (ends : r ≠ .error .exhausted) :
    (∃ deeds, Trail m w deeds v) ∧ RoundsEnd E m name args named w (v.rosters.get (w.machine m).roster) r v := by
  induction fuel generalizing u turns deeds with
  | zero =>
    obtain ⟨rfl, -⟩ := Prod.mk.inj h
    exact absurd rfl ends
  | succ fuel ih =>
    unfold triggerEach at h
    rw [bind_of_ok (get_apply u)] at h
    cases upcoming : (u.rosters.get (w.machine m).roster)[turns.length]? with
    | none =>
      simp only [upcoming] at h
      obtain ⟨rfl, rfl⟩ := Prod.mk.inj h
      rw [List.take_of_length_le (List.getElem?_eq_none_iff.mp upcoming)] at fired
      exact ⟨⟨deeds, trail⟩, .all rounds fired⟩
    | some x =>
      simp only [upcoming] at h
      rcases hx : E.trigger m x name args named u with ⟨answer, c⟩
      have steps := (goes_triggeringSeats (m := m) hE m x name args named u).all
      rw [hx] at steps
      obtain ⟨⟨-, trailed⟩, housedc⟩ := trail_of_steps steps housed' (Nat.zero_le _)
      obtain ⟨more, trail'⟩ := trailed (Nat.lt_of_lt_of_le made trail.count)
      have grown := roster_grows housed made trail trail'
      -- the model that was next is still there, behind the ones before it
      have each : turns.map Prod.fst ++ [x] = (c.rosters.get (w.machine m).roster).take (turns.length + 1) := by
        obtain ⟨_, grown⟩ := grown
        obtain ⟨short, -⟩ := List.getElem?_eq_some_iff.mp upcoming
        rw [fired, ← grown, List.take_append_of_le_length short, List.take_add_one, upcoming]
        rfl
      rcases answer with (f | _) | answer
      · rw [bind_of_error hx] at h
        obtain ⟨rfl, rfl⟩ := Prod.mk.inj h
        exact ⟨⟨_, trail.trans trail'⟩, .failed rounds hx (each ▸ List.take_prefix _ _)⟩
      · rw [bind_of_error hx] at h
        obtain ⟨rfl, -⟩ := Prod.mk.inj h
        exact absurd rfl ends
      · rw [bind_of_ok hx] at h
        refine ih (trail.trans trail') housedc (rounds.next hx) ?_ ?_
        · simpa using each
        · simpa using h

end Loop

/-- A trigger that is fired on every bound model is fired exactly once on each model that was bound at the call, in
order, even if a callback has unbound it meanwhile, then on those that callbacks bind before anybody is to be unbound, and
on no other; and it gives whether all these firings gave true, which it does if there are none, whatever single ones gave.
If firing on a model fails, this fails likewise and nobody comes after that model. The world may be any that operations on
machines lead to from one in which nothing has been made, and callbacks may ask for anything of machines that have been made.

What becomes of the models bound to the machine is told by the deeds of a trail: whoever joins is not bound when he is to
be, and joins once he has taken up the conventions and been placed. Only where his own properties bind him meanwhile is
he bound twice, and fired on for each time. -/
theorem dispatch_fires_on_whoever_is_bound {start : World} (blank : start.Blank)
    (history : ReflTransGen World.Addressed start w) (made : m < w.machines.next) {host : Host}
    (asks : host.Asks World.Addresses) {bound depth : Nat} {r : Except Stop Reply}
    (h : (Engine.ofHost host bound depth).perform (.triggerAll m name args named) w = (r, v))
    (ends : r ≠ .error .exhausted) :
    (∃ deeds, Trail m w deeds v) ∧ ∀ deeds, Trail m w deeds v →
      (∀ x ∈ joinedFirst deeds, x.isIn (w.boundModels m) = false) ∧
      ((∃ turns, (Engine.ofHost host bound depth).Rounds m name args named w turns v ∧
          turns.map Prod.fst = w.boundModels m ++ joinedFirst deeds ∧
          r = .ok (.value (.bool (turns.all (·.2.truthy))))) ∨
        (∃ f turns x u, (Engine.ofHost host bound depth).Rounds m name args named w turns u ∧
          (Engine.ofHost host bound depth).trigger m x name args named u = (.error (.fault f), v) ∧
          turns.map Prod.fst ++ [x] <+: w.boundModels m ++ joinedFirst deeds ∧ r = .error (.fault f)) ∨
        (clashes ["self", "trigger_name"] named = true ∧ r = .error (.fault .wrongType) ∧ v = w)) := by
  have housed := blank.housed_of_history history
  have hE := seats_ofHost (m := m) asks bound depth
  generalize Engine.ofHost host bound depth = E at h hE ⊢
  have answered : (E.triggerAll m name args named >>= fun answer => pure (.value answer)) w = (r, v) := h
  by_cases proper : clashes ["self", "trigger_name"] named = true
  · -- such arguments are refused before anything is done
    rw [triggerAll, if_pos proper] at answered
    obtain ⟨rfl, rfl⟩ := Prod.mk.inj answered
    exact ⟨⟨[], .begun w⟩, fun deeds trail => ⟨trail.newcomers made (housed.rosters m made), .inr (.inr ⟨proper, rfl, rfl⟩)⟩⟩
  rw [triggerAll, if_neg proper, bind_assoc, bind_of_ok (get_apply w)] at answered
  rcases hend : E.triggerEach m (w.machine m).roster name args named E.bound 0 true w with ⟨ending, c⟩
  have finite : ending ≠ .error .exhausted := by
    rintro rfl
    rw [bind_of_error hend] at answered
    exact ends (Prod.mk.inj answered).1.symm
  obtain ⟨trailed, fired⟩ := rounds_of_triggerEach hE housed made E.bound (.begun w) housed .none rfl hend finite
  cases fired with
  | @all turns c rounds each =>
    rw [bind_of_ok hend] at answered
    obtain ⟨rfl, rfl⟩ := Prod.mk.inj answered
    refine ⟨trailed, fun deeds trail => ⟨trail.newcomers made (housed.rosters m made), .inl ⟨turns, rounds, ?_, rfl⟩⟩⟩
    rw [each, (trail.roster made (housed.rosters m made)).1]
  | @failed turns x f u c before raised last =>
    rw [bind_of_error hend] at answered
    obtain ⟨rfl, rfl⟩ := Prod.mk.inj answered
    refine ⟨trailed, fun deeds trail => ⟨trail.newcomers made (housed.rosters m made), .inr (.inl ⟨f, turns, x, u, before,
      raised, ?_, rfl⟩)⟩⟩
    rwa [(trail.roster made (housed.rosters m made)).1] at last

/-- What is asked of the first machine, once there is one. -/
def onMade (op : Operation) (w : World) : Except Fault Operation :=
  if 0 < w.machines.next then .ok op else .error .wrongType

/-- A quartet in which whoever is asked first whether he is ready lets the tenor join, sends the bass away, lets the treble
join, and is not ready. -/
def quartetHost : Host where
  behaviour := fun _ _ _ before =>
    match before with
    | 0 => .perform "add_model" (onMade (.bindModels 0 (.model "tenor") .null))
        (fun _ => .perform "remove_model" (onMade (.unbindModels 0 (.model "bass")))
          (fun _ => .perform "add_model" (onMade (.bindModels 0 (.model "treble") .null)) (fun _ => .done (.bool false))))
    | _ => .done (.bool true)

def quartetPlan : Blueprint where
  options := { initial := .text "rest", autoTransitions := .bool false }
  states := .text "rest"
  transitions := .list [.list [.text "sing", .text "rest", .null, .callback "ready"]]
  models := .list [.model "alto", .model "bass"]

def quartetEngine : Engine := Engine.ofHost quartetHost 5 1

def quartetWorld : World := (quartetEngine.perform (.create "quartet" quartetPlan) {}).2

/-- The quartet after everybody has been told to sing. -/
def quartetSung : World := (quartetEngine.perform (.triggerAll 0 (.text "sing") [] []) quartetWorld).2

theorem quartetHost_addresses : quartetHost.Asks World.Addresses := by
  have asked {op : Operation} (hop : ∀ w : World, 0 < w.machines.next → w.Addresses op) (w : World) (asked : Operation)
      (h : onMade op w = .ok asked) : w.Addresses asked := by
    unfold onMade at h
    split at h
    · rename_i made
      cases h
      exact hop w made
    · cases h
  intro callback _ _ before
  simp only [quartetHost]
  split
  · exact ⟨asked (fun _ h => h), fun _ => ⟨asked (fun _ h => h), fun _ => ⟨asked (fun _ h => h), fun _ => trivial⟩⟩⟩
  · trivial

set_option maxRecDepth 2000 in
theorem quartet_facts : (quartetWorld.machines.next = 1 ∧
    quartetWorld.boundModels 0 = [.model "alto", .model "bass"] ∧ (quartetWorld.machine 0).roster = 0) ∧
    (quartetEngine.perform (.triggerAll 0 (.text "sing") [] []) quartetWorld).1 = .ok (.value (.bool false)) ∧
      quartetSung.rosters.get 0 = [.model "alto", .model "bass", .model "tenor"] ∧
      quartetSung.boundModels 0 = [.model "alto", .model "tenor", .model "treble"] := by
  have made : (some quartetWorld).map (fun w => (w.machines.next, w.boundModels 0, (w.machine 0).roster)) =
      some (1, [.model "alto", .model "bass"], 0) := by cbv
  have sung : (some (quartetEngine.perform (.triggerAll 0 (.text "sing") [] []) quartetWorld)).map
      (fun y => (y.1, y.2.rosters.get 0, y.2.boundModels 0)) =
      some (.ok (.value (.bool false)), [.model "alto", .model "bass", .model "tenor"],
        [.model "alto", .model "tenor", .model "treble"]) := by cbv
  simp only [Option.map_some, Option.some.injEq, Prod.mk.injEq] at made sung
  exact ⟨made, sung⟩

/-- All of the quartet sing that were there, the bass who has been sent away too, and then the tenor; but not the treble, who
has joined after that. -/
theorem quartet_sings_without_treble : World.Blank {} ∧ ReflTransGen World.Addressed {} quartetWorld ∧
    0 < quartetWorld.machines.next ∧ quartetHost.Asks World.Addresses ∧
    (quartetEngine.perform (.triggerAll 0 (.text "sing") [] []) quartetWorld).1 = .ok (.value (.bool false)) ∧
    quartetSung.boundModels 0 = [.model "alto", .model "tenor", .model "treble"] ∧
      ∃ turns, quartetEngine.Rounds 0 (.text "sing") [] [] quartetWorld turns quartetSung ∧
        turns.map Prod.fst = [.model "alto", .model "bass", .model "tenor"] ∧
        turns.all (·.2.truthy) = false := by
  obtain ⟨⟨count, bound, seat⟩, answer, gone, now⟩ := quartet_facts
  have blank : World.Blank {} := ⟨rfl, rfl, rfl, rfl⟩
  have history : ReflTransGen World.Addressed {} quartetWorld :=
    .single ⟨quartetHost, 5, 1, .create "quartet" quartetPlan, quartetHost_addresses, trivial, rfl⟩
  have one : 0 < quartetWorld.machines.next := by
    rw [count]
    exact Nat.one_pos
  refine ⟨blank, history, one, quartetHost_addresses, answer, now, ?_⟩
  have outcome : quartetEngine.perform (.triggerAll 0 (.text "sing") [] []) quartetWorld =
      (.ok (.value (.bool false)), quartetSung) := Prod.ext answer rfl
  obtain ⟨⟨deeds, trail⟩, told⟩ :=
    dispatch_fires_on_whoever_is_bound blank history one quartetHost_addresses outcome nofun
  have models := (trail.roster one ((blank.housed_of_history history).rosters 0 one)).1
  rw [seat, gone] at models
  obtain ⟨-, ⟨turns, rounds, each, all⟩ | ⟨_, _, _, _, -, -, -, raised⟩ | ⟨-, raised, -⟩⟩ := told deeds trail
  · cases answered : turns.all (·.2.truthy)
    · exact ⟨turns, rounds, each.trans models.symm, answered⟩
    · rw [answered] at all
      cases all
  · cases raised
  · cases raised

end StateEngine
