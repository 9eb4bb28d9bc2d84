import Mathlib
import StateEngine.Proofs.Binding.Abreast

/-! What a model that is bound does to the others. Binding it leaves the names of its convention callbacks in
lists that all models share, and nothing else that a firing on another one could meet with. -/
namespace StateEngine
open Act World Relation

/-- What a callback may do that keeps away from the machines and from a model: it writes and drops attributes
of other models. -/
def Operation.KeepsAway (x : String) : Operation → Prop
  | .writeAttribute model _ _ | .dropAttribute model _ => model ≠ .model x
  | _ => False

/-- A program that keeps away from the machines and from a model: it reads attributes of others and writes
those, and what it asks for is the same in worlds that differ in that model. -/
def Program.Shuns (x : String) (own : String → Prop) : Program → Prop
  | .done _ | .fail _ => True
  | .read owner _ next => owner ≠ .model x ∧ ∀ r, (next r).Shuns x own
  | .perform _ request next => (∀ w v, w.Besides x own v → request v = request w) ∧
      (∀ w op, request w = .ok op → op.KeepsAway x) ∧ ∀ r, (next r).Shuns x own

/-- A host whose callbacks keep away from the machines and from the model `x`. Those behind the properties
of that model, `own`, merely answer, each time in the same way. -/
structure Host.Shuns (host : Host) (x : String) (own : String → Prop) : Prop where
  blind : ∀ callback call count w v, w.Besides x own v →
    host.behaviour callback call v count = host.behaviour callback call w count
  away : ∀ callback call w count, (host.behaviour callback call w count).Shuns x own
  answers : ∀ callback, own callback → ∀ call w,
    (∃ a, ∀ count, host.behaviour callback call w count = .done a) ∨
      ∃ f, ∀ count, host.behaviour callback call w count = .fail f

/-- The callbacks behind the properties of a model. -/
def World.Behind (w : World) (x : String) (callback : String) : Prop :=
  ∃ name, (w.model x).properties.find? name = some callback

namespace Engine

variable {host : Host} {x : String} {own : String → Prop} {bound : Nat}

section Calling

variable {b c : World} {F : Heap Firing → Heap Machine → Prop} {E : Engine}

theorem abreast_keepsAway {op : Operation} (h : op.KeepsAway x) :
    InStep (Abreast x own b c F) (E.perform op) (E.perform op) := by
  cases op with
  | writeAttribute model name a =>
    refine .bind (.advance (fun w v hw => ?_)) (fun _ => .pure _)
    unfold World.writeAttribute
    cases model with
    | model y =>
      have other : y ≠ x := fun e => h (by rw [e])
      simp only [hw.models y other]
      split
      · exact .inl ⟨_, rfl, rfl⟩
      · exact .inr ⟨_, _, rfl, rfl, hw.updateModel other _⟩
    | _ => exact .inl ⟨_, rfl, rfl⟩
  | dropAttribute model name =>
    refine .bind (.advance (fun w v hw => ?_)) (fun _ => .pure _)
    unfold World.dropAttribute
    cases model with
    | model y =>
      have other : y ≠ x := fun e => h (by rw [e])
      simp only [hw.models y other]
      split
      · exact .inr ⟨_, _, rfl, rfl, hw.updateModel other _⟩
      · exact .inl ⟨_, rfl, rfl⟩
    | _ => exact .inl ⟨_, rfl, rfl⟩
  | _ => exact absurd h id

theorem Shuns.runProgram (hE : E.Shuns x own b c F) {p : Program} (h : p.Shuns x own) :
    InStep (Abreast x own b c F) (E.runProgram p) (E.runProgram p) := by
  induction p with
  | done a => exact .pure a
  | fail f => exact .fail f
  | read owner name next ih => exact .bind (.attempt (hE.readAttribute h.1 name)) (fun r => ih r (h.2 r))
  | perform verb request next ih =>
    obtain ⟨hblind, haway, hnext⟩ := h
    have asked : InStep (Abreast x own b c F) (E.request request) (E.request request) := by
      refine .bind (.change (fun _ _ h => h.countRequest)) (fun _ w v h => ?_)
      have same : InStep (Abreast x own b c F) (Act.ask request) (Act.ask request) :=
        .ask (fun w v h => hblind w v h.toBesides)
      refine InStepAt.bind (same w v h) (fun op w' v' hop _ h' => ?_)
      exact abreast_keepsAway (haway w op (ok_of_ask hop).1) w' v' h'
    refine .bind asked.attempt (fun r => .bind (.change (fun _ _ h => h.record _)) (fun _ => ih r (hnext r)))

/-- Where callbacks keep away from a model, calling them goes the same way whatever belongs to it. -/
theorem shuns_ofHost (h : host.Shuns x own) (b c : World) (depth : Nat) (F : Heap Firing → Heap Machine → Prop) :
    (ofHost host bound depth).Shuns x own b c F := by
  induction depth with
  | zero => exact fun _ _ _ => .exhausted
  | succ depth ih =>
    intro label callback call w v hw
    obtain ⟨k, hk⟩ : ∃ k, k = (w.invocations.find? callback).getD 0 := ⟨_, rfl⟩
    obtain ⟨l, hl⟩ : ∃ l, l = (v.invocations.find? callback).getD 0 := ⟨_, rfl⟩
    have counts : ¬ own callback → l = k := fun ho => by rw [hl, hk, hw.invocations callback ho]
    have entry : callEntry v label call = callEntry w label call := by
      cases call with
      | arguments args named => rfl
      | firing i => rw [callEntry, callEntry, hw.snapshot]
    have entered := (hw.countCall (k := k + 1) (l := l + 1) (fun ho => by rw [counts ho])).record
      (callEntry w label call)
    obtain ⟨w', hw'⟩ : ∃ w', w' = World.record (callEntry w label call)
      { w with invocations := w.invocations.insert callback (k + 1) } := ⟨_, rfl⟩
    obtain ⟨v', hv'⟩ : ∃ v', v' = World.record (callEntry v label call)
      { v with invocations := v.invocations.insert callback (l + 1) } := ⟨_, rfl⟩
    rw [← entry, ← hv', entry, ← hw'] at entered
    have program : host.behaviour callback call v' l = host.behaviour callback call w' k := by
      rw [h.blind callback call l w' v' entered.toBesides]
      by_cases ho : own callback
      · rcases h.answers callback ho call w' with ⟨a, ha⟩ | ⟨f, hf⟩
        · rw [ha, ha]
        · rw [hf, hf]
      · rw [counts ho]
    have run := ih.runProgram (h.away callback call w' k) w' v' entered
    have left : (ofHost host bound (depth + 1)).call label callback call w =
        (ofHost host bound depth).runProgram (host.behaviour callback call w' k) w' := by
      rw [hw', hk]
      rfl
    have right : (ofHost host bound (depth + 1)).call label callback call v =
        (ofHost host bound depth).runProgram (host.behaviour callback call v' l) v' := by
      rw [hv', hl]
      rfl
    unfold InStepAt
    rw [left, right, program]
    exact run

end Calling

section Binding

/-- A step that leaves alone all that does not belong to a model, as long as nothing but the callbacks
`own` stands behind its properties. -/
private def Joins (x : String) (own : String → Prop) (w v : World) : Prop :=
  (∀ callback, w.Behind x callback → own callback) →
    (∀ callback, v.Behind x callback → own callback) ∧ w.Besides x own v

private instance : Std.Refl (Joins x own) := ⟨fun w h => ⟨h, .refl w⟩⟩

private instance : IsTrans World (Joins x own) where
  trans _ _ _ h h' hw := by
    obtain ⟨hv, besides⟩ := h hw
    obtain ⟨hu, besides'⟩ := h' hv
    exact ⟨hu, besides.trans besides'⟩

private theorem Joins.of {w v : World} (hp : (v.model x).properties = (w.model x).properties)
    (h : w.Besides x own v) : Joins x own w v :=
  fun hw => ⟨fun callback hb => hw callback (by unfold Behind at hb ⊢; rwa [hp] at hb), h⟩

private theorem joins_record (w : World) (entry : Entry) : Joins x own w (w.record entry) :=
  .of rfl { Besides.refl w with }

private theorem joins_readAttribute (h : host.Shuns x own) (depth : Nat) (name : String) :
    Act.Walks (Joins x own) ((ofHost host bound depth).readAttribute (.model x) name) := by
  refine .get_bind (fun w => ?_)
  by_cases hw : ∀ callback, w.Behind x callback → own callback
  · simp only []
    split
    · rename_i callback found
      have ho := hw callback ⟨name, found⟩
      cases depth with
      | zero => exact .refl
      | succ depth =>
        refine WalksFrom.bind (.single ?_) (fun before v _ => WalksFrom.bind .refl (fun u v' _ => ?_))
        · refine .of rfl { (Besides.refl w : w.Besides x own w) with invocations := fun other hother => ?_ }
          have differ : ¬ (callback == other) = true := fun same => hother (eq_of_beq same ▸ ho)
          show (w.invocations.insert callback _).find? other = _
          rw [Table.find?_insert, if_neg differ]
        · rcases h.answers callback ho (.arguments [] []) u with ⟨a, ha⟩ | ⟨f, hf⟩
          · rw [ha]
            exact .refl
          · rw [hf]
            exact .refl
    · split <;> exact .refl
  · exact .single (fun h => absurd h hw)

private theorem joins_place (m : MachineId) (state : Value) :
    Act.Walks (Joins x own) (place m state (.model x)) := by
  have written (a : Value) : Act.Walks (Joins x own) (writeState m (.model x) a) := by
    refine .get_bind (fun w => ?_)
    split
    · refine Act.Walks.advance (fun w v h => .single ?_) w
      simp only [World.writeAttribute] at h
      split at h
      · cases h
      · cases h
        refine .of (by rw [model_updateModel, if_pos rfl]) { Besides.refl w with models := fun y hy => ?_ }
        rw [model_updateModel, if_neg hy.symm]
    · refine .single (.of rfl { Besides.refl w with ledgers := fun id y hy => ?_ })
      rw [change_apply]
      simp only [World.record, Heap.get_modify]
      split
      · rw [Table.find?_insert_model, if_neg hy.symm]
      · rfl
  exact .bind (.ask _) (fun s => .bind .get (fun w => .bind (written _) (fun _ => .pure _)))

private theorem joins_bindModel (h : host.Shuns x own) (depth : Nat) (m : MachineId) (initial : Value) :
    Act.Walks (Joins x own) ((ofHost host bound depth).bindModel m initial (.model x)) := by
  have taken : Act.Walks (Joins x own) ((ofHost host bound depth).bindToStates m (.model x)) := by
    refine walks_bindToStates_of (fun s => walks_bindConventions_of (joins_readAttribute h depth)
      (fun w c stage => .single (.of rfl ?_)) (fun w entry => .single (joins_record w entry)) m)
    refine { Besides.refl w with values := fun k => ?_, ignore := fun k => ?_ } <;>
    · simp only [World.updateState, Heap.get_modify]
      split <;> cases stage <;> rfl
  refine .bind .get (fun w => .ite (.pure _) (.bind taken (fun _ => .bind (joins_place m initial) (fun _ => ?_))))
  exact .change (fun w => .single (.of rfl { Besides.refl w with }))

/-- Binding a model leaves alone what belongs to others. -/
theorem besides_of_bindModels {depth : Nat} {m : MachineId} {initial : Value} {w v : World} {r : Except Stop Unit}
    (h : host.Shuns x (w.Behind x)) (hb : (ofHost host bound depth).bindModels m (.model x) initial w = (r, v)) :
    w.Besides x (w.Behind x) v := by
  have one (chosen : Value) : Act.Walks (Joins x (w.Behind x))
      ((Value.model x).items.forM ((ofHost host bound depth).bindModel m chosen)) :=
    .bind (joins_bindModel h depth m chosen) (fun _ => .pure _)
  have bound : Act.Walks (Joins x (w.Behind x)) ((ofHost host bound depth).bindModels m (.model x) initial) := by
    unfold Engine.bindModels
    split
    · refine .bind .get (fun u => ?_)
      split
      · exact .bind (.fail _) (fun chosen => one chosen)
      · exact one _
    · exact one _
  have steps := bound.steps hb
  rw [reflTransGen_eq_self] at steps
  exact (steps (fun _ hk => hk)).2

end Binding

/-- Binding a model beforehand, as far as it gets, changes nothing of what a trigger on another model does:
the same answer or fault, the same entries in the history, and everything left the same but for what belongs
to the bound model. This holds of hosts that keep away from the machines and from that model, and
of triggers whose transitions leave no state that has got a new callback for its exit, and lead to none
that has got one for its entry. -/
theorem trigger_is_undisturbed {host : Host} {bound depth : Nat} {x y : String} {w v : World}
    {r : Except Stop Unit} {m : MachineId} {initial : Value} (hhost : host.Shuns x (w.Behind x))
    (hb : (ofHost host bound depth).bindModels m (.model x) initial w = (r, v)) (hy : y ≠ x) (n : MachineId)
    (name : Value) (args : List Value) (named : Named)
    (agrees : ∀ e, w.eventOf? n name = .ok (some e) → w.Agrees v e) :
    ∃ answer w' v' entries, (ofHost host bound depth).trigger n (.model y) name args named w = (answer, w') ∧
      (ofHost host bound depth).trigger n (.model y) name args named v = (answer, v') ∧
      w'.history.toList = w.history.toList ++ entries ∧ v'.history.toList = v.history.toList ++ entries ∧
      w'.Besides x (w.Behind x) v' := by
  have start : Abreast x (w.Behind x) w v (fun _ _ => True) w v :=
    { besides_of_bindModels hhost hb with
      left := rfl, right := rfl, known := rfl, registered := fun _ => rfl, owners := fun _ => rfl
      filed := fun _ _ h => h, facts := trivial, history := ⟨[], by simp, by simp⟩ }
  have step := trigger_abreast (E := ofHost host bound depth) (shuns_ofHost hhost w v depth) hy args named start agrees
  rcases hw : (ofHost host bound depth).trigger n (.model y) name args named w with ⟨answer, w'⟩
  rcases hv : (ofHost host bound depth).trigger n (.model y) name args named v with ⟨answer', v'⟩
  rw [InStepAt, hw, hv] at step
  obtain ⟨hend, hleft⟩ := step
  obtain rfl : answer' = answer := hend
  obtain ⟨entries, before, after⟩ := hleft.history
  exact ⟨answer', w', v', entries, rfl, rfl, before, after, hleft.toBesides⟩

end Engine

/-- A porch with a gate that can be pushed open. Whatever is called there does nothing. -/
def porchHost : Host where
  behaviour := fun _ _ _ _ => .done .null

def porchPlan : Blueprint where
  options := { initial := .text "shut", autoTransitions := .bool false }
  states := .list [.text "shut", .text "open"]
  transitions := .list [.list [.text "push", .text "shut", .text "open"]]
  models := .model "gate"

def porchEngine : Engine := Engine.ofHost porchHost 4 2

/-- The porch with the gate, and with a guest who is not bound yet. -/
def porchWorld (guest : Model) : World :=
  (porchEngine.perform (.create "porch" porchPlan) { models := ⟨[("guest", guest)]⟩ }).2

/-- The porch when the guest has joined. -/
def porchJoined (guest : Model) : World :=
  (porchEngine.bindModels 0 (.model "guest") .null (porchWorld guest)).2

theorem porchHost_shuns (x : String) (own : String → Prop) : porchHost.Shuns x own :=
  ⟨fun _ _ _ _ _ _ => rfl, fun _ _ _ _ => trivial, fun _ _ _ _ => .inl ⟨.null, fun _ => rfl⟩⟩

/-- A guest who waves when the gate opens. -/
def wavingGuest : Model where
  methods := ⟨[("on_enter_open", "wave")]⟩

/-- Once a guest who waves has joined, the gate fails to open, although it would have opened before. -/
theorem waving_guest_stops_gate :
    (porchWorld wavingGuest).boundModels 0 = [.model "gate"] ∧
      ∃ v u u', porchEngine.bindModels 0 (.model "guest") .null (porchWorld wavingGuest) = (.ok (), v) ∧
        porchEngine.trigger 0 (.model "gate") (.text "push") [] [] (porchWorld wavingGuest) = (.ok (.bool true), u) ∧
        porchEngine.trigger 0 (.model "gate") (.text "push") [] [] v =
          (.error (.fault (.unresolved (.text "on_enter_open"))), u') := by
  have bound : (porchWorld wavingGuest).boundModels 0 = [.model "gate"] := by cbv
  have joined : (porchEngine.bindModels 0 (.model "guest") .null (porchWorld wavingGuest)).1 = .ok () := by cbv
  have alone : (porchEngine.trigger 0 (.model "gate") (.text "push") [] [] (porchWorld wavingGuest)).1 =
      .ok (.bool true) := by cbv
  have together : (porchEngine.trigger 0 (.model "gate") (.text "push") [] [] (porchJoined wavingGuest)).1 =
      .error (.fault (.unresolved (.text "on_enter_open"))) := by cbv
  exact ⟨bound, _, _, _, Prod.ext joined rfl, Prod.ext alone rfl, Prod.ext together rfl⟩

/-- A guest who has a say when the gate shuts again, and lets one look at a sign while it opens. -/
def quietGuest : Model where
  methods := ⟨[("on_exit_open", "bow")]⟩
  properties := ⟨[("on_enter_open", "sign")]⟩

theorem quietGuest_facts :
    (porchWorld quietGuest).eventOf? 0 (.text "push") = .ok (some 0) ∧
      ((porchWorld quietGuest).events.get 0).candidates.entries = [(.text "shut", [0])] ∧
      ((porchWorld quietGuest).events.get 0).machine = 0 ∧
      ((porchWorld quietGuest).transitions.get 0).source = .text "shut" ∧
      ((porchWorld quietGuest).transitions.get 0).dest = .text "open" ∧
      (porchWorld quietGuest).lookupState 0 (.text "shut") = .ok 0 ∧
      (porchWorld quietGuest).lookupState 0 (.text "open") = .ok 1 ∧
      ((porchWorld quietGuest).states.get 0).onExit = [] ∧
      ((porchWorld quietGuest).states.get 1).onEnter = [] := by
  have look : (some (porchWorld quietGuest)).map (fun w => (w.eventOf? 0 (.text "push"),
      (w.events.get 0).candidates.entries, (w.events.get 0).machine, (w.transitions.get 0).source,
      (w.transitions.get 0).dest, w.lookupState 0 (.text "shut"), w.lookupState 0 (.text "open"),
      (w.states.get 0).onExit, (w.states.get 1).onEnter)) =
      some (.ok (some 0), [(.text "shut", [0])], 0, .text "shut", .text "open", .ok 0, .ok 1, [], []) := by cbv
  simpa only [Option.map_some, Option.some.injEq, Prod.mk.injEq] using look

theorem quietGuest_joined :
    (porchEngine.bindModels 0 (.model "guest") .null (porchWorld quietGuest)).1 = .ok () ∧
      ((porchJoined quietGuest).states.get 0).onExit = [] ∧
      ((porchJoined quietGuest).states.get 1).onEnter = [] ∧
      ((porchJoined quietGuest).states.get 1).onExit = [.text "on_exit_open"] := by
  have joined : (porchEngine.bindModels 0 (.model "guest") .null (porchWorld quietGuest)).1 = .ok () := by cbv
  have look : (some (porchJoined quietGuest)).map (fun w =>
      ((w.states.get 0).onExit, (w.states.get 1).onEnter, (w.states.get 1).onExit)) =
      some ([], [], [.text "on_exit_open"]) := by cbv
  exact ⟨joined, by simpa only [Option.map_some, Option.some.injEq, Prod.mk.injEq] using look⟩

/-- A push of the gate leaves one state and enters another, for neither of which the guest has brought
anything. -/
theorem quietGuest_agrees (e : EventId)
    (he : (porchWorld quietGuest).eventOf? 0 (.text "push") = .ok (some e)) :
    (porchWorld quietGuest).Agrees (porchJoined quietGuest) e := by
  obtain ⟨event, entries, machine, source, dest, shut, opened, exits, enters⟩ := quietGuest_facts
  obtain ⟨-, exits', enters', -⟩ := quietGuest_joined
  rw [event] at he
  obtain rfl : 0 = e := by simpa using he
  rintro s stage ⟨t, ⟨c, hc, ht⟩, found⟩
  rw [entries, List.mem_singleton] at hc
  rw [hc] at ht
  obtain rfl : t = 0 := List.mem_singleton.mp ht
  rw [machine] at found
  cases stage with
  | exit =>
    simp only [source, shut] at found
    obtain rfl : 0 = s := by simpa using found
    exact exits'.trans exits.symm
  | enter =>
    simp only [dest, opened] at found
    obtain rfl : 1 = s := by simpa using found
    exact enters'.trans enters.symm

/-- Although the guest has joined the callbacks of the state that the gate enters, the gate opens as before. -/
theorem quiet_guest_lets_gate_open :
    ∃ v w' v', porchEngine.bindModels 0 (.model "guest") .null (porchWorld quietGuest) = (.ok (), v) ∧
      (v.states.get 1).onExit = [.text "on_exit_open"] ∧
      porchEngine.trigger 0 (.model "gate") (.text "push") [] [] (porchWorld quietGuest) = (.ok (.bool true), w') ∧
      porchEngine.trigger 0 (.model "gate") (.text "push") [] [] v = (.ok (.bool true), v') ∧
      v'.model "gate" = w'.model "gate" := by
  obtain ⟨joined, -, -, exits⟩ := quietGuest_joined
  have bound : porchEngine.bindModels 0 (.model "guest") .null (porchWorld quietGuest) =
      (.ok (), porchJoined quietGuest) := Prod.ext joined rfl
  have alone : (porchEngine.trigger 0 (.model "gate") (.text "push") [] [] (porchWorld quietGuest)).1 =
      .ok (.bool true) := by cbv
  obtain ⟨answer, w', v', entries, hw, hv, -, -, besides⟩ := Engine.trigger_is_undisturbed
    (porchHost_shuns _ _) bound (show "gate" ≠ "guest" by decide) 0 (.text "push") [] [] quietGuest_agrees
  have opened : answer = .ok (.bool true) := (congrArg Prod.fst hw).symm.trans alone
  rw [opened] at hw hv
  exact ⟨_, w', v', bound, exits, hw, hv, besides.models "gate" (by decide)⟩

end StateEngine
