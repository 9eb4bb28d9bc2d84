import StateEngine.Proofs.Conventions.Stage
import StateEngine.Proofs.Firing.Order

/-! Models that have nothing but methods by the names of conventions: whoever asks them for these finds out what
their methods are, and changes nothing by that. -/
namespace StateEngine
open Act World

/-- Models have certain methods, and neither attributes nor properties hide those that go by a convention. The states
of models are not kept under the name of a convention either. -/
structure World.Frank (methods : String → Table String String) (w : World) : Prop where
  methods : ∀ x, (w.model x).methods = methods x
  unhidden : ∀ x stage state, (w.model x).properties.find? (Engine.conventionName stage state) = none ∧
    (w.model x).attributes.find? (Engine.conventionName stage state) = none
  accessor : ∀ m a, (w.machine m).accessor = .field a → ∀ stage state, a ≠ Engine.conventionName stage state

/-- A model has a method by a name. -/
def Value.HasMethod (methods : String → Table String String) (x : Value) (name : String) : Prop :=
  ∃ y, x = .model y ∧ (methods y).contains name = true

/-- A name that does not begin as those of conventions do is none of them. -/
theorem Engine.ne_conventionName {a : String} (h : a.toList.head? ≠ some 'o') (stage : StateStage) (state : State) :
    a ≠ conventionName stage state := by
  rintro rfl
  refine h ?_
  simp only [conventionName, String.toList_append]
  rfl

namespace World

variable {methods : String → Table String String} {w v : World}

theorem Frank.congr (h : w.Frank methods) (models : v.models = w.models)
    (accessor : ∀ m, (v.machine m).accessor = (w.machine m).accessor) : v.Frank methods := by
  have model (x : String) : v.model x = w.model x := by rw [World.model, models, World.model]
  refine ⟨fun x => ?_, fun x => ?_, fun m => ?_⟩
  · rw [model]
    exact h.methods x
  · rw [model]
    exact h.unhidden x
  · rw [accessor]
    exact h.accessor m

/-- The state of a model is not written under the name of a convention. -/
theorem Frank.writeState (h : w.Frank methods) {m : MachineId} {x a : Value}
    (hw : Engine.writeState m x a w = (.ok (), v)) : v.Frank methods := by
  unfold Engine.writeState at hw
  rw [bind_of_ok (get_apply w)] at hw
  cases ha : (w.machine m).accessor with
  | ledger name id =>
    simp only [ha] at hw
    rw [← (Prod.mk.inj hw).2]
    exact h.congr rfl (fun _ => rfl)
  | field name =>
    simp only [ha] at hw
    have written := ok_of_advance hw
    cases x with
    | model y =>
      unfold writeAttribute at written
      simp only [] at written
      split at written
      · cases written
      · have hv := (Except.ok.inj written).symm
        have model (z : String) : v.model z =
            if z = y then { w.model y with attributes := (w.model y).attributes.insert name a } else w.model z := by
          rw [hv, World.model, updateModel, Table.find?_insert]
          by_cases hz : z = y
          · subst hz
            simp
          · have ne : (y == z) = false := beq_eq_false_iff_ne.mpr (Ne.symm hz)
            simp [ne, hz, World.model]
        refine ⟨fun z => ?_, fun z stage state => ?_, fun n b hb => ?_⟩
        · rw [model]
          split
          · rename_i hz
            rw [hz]
            exact h.methods y
          · exact h.methods z
        · rw [model]
          split
          · have ne : (name == Engine.conventionName stage state) = false :=
              beq_eq_false_iff_ne.mpr (h.accessor m name ha stage state)
            refine ⟨(h.unhidden y stage state).1, ?_⟩
            rw [Table.find?_insert, ne]
            exact (h.unhidden y stage state).2
          · exact h.unhidden z stage state
        · rw [hv] at hb
          exact h.accessor n b hb
    | _ => cases written

end World

namespace Engine

variable {methods : String → Table String String} {w : World}

/-- A frank model answers a name of a convention with the method of this name, if there is one. -/
theorem readAttribute?_of_frank (E : Engine) (h : w.Frank methods) (x : Value) (stage : StateStage) (state : State) :
    ∃ r, E.readAttribute? x (conventionName stage state) w = (.ok r, w) ∧
      ((∃ owner name callback, r = some (.method owner name callback)) ↔
        x.HasMethod methods (conventionName stage state)) := by
  generalize hname : conventionName stage state = name
  cases x with
  | model y =>
    obtain ⟨noProperty, noAttribute⟩ := h.unhidden y stage state
    rw [hname] at noProperty noAttribute
    have read : E.readAttribute (.model y) name w = ((methods y).find? name).elim
        (.error (.fault .missingAttribute), w) (fun callback => (.ok (.method y name callback), w)) := by
      unfold readAttribute
      simp only []
      rw [bind_of_ok (get_apply w)]
      simp only [noProperty, noAttribute, h.methods]
      cases (methods y).find? name <;> rfl
    have answer : E.readAttribute? (.model y) name w =
        (.ok (((methods y).find? name).map (.method y name)), w) := by
      unfold readAttribute?
      rw [bind_apply, Act.attempt, read]
      cases (methods y).find? name <;> rfl
    refine ⟨_, answer, ?_⟩
    cases hm : (methods y).find? name <;> simp [Value.HasMethod, Table.contains, hm]
  | _ => exact ⟨none, rfl, by simp [Value.HasMethod]⟩

/-- Frank models answer in all engines. -/
theorem answers_of_frank (E : Engine) (methods : String → Table String String) :
    E.Answers (World.Frank methods) (Value.HasMethod methods) where
  read h hr := by
    obtain ⟨r, found, method⟩ := readAttribute?_of_frank E h _ _ _
    obtain ⟨e, rfl⟩ := Prod.mk.inj (found.symm.trans hr)
    cases e
    exact ⟨h, ⟨rfl, rfl, Nat.le_refl _, fun _ _ => rfl⟩, method⟩
  present h hr := by
    obtain ⟨r, found, -⟩ := readAttribute?_of_frank E h _ _ _
    cases found.symm.trans hr
  arranged h ha := h.congr ha.models ha.accessors
  placed h hw := h.writeState hw

/-- Callbacks that do nothing but give a value or fail are tactful. -/
theorem tactful_ofHost {host : Host} (bound depth : Nat)
    (h : ∀ callback call w count, (∃ v, host.behaviour callback call w count = .done v) ∨
      ∃ f, host.behaviour callback call w count = .fail f) (m : MachineId) (i : FiringId) (s : StateId) :
    (ofHost host bound (depth + 1)).Walks (Tactful (World.Frank methods) m i s) where
  call label callback call w := by
    obtain ⟨r, hr⟩ := call_ofHost bound depth h label callback call w
    unfold WalksFrom
    rw [hr]
    exact .single ⟨fun hw => hw.congr rfl (fun _ => rfl), rfl, rfl, rfl,
      fun _ => ⟨[], (List.append_nil _).symm, .inr (by simp)⟩⟩
  record w entry := .single ⟨fun hw => hw.congr rfl (fun _ => rfl), rfl, rfl, rfl,
    fun _ => ⟨[], (List.append_nil _).symm, .inr (by simp)⟩⟩

end Engine

end StateEngine
