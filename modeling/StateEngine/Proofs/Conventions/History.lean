import StateEngine.Machine.Operation
import StateEngine.Proofs.Conventions.Calls
import StateEngine.Proofs.Conventions.Methods

/-! Whatever a machine is told of its states and models, and in whichever order: a state has taken up the name of its
convention once if it was ever registered together with a model that carries the method, and not at all otherwise. -/
namespace StateEngine
open Act World

/-- An operation that tells a machine of its states, its models, or transitions. The states are named by texts, and
nobody but the machine puts the names of their conventions among their callbacks. -/
def Operation.Arranges (m : MachineId) (w : World) : Operation → Prop
  | .addStates n states options => n = m ∧ ∀ entry ∈ states.items, w.Tacit options entry
  | .setInitial n v => n = m ∧
      ((w.machine m).states.contains (w.nameOf v) = false → ∀ entry ∈ v.items, w.Tacit {} entry)
  | .bindModels n _ _ | .unbindModels n _ => n = m
  | .connect .. | .connectAll .. | .connectRow .. => True
  | _ => False

/-- The moments through which a machine without states goes by such operations, all of which succeed, and the last
one. -/
inductive Engine.Arranges (E : Engine) (m : MachineId) (w₀ : World) : List World → World → Prop where
  | begun (h : (w₀.machine m).states.entries = []) : Arranges E m w₀ [w₀] w₀
  | told {us : List World} {w v : World} {op : Operation} {reply : Reply} (before : Arranges E m w₀ us w)
      (plain : op.Arranges m w) (run : E.perform op w = (.ok reply, v)) : Arranges E m w₀ (us ++ [v]) v

namespace World

variable {I : World → Prop} {carries : Value → String → Prop} {m : MachineId} {s : StateId} {us : List World}
  {w v u : World}

/-- At the end of some moments the registered states have taken up their conventions as far as they met a model that
carries the method at one of them. -/
structure Attuned (m : MachineId) (I : World → Prop) (carries : Value → String → Prop) (us : List World) (w : World) :
    Prop where
  answers : I w
  filing : w.Filing m
  here : w ∈ us
  stay : ∀ u ∈ us, ∀ s ∈ (u.machine m).states.values, s ∈ (w.machine m).states.values
  sings : ∀ s ∈ (w.machine m).states.values, ∀ stage, w.Sings s stage (∃ u ∈ us, u.Met m carries s stage)

theorem Attuned.begun (hI : I w) (h : (w.machine m).states.entries = []) : Attuned m I carries [w] w where
  answers := hI
  filing x hx := by simp [h] at hx
  here := List.mem_singleton_self w
  stay u hu s hs := by rwa [List.mem_singleton.mp hu] at hs
  sings s hs := by simp [Table.values, h] at hs

/-- One moment more at which states and models are there that were not. -/
theorem Attuned.unites (h : Attuned m I carries us w) (step : Unites m I carries w v) :
    Attuned m I carries (us ++ [v]) v where
  answers := step.answers
  filing := step.filing
  here := List.mem_append_right _ (List.mem_singleton_self v)
  stay u hu s hs := (List.mem_append.mp hu).elim (fun hu => step.states s (h.stay u hu s hs))
    (fun hu => List.mem_singleton.mp hu ▸ hs)
  sings s hs stage := by
    by_cases there : s ∈ (w.machine m).states.values
    · have sung := step.sings s (h.filing.lt there) stage _ (fun met => ⟨w, h.here, met⟩) (h.sings s there stage)
      refine sung.congr ?_
      simp only [List.mem_append, List.mem_singleton, or_and_right, exists_or, exists_eq_left]
    · refine (step.fresh s hs there stage).congr ⟨fun met => ⟨v, by simp, met⟩, fun ⟨u, hu, met⟩ => ?_⟩
      rcases List.mem_append.mp hu with hu | hu
      · exact absurd (h.stay u hu s met.1) there
      · exact List.mem_singleton.mp hu ▸ met

/-- One moment more at which models are gone. -/
theorem Attuned.parts (h : Attuned m I carries us w) (step : Parts m I w v) : Attuned m I carries (us ++ [v]) v where
  answers := step.answers
  filing x hx := by
    rw [step.registered] at hx
    rw [step.states]
    exact h.filing x hx
  here := List.mem_append_right _ (List.mem_singleton_self v)
  stay u hu s hs := by
    rw [step.registered]
    rcases List.mem_append.mp hu with hu | hu
    · exact h.stay u hu s hs
    · rwa [List.mem_singleton.mp hu, step.registered] at hs
  sings s hs stage := by
    rw [step.registered] at hs
    have same : v.states.get s = w.states.get s := by rw [step.states]
    refine ((h.sings s hs stage).of_state same).congr ⟨fun ⟨u, hu, met⟩ => ⟨u, List.mem_append_left _ hu, met⟩,
      fun ⟨u, hu, met⟩ => ?_⟩
    rcases List.mem_append.mp hu with hu | hu
    · exact ⟨u, hu, met⟩
    · rw [List.mem_singleton.mp hu] at met
      obtain ⟨-, x, hx, hc⟩ := met
      rw [World.convention, same] at hc
      exact ⟨w, h.here, hs, x, step.models x hx, hc⟩

end World

namespace Engine

variable {E : Engine} {I : World → Prop} {carries : Value → String → Prop} {m : MachineId} {w₀ w v : World}
  {us : List World}

/-- An operation that arranges brings states and models together, or lets models go. -/
theorem perform_unites_or_parts (hE : E.Answers I carries) (hI : I w) (hf : w.Filing m) {op : Operation}
    (plain : op.Arranges m w) {reply : Reply} (h : E.perform op w = (.ok reply, v)) :
    Unites m I carries w v ∨ Parts m I w v := by
  cases op with
  | addStates n states options =>
    obtain ⟨rfl, tacit⟩ := plain
    obtain ⟨_, u, added, h⟩ := ok_of_bind_apply (x := E.addStates n states options) h
    exact .inl ((Prod.mk.inj h).2 ▸ unites_addStates hE hI hf tacit added)
  | setInitial n x =>
    obtain ⟨rfl, tacit⟩ := plain
    obtain ⟨_, u, set, h⟩ := ok_of_bind_apply (x := E.setInitial n x) h
    exact .inl ((Prod.mk.inj h).2 ▸ unites_setInitial hE hI hf tacit set)
  | bindModels n models initial =>
    obtain rfl : n = m := plain
    obtain ⟨_, u, bound, h⟩ := ok_of_bind_apply (x := E.bindModels n models initial) h
    exact .inl ((Prod.mk.inj h).2 ▸ unites_bindModels hE hI hf bound)
  | unbindModels n models =>
    obtain rfl : n = m := plain
    obtain ⟨_, u, unbound, h⟩ := ok_of_bind_apply (x := Engine.unbindModels n models) h
    exact .inr ((Prod.mk.inj h).2 ▸ parts_unbindModels hE hI unbound)
  | connect n trigger source dest hooks =>
    obtain ⟨_, u, connected, h⟩ := ok_of_bind_apply
      (x := Act.advance (fun w : World => w.connect n trigger source dest hooks)) h
    exact .inl ((Prod.mk.inj h).2 ▸ unites_connect hE hI hf (ok_of_advance connected))
  | connectAll n definitions =>
    obtain ⟨_, u, connected, h⟩ := ok_of_bind_apply (x := connectDefinitions n definitions) h
    exact .inl ((Prod.mk.inj h).2 ▸ unites_connectDefinitions hE hI hf connected)
  | connectRow n row =>
    obtain ⟨_, u, connected, h⟩ := ok_of_bind_apply (x := StateEngine.connectRow n row) h
    exact .inl ((Prod.mk.inj h).2 ▸ unites_connectRow hE hI hf connected)
  | _ => exact plain.elim

theorem Arranges.attuned (hE : E.Answers I carries) (hI : I w₀) (h : E.Arranges m w₀ us w) :
    Attuned m I carries us w := by
  induction h with
  | begun h => exact .begun hI h
  | told _ plain run ih =>
    exact (perform_unites_or_parts hE ih.answers ih.filing plain run).elim ih.unites ih.parts

/-- Every registered state has the name of its convention for a stage among its callbacks exactly once if some model
with a method by that name was bound at a moment when the state was registered, and not at all otherwise. Hence the
entries and exits of a bound model that carries the method each call it once, unless another callback of the
stage fails before. -/
theorem conventions_are_bound_once (hE : E.Answers I carries) (hI : I w₀) (h : E.Arranges m w₀ us w) {s : StateId}
    (hs : s ∈ (w.machine m).states.values) (stage : StateStage) :
    ((∃ u ∈ us, u.Met m carries s stage) → w.voices s stage = [.text (w.convention s stage)]) ∧
      ((¬ ∃ u ∈ us, u.Met m carries s stage) → w.voices s stage = []) ∧
      ∀ x ∈ w.boundModels m, carries x (w.convention s stage) →
        ∀ (v u : World) (i : FiringId) (r : Except Stop Unit), I v → v.states.get s = w.states.get s →
          (v.machine m).resolver = .standard → (v.firings.get i).model = x → E.Walks (Tactful I m i s) →
            E.runStage m s stage i v = (r, u) → r ≠ .error .exhausted → ∃ xs, E.Conducts m i v xs u ∧
              ((∃ front z back, xs = front ++ z :: back ∧ z.Invokes E x (w.convention s stage) ∧
                  ∀ y ∈ front ++ back, ¬ y.Hails (w.convention s stage)) ∨
                (∃ f, r = .error (.fault f) ∧ ∃ y ∈ xs, y.Failed f) ∧
                  ∀ y ∈ xs, ¬ y.Hails (w.convention s stage)) := by
  have attuned := h.attuned hE hI
  have sung := attuned.sings s hs stage
  refine ⟨sung.once, sung.never, fun x hx hc v u i r hv same hresolver hmodel walks run ended => ?_⟩
  have convention : v.convention s stage = w.convention s stage := by simp only [World.convention, same]
  have voices : v.voices s stage = [.text (v.convention s stage)] := by
    rw [convention, ← sung.once ⟨w, attuned.here, hs, x, hx, hc⟩, World.voices, World.voices, convention, same]
  rw [← convention] at hc ⊢
  exact runStage_invokes hE walks hv hresolver hmodel hc voices run ended

end Engine

/-- A name with no callbacks of its own is a tacit one. -/
theorem World.tacit_text (w : World) (n : String) : w.Tacit {} (.text n) := by
  rintro s v hs
  obtain ⟨rfl, rfl⟩ := Prod.mk.inj (Except.ok.inj hs)
  have state : (w.addState ⟨.text n, [], [], .null⟩).2.states.get w.states.next = ⟨.text n, [], [], .null⟩ := by
    simp [addState]
  refine ⟨⟨n, ?_⟩, fun stage => ⟨False.elim, fun _ => ?_⟩⟩
  · exact congrArg State.name state
  · have none : ((w.addState ⟨.text n, [], [], .null⟩).2.states.get w.states.next).callbacks stage = [] := by
      rw [state]
      cases stage <;> rfl
    exact List.filter_eq_nil_iff.mpr (fun c hc => by
      have := none ▸ hc
      cases this)

/-- Two singers with the same song. -/
def choirMethods (x : String) : Table String String :=
  if x = "alto" ∨ x = "bass" then ⟨[("on_enter_song", "sing")]⟩ else {}

def choirHost : Host where
  behaviour := fun _ _ _ _ => .done .null

def choirEngine : Engine := Engine.ofHost choirHost 8 1

def choirBegun : World :=
  (choirEngine.perform (.create "choir" { options := { initial := .null, autoTransitions := .bool false } })
    { models := ⟨[("alto", { methods := choirMethods "alto" }), ("bass", { methods := choirMethods "bass" })]⟩ }).2

/-- The alto is there before the song, the bass comes behind it, and then the alto leaves. -/
def choirTold : List Operation := [
  .addStates 0 (.text "rest") {}, .bindModels 0 (.model "alto") (.text "rest"), .addStates 0 (.text "song") {},
  .bindModels 0 (.model "bass") (.text "rest"), .unbindModels 0 (.model "alto")]

/-- The choir after the first so many of these. -/
def choirWorld (count : Nat) : World :=
  (choirTold.take count).foldl (fun w op => (choirEngine.perform op w).2) choirBegun

/-- A firing of the bass in the end. -/
def choirFiring : World := (choirWorld 5).opened { state := 0, event := 0, machine := 0, model := .model "bass" }

theorem choir_facts : (choirTold.zipIdx.all fun x => (choirEngine.perform x.1 (choirWorld x.2)).1.toBool) = true ∧
    (choirBegun.machine 0).states.entries = [] ∧ ((choirWorld 5).machine 0).states.values = [0, 1] ∧
      (choirWorld 5).boundModels 0 = [.model "bass"] ∧ (choirWorld 5).convention 1 .enter = "on_enter_song" ∧
        (choirEngine.runStage 0 1 .enter 0 choirFiring).1 = .ok () := by
  refine ⟨?_, ?_, ?_, ?_, ?_, ?_⟩ <;> cbv

theorem choirBegun_frank : choirBegun.Frank choirMethods := by
  have models : choirBegun.models =
      ⟨[("alto", { methods := choirMethods "alto" }), ("bass", { methods := choirMethods "bass" })]⟩ := rfl
  have accessors : choirBegun.machines.cells.toList.map (·.accessor) = [.field "state"] := rfl
  have accessor (m : MachineId) : (choirBegun.machine m).accessor = .field "state" := by
    refine Heap.forall_get (P := fun x : Machine => x.accessor = .field "state") (fun x hx => ?_) rfl m
    have listed : x.accessor ∈ choirBegun.machines.cells.toList.map (·.accessor) := List.mem_map_of_mem hx.val
    rw [accessors] at listed
    exact List.mem_singleton.mp listed
  have model (x : String) : choirBegun.model x = { methods := choirMethods x } := by
    rw [World.model, models]
    by_cases alto : x = "alto"
    · subst alto
      rfl
    · by_cases bass : x = "bass"
      · subst bass
        rfl
      · have none : choirMethods x = {} := by simp [choirMethods, alto, bass]
        simp [Table.find?, none, Ne.symm alto, Ne.symm bass]
        rfl
  refine ⟨fun x => by rw [model], fun x stage state => by rw [model]; exact ⟨rfl, rfl⟩, fun m a ha => ?_⟩
  rw [accessor] at ha
  cases ha
  exact Engine.ne_conventionName (by decide)

theorem choir_arranges : ∃ us, choirEngine.Arranges 0 choirBegun us (choirWorld 5) := by
  obtain ⟨answers, begun, -⟩ := choir_facts
  have step {n : Nat} {op : Operation} {us : List World} (hop : choirTold[n]? = some op)
      (before : choirEngine.Arranges 0 choirBegun us (choirWorld n)) (plain : op.Arranges 0 (choirWorld n)) :
      choirEngine.Arranges 0 choirBegun (us ++ [choirWorld (n + 1)]) (choirWorld (n + 1)) := by
    have next : choirWorld (n + 1) = (choirEngine.perform op (choirWorld n)).2 := by
      rw [choirWorld, List.take_add_one, hop, List.foldl_append]
      rfl
    have done := List.all_eq_true.mp answers (op, n) (List.mem_zipIdx_iff_getElem?.mpr hop)
    rcases h : choirEngine.perform op (choirWorld n) with ⟨e | reply, v⟩
    · rw [h] at done
      cases done
    · rw [h] at next
      rw [next]
      exact .told before plain h
  refine ⟨_, step rfl (step rfl (step rfl (step rfl (step rfl (.begun begun) ?_) ?_) ?_) ?_) ?_⟩
  · exact ⟨rfl, fun entry hentry => List.mem_singleton.mp hentry ▸ World.tacit_text _ _⟩
  · exact rfl
  · exact ⟨rfl, fun entry hentry => List.mem_singleton.mp hentry ▸ World.tacit_text _ _⟩
  · exact rfl
  · exact rfl

/-- Both singers know the song. The bass sings it once, though the alto has brought it in. -/
theorem bass_sings_once : choirEngine.Answers (World.Frank choirMethods) (Value.HasMethod choirMethods) ∧
    choirBegun.Frank choirMethods ∧ ∃ us, choirEngine.Arranges 0 choirBegun us (choirWorld 5) ∧
      1 ∈ ((choirWorld 5).machine 0).states.values ∧ (choirWorld 5).voices 1 .enter = [.text "on_enter_song"] ∧
        ∃ u xs, choirEngine.runStage 0 1 .enter 0 choirFiring = (.ok (), u) ∧
          choirEngine.Conducts 0 0 choirFiring xs u ∧
            ∃ front z back, xs = front ++ z :: back ∧ z.Invokes choirEngine (.model "bass") "on_enter_song" ∧
              ∀ y ∈ front ++ back, ¬ y.Hails "on_enter_song" := by
  obtain ⟨-, -, values, models, convention, sung⟩ := choir_facts
  obtain ⟨us, arranges⟩ := choir_arranges
  have answers := Engine.answers_of_frank choirEngine choirMethods
  have attuned := arranges.attuned answers choirBegun_frank
  have registered : 1 ∈ ((choirWorld 5).machine 0).states.values := by simp [values]
  have carries : Value.HasMethod choirMethods (.model "bass") ((choirWorld 5).convention 1 .enter) := by
    rw [convention]
    exact ⟨"bass", rfl, rfl⟩
  have bound : Value.model "bass" ∈ (choirWorld 5).boundModels 0 := by simp [models]
  obtain ⟨once, -, calls⟩ :=
    Engine.conventions_are_bound_once answers choirBegun_frank arranges registered .enter
  obtain ⟨u, run⟩ : ∃ u, choirEngine.runStage 0 1 .enter 0 choirFiring = (.ok (), u) :=
    ⟨_, by rw [← sung, Prod.mk.eta]⟩
  have frank : choirFiring.Frank choirMethods := attuned.answers.congr rfl (fun _ => rfl)
  have same : choirFiring.states = (choirWorld 5).states := rfl
  have resolver : (choirFiring.machine 0).resolver = .standard := by cbv
  obtain ⟨xs, conducts, invoked⟩ := calls _ bound carries choirFiring u 0 _ frank (by rw [same]) resolver (by cbv)
    (Engine.tactful_ofHost 8 0 (fun _ _ _ _ => .inl ⟨.null, rfl⟩) 0 0 1) run (by simp)
  refine ⟨answers, choirBegun_frank, us, arranges, registered, ?_, u, xs, run, conducts, ?_⟩
  · rw [once ⟨_, attuned.here, registered, _, bound, carries⟩, convention]
  · rw [convention] at invoked
    rcases invoked with invoked | ⟨⟨f, failed, -⟩, -⟩
    · exact invoked
    · cases failed

end StateEngine
