import StateEngine.Proofs.Conventions.Basic
import StateEngine.Proofs.Firing.Ringing

/-! A state that has taken up its convention calls the method of the firing's model once for every entry and every
exit, whatever the other callbacks do, unless one of them fails before. -/
namespace StateEngine
open Act World Relation

namespace World

/-- What callbacks leave: the methods of models, how names are looked up, the model of a firing, and the callbacks
of a state, behind which others may come but no second one by its convention. -/
structure Tactful (I : World → Prop) (m : MachineId) (i : FiringId) (s : StateId) (w v : World) : Prop where
  answers : I w → I v
  resolver : (v.machine m).resolver = (w.machine m).resolver
  model : (v.firings.get i).model = (w.firings.get i).model
  value : (v.states.get s).value = (w.states.get s).value
  callbacks : ∀ stage, ∃ added, (v.states.get s).callbacks stage = (w.states.get s).callbacks stage ++ added ∧
    (w.voices s stage = [] ∨ ∀ c ∈ added, (c == .text (w.convention s stage)) = false)

variable {I : World → Prop} {m : MachineId} {i : FiringId} {s : StateId} {stage : StateStage} {w v u : World}

theorem Tactful.refl (w : World) : Tactful I m i s w w :=
  ⟨id, rfl, rfl, rfl, fun _ => ⟨[], (List.append_nil _).symm, .inr (by simp)⟩⟩

theorem Tactful.convention (h : Tactful I m i s w v) (stage : StateStage) :
    v.convention s stage = w.convention s stage := by
  simp only [World.convention, Engine.conventionName, State.name, h.value]

/-- A convention that was taken up is there as often afterwards. -/
theorem Tactful.voices (h : Tactful I m i s w v) (hs : w.voices s stage ≠ []) : v.voices s stage = w.voices s stage := by
  obtain ⟨added, ha, once⟩ := h.callbacks stage
  have none : added.filter (· == .text (w.convention s stage)) = [] :=
    List.filter_eq_nil_iff.mpr (fun c hc => by simp [once.resolve_left hs c hc])
  unfold World.voices
  rw [h.convention, ha, List.filter_append, none, List.append_nil]

theorem Tactful.trans (h : Tactful I m i s w v) (h' : Tactful I m i s v u) : Tactful I m i s w u := by
  refine ⟨h'.answers ∘ h.answers, h'.resolver.trans h.resolver, h'.model.trans h.model, h'.value.trans h.value,
    fun stage => ?_⟩
  obtain ⟨added, ha, once⟩ := h.callbacks stage
  obtain ⟨added', ha', once'⟩ := h'.callbacks stage
  refine ⟨added ++ added', by rw [ha', ha, List.append_assoc], ?_⟩
  by_cases hs : w.voices s stage = []
  · exact .inl hs
  · refine .inr (fun c hc => (List.mem_append.mp hc).elim (once.resolve_left hs c) (fun hc => ?_))
    have there : v.voices s stage ≠ [] := by rwa [h.voices hs]
    rw [← h.convention]
    exact once'.resolve_left there c hc

theorem Tactful.of_steps (h : ReflTransGen (Tactful I m i s) w v) : Tactful I m i s w v := by
  induction h with
  | refl => exact .refl w
  | tail _ last ih => exact ih.trans last

end World

/-- A moment at which a callback is run that goes by a name. -/
def Moment.Hails (z : Moment) (name : String) : Prop := ∃ c, z.cue = .run c ∧ (c == .text name) = true

/-- A moment at which a callback by the name of a model's method is run, and that is to call the method. -/
structure Moment.Invokes (z : Moment) (E : Engine) (x : Value) (name : String) : Prop where
  cue : z.cue = .run (.text name)
  call : ∃ owner method callback u call,
    E.readAttribute? x name z.before = (.ok (some (.method owner method callback)), u) ∧
      E.call (owner ++ "." ++ method) callback call u = (z.outcome.mapError .fault, z.after)

/-- Callbacks of which none has failed have all been run. -/
theorem Follows.all_run {cs : List Callback} {xs : List Moment} {b : Bool}
    (h : Follows (cs.map .run) xs (.ok b)) : xs.map Moment.cue = cs.map .run := by
  induction cs generalizing xs with
  | nil =>
    cases h
    rfl
  | cons c cs ih =>
    cases h with
    | passed hc _ _ h => rw [List.map_cons, List.map_cons, hc, ih h]
    | halted _ _ _ hp => cases hp

namespace Engine

variable {E : Engine} {m : MachineId} {i : FiringId} {w v u : World}

/-- Callbacks of a list that grows behind are run one after the other, up to the first that fails. -/
theorem runGrowing_conducts {R : World → World → Prop} (hE : E.Walks R) {read : World → List Callback}
    (grows : ∀ {w v}, ReflTransGen R w v → read w <+: read v) {fuel position : Nat} {r : Except Stop Unit}
    (h : E.runGrowing m read i fuel position w = (r, v)) (hr : r ≠ .error .exhausted) :
    ∃ xs verdict, E.Conducts m i w xs v ∧ Follows (((read v).drop position).map .run) xs verdict ∧
      r = (verdict.map fun _ => ()).mapError .fault ∧ ReflTransGen R w v ∧
      ∀ z ∈ xs, ReflTransGen R w z.before := by
  induction fuel generalizing w position with
  | zero => exact absurd (Prod.mk.inj h).1.symm hr
  | succ fuel ih =>
    rw [runGrowing, bind_of_ok (get_apply w)] at h
    cases hc : (read w)[position]? with
    | none =>
      simp only [hc] at h
      obtain ⟨rfl, rfl⟩ := Prod.mk.inj h
      rw [List.drop_of_length_le (List.getElem?_eq_none_iff.mp hc)]
      exact ⟨[], .ok true, .done w, .done, rfl, .refl, by simp⟩
    | some c =>
      simp only [hc] at h
      have one : E.runCallback m c i = E.runCallbacks m [c] i := (bind_pure (E.runCallback m c i)).symm
      rcases hw : E.runCallback m c i w with ⟨e, t⟩
      by_cases he : e = .error .exhausted
      · subst he
        rw [bind_of_error hw] at h
        exact absurd (Prod.mk.inj h).1.symm hr
      have walked : ReflTransGen R w t := (hE.runCallback m c i).steps hw
      obtain ⟨zs, verdict, conducts, follows, hverdict, steps⟩ := runCallbacks_conducts hE (one ▸ hw) he
      have next (hv : ReflTransGen R w v) :
          ((read v).drop position).map Cue.run = [.run c] ++ ((read v).drop (position + 1)).map .run := by
        obtain ⟨more, hmore⟩ := grows hv
        obtain ⟨hlt, rfl⟩ := List.getElem?_eq_some_iff.mp hc
        have hlt' : position < (read v).length := by
          rw [← hmore, List.length_append]
          omega
        rw [List.drop_eq_getElem_cons hlt', List.map_cons]
        simp only [← hmore, List.getElem_append_left hlt, List.singleton_append]
      cases follows with
      | @failed _ z f _ hcue ho =>
        rw [hverdict] at hw
        rw [bind_of_error hw] at h
        obtain ⟨rfl, rfl⟩ := Prod.mk.inj h
        exact ⟨[z], .error f, conducts, by rw [next walked]; exact .failed _ hcue ho, rfl, walked, fun z hz => (steps z hz).1⟩
      | halted _ _ _ hp => cases hp
      | passed hcue ho hp rest =>
        cases rest
        rw [hverdict] at hw
        rw [bind_of_ok hw] at h
        obtain ⟨ys, verdict', conducts', follows', hverdict', walked', steps'⟩ := ih h
        refine ⟨_, verdict', conducts.trans conducts', ?_, hverdict', walked.trans walked', fun z hz => ?_⟩
        · rw [next (walked.trans walked')]
          exact Follows.append (.passed hcue ho hp .done) follows'
        · exact (List.mem_append.mp hz).elim (fun hz => (steps z hz).1) (fun hz => walked.trans (steps' z hz))

/-- A name that a model answers with a method is run by calling this. -/
theorem consult_method (hresolver : (w.machine m).resolver = .standard) {name owner method callback : String}
    (h : E.readAttribute? (w.firings.get i).model name w = (.ok (some (.method owner method callback)), u)) :
    ∃ call, E.consult m (.text name) i w = E.call (owner ++ "." ++ method) callback call u := by
  have found : E.resolve m (.text name) i w = (.ok (.host (owner ++ "." ++ method) callback), u) := by
    simp only [resolve, Value.text?, resolveName]
    rw [bind_of_ok (get_apply w), hresolver]
    simp only []
    rw [bind_of_ok (get_apply w), bind_of_ok h]
    rfl
  unfold consult
  rw [bind_of_ok found]
  unfold callFor
  rw [bind_assoc, bind_of_ok (get_apply u)]
  split
  · exact ⟨_, rfl⟩
  · exact ⟨_, rfl⟩

/-- A fault that comes of asking for the name is that of running it. -/
theorem consult_error (hresolver : (w.machine m).resolver = .standard) {name : String} {e : Stop}
    (h : E.readAttribute? (w.firings.get i).model name w = (.error e, u)) :
    E.consult m (.text name) i w = (.error e, u) := by
  have failed : E.resolve m (.text name) i w = (.error e, u) := by
    simp only [resolve, Value.text?, resolveName]
    rw [bind_of_ok (get_apply w), hresolver]
    simp only []
    rw [bind_of_ok (get_apply w), bind_of_error h]
  unfold consult
  rw [bind_of_error failed]

/-- The callbacks of a stage are run one after the other, those added meanwhile included. -/
theorem runStage_conducts {I : World → Prop} {s : StateId} (hE : E.Walks (Tactful I m i s)) {stage : StateStage}
    {r : Except Stop Unit} (h : E.runStage m s stage i w = (r, v)) (hr : r ≠ .error .exhausted) :
    ∃ xs verdict, E.Conducts m i w xs v ∧ Follows (((v.states.get s).callbacks stage).map .run) xs verdict ∧
      r = (verdict.map fun _ => ()).mapError .fault ∧ Tactful I m i s w v ∧
      ∀ z ∈ xs, Tactful I m i s w z.before := by
  unfold runStage at h
  rw [bind_of_ok (get_apply w), remark, bind_of_ok (change_apply _ w)] at h
  obtain ⟨w', begun, recorded, h⟩ : ∃ w', Quiet i w w' ∧ ReflTransGen (Tactful I m i s) w w' ∧
      (E.runGrowing m (fun w => (w.states.get s).callbacks stage) i E.bound 0 >>= fun _ =>
        remark m .info .state ("Finished processing state " ++ (w.states.get s).name.display ++ " " ++ stage.word ++
          " callbacks.")) w' = (r, v) := ⟨_, quiet_record _ _ _, hE.record _ _, h⟩
  have grows {w v : World} (hv : ReflTransGen (Tactful I m i s) w v) :
      (w.states.get s).callbacks stage <+: (v.states.get s).callbacks stage := by
    obtain ⟨added, ha, -⟩ := (Tactful.of_steps hv).callbacks stage
    exact ⟨added, ha.symm⟩
  rcases hg : E.runGrowing m (fun w => (w.states.get s).callbacks stage) i E.bound 0 w' with ⟨e, u⟩
  by_cases he : e = .error .exhausted
  · subst he
    rw [bind_of_error hg] at h
    exact absurd (Prod.mk.inj h).1.symm hr
  obtain ⟨xs, verdict, conducts, follows, rfl, walked, steps⟩ := runGrowing_conducts hE grows hg he
  rw [List.drop_zero] at follows
  have tactful (z : Moment) (hz : z ∈ xs) : Tactful I m i s w z.before := .of_steps (recorded.trans (steps z hz))
  cases verdict with
  | error f =>
    rw [bind_of_error (e := .fault f) hg] at h
    obtain ⟨rfl, rfl⟩ := Prod.mk.inj h
    exact ⟨xs, .error f, .quiet begun conducts, follows, rfl, .of_steps (recorded.trans walked), tactful⟩
  | ok b =>
    rw [bind_of_ok (a := ()) hg, remark, change_apply] at h
    obtain ⟨message, hv⟩ : ∃ message, v = u.record (.remarked .info .state message) := ⟨_, (Prod.mk.inj h).2.symm⟩
    obtain ⟨ended, -⟩ := Prod.mk.inj h
    subst ended hv
    have whole := (Conducts.quiet begun conducts).trans (.single_quiet (quiet_record .info .state message))
    rw [List.append_nil] at whole
    exact ⟨xs, .ok b, whole, follows, rfl, .of_steps ((recorded.trans walked).trans (hE.record _ _)), tactful⟩

/-- What was conducted was taken up. -/
theorem Conducts.taken {xs : List Moment} (h : E.Conducts m i w xs v) :
    ∀ z ∈ xs, E.takeUp m i z.cue z.before = (z.outcome.mapError .fault, z.after) := by
  induction h with
  | done => simp
  | quiet _ _ ih => exact ih
  | moment taken _ ih => exact List.forall_mem_cons.mpr ⟨taken, ih⟩

/-- A callback that is there once is run at one moment, unless another one has failed before. -/
theorem once_of_follows {cs : List Callback} {name : String} (once : cs.filter (· == .text name) = [.text name])
    {xs : List Moment} {verdict : Except Fault Bool} (h : Follows (cs.map .run) xs verdict) :
    (∃ front z back, xs = front ++ z :: back ∧ z.cue = .run (.text name) ∧ ∀ y ∈ front ++ back, ¬ y.Hails name) ∨
      (∃ f, verdict = .error f ∧ ∃ y ∈ xs, y.Failed f) ∧ ∀ y ∈ xs, ¬ y.Hails name := by
  obtain ⟨rest, hrest⟩ := h.cues_prefix
  by_cases hails : ∃ z ∈ xs, z.Hails name
  · obtain ⟨z, hz, c, hcue, hc⟩ := hails
    obtain ⟨front, back, rfl⟩ := List.append_of_mem hz
    rw [List.map_append, List.map_cons, List.append_assoc] at hrest
    obtain ⟨before, behind, rfl, hbefore, hbehind⟩ := List.map_eq_append_iff.mp hrest.symm
    obtain ⟨c', after, rfl, hc', hafter⟩ := List.map_eq_cons_iff.mp hbehind
    obtain rfl : c' = c := Cue.run.inj (hc'.trans hcue)
    rw [List.filter_append, List.filter_cons, if_pos hc] at once
    -- the callback's own place in the list is the only one
    obtain ⟨nothing, here⟩ : before.filter (· == .text name) = [] ∧
        c' :: after.filter (· == .text name) = [.text name] := by
      cases hb : before.filter (· == .text name) with
      | nil => exact ⟨rfl, by rwa [hb] at once⟩
      | cons b bs =>
        rw [hb] at once
        simp at once
    obtain ⟨rfl, nothing'⟩ := List.cons.inj here
    refine .inl ⟨front, z, back, rfl, hcue, fun y hy => ?_⟩
    rintro ⟨c, hcue', hc⟩
    rcases List.mem_append.mp hy with hy | hy
    · have there : y.cue ∈ before.map Cue.run := hbefore ▸ List.mem_map_of_mem hy
      obtain ⟨d, hd, hd'⟩ := List.mem_map.mp there
      obtain rfl := Cue.run.inj (hd'.trans hcue')
      exact List.filter_eq_nil_iff.mp nothing d hd hc
    · have there : y.cue ∈ after.map Cue.run := by
        rw [hafter]
        exact List.mem_append_left _ (List.mem_map_of_mem hy)
      obtain ⟨d, hd, hd'⟩ := List.mem_map.mp there
      obtain rfl := Cue.run.inj (hd'.trans hcue')
      exact List.filter_eq_nil_iff.mp nothing' d hd hc
  · have silent : ∀ y ∈ xs, ¬ y.Hails name := fun y hy hn => hails ⟨y, hy, hn⟩
    rcases h.rung with ⟨⟨b, rfl⟩, -⟩ | failed
    · have there : Value.text name ∈ cs := List.mem_of_mem_filter (once ▸ List.mem_singleton_self _)
      obtain ⟨y, hy, hcue⟩ := List.mem_map.mp (h.all_run ▸ List.mem_map_of_mem (f := Cue.run) there)
      exact absurd ⟨_, hcue, ReflBEq.rfl⟩ (silent y hy)
    · exact .inr ⟨failed, silent⟩

/-- Once a state has taken up the name of a method that the model of a firing carries, every entry and every exit
calls that method once, unless another callback fails before. -/
theorem runStage_invokes {I : World → Prop} {carries : Value → String → Prop} {s : StateId} (hA : E.Answers I carries)
    (hE : E.Walks (Tactful I m i s)) {stage : StateStage} {x : Value} (hI : I w)
    (hresolver : (w.machine m).resolver = .standard) (hx : (w.firings.get i).model = x)
    (hc : carries x (w.convention s stage)) (hs : w.voices s stage = [.text (w.convention s stage)])
    {r : Except Stop Unit} (h : E.runStage m s stage i w = (r, v)) (hr : r ≠ .error .exhausted) :
    ∃ xs, E.Conducts m i w xs v ∧
      ((∃ front z back, xs = front ++ z :: back ∧ z.Invokes E x (w.convention s stage) ∧
          ∀ y ∈ front ++ back, ¬ y.Hails (w.convention s stage)) ∨
        (∃ f, r = .error (.fault f) ∧ ∃ y ∈ xs, y.Failed f) ∧ ∀ y ∈ xs, ¬ y.Hails (w.convention s stage)) := by
  obtain ⟨xs, verdict, conducts, follows, rfl, tactful, steps⟩ := runStage_conducts hE h hr
  have once : v.voices s stage = w.voices s stage := tactful.voices (by rw [hs]; simp)
  rw [hs, World.voices, tactful.convention] at once
  refine ⟨xs, conducts, (once_of_follows once follows).imp ?_ ?_⟩
  · rintro ⟨front, z, back, rfl, hcue, alone⟩
    refine ⟨front, z, back, rfl, ⟨hcue, ?_⟩, alone⟩
    have hz : z ∈ front ++ z :: back := List.mem_append_right _ List.mem_cons_self
    have taken := conducts.taken z hz
    have before := steps z hz
    have resolver := before.resolver.trans hresolver
    have here := before.model.trans hx
    rw [hcue, takeUp] at taken
    rw [← before.convention] at hc taken ⊢
    obtain ⟨e, u, ha⟩ : ∃ e u, E.readAttribute? x (z.before.convention s stage) z.before = (e, u) := ⟨_, _, rfl⟩
    rcases e with (f | _) | found
    · exact absurd hc (hA.present (before.answers hI) ha)
    · rw [consult_error resolver (by rw [here]; exact ha)] at taken
      cases ho : z.outcome <;> rw [ho] at taken <;> cases taken
    · obtain ⟨owner, method, callback, rfl⟩ := (hA.read (before.answers hI) ha).2.2.mpr hc
      obtain ⟨call, hcall⟩ := E.consult_method (i := i) resolver (by rw [here]; exact ha)
      rw [hcall] at taken
      exact ⟨owner, method, callback, u, call, ha, taken⟩
  · rintro ⟨⟨f, rfl, failed⟩, silent⟩
    exact ⟨⟨f, rfl, failed⟩, silent⟩

end Engine

end StateEngine
