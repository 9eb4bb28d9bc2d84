import Mathlib.Tactic.ByContra
import Mathlib.Tactic.Tauto
import StateEngine.Proofs.Registry.Filing

/-! How a state takes up the method of a model that goes by its convention: at most once, whoever else has taken
it up before. -/
namespace StateEngine
open Act World

namespace World

/-- The name by which a state takes up a model's method for a stage. -/
def convention (w : World) (s : StateId) (stage : StateStage) : String :=
  Engine.conventionName stage (w.states.get s)

/-- The entries among the callbacks of a state that are the name of its convention. -/
def voices (w : World) (s : StateId) (stage : StateStage) : List Callback :=
  ((w.states.get s).callbacks stage).filter (· == .text (w.convention s stage))

/-- A state has taken up its convention, once, or has not. -/
structure Sings (w : World) (s : StateId) (stage : StateStage) (p : Prop) : Prop where
  once : p → w.voices s stage = [.text (w.convention s stage)]
  never : ¬ p → w.voices s stage = []

/-- Reading attributes leaves machines and rosters alone and every state that is there. -/
structure Beside (w v : World) : Prop where
  machines : v.machines = w.machines
  rosters : v.rosters = w.rosters
  made : w.states.next ≤ v.states.next
  states : ∀ s < w.states.next, v.states.get s = w.states.get s

/-- Nothing between two worlds but what machines have registered, who is bound to them, and the history. -/
structure Arranged (w v : World) : Prop where
  models : v.models = w.models
  ledgers : v.ledgers = w.ledgers
  firings : v.firings = w.firings
  invocations : v.invocations = w.invocations
  names : v.names = w.names
  requests : v.requests = w.requests
  accessors : ∀ m, (v.machine m).accessor = (w.machine m).accessor

theorem Sings.congr {w : World} {s : StateId} {stage : StateStage} {p q : Prop} (h : w.Sings s stage p)
    (hpq : p ↔ q) : w.Sings s stage q := ⟨fun hq => h.once (hpq.mpr hq), fun hq => h.never (fun hp => hq (hpq.mp hp))⟩

theorem Sings.of_state {w v : World} {s s' : StateId} {stage : StateStage} {p : Prop} (h : w.Sings s stage p)
    (hs : v.states.get s' = w.states.get s) : v.Sings s' stage p := by
  have convention : v.convention s' stage = w.convention s stage := by simp only [World.convention, hs]
  have voices : v.voices s' stage = w.voices s stage := by simp only [World.voices, convention, hs]
  exact ⟨fun hp => by rw [voices, convention, h.once hp], fun hp => by rw [voices, h.never hp]⟩

end World

/-- What models answer in all worlds of a kind when they are asked for a method that goes by a convention:
reading leaves the registries alone, and gives a method if and only if the model carries it. What is
registered meanwhile makes no difference, and neither do the states in which models are placed. -/
structure Engine.Answers (E : Engine) (I : World → Prop) (carries : Value → String → Prop) : Prop where
  read : ∀ {w v x stage state r}, I w → E.readAttribute? x (conventionName stage state) w = (.ok r, v) →
    I v ∧ Beside w v ∧
      ((∃ owner name callback, r = some (.method owner name callback)) ↔ carries x (conventionName stage state))
  present : ∀ {w v x stage state f}, I w →
    E.readAttribute? x (conventionName stage state) w = (.error (.fault f), v) →
      ¬ carries x (conventionName stage state)
  arranged : ∀ {w v}, I w → Arranged w v → I v
  placed : ∀ {w v m x a}, I w → writeState m x a w = (.ok (), v) → I v

namespace World

variable {I : World → Prop} {A B : StateId → StateStage → Prop} {w v u : World}

/-- Between two worlds some states have been called upon to take up their conventions for some stages, and have
done so unless they had before. Nothing else has happened to what is registered. -/
structure Learns (I : World → Prop) (A : StateId → StateStage → Prop) (w v : World) : Prop where
  answers : I v
  machines : v.machines = w.machines
  rosters : v.rosters = w.rosters
  made : w.states.next ≤ v.states.next
  values : ∀ s < w.states.next, (v.states.get s).value = (w.states.get s).value
  sings : ∀ s < w.states.next, ∀ stage p, w.Sings s stage p → v.Sings s stage (p ∨ A s stage)

theorem Learns.machine (h : Learns I A w v) (m : MachineId) : v.machine m = w.machine m := by
  rw [World.machine, h.machines]
  rfl

theorem Learns.convention (h : Learns I A w v) {s : StateId} (hs : s < w.states.next) (stage : StateStage) :
    v.convention s stage = w.convention s stage := by
  simp only [World.convention, Engine.conventionName, State.name, h.values s hs]

theorem Learns.congr (h : Learns I A w v) (hAB : ∀ s < w.states.next, ∀ stage, A s stage ↔ B s stage) :
    Learns I B w v where
  answers := h.answers
  machines := h.machines
  rosters := h.rosters
  made := h.made
  values := h.values
  sings s hs stage p hp := (h.sings s hs stage p hp).congr (or_congr_right (hAB s hs stage))

theorem Learns.of_beside (hI : I v) (h : Beside w v) : Learns I (fun _ _ => False) w v where
  answers := hI
  machines := h.machines
  rosters := h.rosters
  made := h.made
  values s hs := by rw [h.states s hs]
  sings s hs _ _ hp := (hp.of_state (h.states s hs)).congr (by simp)

theorem Learns.refl (hI : I w) : Learns I (fun _ _ => False) w w :=
  .of_beside hI ⟨rfl, rfl, Nat.le_refl _, fun _ _ => rfl⟩

theorem Learns.trans (h : Learns I A w v) (h' : Learns I B v u) :
    Learns I (fun s stage => A s stage ∨ B s stage) w u where
  answers := h'.answers
  machines := h'.machines.trans h.machines
  rosters := h'.rosters.trans h.rosters
  made := Nat.le_trans h.made h'.made
  values s hs := (h'.values s (Nat.lt_of_lt_of_le hs h.made)).trans (h.values s hs)
  sings s hs stage p hp :=
    (h'.sings s (Nat.lt_of_lt_of_le hs h.made) stage _ (h.sings s hs stage p hp)).congr or_assoc

end World

namespace Engine

variable {E : Engine} {I : World → Prop} {carries : Value → String → Prop} {m : MachineId} {s : StateId}
  {x : Value} {w v : World}

theorem value_addCallback (x : State) (c : Callback) (stage : StateStage) :
    (x.addCallback c stage).value = x.value := by cases stage <;> rfl

theorem callbacks_addCallback (x : State) (c : Callback) (stage stage' : StateStage) :
    (x.addCallback c stage).callbacks stage' = x.callbacks stage' ++ if stage = stage' then [c] else [] := by
  cases stage <;> cases stage' <;> simp [State.addCallback, State.callbacks]

/-- A name that is added to callbacks without it is there once. -/
theorem sings_addCallback {w : World} {s s' : StateId} {stage stage' : StateStage} {p : Prop}
    (missing : w.voices s stage = []) (hp : w.Sings s' stage' p) :
    (w.updateState s (·.addCallback (.text (w.convention s stage)) stage)).Sings s' stage'
      (p ∨ s' = s ∧ stage' = stage) := by
  by_cases hs : s' = s
  · subst hs
    let u := w.updateState s' (·.addCallback (.text (w.convention s' stage)) stage)
    have state : u.states.get s' = (w.states.get s').addCallback (.text (w.convention s' stage)) stage := by
      simp [u, updateState]
    have convention : u.convention s' stage' = w.convention s' stage' := by
      simp only [World.convention, conventionName, State.name, state, value_addCallback]
    by_cases hstage : stage = stage'
    · subst hstage
      have voices : u.voices s' stage = [.text (w.convention s' stage)] := by
        unfold World.voices at missing ⊢
        rw [convention, state, callbacks_addCallback, List.filter_append, missing]
        simp
      exact ⟨fun _ => by rw [convention, ← voices], fun h => absurd (.inr ⟨rfl, rfl⟩) h⟩
    · have voices : u.voices s' stage' = w.voices s' stage' := by
        unfold World.voices
        rw [convention, state, callbacks_addCallback, if_neg hstage, List.append_nil]
      refine Sings.congr (p := p) ⟨fun h => ?_, fun h => ?_⟩ ⟨.inl, fun h => h.resolve_right (fun h => hstage h.2.symm)⟩
      · rw [voices, convention, hp.once h]
      · rw [voices, hp.never h]
  · have state : (w.updateState s (·.addCallback (.text (w.convention s stage)) stage)).states.get s' =
        w.states.get s' := by
      simp [updateState, Ne.symm hs]
    exact (hp.of_state state).congr (by simp [hs])

/-- A state takes up the method of one model for one stage if the model carries it. -/
theorem learns_bindConvention (hE : E.Answers I carries) (hI : I w) (hs : s < w.states.next) {stage : StateStage}
    {r : Unit} (h : E.bindConvention m s x stage w = (.ok r, v)) :
    Learns I (fun s' stage' => s' = s ∧ stage' = stage ∧ carries x (w.convention s stage)) w v := by
  unfold bindConvention at h
  rw [bind_of_ok (get_apply w)] at h
  obtain ⟨found, u, read, h⟩ := ok_of_bind_apply h
  obtain ⟨hu, beside, method⟩ := hE.read hI read
  have same : u.convention s stage = w.convention s stage := by
    simp only [convention, beside.states s hs]
  split at h
  · have carried : carries x (w.convention s stage) := method.mp ⟨_, _, _, rfl⟩
    have present : (Value.text (w.convention s stage)).isIn ((u.states.get s).callbacks stage) = true ↔
        u.voices s stage ≠ [] := by
      rw [voices, same, Value.isIn, Ne, List.filter_eq_nil_iff]
      simp
    rw [bind_of_ok (get_apply u)] at h
    split at h
    · rename_i absent
      have missing : u.voices s stage = [] := by
        by_contra there
        exact Bool.false_ne_true (((Bool.not_eq_true' _).mp absent).symm.trans (present.mpr there))
      obtain ⟨entry, hv⟩ : ∃ entry,
          v = (u.updateState s (·.addCallback (.text (u.convention s stage)) stage)).record entry := by
        rw [bind_of_ok (change_apply _ u), remark, change_apply] at h
        rw [same]
        exact ⟨_, (Prod.mk.inj h).2.symm⟩
      have state (s' : StateId) : v.states.get s' =
          (u.updateState s (·.addCallback (.text (u.convention s stage)) stage)).states.get s' := by rw [hv]; rfl
      have arranged : Arranged u v := by
        rw [hv]
        exact ⟨rfl, rfl, rfl, rfl, rfl, rfl, fun _ => rfl⟩
      refine ⟨hE.arranged hu arranged, by rw [hv]; exact beside.machines, by rw [hv]; exact beside.rosters,
        ?_, fun s' hs' => ?_, fun s' hs' stage' p hp => ?_⟩
      · rw [hv]
        exact Nat.le_trans beside.made (Heap.next_le_next_modify _ _ _)
      · rw [state, updateState, Heap.get_modify]
        split
        · rw [value_addCallback, beside.states s' hs']
        · rw [beside.states s' hs']
      · have sung := sings_addCallback missing (hp.of_state (beside.states s' hs'))
        exact (sung.of_state (state s')).congr (by simp [carried])
    · rename_i there
      obtain ⟨-, rfl⟩ := Prod.mk.inj h
      have there : u.voices s stage ≠ [] :=
        present.mp (by_contra fun hn => there ((Bool.not_eq_true' _).mpr (Bool.eq_false_iff.mpr hn)))
      have learned := Learns.of_beside hu beside
      refine ⟨hu, learned.machines, learned.rosters, learned.made, learned.values, fun s' hs' stage' p hp => ?_⟩
      have sung := hp.of_state (beside.states s' hs')
      refine sung.congr ⟨.inl, ?_⟩
      rintro (hp | ⟨rfl, rfl, -⟩)
      · exact hp
      · by_contra hp
        exact there (sung.never hp)
  · rename_i _ other
    obtain ⟨-, rfl⟩ := Prod.mk.inj h
    have carried : ¬ carries x (w.convention s stage) := fun hc => by
      obtain ⟨owner, name, callback, rfl⟩ := method.mpr hc
      exact other _ _ _ rfl
    exact (Learns.of_beside hu beside).congr (fun _ _ _ => by simp [carried])

theorem learns_bindConventions (hE : E.Answers I carries) (hI : I w) (hs : s < w.states.next) {r : PUnit}
    (h : E.bindConventions m s x w = (.ok r, v)) :
    Learns I (fun s' stage => s' = s ∧ carries x (w.convention s' stage)) w v := by
  obtain ⟨_, u, enter, h⟩ := ok_of_bind_apply (x := E.bindConvention m s x .enter) h
  obtain ⟨_, u', exit, h⟩ := ok_of_bind_apply (x := E.bindConvention m s x .exit) h
  obtain ⟨-, rfl⟩ := Prod.mk.inj h
  have first := learns_bindConvention hE hI hs enter
  have second := learns_bindConvention hE first.answers (Nat.lt_of_lt_of_le hs first.made) exit
  refine (first.trans second).congr (fun s' _ stage => ?_)
  rw [first.convention hs]
  cases stage <;> simp <;> grind

/-- A state takes up the methods of all models of a roster from a position on. -/
theorem learns_forRoster (hE : E.Answers I carries) {roster : RosterId} {fuel position : Nat} (hI : I w)
    (hs : s < w.states.next) {r : Unit}
    (h : forRoster roster (E.bindConventions m s) fuel position w = (.ok r, v)) :
    Learns I (fun s' stage => s' = s ∧ ∃ x ∈ (w.rosters.get roster).drop position, carries x (w.convention s' stage))
      w v := by
  induction fuel generalizing position w with
  | zero => cases h
  | succ fuel ih =>
    rw [forRoster, bind_of_ok (get_apply w)] at h
    cases hm : (w.rosters.get roster)[position]? with
    | some model =>
      simp only [hm] at h
      obtain ⟨hlt, rfl⟩ := List.getElem?_eq_some_iff.mp hm
      obtain ⟨_, u, bound, h⟩ := ok_of_bind_apply h
      have first := learns_bindConventions hE hI hs bound
      have rest := ih first.answers (Nat.lt_of_lt_of_le hs first.made) h
      refine (first.trans rest).congr (fun s' hs' stage => ?_)
      rw [first.rosters, List.drop_eq_getElem_cons hlt, first.convention hs']
      simp only [List.mem_cons, exists_eq_or_imp]
      tauto
    | none =>
      simp only [hm] at h
      obtain ⟨-, rfl⟩ := Prod.mk.inj h
      rw [List.drop_of_length_le (List.getElem?_eq_none_iff.mp hm)]
      exact (Learns.refl hI).congr (by simp)

/-- All states of a list take up the methods of a model. -/
theorem learns_forM {ss : List StateId} {action : StateId → Run PUnit}
    (hI : I w) (hs : ∀ s ∈ ss, s < w.states.next)
    (haction : ∀ s ∈ ss, ∀ {t u r}, I t → s < t.states.next → action s t = (.ok r, u) →
      Learns I (fun s' stage => s' = s ∧ carries x (t.convention s' stage)) t u)
    {r : PUnit} (h : ss.forM action w = (.ok r, v)) :
    Learns I (fun s stage => s ∈ ss ∧ carries x (w.convention s stage)) w v := by
  induction ss generalizing w with
  | nil =>
    obtain ⟨-, rfl⟩ := Prod.mk.inj h
    exact (Learns.refl hI).congr (by simp)
  | cons s ss ih =>
    obtain ⟨_, u, bound, h⟩ := ok_of_bind_apply h
    have first := haction s List.mem_cons_self hI (hs s List.mem_cons_self) bound
    have rest := ih first.answers
      (fun s' hs' => Nat.lt_of_lt_of_le (hs s' (List.mem_cons_of_mem _ hs')) first.made)
      (fun s' hs' => haction s' (List.mem_cons_of_mem _ hs')) h
    refine (first.trans rest).congr (fun s' hs' stage => ?_)
    rw [first.convention hs', List.mem_cons]
    tauto

/-- The registered states take up the methods of a model. -/
theorem learns_bindToStates (hE : E.Answers I carries) (hI : I w)
    (hs : ∀ s ∈ (w.machine m).states.values, s < w.states.next) {r : Unit}
    (h : E.bindToStates m x w = (.ok r, v)) :
    Learns I (fun s stage => s ∈ (w.machine m).states.values ∧ carries x (w.convention s stage)) w v := by
  have steady {t t' : World} {n : Nat} {e : Unit}
      (h : (do if ((← get).machine m).states.size ≠ n then Act.fail .changedWhileRead : Run Unit) t =
        (.ok e, t')) : t' = t := by
    rw [bind_of_ok (get_apply t)] at h
    split at h
    · cases h
    · exact (Prod.mk.inj h).2.symm
  unfold bindToStates at h
  rw [bind_of_ok (get_apply w)] at h
  obtain ⟨_, u, bound, h⟩ := ok_of_bind_apply h
  rw [steady h]
  refine learns_forM hI hs (fun s _ t u' r ht hlt hst => ?_) bound
  obtain ⟨_, t', check, hst⟩ := ok_of_bind_apply hst
  rw [steady check] at hst
  exact learns_bindConventions hE ht hlt hst

/-- Placing models leaves the registries alone. -/
theorem beside_place (hE : E.Answers I carries) (hI : I w) {state models : Value} {r : Unit}
    (h : place m state models w = (.ok r, v)) : I v ∧ Beside w v := by
  constructor
  · obtain ⟨s, u, asked, h⟩ := ok_of_bind_apply h
    obtain ⟨-, same⟩ := ok_of_ask asked
    rw [same, bind_of_ok (get_apply w)] at h
    have written (models : List Value) {a : Value} {t : World} (ht : I t) {e : PUnit} {t' : World}
        (h : models.forM (fun model => writeState m model a) t = (.ok e, t')) : I t' := by
      induction models generalizing t with
      | nil => exact (Prod.mk.inj h).2 ▸ ht
      | cons model models ih =>
        obtain ⟨_, t₁, one, rest⟩ := ok_of_bind_apply h
        exact ih (hE.placed ht one) rest
    exact written _ hI h
  · have written : Relation.ReflTransGen Written w v := (walks_place m state models).steps h
    clear h
    induction written with
    | refl => exact ⟨rfl, rfl, Nat.le_refl _, fun _ _ => rfl⟩
    | tail _ last ih =>
      rw [last]
      exact ⟨ih.machines, ih.rosters, ih.made, ih.states⟩

end Engine

end StateEngine
