import StateEngine.Proofs.Registry.Filing

/-! What callbacks leave of a machine in the midst of a firing, whatever they do: its line goes on holding the
task in hand, and what the firing has noted stays. -/
namespace StateEngine

/-- A line that goes on holding the task in hand. A direct one stays taken; a queued one only gets more
behind. -/
inductive Line.Stays {τ : Type} : Line τ → Line τ → Prop where
  | direct : Stays (.direct true) (.direct true)
  | queued (task : τ) (rest more : List τ) : Stays (.queued (task :: rest)) (.queued (task :: rest ++ more))

namespace Line.Stays

variable {τ : Type} {a b c : Line τ}

theorem refl (h : a.inFlight = true) : Stays a a := by
  cases a with
  | direct busy =>
    obtain rfl : busy = true := h
    exact .direct
  | queued tasks =>
    cases tasks with
    | nil => cases h
    | cons task rest => simpa using Stays.queued task rest []

theorem trans (h : Stays a b) (h' : Stays b c) : Stays a c := by
  cases h with
  | direct => exact h'
  | queued task rest more =>
    cases h' with
    | queued _ _ more' => simpa using Stays.queued task rest (more ++ more')

theorem inFlight (h : Stays a b) : b.inFlight = true := by
  cases h <;> rfl

end Line.Stays

/-- Leaves the finalising callbacks of a machine as they are. -/
def Operation.LeavesEnd (m : MachineId) : Operation → Prop
  | .assign n .finalizeEvent _ => n ≠ m
  | _ => True

namespace World
open Relation

/-- What a machine with a task in hand keeps. -/
structure Engaged (m : MachineId) (w v : World) : Prop where
  line : (w.machine m).line.Stays (v.machine m).line
  finalize : (v.machine m).finalizeEvent = (w.machine m).finalizeEvent

/-- What goes for the machine, and for a firing, if there is one to keep. -/
structure Amid (m : MachineId) (i : Option FiringId) (w v : World) : Prop where
  engaged : Engaged m w v
  made : ∀ j ∈ i, j < v.firings.next
  firing : ∀ j ∈ i, ∃ s, v.firings.get j = { w.firings.get j with state := s }

/-- A machine with a task in hand is kept, and so is a firing that was made. -/
def Heeds (m : MachineId) (i : Option FiringId) (w v : World) : Prop :=
  (w.machine m).line.inFlight = true → (∀ j ∈ i, j < w.firings.next) → Amid m i w v

variable {m : MachineId} {i : Option FiringId} {w v u : World}

theorem Engaged.refl (h : (w.machine m).line.inFlight = true) : Engaged m w w := ⟨.refl h, rfl⟩

theorem Engaged.trans (h : Engaged m w v) (h' : Engaged m v u) : Engaged m w u :=
  ⟨h.line.trans h'.line, h'.finalize.trans h.finalize⟩

theorem Amid.refl (h : (w.machine m).line.inFlight = true) (hi : ∀ j ∈ i, j < w.firings.next) :
    Amid m i w w := ⟨.refl h, hi, fun _ _ => ⟨_, rfl⟩⟩

theorem Amid.trans (h : Amid m i w v) (h' : Amid m i v u) : Amid m i w u := by
  refine ⟨h.engaged.trans h'.engaged, h'.made, fun j hj => ?_⟩
  obtain ⟨s, hs⟩ := h.firing j hj
  obtain ⟨s', hs'⟩ := h'.firing j hj
  exact ⟨s', by rw [hs', hs]⟩

/-- Steps that heed a machine and a firing keep both. -/
theorem Heeds.of_steps (h : ReflTransGen (Heeds m i) w v) : Heeds m i w v := by
  intro hbusy hi
  induction h with
  | refl => exact .refl hbusy hi
  | tail _ step ih => exact ih.trans (step ih.engaged.line.inFlight ih.made)

theorem Heeds.amid {i : FiringId} (h : ReflTransGen (Heeds m (some i)) w v)
    (hbusy : (w.machine m).line.inFlight = true) (hi : i < w.firings.next) : Amid m (some i) w v :=
  Heeds.of_steps h hbusy (fun _ hj => Option.mem_some_iff.mp hj ▸ hi)

/-- Firings and the machine's own settings are as they were. -/
theorem Heeds.of_same (hm : (v.machine m).line = (w.machine m).line ∧
      (v.machine m).finalizeEvent = (w.machine m).finalizeEvent) (hf : v.firings = w.firings) :
    Heeds m i w v :=
  fun hbusy hi => ⟨⟨by rw [hm.1]; exact .refl hbusy, hm.2⟩, by rw [hf]; exact hi, fun _ _ => ⟨_, by rw [hf]⟩⟩

theorem Relisted.heeds (h : Relisted w v) : Heeds m i w v := by
  obtain ⟨events, hm⟩ := h.machine m
  refine .of_same ⟨by rw [hm], by rw [hm]⟩ ?_
  rw [h.rest]

/-- A change of a machine that leaves its line and its finalising callbacks. -/
theorem heeds_updateMachine {n : MachineId} {f : Machine → Machine}
    (hf : n = m → (f (w.machine m)).line = (w.machine m).line ∧
      (f (w.machine m)).finalizeEvent = (w.machine m).finalizeEvent) : Heeds m i w (w.updateMachine n f) := by
  refine .of_same ?_ rfl
  rw [machine_updateMachine]
  split
  · rename_i hn
    exact hf hn
  · exact ⟨rfl, rfl⟩

/-- Opening a firing and noting something in another one. -/
theorem heeds_firings {firings : Heap Firing} (hmade : w.firings.next ≤ firings.next)
    (hf : ∀ j ∈ i, j < w.firings.next → ∃ s, firings.get j = { w.firings.get j with state := s }) :
    Heeds m i w { w with firings := firings } :=
  fun hbusy hi => ⟨⟨.refl hbusy, rfl⟩, fun j hj => Nat.lt_of_lt_of_le (hi j hj) hmade,
    fun j hj => hf j hj (hi j hj)⟩

theorem Step.heeds (h : Step (Operation.LeavesEnd m) w v) : Heeds m i w v := by
  cases h with
  | note h => exact .of_same (by rw [h.rest]; exact ⟨rfl, rfl⟩) (by rw [h.rest])
  | makeState s => exact .of_same ⟨rfl, rfl⟩ rfl
  | enroll n s hk hnew => exact heeds_updateMachine (fun _ => ⟨rfl, rfl⟩)
  | hookState s c stage => exact .of_same ⟨rfl, rfl⟩ rfl
  | makeTransition t => exact .of_same ⟨rfl, rfl⟩ rfl
  | connect h => exact (relisted_connect h).heeds
  | disconnect h => exact (relisted_disconnect h).heeds
  | adopt hp h => exact (relisted_adopt h).heeds
  | hookTransition t c stage => exact .of_same ⟨rfl, rfl⟩ rfl
  | fileSource _ => exact .of_same ⟨rfl, rfl⟩ rfl
  | assign n setting x hp =>
    refine heeds_updateMachine (fun hn => ?_)
    cases setting with
    | finalizeEvent => exact absurd hn hp
    | _ => exact ⟨rfl, rfl⟩
  | unbind n model =>
    have pushed : Heeds m i w { w with
      rosters := w.rosters.push ((w.boundModels n).filter (fun x => !x.same model)) } :=
      .of_same ⟨rfl, rfl⟩ rfl
    exact .of_steps (.head pushed (.single (heeds_updateMachine (fun _ => ⟨rfl, rfl⟩))))
  | makeMachine h =>
    obtain ⟨machine, ledgers, -, -, -, -, -, rfl⟩ := makeMachine_cases h
    intro hbusy hi
    rcases machine_push w machine m with kept | ⟨old, -⟩
    · exact Heeds.of_same ⟨congrArg Machine.line kept, congrArg Machine.finalizeEvent kept⟩ rfl hbusy hi
    · -- a machine with a task in hand is none that is still to be made
      rw [old] at hbusy
      cases hbusy
  | openFiring firing =>
    refine heeds_firings (Nat.le_of_lt (by simp)) (fun j _ hj => ⟨(w.firings.get j).state, ?_⟩)
    rw [Heap.get_push, if_neg (Nat.ne_of_lt hj)]
  | restate k s =>
    refine heeds_firings (Heap.next_le_next_modify _ _ _) (fun j _ _ => ?_)
    by_cases hk : k = j
    · exact ⟨s, by simp [hk]⟩
    · exact ⟨(w.firings.get j).state, by rw [Heap.get_modify, if_neg hk]⟩

theorem permits_heeds (m : MachineId) (i : Option FiringId) : Permits (Operation.LeavesEnd m) (Heeds m i) where
  step h := .single h.heeds
  fresh w := by
    by_cases hi : ∀ j ∈ i, j < w.firings.next
    · refine .inr (fun u f => .single (heeds_firings (Heap.next_le_next_modify _ _ _) (fun j hj _ => ?_)))
      exact ⟨(u.firings.get j).state, by rw [Heap.get_modify, if_neg (Nat.ne_of_gt (hi j hj))]⟩
    · exact .inl (fun v _ hw => absurd hw hi)

end World

namespace Engine
open Act World

variable {E : Engine} {m : MachineId} {i : Option FiringId}

/-- A machine with a task in hand refuses another one, or puts it behind the others. So handing in tasks goes by steps
if a line may be written that goes on holding the task in hand, where that matters. -/
theorem Walks.submit_staying {P : Operation → Prop} {R : World → World → Prop} (hE : E.Walks R) (hR : Permits P R)
    (hidle : ∀ w v, (w.machine m).line.inFlight = false → R w v)
    (hput : ∀ w n line, (n = m → (w.machine m).line.Stays line) →
      R w (w.updateMachine n (fun machine => { machine with line := line }))) (n : MachineId) (task : Task) :
    Act.Walks R (E.submit n task) := by
  by_cases hn : n = m
  · subst hn
    intro w
    cases hbusy : (w.machine n).line.inFlight with
    | false => exact .single (hidle _ _ hbusy)
    | true =>
      obtain ⟨label, hlabel⟩ : ∃ label, label = (w.machine n).label := ⟨_, rfl⟩
      have start : E.submit n task w = (E.setting n label).submit task w := by
        rw [hlabel]
        rfl
      unfold WalksFrom
      rw [start]
      unfold Line.Setting.submit
      rw [bind_of_ok (get_apply w)]
      have read : (E.setting n label).slot.read w = (w.machine n).line := rfl
      rw [read]
      cases hline : (w.machine n).line with
      | direct busy =>
        rw [hline] at hbusy
        obtain rfl : busy = true := hbusy
        exact .refl
      | queued tasks =>
        rw [hline] at hbusy
        cases tasks with
        | nil => cases hbusy
        | cons head rest =>
          have put : R w (w.updateMachine n (fun machine => { machine with line := .queued (head :: rest ++ [task]) })) :=
            hput w n _ (fun _ => by rw [hline]; exact .queued head rest [task])
          exact .head put (hE.record _ _)
  · exact hE.submit hR (fun line w => .single (hput w n line (fun h => absurd h hn))) task

theorem Walks.submit_heeds (hE : E.Walks (Heeds m i)) (n : MachineId) (task : Task) :
    Act.Walks (Heeds m i) (E.submit n task) := by
  refine hE.submit_staying (m := m) (permits_heeds m i) (fun w v hidle hbusy => ?_) (fun w n line hline => ?_) n task
  · rw [hidle] at hbusy
    cases hbusy
  · by_cases hn : n = m
    · subst hn
      refine fun hbusy hi => ⟨⟨?_, ?_⟩, hi, fun _ _ => ⟨_, rfl⟩⟩
      · rw [machine_updateMachine, if_pos rfl]
        exact hline rfl
      · rw [machine_updateMachine, if_pos rfl]
    · exact heeds_updateMachine (fun h => absurd h hn)

theorem Walks.obeys_heeds (hE : E.Walks (Heeds m i)) : E.Obeys (Operation.LeavesEnd m) (Heeds m i) where
  bind _ initial _ := hE.bindModel (permits_heeds m i) (fun _ => .single (.of_same ⟨rfl, rfl⟩ rfl)) initial
  settle _ v _ :=
    hE.setInitial (permits_heeds m i) (fun _ _ => .single (heeds_updateMachine (fun _ => ⟨rfl, rfl⟩))) v
  submit n task := hE.submit_heeds n task

/-- Callbacks that leave the finalising callbacks of a machine alone keep it engaged, whatever else they do. -/
theorem heeds_ofHost {host : Host} (h : host.Within (Operation.LeavesEnd m)) (bound depth : Nat)
    (i : Option FiringId) : (ofHost host bound depth).Walks (Heeds m i) :=
  walks_ofHost h (permits_heeds m i) (fun _ _ _ _ => trivial) bound (fun _ hE => hE.obeys_heeds) depth

end Engine

namespace World
open Relation

/-- A line with a task in hand goes on holding it, whatever operations are performed. -/
def Holding (m : MachineId) (w v : World) : Prop :=
  (w.machine m).line.inFlight = true → (w.machine m).line.Stays (v.machine m).line

variable {m : MachineId} {w v : World} {P : Operation → Prop}

theorem holding_of_line (h : (v.machine m).line = (w.machine m).line) : Holding m w v := fun hbusy => by
  rw [h]
  exact .refl hbusy

theorem holding_updateMachine {n : MachineId} {f : Machine → Machine}
    (hf : n = m → (f (w.machine m)).line = (w.machine m).line) : Holding m w (w.updateMachine n f) := by
  refine holding_of_line ?_
  rw [machine_updateMachine]
  split
  · rename_i hn
    exact hf hn
  · rfl

theorem Relisted.holding (h : Relisted w v) : Holding m w v := by
  obtain ⟨events, hm⟩ := h.machine m
  exact holding_of_line (by rw [hm])

theorem Step.holding (h : Step P w v) : Holding m w v := by
  cases h with
  | note h => exact holding_of_line (by rw [h.rest]; rfl)
  | connect h => exact (relisted_connect h).holding
  | disconnect h => exact (relisted_disconnect h).holding
  | adopt hp h => exact (relisted_adopt h).holding
  | enroll n s hk hnew => exact holding_updateMachine (fun _ => rfl)
  | assign n setting x hp => exact holding_updateMachine (fun _ => by cases setting <;> rfl)
  | unbind n model =>
    exact holding_updateMachine (w := { w with
      rosters := w.rosters.push ((w.boundModels n).filter (fun x => !x.same model)) }) (fun _ => rfl)
  | makeMachine h =>
    obtain ⟨machine, ledgers, -, -, -, -, -, rfl⟩ := makeMachine_cases h
    rcases machine_push w machine m with kept | ⟨old, -⟩
    · exact holding_of_line (congrArg Machine.line kept)
    · intro hbusy
      rw [old] at hbusy
      cases hbusy
  | makeState | hookState | makeTransition | hookTransition | fileSource | openFiring | restate =>
    exact holding_of_line rfl

theorem permits_holding (P : Operation → Prop) (m : MachineId) : Permits P (Holding m) where
  step h := .single h.holding
  fresh _ := .inr (fun _ _ => .single (holding_of_line rfl))

theorem holding_of_steps (h : ReflTransGen (Holding m) w v) : Holding m w v := by
  intro hbusy
  induction h with
  | refl => exact .refl hbusy
  | tail _ step ih => exact ih.trans (step ih.inFlight)

end World

namespace Engine
open World

theorem within_all (p : Program) : p.Within (fun _ => True) := by
  induction p with
  | done | fail => trivial
  | read owner name next ih => exact ih
  | perform verb request next ih => exact ⟨fun _ _ _ => trivial, ih⟩

/-- Whatever callbacks do, a line goes on holding the task in hand. -/
theorem holding_ofHost (host : Host) (m : MachineId) (bound depth : Nat) :
    (ofHost host bound depth).Walks (Holding m) := by
  have all : host.Within (fun _ => True) := fun _ _ _ _ => within_all _
  refine walks_ofHost all (permits_holding _ m) (fun _ _ _ _ => trivial) bound (fun depth hE => ⟨?_, ?_, ?_⟩) depth
  · exact fun n initial _ => hE.bindModel (permits_holding (fun _ => True) m) (fun _ => .single (holding_of_line rfl)) initial
  · exact fun n v _ => hE.setInitial (permits_holding (fun _ => True) m)
      (fun _ _ => .single (holding_updateMachine (fun _ => rfl))) v
  · refine fun n task => hE.submit_staying (m := m) (permits_holding (fun _ => True) m) (fun w v hidle hbusy => ?_)
      (fun w n line hline => ?_) n task
    · rw [hidle] at hbusy
      cases hbusy
    · by_cases hn : n = m
      · subst hn
        intro _
        rw [machine_updateMachine, if_pos rfl]
        exact hline rfl
      · exact holding_updateMachine (fun h => absurd h hn)

end Engine

end StateEngine
