import StateEngine.Proofs.Conventions.Stage
import StateEngine.Proofs.Stages.Processing

/-! One predicate that decides between two candidates, of which one has it for a condition and the other for an
exclusion. It lets the first pass where it gives what equals true, the second where it gives what equals false, and
neither where it gives anything else. -/
namespace StateEngine
open Act World Relation

theorem Number.twoTo_pos (k : Nat) : 0 < twoTo k := Nat.pow_pos Nat.two_pos

/-- A double is not both zero and one. -/
theorem Number.Binary64.equalsInt_unique {x : Number.Binary64} (h : x.equalsInt 1 = true) : x.equalsInt 0 = false := by
  unfold equalsInt at h ⊢
  cases hx : x.units with
  | none => rfl
  | some a =>
    rw [hx] at h
    have one : a = 1 * (twoTo 1074 : Int) := eq_of_beq h
    have positive := twoTo_pos 1074
    exact beq_eq_false_iff_ne.mpr (by omega)

/-- Nothing equals both true and false. -/
theorem Value.same_false_of_same_true {a : Value} (h : a.same (.bool true) = true) : a.same (.bool false) = false := by
  cases a with
  | float x =>
    have amount (b : Bool) : (Value.float x).same (.bool b) = x.equalsInt (if b then 1 else 0) := by
      simp [same, sameAtom, amount?, Amount.same]
    rw [amount] at h ⊢
    exact Number.Binary64.equalsInt_unique h
  | int n =>
    have one : n = 1 := by simpa [same, sameAtom, amount?, Amount.same] using h
    simp [same, sameAtom, amount?, Amount.same, one]
  | bool b =>
    cases b with
    | true => simp [same, sameAtom, amount?, Amount.same]
    | false => simp [same, sameAtom, amount?, Amount.same] at h
  | list | tuple | map | record => simp [same] at h
  | null | text | bytes | member | enumeration | object | callback | method | state | model =>
    simp [same, sameAtom, amount?] at h

namespace Follows

variable {cues : List Cue} {xs : List Moment} {b : Bool}

/-- Cues that any value passes all pass, unless one fails. -/
theorem all_pass (h : Follows cues xs (.ok b)) (hc : ∀ cue ∈ cues, ∀ v, cue.passes v = true) : b = true := by
  induction cues generalizing xs with
  | nil =>
    cases h
    rfl
  | cons cue cues ih =>
    cases h with
    | passed _ _ _ h => exact ih h (fun c hc' => hc c (List.mem_cons_of_mem _ hc'))
    | halted _ _ _ hp =>
      rw [hc cue List.mem_cons_self] at hp
      cases hp

/-- A single guard decides by the value that it gives. -/
theorem decided {g : Guard} (h : Follows [.ask g] xs (.ok b)) :
    ∃ x ∈ xs, ∃ v, x.cue = .ask g ∧ x.outcome = .ok v ∧ b = v.same g.target := by
  cases h with
  | passed hc ho hp h =>
    cases h
    exact ⟨_, List.mem_singleton_self _, _, hc, ho, hp.symm⟩
  | halted _ hc ho hp => exact ⟨_, List.mem_singleton_self _, _, hc, ho, hp.symm⟩

end Follows

theorem World.Longer.lookupState {w v : World} (h : Longer w v) {m : MachineId} {x : Value} (hx : ∀ s, x ≠ .state s)
    {s : StateId} (hs : w.lookupState m x = .ok s) : v.lookupState m x = .ok s := by
  have name : v.nameOf x = w.nameOf x := by
    cases x with
    | state s => exact absurd rfl (hx s)
    | _ => rfl
  unfold World.lookupState at hs ⊢
  rw [name]
  simp only [] at hs ⊢
  split at hs
  · rename_i hashable
    rw [if_pos hashable]
    cases hf : (w.machine m).states.find? (w.nameOf x) with
    | none =>
      rw [hf] at hs
      cases hs
    | some s' =>
      rw [hf] at hs
      rw [h.registered m _ s' hf]
      exact hs
  · cases hs

/-- A candidate with a single guard, from a state that is registered. -/
structure World.GuardedBy (w : World) (m : MachineId) (t : TransitionId) (g : Guard) : Prop where
  made : t < w.transitions.next
  guards : (w.transitions.get t).guards = [g]
  named : ∀ s, (w.transitions.get t).source ≠ .state s
  registered : ∃ s, w.lookupState m (w.transitions.get t).source = .ok s

theorem World.GuardedBy.longer {w v : World} {m : MachineId} {t : TransitionId} {g : Guard} (h : w.GuardedBy m t g)
    (hv : Longer w v) : v.GuardedBy m t g := by
  have kept := hv.transitions t h.made
  obtain ⟨s, hs⟩ := h.registered
  refine ⟨Nat.lt_of_lt_of_le h.made hv.made, kept.guards.trans h.guards, ?_, s, ?_⟩
  · rw [kept.source]
    exact h.named
  · rw [kept.source]
    exact hv.lookupState h.named hs

theorem World.Quiet.longer {w v : World} {i : FiringId} (h : Quiet i w v) : Longer w v :=
  longer_of_same (fun n => congrArg Machine.states (h.still.machine n)) h.still.states h.still.transitions

namespace Engine

variable {E : Engine} {m : MachineId} {i : FiringId}

theorem Conducts.longer (hE : E.Walks Longer) {w v : World} {xs : List Moment} (h : E.Conducts m i w xs v) :
    Longer w v := by
  induction h with
  | done w => exact .refl w
  | quiet hq _ ih => exact hq.longer.trans ih
  | @moment x u xs hx _ ih =>
    have walks : Act.Walks Longer (E.takeUp m i x.cue) := by
      cases x.cue with
      | run c => exact hE.consult m c i
      | ask g => exact hE.consult m g.predicate i
      | move dest => exact .bind (walks_relocate (permits_longer (fun _ => True)) m dest i) (fun _ => .pure _)
    exact (Longer.of_steps (walks.steps hx)).trans ih

end Engine

/-- A pass that takes up what it is to, and in which nothing fails. -/
structure Pass.Smooth (p : Pass) (E : Engine) (m : MachineId) (i : FiringId) : Prop where
  sound : p.Sound E m i
  ends : ∀ e, p.verdict ≠ .error e

/-- A pass in which a predicate gives no value but one. -/
def Pass.Answers (p : Pass) (f : Callback) (a : Value) : Prop :=
  ∀ x ∈ p.moments, ∀ g v, g.predicate = f → x.cue = .ask g → x.outcome = .ok v → v = a

namespace Pass.Smooth

variable {p : Pass} {E : Engine} {m : MachineId} {i : FiringId}

theorem ok (h : p.Smooth E m i) : ∃ b, p.verdict = .ok b ∧ E.Conducts m i p.start p.moments p.finish ∧
    Follows (p.listed m) p.moments (.ok b) := by
  obtain ⟨⟨takes, -⟩, ends⟩ := h
  obtain ⟨s, w, xs, r, v⟩ := p
  cases takes with
  | ended verdict hc hf =>
    cases verdict with
    | error f => exact absurd rfl (ends _)
    | ok b => exact ⟨b, rfl, hc, hf⟩
  | stuck | overrun => exact absurd rfl (ends _)

theorem longer (h : p.Smooth E m i) (hE : E.Walks Longer) : Longer p.start p.finish := by
  obtain ⟨b, -, hc, -⟩ := h.ok
  exact hc.longer hE

/-- Only guards can keep a firing from going on. -/
theorem passes (h : p.Smooth E m i) (hs : ∀ t, p.stage ≠ .guards t) : p.verdict = .ok true := by
  obtain ⟨b, hv, -, hf⟩ := h.ok
  rw [hv]
  refine congrArg Except.ok (hf.all_pass (fun cue hc v => ?_))
  have kind : (∃ c, cue = .run c) ∨ ∃ dest, cue = .move dest := by
    unfold Pass.listed at hc
    cases hst : p.stage with
    | guards t => exact absurd hst (hs t)
    | move dest =>
      rw [hst] at hc
      exact .inr ⟨dest, List.mem_singleton.mp hc⟩
    | _ =>
      rw [hst] at hc
      obtain ⟨c, -, rfl⟩ := List.mem_map.mp hc
      exact .inl ⟨c, rfl⟩
  rcases kind with ⟨c, rfl⟩ | ⟨dest, rfl⟩ <;> rfl

/-- A single guard decides by whether what its predicate gives equals its target. -/
theorem decides (h : p.Smooth E m i) {t : TransitionId} (hs : p.stage = .guards t) {g : Guard}
    (hg : (p.start.transitions.get t).guards = [g]) {a : Value} (ha : p.Answers g.predicate a) :
    p.verdict = .ok (a.same g.target) := by
  obtain ⟨b, hv, -, hf⟩ := h.ok
  have listed : p.listed m = [.ask g] := by
    unfold Pass.listed
    rw [hs]
    show (p.start.transitions.get t).guards.map Cue.ask = _
    rw [hg]
    rfl
  rw [listed] at hf
  obtain ⟨x, hx, v, hc, ho, hb⟩ := hf.decided
  rw [hv, hb, ha x hx g v rfl hc ho]

end Pass.Smooth

/-- The stages along the way of a transition. -/
inductive Transition.Way (t : Transition) : List Stage → Prop where
  | internal (h : t.internal = true) : Way t []
  | through (s d : StateId) (h : t.internal = false) : Way t [.state s .exit, .move t.dest, .state d .enter]

theorem Transition.Way.congr {a b : Transition} (hd : b.dest = a.dest) {way : List Stage} (h : b.Way way) :
    a.Way way := by
  have internal : b.internal = a.internal := by
    unfold Transition.internal
    rw [hd]
  cases h with
  | internal h => exact .internal (internal ▸ h)
  | through s d h => exact hd ▸ .through s d (internal ▸ h)

/-- The stages of a candidate whose guards do not let the firing pass. -/
def Stage.declined (t : TransitionId) : List Stage := [.prepare t, .guards t]

/-- The stages of a candidate that is carried out. -/
def World.CarriedOut (w : World) (t : TransitionId) (stages : List Stage) : Prop :=
  ∃ way, (w.transitions.get t).Way way ∧ stages = .prepare t :: .guards t :: .before t :: (way ++ [.after t])

theorem World.CarriedOut.of_longer {w v : World} {t : TransitionId} {stages : List Stage} (h : v.CarriedOut t stages)
    (hv : Longer w v) (ht : t < w.transitions.next) : w.CarriedOut t stages := by
  obtain ⟨way, hw, hs⟩ := h
  exact ⟨way, hw.congr (hv.transitions t ht).dest, hs⟩

/-- Which of two candidates is carried out, by the value that decides between them. -/
structure World.Chosen (w : World) (t₁ t₂ : TransitionId) (a : Value) (fired : Bool) (stages : List Stage) : Prop where
  first : a.same (.bool true) = true → fired = true ∧ w.CarriedOut t₁ stages
  second : a.same (.bool false) = true →
    fired = true ∧ ∃ rest, stages = Stage.declined t₁ ++ rest ∧ w.CarriedOut t₂ rest
  neither : a.same (.bool true) = false → a.same (.bool false) = false →
    fired = false ∧ stages = Stage.declined t₁ ++ Stage.declined t₂

namespace World.Chosen

variable {w : World} {t₁ t₂ : TransitionId} {a : Value} {stages : List Stage}

theorem of_true (same : a.same (.bool true) = true) (done : w.CarriedOut t₁ stages) : w.Chosen t₁ t₂ a true stages := by
  refine ⟨fun _ => ⟨rfl, done⟩, fun h => ?_, fun h => ?_⟩
  · rw [Value.same_false_of_same_true same] at h
    cases h
  · rw [same] at h
    cases h

theorem of_false (same : a.same (.bool false) = true) (differs : a.same (.bool true) = false)
    (done : w.CarriedOut t₂ stages) : w.Chosen t₁ t₂ a true (Stage.declined t₁ ++ stages) := by
  refine ⟨fun h => ?_, fun _ => ⟨rfl, stages, rfl, done⟩, fun _ h => ?_⟩
  · rw [differs] at h
    cases h
  · rw [same] at h
    cases h

theorem of_neither (differs : a.same (.bool true) = false) (differs' : a.same (.bool false) = false) :
    w.Chosen t₁ t₂ a false (Stage.declined t₁ ++ Stage.declined t₂) := by
  refine ⟨fun h => ?_, fun h => ?_, fun _ _ => ⟨rfl, rfl⟩⟩
  · rw [differs] at h
    cases h
  · rw [differs'] at h
    cases h

end World.Chosen

/-- There are two candidates for a firing, of which one has a predicate for its condition and the other one has it for
its exclusion. -/
structure World.Forks (w : World) (m : MachineId) (i : FiringId) (t₁ t₂ : TransitionId) (f : Callback) : Prop where
  found : (w.events.get (w.firings.get i).event).candidates.find? (w.states.get (w.firings.get i).state).name =
    some [t₁, t₂]
  condition : w.GuardedBy m t₁ ⟨f, .bool true⟩
  exclusion : w.GuardedBy m t₂ ⟨f, .bool false⟩

/-- Candidates that have been registered fork where they have these guards. -/
theorem World.Regular.forks {w : World} {m : MachineId} {i : FiringId} (h : w.Regular) (hn : w.PlainNames m)
    (hm : (w.events.get (w.firings.get i).event).machine = m) {t₁ t₂ : TransitionId}
    (found : (w.events.get (w.firings.get i).event).candidates.find? (w.states.get (w.firings.get i).state).name =
      some [t₁, t₂]) {f : Callback} (condition : (w.transitions.get t₁).guards = [⟨f, .bool true⟩])
    (exclusion : (w.transitions.get t₂).guards = [⟨f, .bool false⟩]) : w.Forks m i t₁ t₂ f := by
  obtain ⟨k, hk, entry⟩ := Table.mem_of_find? found
  have guarded {t : TransitionId} {g : Guard} (ht : t ∈ [t₁, t₂]) (hg : (w.transitions.get t).guards = [g]) :
      w.GuardedBy m t g := by
    have connects := h.connected _ (hm ▸ hn) _ entry t ht
    rw [hm] at connects
    obtain ⟨a, ha⟩ := hn _ connects.source
    have key := connects.source
    rw [ha] at key
    exact ⟨connects.made, hg, by rw [ha]; nofun, by rw [ha]; exact lookupState_key key⟩
  exact ⟨found, guarded (by simp) condition, guarded (by simp) exclusion⟩

/-- What takes up nothing leaves the candidates as they are. -/
theorem Engine.Conducts.forks {E : Engine} {m : MachineId} {i : FiringId} {w v : World} (h : E.Conducts m i w [] v)
    {t₁ t₂ : TransitionId} {f : Callback} (hw : w.Forks m i t₁ t₂ f) : v.Forks m i t₁ t₂ f := by
  generalize hx : ([] : List Moment) = xs at h
  induction h with
  | done => exact hw
  | @quiet w v _ _ hq _ ih =>
    obtain ⟨_, _, _, hf⟩ := hq.progress
    refine ih ⟨?_, hw.condition.longer hq.longer, hw.exclusion.longer hq.longer⟩ hx
    rw [hq.still.events, hq.still.states, hf]
    exact hw.found
  | moment => cases hx

/-- A pass for which nothing is listed leaves the candidates as they are. -/
theorem Pass.Sound.forks {p : Pass} {E : Engine} {m : MachineId} {i : FiringId} (h : p.Sound E m i)
    (live : p.stage.live = false) (empty : p.stage.cues m p.start = []) {t₁ t₂ : TransitionId} {f : Callback}
    (hp : p.start.Forks m i t₁ t₂ f) : p.finish.Forks m i t₁ t₂ f := by
  have takes : E.Takes m i none [] p.start p.moments p.verdict p.finish := by
    simpa [Pass.listed, live, empty] using h.takes
  obtain ⟨s, w, xs, r, v⟩ := p
  cases takes with
  | ended verdict hc hf =>
    cases hf
    exact hc.forks hp
  | stuck hc hf hpre hs => simp at hpre
  | overrun hc hf hpre hl => cases hl

/-- A predicate that gives the same in every world gives it in every pass. -/
theorem Pass.Sound.answers {p : Pass} {E : Engine} {m : MachineId} {i : FiringId} (h : p.Sound E m i) {f : Callback}
    {a : Value} (hf : ∀ w, (E.consult m f i w).1 = .ok a) : p.Answers f a := by
  obtain ⟨u, hc⟩ := h.takes.conducts
  intro x hx g v hg hcue hout
  have taken := hc.taken x hx
  rw [hcue, hout] at taken
  have given := congrArg Prod.fst taken
  have asked : (E.takeUp m i (.ask g) x.before).1 = .ok a := by
    subst hg
    exact hf x.before
  rw [asked] at given
  exact (Except.ok.inj given).symm

namespace Account

variable {E : Engine} {m : MachineId} {i : FiringId} {w v : World} {ps : List Pass} {r : Except Stop Bool}
  {s : Stage} {B : Account}

/-- A stage without guards is gone through, unless something fails in it. -/
theorem stage_through (hE : E.Walks Longer) (hs : ∀ t, s ≠ .guards t) (h : stage s w ps r v)
    (smooth : ∀ p ∈ ps, p.Smooth E m i) : r = .ok true ∧ ps.map Pass.stage = [s] ∧ Longer w v := by
  obtain ⟨xs, rfl⟩ := h
  have here := smooth _ (List.mem_singleton_self _)
  exact ⟨here.passes hs, rfl, here.longer hE⟩

/-- Nothing but a failure keeps a firing from going on behind a stage without guards. -/
theorem andThen_through (hE : E.Walks Longer) (hs : ∀ t, s ≠ .guards t) (h : andThen (stage s) B w ps r v)
    (smooth : ∀ p ∈ ps, p.Smooth E m i) :
    ∃ p qs u, ps = p :: qs ∧ p.stage = s ∧ p.finish = u ∧ Longer w u ∧ B u qs r v := by
  cases h with
  | cut h hr => exact absurd (stage_through hE hs h smooth).1 hr
  | on h h' =>
    obtain ⟨xs, rfl⟩ := h
    exact ⟨_, _, _, rfl, rfl, rfl, (smooth _ List.mem_cons_self).longer hE, h'⟩

/-- A single guard lets a firing go on where what its predicate gives equals its target. -/
theorem andThen_decided (hE : E.Walks Longer) {t : TransitionId} {g : Guard} (hg : (w.transitions.get t).guards = [g])
    (h : andThen (stage (.guards t)) B w ps r v) (smooth : ∀ p ∈ ps, p.Smooth E m i) {a : Value}
    (answers : ∀ p ∈ ps, p.Answers g.predicate a) :
    (a.same g.target = true ∧ ∃ p qs u, ps = p :: qs ∧ p.stage = .guards t ∧ Longer w u ∧ B u qs r v) ∨
      (a.same g.target = false ∧ r = .ok false ∧ ps.map Pass.stage = [.guards t] ∧ Longer w v) := by
  cases h with
  | cut h hr =>
    obtain ⟨xs, rfl⟩ := h
    have here := smooth _ (List.mem_singleton_self _)
    have verdict : r = .ok (a.same g.target) := here.decides rfl hg (answers _ (List.mem_singleton_self _))
    cases hd : a.same g.target with
    | true => exact absurd (verdict.trans (by rw [hd])) hr
    | false => exact .inr ⟨rfl, verdict.trans (by rw [hd]), rfl, here.longer hE⟩
  | on h h' =>
    obtain ⟨xs, rfl⟩ := h
    have here := smooth _ List.mem_cons_self
    have verdict : Except.ok true = Except.ok (a.same g.target) := here.decides rfl hg (answers _ List.mem_cons_self)
    exact .inl ⟨(Except.ok.inj verdict).symm, _, _, _, rfl, rfl, here.longer hE, h'⟩

/-- Where nothing fails, the whole way is gone. -/
theorem passage_through (hE : E.Walks Longer) {t : Transition} (registered : ∃ s, w.lookupState m t.source = .ok s)
    (h : passage m t w ps r v) (smooth : ∀ p ∈ ps, p.Smooth E m i) :
    r = .ok true ∧ t.Way (ps.map Pass.stage) ∧ Longer w v := by
  cases h with
  | internal h => exact ⟨rfl, .internal h, .refl w⟩
  | lost h hs =>
    obtain ⟨s, hs'⟩ := registered
    rw [hs] at hs'
    cases hs'
  | @way s _ _ _ h hs hw =>
    obtain ⟨p, qs, u, rfl, hp, -, exited, hw⟩ := andThen_through hE (by nofun) hw smooth
    have smooth := (List.forall_mem_cons.mp smooth).2
    obtain ⟨q, rs, u', rfl, hq, -, moved, d, hd, hw⟩ := andThen_through hE (by nofun) hw smooth
    obtain ⟨hr, entered, longer⟩ := stage_through hE (by nofun) hw (List.forall_mem_cons.mp smooth).2
    refine ⟨hr, ?_, (exited.trans moved).trans longer⟩
    rw [List.map_cons, List.map_cons, entered, hp, hq]
    exact .through s d h

/-- A candidate with a single guard is carried out where what the predicate gives equals the target, and declines
where it does not. -/
theorem execution_decided (hE : E.Walks Longer) {t : TransitionId} {g : Guard} (guarded : w.GuardedBy m t g)
    (h : execution m t w ps r v) (smooth : ∀ p ∈ ps, p.Smooth E m i) {a : Value}
    (answers : ∀ p ∈ ps, p.Answers g.predicate a) :
    (a.same g.target = true ∧ r = .ok true ∧ w.CarriedOut t (ps.map Pass.stage)) ∨
      (a.same g.target = false ∧ r = .ok false ∧ ps.map Pass.stage = Stage.declined t ∧ Longer w v) := by
  obtain ⟨p, qs, u₁, rfl, hp, -, prepared, h⟩ := andThen_through hE (by nofun) h smooth
  have smooth := (List.forall_mem_cons.mp smooth).2
  have answers := (List.forall_mem_cons.mp answers).2
  have still := guarded.longer prepared
  rcases andThen_decided hE still.guards h smooth answers with
    ⟨same, q, rs, u₂, rfl, hq, asked, h⟩ | ⟨differs, rfl, hq, asked⟩
  · have smooth := (List.forall_mem_cons.mp smooth).2
    obtain ⟨q', rs', u₃, rfl, hq', -, before, h⟩ := andThen_through hE (by nofun) h smooth
    have smooth := (List.forall_mem_cons.mp smooth).2
    have longer := (prepared.trans asked).trans before
    obtain ⟨s, hs⟩ := guarded.registered
    have registered : ∃ s, u₃.lookupState m (w.transitions.get t).source = .ok s :=
      ⟨s, longer.lookupState guarded.named hs⟩
    cases h with
    | cut gone hr => exact absurd (passage_through hE registered gone smooth).1 hr
    | on gone last =>
      obtain ⟨-, way, -⟩ := passage_through hE registered gone (List.forall_mem_append.mp smooth).1
      obtain ⟨hr, after, -⟩ := stage_through hE (by nofun) last (List.forall_mem_append.mp smooth).2
      refine .inl ⟨same, hr, _, way, ?_⟩
      simp only [List.map_cons, List.map_append, hp, hq, hq', after]
  · refine .inr ⟨differs, rfl, ?_, prepared.trans asked⟩
    rw [List.map_cons, hp, hq]
    rfl

/-- The first of some candidates, with a single guard, is carried out, or else the others are tried behind it. -/
theorem trials_decided (hE : E.Walks Longer) {t : TransitionId} {ts : List TransitionId} {g : Guard}
    (guarded : w.GuardedBy m t g) (h : trials m i (t :: ts) w ps r v) (smooth : ∀ p ∈ ps, p.Smooth E m i) {a : Value}
    (answers : ∀ p ∈ ps, p.Answers g.predicate a) :
    (a.same g.target = true ∧ r = .ok true ∧ w.CarriedOut t (ps.map Pass.stage)) ∨
      (a.same g.target = false ∧ ∃ qs u, ps.map Pass.stage = Stage.declined t ++ qs.map Pass.stage ∧ Longer w u ∧
        (∀ q ∈ qs, q ∈ ps) ∧ trials m i ts u qs r v) := by
  have noted : Longer w (w.updateFiring i (fun f => { f with transition := some t })) :=
    longer_of_same (fun _ => rfl) rfl rfl
  have guarded := guarded.longer noted
  cases h with
  | fired ts h =>
    rcases execution_decided hE guarded h smooth answers with ⟨same, -, done⟩ | ⟨-, hr, -⟩
    · exact .inl ⟨same, rfl, done⟩
    · cases hr
  | failed ts h => rcases execution_decided hE guarded h smooth answers with ⟨-, hr, -⟩ | ⟨-, hr, -⟩ <;> cases hr
  | @declined _ _ _ u _ ps qs _ h more =>
    obtain ⟨smooth, -⟩ := List.forall_mem_append.mp smooth
    obtain ⟨answers, -⟩ := List.forall_mem_append.mp answers
    rcases execution_decided hE guarded h smooth answers with ⟨-, hr, -⟩ | ⟨differs, -, stages, longer⟩
    · cases hr
    · refine .inr ⟨differs, qs, u, ?_, noted.trans longer, fun q hq => List.mem_append_right ps hq, more⟩
      rw [List.map_append, stages]

/-- The first candidate is carried out where the predicate gives what equals true, and the second one where it gives
what equals false. -/
theorem trials_chosen (hE : E.Walks Longer) {t₁ t₂ : TransitionId} {f : Callback} (hw : w.Forks m i t₁ t₂ f)
    (h : trials m i [t₁, t₂] w ps r v) (smooth : ∀ p ∈ ps, p.Smooth E m i) {a : Value}
    (answers : ∀ p ∈ ps, p.Answers f a) : ∃ fired, r = .ok fired ∧ w.Chosen t₁ t₂ a fired (ps.map Pass.stage) := by
  rcases trials_decided hE hw.condition h smooth answers with
    ⟨same, hr, done⟩ | ⟨differs, qs, u, stages, longer, there, h⟩
  · exact ⟨true, hr, .of_true same done⟩
  rw [stages]
  rcases trials_decided hE (hw.exclusion.longer longer) h (fun q hq => smooth q (there q hq))
    (fun q hq => answers q (there q hq)) with ⟨same, hr, done⟩ | ⟨differs', rs, u', stages', -, -, h⟩
  · exact ⟨true, hr, .of_false same differs (done.of_longer longer hw.exclusion.made)⟩
  · cases h
    rw [stages', List.map_nil, List.append_nil]
    exact ⟨false, rfl, .of_neither differs differs'⟩

/-- Where nothing fails, the candidates that there are behind the preparation are tried. -/
theorem selection_chosen (hE : E.Walks Longer) {p : Pass} {t₁ t₂ : TransitionId} {f : Callback}
    (hp : p.finish.Forks m i t₁ t₂ f) (h : ((stage .prepareEvent).andThen (selection m i)) w (p :: ps) r v)
    (smooth : ∀ q ∈ p :: ps, q.Smooth E m i) {a : Value} (answers : ∀ q ∈ p :: ps, q.Answers f a) :
    ∃ fired, r = .ok fired ∧ p.finish.Chosen t₁ t₂ a fired (ps.map Pass.stage) := by
  obtain ⟨q, qs, u, hq, -, rfl, -, ts, u', found, tried⟩ := andThen_through hE (by nofun) h smooth
  obtain ⟨rfl, rfl⟩ := List.cons.inj hq
  rw [Engine.candidatesFor_apply hp.found] at found
  obtain ⟨rfl, rfl⟩ : ts = [t₁, t₂] ∧ u' = p.finish := by simpa using (Prod.mk.inj found).imp Eq.symm Eq.symm
  exact trials_chosen hE hp tried (List.forall_mem_cons.mp smooth).2 (List.forall_mem_cons.mp answers).2

/-- Two parts begin with what the first one begins with. -/
theorem andThen_begins (h : andThen (stage s) B w ps r v) : ∃ p qs, ps = p :: qs ∧ p.stage = s ∧ p.start = w := by
  cases h with
  | cut h | on h =>
    obtain ⟨xs, rfl⟩ := h
    exact ⟨_, _, rfl, rfl, rfl⟩

/-- A firing begins with the machine's preparation. -/
theorem processing_begins (h : processing m i w ps r v) :
    ∃ p qs, ps = p :: qs ∧ p.stage = .prepareEvent ∧ p.start = w := by
  cases h with
  | endless h => exact andThen_begins h
  | closed h =>
    obtain ⟨p, qs, rfl, hp⟩ := andThen_begins h
    exact ⟨p, _, rfl, hp⟩

/-- Where nothing fails in a firing, the one of its two candidates is carried out that the predicate decides for. -/
theorem processing_chosen (hE : E.Walks Longer) {p : Pass} {t₁ t₂ : TransitionId} {f : Callback}
    (hp : p.finish.Forks m i t₁ t₂ f) (h : processing m i w (p :: ps) r v)
    (smooth : ∀ q ∈ p :: ps, q.Smooth E m i) {a : Value} (answers : ∀ q ∈ p :: ps, q.Answers f a) :
    ∃ fired trail, r = .ok fired ∧ (p :: ps).map Pass.stage = .prepareEvent :: (trail ++ [.finalizeEvent]) ∧
      p.finish.Chosen t₁ t₂ a fired trail := by
  generalize hqs : p :: ps = qs at h
  cases h with
  | endless h =>
    subst hqs
    obtain ⟨fired, hr, -⟩ := selection_chosen hE hp h smooth answers
    cases hr
  | @closed qs rs _ _ _ _ _ h _ hz =>
    obtain ⟨q, qs, rfl, hq, -⟩ := andThen_begins h
    obtain ⟨rfl, rfl⟩ := List.cons.inj hqs
    obtain ⟨smooth, closing⟩ : (∀ q ∈ p :: qs, q.Smooth E m i) ∧ ∀ q ∈ rs, q.Smooth E m i :=
      List.forall_mem_append.mp smooth
    obtain ⟨answers, -⟩ : (∀ q ∈ p :: qs, q.Answers f a) ∧ ∀ q ∈ rs, q.Answers f a := List.forall_mem_append.mp answers
    obtain ⟨fired, hr, chosen⟩ := selection_chosen hE hp h smooth answers
    obtain ⟨rfl, last, -⟩ := stage_through hE (by nofun) hz closing
    refine ⟨fired, qs.map Pass.stage, hr, ?_, chosen⟩
    rw [← List.cons_append, List.map_append, List.map_cons, last, hq]

end Account

namespace Engine

/-- An event that has candidates for the state of a model is processed on a machine that has taken it up, beginning
with the machine's preparation. If there are then two candidates, one with a predicate for its condition and the other
with it for its exclusion, if the predicate gives the same whenever it is asked, and if nothing fails, then the first is
carried out where that equals true, and the second behind it where it equals false. Where it equals neither, both
decline. Whether one has been carried out is what the trigger reports. -/
theorem predicate_decides_between_candidates (host : Host) (bound depth : Nat) {m : MachineId} {w v : World}
    {e : EventId} {model : Value} (args : List Value) (named : Named) {s : StateId} (hm : (w.events.get e).machine = m)
    (hbusy : (w.machine m).line.inFlight = true) (hs : (ofHost host bound depth).currentState m model w = (.ok s, v))
    (hc : (v.events.get e).candidates.contains (v.states.get s).name = true) :
    ∃ p qs verdict u, (ofHost host bound depth).fireNow e model args named w = (verdict.map Value.bool, u) ∧
      p.stage = .prepareEvent ∧
      p.start = v.opened { state := s, event := e, machine := m, model := model, args := args, named := named } ∧
      Account.processing m v.firings.next p.start (p :: qs) verdict u ∧
      (∀ q ∈ p :: qs, q.Sound (ofHost host bound depth) m v.firings.next) ∧
      ∀ t₁ t₂ f a, p.finish.Forks m v.firings.next t₁ t₂ f → (∀ q ∈ p :: qs, ∀ e, q.verdict ≠ .error e) →
        (∀ q ∈ p :: qs, q.Answers f a) →
        ∃ fired trail, verdict = .ok fired ∧ (p :: qs).map Pass.stage = .prepareEvent :: (trail ++ [.finalizeEvent]) ∧
          p.finish.Chosen t₁ t₂ a fired trail ∧
          (ofHost host bound depth).Settles m (.fire e model args named) w u (.ok (.bool fired)) := by
  obtain ⟨E, hE⟩ : ∃ E, E = ofHost host bound depth := ⟨_, rfl⟩
  have longer : E.Walks Longer := hE ▸ longer_ofHost host bound depth
  have abides : E.Walks (Abides v.firings.next) := hE ▸ abides_ofHost host _ bound depth
  have holding : E.Walks (Holding m) := hE ▸ holding_ofHost host m bound depth
  rw [← hE] at hs ⊢
  rcases h : E.fireNow e model args named w with ⟨r, u⟩
  obtain ⟨ps, verdict, rfl, account, sound⟩ := processFiring_processing longer abides
    (underway_opened v { state := s, event := e, machine := m, model := model, args := args, named := named })
    ((fireNow_opened hm hs hc).symm.trans h)
  obtain ⟨p, qs, rfl, hp, start⟩ := Account.processing_begins account
  refine ⟨p, qs, verdict, u, rfl, hp, start, start ▸ account, sound, fun t₁ t₂ f a forks ends answers => ?_⟩
  obtain ⟨fired, trail, rfl, stages, chosen⟩ :=
    Account.processing_chosen longer forks account (fun q hq => ⟨sound q hq, ends q hq⟩) answers
  have walks : Act.Walks (Holding m) (E.fireNow e model args named) :=
    holding.fireNow (permits_holding (fun _ => True) m) e model args named
  exact ⟨fired, trail, rfl, stages, chosen, settles_of_run h (holding_of_steps (walks.steps h) hbusy)⟩

end Engine

/-- Callbacks that all give the same. -/
def turnstileHost (a : Value) : Host where
  behaviour := fun _ _ _ _ => .done a

def turnstileEngine (a : Value) : Engine := Engine.ofHost (turnstileHost a) 4 1

/-- A locked turnstile that turns when it is pushed by someone who has paid, and is barred if not. -/
def turnstilePlan : Blueprint where
  options := { initial := .text "locked", autoTransitions := .bool false }
  states := .list [.text "locked", .text "turned", .text "barred"]
  transitions := .list [
    .list [.text "push", .text "locked", .text "turned", .callback "paid"],
    .list [.text "push", .text "locked", .text "barred", .null, .callback "paid"]]
  models := .model "turnstile"

def turnstileBuilt : World := ((turnstileEngine .null).perform (.create "turnstiles" turnstilePlan) {}).2

/-- The turnstile while it is pushed. -/
def turnstileWorld : World := turnstileBuilt.taking 0 (.fire 0 (.model "turnstile") [] [])

/-- What comes of the push, by the value that tells whether someone has paid. -/
def turnstilePushed (a : Value) : Except Stop Value × World :=
  (turnstileEngine a).fireNow 0 (.model "turnstile") [] [] turnstileWorld

theorem turnstile_asks (a : Value) (m : MachineId) (i : FiringId) (w : World) :
    ((turnstileEngine a).consult m (.callback "paid") i w).1 = .ok a := by
  unfold Engine.consult Engine.resolve Engine.callFor
  simp only [Value.text?, pure_bind, bind_assoc]
  rw [Act.bind_of_ok (Act.get_apply w)]
  split <;> rfl

theorem turnstileWorld_facts :
    (turnstileWorld.events.get 0).machine = 0 ∧ (turnstileWorld.machine 0).line.inFlight = true ∧
      (turnstileWorld.events.get 0).candidates.find? (.text "locked") = some [0, 1] ∧
      (turnstileWorld.transitions.get 0).guards = [⟨.callback "paid", .bool true⟩] ∧
      (turnstileWorld.transitions.get 1).guards = [⟨.callback "paid", .bool false⟩] := by
  have built : (some turnstileWorld).map (fun w => ((w.events.get 0).machine, (w.machine 0).line.inFlight,
      (w.events.get 0).candidates.find? (.text "locked"), (w.transitions.get 0).guards, (w.transitions.get 1).guards)) =
      some (0, true, some [0, 1], [⟨.callback "paid", .bool true⟩], [⟨.callback "paid", .bool false⟩]) := by cbv
  simpa only [Option.map_some, Option.some.injEq, Prod.mk.injEq] using built

/-- The turnstile as it is found by someone who has paid. -/
def turnstileFound : World := ((turnstileEngine (.int 1)).currentState 0 (.model "turnstile") turnstileWorld).2

theorem turnstile_locked :
    (turnstileEngine (.int 1)).currentState 0 (.model "turnstile") turnstileWorld = (.ok 0, turnstileFound) := by
  have read : ((turnstileEngine (.int 1)).currentState 0 (.model "turnstile") turnstileWorld).1 = .ok 0 := by cbv
  exact Prod.ext read rfl

theorem turnstileFound_facts :
    (turnstileFound.events.get 0).candidates.find? (turnstileFound.states.get 0).name = some [0, 1] ∧
      (turnstileFound.events.get 0).machine = 0 ∧
      (turnstileFound.transitions.get 0).guards = [⟨.callback "paid", .bool true⟩] ∧
      (turnstileFound.transitions.get 1).guards = [⟨.callback "paid", .bool false⟩] ∧
      (turnstileFound.machine 0).states.keys = [.text "locked", .text "turned", .text "barred"] ∧
      (turnstileFound.machine 0).prepareEvent = [] := by
  have found : (some turnstileFound).map (fun v => ((v.events.get 0).candidates.find? (v.states.get 0).name,
      (v.events.get 0).machine, (v.transitions.get 0).guards, (v.transitions.get 1).guards, (v.machine 0).states.keys,
      (v.machine 0).prepareEvent)) =
      some (some [0, 1], 0, [⟨.callback "paid", .bool true⟩], [⟨.callback "paid", .bool false⟩],
        [.text "locked", .text "turned", .text "barred"], []) := by cbv
  simpa only [Option.map_some, Option.some.injEq, Prod.mk.injEq] using found

/-- The firing of the push. -/
def turnstileFiring : Firing := { state := 0, event := 0, machine := 0, model := .model "turnstile" }

theorem turnstileFound_reachable : (turnstileFound.opened turnstileFiring).Reachable := by
  have checked (a : Value) : (turnstileHost a).Within Operation.Checked := fun _ _ _ _ => trivial
  have built : turnstileBuilt.Reachable :=
    World.Reachable.perform ⟨{}, ⟨rfl, rfl, rfl, rfl⟩, .refl⟩ (checked .null) 4 1 trivial
  have taken : Changes turnstileBuilt turnstileWorld := .single (.tune _ 0 (fun _ => ⟨rfl, rfl, rfl⟩))
  have read : Changes turnstileWorld turnstileFound :=
    ((Engine.changes_ofHost (checked (.int 1)) 4 1).currentState 0 (.model "turnstile")).steps turnstile_locked
  have opened : Changes turnstileFound (turnstileFound.opened turnstileFiring) := World.Aside.steps ⟨rfl, rfl, rfl, rfl⟩
  exact built.later ((taken.trans read).trans opened)

theorem turnstileFound_plain : turnstileFound.PlainNames 0 := by
  obtain ⟨-, -, -, -, keys, -⟩ := turnstileFound_facts
  intro k hk
  rw [keys] at hk
  simp only [List.mem_cons, List.not_mem_nil, or_false] at hk
  rcases hk with rfl | rfl | rfl <;> exact ⟨_, rfl⟩

/-- Whoever pushes the turnstile comes to two ways, one for those who have paid and one for those who have not. -/
theorem turnstile_forks :
    (turnstileFound.opened turnstileFiring).Forks 0 turnstileFound.firings.next 0 1 (.callback "paid") := by
  obtain ⟨found, machine, condition, exclusion, -⟩ := turnstileFound_facts
  have opened : (turnstileFound.opened turnstileFiring).firings.get turnstileFound.firings.next = turnstileFiring := by
    simp [World.opened]
  refine turnstileFound_reachable.regular.forks turnstileFound_plain ?_ ?_ condition exclusion
  · rw [opened]
    exact machine
  · rw [opened]
    exact found

theorem turnstilePushed_facts : (turnstilePushed (.int 1)).1 = .ok (.bool true) ∧
    (turnstilePushed .null).1 = .ok (.bool false) ∧ (turnstilePushed .null).2.callLabels = ["paid", "paid"] ∧
    ((turnstilePushed .null).2.model "turnstile").attributes.find? "state" = some (.text "locked") := by
  have paid : (turnstilePushed (.int 1)).1 = .ok (.bool true) := by cbv
  have unknown : Prod.map id (fun u : World => (u.callLabels, (u.model "turnstile").attributes.find? "state"))
      (turnstilePushed .null) = (.ok (.bool false), ["paid", "paid"], some (.text "locked")) := by cbv
  refine ⟨paid, ?_⟩
  simpa only [Prod.map, id, Prod.mk.injEq] using unknown

/-- A one is as good as true: the turnstile turns, and the way to the bar is not tried. -/
theorem turnstile_turns_for_one :
    (turnstileWorld.events.get 0).machine = 0 ∧ (turnstileWorld.machine 0).line.inFlight = true ∧
      (turnstileFound.events.get 0).candidates.contains (turnstileFound.states.get 0).name = true ∧
      ∃ p qs u trail, turnstilePushed (.int 1) = (.ok (.bool true), u) ∧
        p.finish.Forks 0 turnstileFound.firings.next 0 1 (.callback "paid") ∧
        (∀ q ∈ p :: qs, q.Answers (.callback "paid") (.int 1)) ∧
        (p :: qs).map Pass.stage = .prepareEvent :: (trail ++ [.finalizeEvent]) ∧ p.finish.CarriedOut 0 trail := by
  obtain ⟨machine, busy, -⟩ := turnstileWorld_facts
  obtain ⟨found, -, -, -, -, unprepared⟩ := turnstileFound_facts
  obtain ⟨turned, -⟩ := turnstilePushed_facts
  have entry : (turnstileFound.events.get 0).candidates.contains (turnstileFound.states.get 0).name = true := by
    rw [Table.contains, found]
    rfl
  obtain ⟨p, qs, verdict, u, fires, stage, start, account, sound, decides⟩ :=
    Engine.predicate_decides_between_candidates (turnstileHost (.int 1)) 4 1 [] [] machine busy turnstile_locked entry
  have fires : turnstilePushed (.int 1) = (verdict.map Value.bool, u) := fires
  have verdict_true : verdict = .ok true := by
    rw [fires] at turned
    cases verdict with
    | error e => cases turned
    | ok b =>
      cases turned
      rfl
  subst verdict_true
  have forks : p.finish.Forks 0 turnstileFound.firings.next 0 1 (.callback "paid") := by
    refine (sound p List.mem_cons_self).forks (by rw [stage]; rfl) ?_ (start ▸ turnstile_forks)
    rw [stage, start]
    exact congrArg (List.map Cue.run) unprepared
  have answers : ∀ q ∈ p :: qs, q.Answers (.callback "paid") (.int 1) :=
    fun q hq => (sound q hq).answers (turnstile_asks (.int 1) 0 _)
  obtain ⟨fired, trail, -, stages, chosen, -⟩ :=
    decides 0 1 _ _ forks ((Account.attests_processing 0 _).settled _ _ _ _ account) answers
  have paid : (Value.int 1).same (.bool true) = true := by cbv
  exact ⟨machine, busy, entry, p, qs, u, trail, fires, forks, answers, stages, (chosen.first paid).2⟩

/-- If it is unknown whether someone has paid, the turnstile is asked for both ways, and goes neither. -/
theorem turnstile_stays_for_null :
    (turnstileWorld.events.get 0).candidates.find? (.text "locked") = some [0, 1] ∧
      (turnstileWorld.transitions.get 0).guards = [⟨.callback "paid", .bool true⟩] ∧
      (turnstileWorld.transitions.get 1).guards = [⟨.callback "paid", .bool false⟩] ∧
      (∀ m i w, ((turnstileEngine .null).consult m (.callback "paid") i w).1 = .ok .null) ∧
      (turnstilePushed .null).1 = .ok (.bool false) ∧ (turnstilePushed .null).2.callLabels = ["paid", "paid"] ∧
      ((turnstilePushed .null).2.model "turnstile").attributes.find? "state" = some (.text "locked") := by
  obtain ⟨-, -, found, condition, exclusion⟩ := turnstileWorld_facts
  obtain ⟨-, declined, asked, locked⟩ := turnstilePushed_facts
  exact ⟨found, condition, exclusion, turnstile_asks .null, declined, asked, locked⟩

end StateEngine
