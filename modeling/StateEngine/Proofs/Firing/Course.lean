import StateEngine.Machine.Firing

/-! The course that the processing of a firing is to take: which callbacks it consults in which order,
where it puts the model, and where it breaks off. -/
namespace StateEngine

/-- One thing to do in the course of a firing: run a callback, ask a guard, or move the model. -/
inductive Cue where
  | run (callback : Callback)
  | ask (guard : Guard)
  | move (dest : Value)

/-- Whether a value that came of a cue lets the course go on. -/
def Cue.passes : Cue → Value → Bool
  | .ask g, v => v.same g.target
  | _, _ => true

def Cue.moves : Cue → Bool
  | .move _ => true
  | _ => false

/-- A cue that was taken up, between which worlds, and how it ended. -/
structure Moment where
  cue : Cue
  before : World
  outcome : Except Fault Value
  after : World

/-- Cues are taken up one after the other, up to the first that fails or does not pass. The verdict tells
whether all passed. -/
inductive Follows : List Cue → List Moment → Except Fault Bool → Prop where
  | done : Follows [] [] (.ok true)
  | passed {cue : Cue} {x : Moment} {v : Value} {cues : List Cue} {xs : List Moment}
      {verdict : Except Fault Bool} (hc : x.cue = cue) (ho : x.outcome = .ok v)
      (hp : cue.passes v = true) (h : Follows cues xs verdict) : Follows (cue :: cues) (x :: xs) verdict
  | halted {cue : Cue} {x : Moment} {v : Value} (cues : List Cue) (hc : x.cue = cue)
      (ho : x.outcome = .ok v) (hp : cue.passes v = false) : Follows (cue :: cues) [x] (.ok false)
  | failed {cue : Cue} {x : Moment} {f : Fault} (cues : List Cue) (hc : x.cue = cue)
      (ho : x.outcome = .error f) : Follows (cue :: cues) [x] (.error f)

/-- Candidates are tried one after the other, up to the first whose cues all pass or one of whose cues
fails. -/
inductive Tries : List (List Cue) → List Moment → Except Fault Bool → Prop where
  | none : Tries [] [] (.ok false)
  | halted {cues : List Cue} {rest : List (List Cue)} {xs ys : List Moment}
      {verdict : Except Fault Bool} (h : Follows cues xs (.ok false)) (hr : Tries rest ys verdict) :
      Tries (cues :: rest) (xs ++ ys) verdict
  | settled {cues : List Cue} {xs : List Moment} {verdict : Except Fault Bool}
      (rest : List (List Cue)) (h : Follows cues xs verdict) (hv : verdict ≠ .ok false) :
      Tries (cues :: rest) xs verdict

namespace Follows

variable {cues more : List Cue} {xs ys : List Moment} {verdict : Except Fault Bool}

/-- What is cut short is cut short whatever would have followed. -/
theorem cut (h : Follows cues xs verdict) (hv : verdict ≠ .ok true) (more : List Cue) :
    Follows (cues ++ more) xs verdict := by
  induction h with
  | done => exact absurd rfl hv
  | passed hc ho hp _ ih => exact .passed hc ho hp (ih hv)
  | halted cues hc ho hp => exact .halted _ hc ho hp
  | failed cues hc ho => exact .failed _ hc ho

/-- What has passed goes on with what follows. -/
theorem append (h : Follows cues xs (.ok true)) (h' : Follows more ys verdict) :
    Follows (cues ++ more) (xs ++ ys) verdict := by
  generalize hp : (Except.ok true : Except Fault Bool) = passed at h
  induction h with
  | done => exact h'
  | passed hc ho hp' _ ih => exact .passed hc ho hp' (ih hp)
  | halted => cases hp
  | failed => cases hp

/-- The cues taken up are the first ones of those given. -/
theorem cues_prefix (h : Follows cues xs verdict) : xs.map Moment.cue <+: cues := by
  induction h with
  | done => exact List.prefix_rfl
  | passed hc _ _ _ ih => exact hc ▸ (List.prefix_cons_inj _).mpr ih
  | halted cues hc _ _ => exact hc ▸ (List.prefix_cons_inj _).mpr List.nil_prefix
  | failed cues hc _ => exact hc ▸ (List.prefix_cons_inj _).mpr List.nil_prefix

/-- Where no cue moves the model, nothing does. -/
theorem still (h : Follows cues xs verdict) (hc : ∀ cue ∈ cues, cue.moves = false) :
    ∀ x ∈ xs, x.cue.moves = false := fun _ hx =>
  hc _ (h.cues_prefix.subset (List.mem_map_of_mem hx))

end Follows

namespace World

/-- The callbacks that run when the state is entered that is registered under a name. -/
def entryCues (w : World) (m : MachineId) (name : Value) : List Cue :=
  match w.lookupState m name with
  | .ok d => (w.states.get d).onEnter.map .run
  | .error _ => []

/-- The way from a state to a destination: out of the one, into the model, into the other. Without a
destination there is no way. -/
def passageCues (w : World) (m : MachineId) (s : StateId) (t : Transition) : List Cue :=
  if t.internal then []
  else (w.states.get s).onExit.map .run ++ .move t.dest :: w.entryCues m t.dest

/-- All that a candidate may have to do: its preparation, its conditions and then its exclusions, and
what happens once they have all passed. -/
def candidateCues (w : World) (m : MachineId) (s : StateId) (t : Transition) : List Cue :=
  t.prepare.map .run ++ (t.conditions ++ t.exclusions).map .ask ++
    (((w.machine m).beforeChange ++ t.before).map .run ++ w.passageCues m s t ++
      (t.after ++ (w.machine m).afterChange).map .run)

end World

/-- The course of a firing in a state: the machine's preparation, the candidates, and however these ended
the finalising callbacks. A fault of the latter takes the place of one before. -/
inductive Course (w : World) (m : MachineId) (s : StateId) (candidates : List Transition) :
    List Moment → Except Fault Bool → Prop where
  | unprepared {xs zs : List Moment} {f : Fault} {closing : Except Fault Bool}
      (hp : Follows ((w.machine m).prepareEvent.map .run) xs (.error f))
      (hf : Follows ((w.machine m).finalizeEvent.map .run) zs closing) :
      Course w m s candidates (xs ++ zs) (closing >>= fun _ => .error f)
  | prepared {xs ys zs : List Moment} {verdict closing : Except Fault Bool}
      (hp : Follows ((w.machine m).prepareEvent.map .run) xs (.ok true))
      (hc : Tries (candidates.map (w.candidateCues m s)) ys verdict)
      (hf : Follows ((w.machine m).finalizeEvent.map .run) zs closing) :
      Course w m s candidates (xs ++ ys ++ zs) (closing >>= fun _ => verdict)

namespace World

variable {w v : World} {m : MachineId} {line : Line Task}

theorem lookupState_congr (hs : v.states = w.states)
    (hm : v.machine m = { w.machine m with line := line }) (x : Value) :
    v.lookupState m x = w.lookupState m x := by
  have name : v.nameOf x = w.nameOf x := by
    cases x <;> simp [nameOf, hs]
  unfold lookupState
  rw [name, hm]

/-- The cues of a candidate depend on the states and the machine alone, and not on its line. -/
theorem candidateCues_congr (hs : v.states = w.states)
    (hm : v.machine m = { w.machine m with line := line }) (s : StateId) (t : Transition) :
    v.candidateCues m s t = w.candidateCues m s t := by
  unfold candidateCues passageCues entryCues
  rw [lookupState_congr hs hm, hs, hm]

end World

theorem Course.congr {w v : World} {m : MachineId} {line : Line Task} (hs : v.states = w.states)
    (hm : v.machine m = { w.machine m with line := line }) {s : StateId} {candidates : List Transition}
    {xs : List Moment} {verdict : Except Fault Bool} (h : Course v m s candidates xs verdict) :
    Course w m s candidates xs verdict := by
  have cues : v.candidateCues m s = w.candidateCues m s := funext (World.candidateCues_congr hs hm s)
  have prepare : (v.machine m).prepareEvent = (w.machine m).prepareEvent := by rw [hm]
  have finalize : (v.machine m).finalizeEvent = (w.machine m).finalizeEvent := by rw [hm]
  cases h with
  | unprepared hp hf => exact .unprepared (prepare ▸ hp) (finalize ▸ hf)
  | prepared hp hc hf => exact .prepared (prepare ▸ hp) (cues ▸ hc) (finalize ▸ hf)

end StateEngine
