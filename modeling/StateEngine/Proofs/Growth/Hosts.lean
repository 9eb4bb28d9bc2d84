import StateEngine.Machine.Program
import StateEngine.Proofs.Growth.Firing

/-! Host code that asks a machine for nothing, and does the same for one that has grown. -/
namespace StateEngine
open Act World Relation

/-- An operation on an attribute of a model, and on no machine. -/
def Operation.Writes : Operation → Prop
  | .writeAttribute .. | .dropAttribute .. => True
  | _ => False

/-- Performs no operation on a machine, and asks for the same in two worlds to which the same has happened. -/
def Program.Writes (m : MachineId) (line : Line Task) (w v : World) : Program → Prop
  | .done _ | .fail _ => True
  | .read _ _ next => ∀ r, (next r).Writes m line w v
  | .perform _ request next =>
    (∀ u u', Apace m line w v u u' → request u' = request u) ∧
      (∀ u op, request u = .ok op → op.Writes) ∧ ∀ r, (next r).Writes m line w v

/-- A host whose callbacks perform no operation on a machine, and do the same in two worlds to which the same has
happened. How often they were called before may matter to them if it is the same at the outset. -/
structure Host.Repeats (host : Host) (m : MachineId) (line : Line Task) (w v : World) : Prop where
  writes : ∀ callback call u count, (host.behaviour callback call u count).Writes m line w v
  same : ∀ callback call u u' count count', Apace m line w v u u' →
    (∀ i, call = .firing i → u'.snapshot i = u.snapshot i) → (v.invocations = w.invocations → count' = count) →
    host.behaviour callback call u' count' = host.behaviour callback call u count

variable {m : MachineId} {line : Line Task} {w v u u' : World}

namespace World

/-- A callback begins in both worlds. -/
theorem Apace.enter (h : Apace m line w v u u') (callback : String) (entry : Entry) :
    Apace m line w v
      { u with
        invocations := u.invocations.insert callback ((u.invocations.find? callback).getD 0 + 1)
        history := u.history.push entry }
      { u' with
        invocations := u'.invocations.insert callback ((u'.invocations.find? callback).getD 0 + 1)
        history := u'.history.push entry } := by
  obtain ⟨⟨firings, rosters, ledgers, models, invocations, -⟩, left, right, machine, others⟩ := h.record entry
  exact ⟨⟨firings, rosters, ledgers, models, fun same => by rw [h.invocations same], (h.record entry).history⟩, left, right,
    machine, others⟩

theorem Apace.request (h : Apace m line w v u u') :
    Apace m line w v { u with requests := u.requests + 1 } { u' with requests := u'.requests + 1 } :=
  ⟨⟨h.firings, h.rosters, h.ledgers, h.models, h.invocations, h.history⟩, h.left, h.right, h.machine, h.others⟩

theorem Apace.dropAttribute (h : Apace m line w v u u') (owner : Value) (name : String) :
    (∃ f, u.dropAttribute owner name = .error f ∧ u'.dropAttribute owner name = .error f) ∨
      ∃ z z', u.dropAttribute owner name = .ok z ∧ u'.dropAttribute owner name = .ok z' ∧ Apace m line w v z z' := by
  cases owner with
  | model x =>
    simp only [World.dropAttribute, h.sameModel]
    split
    · exact .inr ⟨_, _, rfl, rfl, h.updateModel x _⟩
    · exact .inl ⟨_, rfl, rfl⟩
  | _ => exact .inl ⟨_, rfl, rfl⟩

/-- What is noted besides the registries leaves them alone. -/
theorem Noted.steady (h : Noted u u') : Steady u u' := by
  rw [h.rest]
  exact ⟨rfl, rfl, rfl, rfl, rfl, rfl⟩

end World

namespace Engine

variable {E : Engine} {op : Operation} {p : Program}

theorem apace_perform (hop : op.Writes) : InStep (Apace m line w v) (E.perform op) (E.perform op) := by
  cases op with
  | writeAttribute model name a => exact .bind (.advance (fun _ _ h => h.writeAttribute model name a)) (fun _ => .pure _)
  | dropAttribute model name => exact .bind (.advance (fun _ _ h => h.dropAttribute model name)) (fun _ => .pure _)
  | _ => exact hop.elim

theorem steady_perform (hop : op.Writes) : Act.Walks Steady (E.perform op) := by
  cases op with
  | writeAttribute model name a =>
    exact .bind (.advance (fun _ _ written => .single (Noted.writeAttribute written).steady)) (fun _ => .pure _)
  | dropAttribute model name =>
    exact .bind (.advance (fun _ _ dropped => .single (Noted.dropAttribute dropped).steady)) (fun _ => .pure _)
  | _ => exact hop.elim

/-- A program that performs no operation on a machine leaves machines alone. -/
theorem steady_runProgram (hE : E.Walks Steady) (hp : p.Writes m line w v) : Act.Walks Steady (E.runProgram p) := by
  have same {u z : World} (rest : z = { u with requests := z.requests, history := z.history }) : Steady u z := by
    rw [rest]
    exact ⟨rfl, rfl, rfl, rfl, rfl, rfl⟩
  induction p with
  | done a => exact .pure a
  | fail f => exact .fail f
  | read owner name next ih => exact .bind (.attempt (hE.readAttribute owner name)) (fun r => ih r (hp r))
  | perform verb request next ih =>
    obtain ⟨-, hops, hnext⟩ := hp
    have asked : Act.Walks Steady (E.request request) := by
      refine .bind (.change (fun _ => .single (same rfl))) (fun _ => .ask_bind (fun u op hop => ?_))
      exact steady_perform (hops u op hop) u
    exact .bind (.attempt asked) (fun r => .bind (.change (fun _ => .single (same rfl))) (fun _ => ih r (hnext r)))

/-- A program runs the same way. -/
theorem apace_runProgram (hE : E.Repeats m line w v) (hp : p.Writes m line w v) :
    InStep (Apace m line w v) (E.runProgram p) (E.runProgram p) := by
  induction p with
  | done a => exact .pure a
  | fail f => exact .fail f
  | read owner name next ih => exact .bind (.attempt (apace_readAttribute hE owner name)) (fun r => ih r (hp r))
  | perform verb request next ih =>
    obtain ⟨hsame, hops, hnext⟩ := hp
    have asked : InStep (Apace m line w v) (E.request request) (E.request request) := by
      refine .bind (.change (fun _ _ h => h.request)) (fun _ u u' h => ?_)
      refine (InStep.ask hsame u u' h).bind (fun op z z' hop _ h => ?_)
      exact apace_perform (hops _ op (ok_of_ask hop).1) z z' h
    exact .bind asked.attempt (fun r => .bind (.change (fun _ _ h => h.record _)) (fun _ => ih r (hnext r)))

/-- The engine of such a host repeats what it did. -/
theorem repeats_ofHost {host : Host} (hhost : host.Repeats m line w v) (bound depth : Nat) :
    (ofHost host bound depth).Repeats m line w v := by
  have record (u : World) (entry : Entry) : ReflTransGen Steady u (u.record entry) := .single ⟨rfl, rfl, rfl, rfl, rfl, rfl⟩
  induction depth with
  | zero => exact ⟨⟨fun _ _ _ => .exhausted, record⟩, fun _ _ _ _ _ h _ => ⟨rfl, h⟩⟩
  | succ depth ih =>
    refine ⟨⟨fun label callback call => ?_, record⟩, fun label callback call u u' h snapshots => ?_⟩
    · have entered := (noted_enterCallback label callback call).mono (fun _ _ noted => .single noted.steady)
      exact .bind entered (fun count => .bind .get (fun u =>
        steady_runProgram ih.steady (hhost.writes callback call u count)))
    · have entry : callEntry u' label call = callEntry u label call := by
        cases call with
        | arguments args named => rfl
        | firing i => rw [callEntry, callEntry, snapshots i rfl]
      have entered := h.enter callback (callEntry u label call)
      have counted : v.invocations = w.invocations →
          (u'.invocations.find? callback).getD 0 = (u.invocations.find? callback).getD 0 :=
        fun same => by rw [h.invocations same]
      have behaves := hhost.same callback call _ _ _ _ entered snapshots counted
      have called (z : World) : (ofHost host bound (depth + 1)).call label callback call z =
          (ofHost host bound depth).runProgram (host.behaviour callback call
            { z with
              invocations := z.invocations.insert callback ((z.invocations.find? callback).getD 0 + 1)
              history := z.history.push (callEntry z label call) } ((z.invocations.find? callback).getD 0))
            { z with
              invocations := z.invocations.insert callback ((z.invocations.find? callback).getD 0 + 1)
              history := z.history.push (callEntry z label call) } := rfl
      unfold InStepAt
      rw [called, called, entry, behaves]
      exact apace_runProgram ih (hhost.writes _ _ _ _) _ _ entered

end Engine

end StateEngine
