import StateEngine.Proofs.Queue.Muted

/-! While a queued machine processes a trigger, its callbacks and the muted ones of an unqueued machine
keep in tandem: what the former put in the line the latter note. -/
namespace StateEngine
open Act World

/-- A world with one more task behind those in the line of a machine. -/
def World.queueing (w : World) (m : MachineId) (tasks : List Task) (task : Task) : World :=
  w.updateMachine m (fun machine => { machine with line := .queued (tasks ++ [task]) })

/-- The world in which a callback begins that has just been called. -/
def World.entering (w : World) (label callback : String) (call : Call) : World :=
  { w with
    invocations := w.invocations.insert callback ((w.invocations.find? callback).getD 0 + 1)
    history := w.history.push (Engine.callEntry w label call) }

variable {m : MachineId} {events : Table Value EventId} {start : List Entry} {first head : Shot}
  {done : List Shot} {w v : World}

theorem World.Alike.requested (h : w.Alike m v) :
    ({ w with requests := w.requests + 1 } : World).Alike m { v with requests := v.requests + 1 } := by
  refine { h with requests := ?_ }
  simp only [h.requests]

theorem World.Alike.callEntry (h : w.Alike m v) (label : String) (call : Call) :
    Engine.callEntry v label call = Engine.callEntry w label call := by
  cases call with
  | arguments args named => rfl
  | firing i => simp only [Engine.callEntry, World.snapshot, h.firings, h.states, h.events, h.transitions]

theorem World.Alike.ignoreFlag (h : w.Alike m v) (n : MachineId) (s : StateId) :
    v.ignoreFlag n s = w.ignoreFlag n s := by
  unfold World.ignoreFlag
  rw [h.states, h.field Machine.ignore (fun _ _ _ => rfl)]

/-- What is not telling may be recorded in the first world alone. -/
theorem World.Alike.recorded (h : w.Alike m v) {entry : Entry} (he : entry.telling = false) :
    (w.record entry).Alike m v := by
  refine { h with history := ?_ }
  simp only [World.record, Array.toList_push, List.filter_append, h.history]
  simp [he]

theorem World.Alike.lined (h : w.Alike m v) (line : Line Task) :
    (w.updateMachine m (fun machine => { machine with line := line })).Alike m v := by
  obtain ⟨line', hasQueue, hm⟩ := h.machine
  refine { h with machines := fun n hn => ?_, machine := ⟨line', hasQueue, ?_⟩ }
  · rw [machine_updateMachine, if_neg hn.symm]
    exact h.machines n hn
  · rw [machine_updateMachine, if_pos rfl, hm]

namespace Engine

/-- Fires a shot on a machine. -/
def shoot (E : Engine) (m : MachineId) (x : Shot) : Run Value := E.trigger m x.model x.name x.args x.named

/-- A registered shot is handed to the line of its machine. -/
theorem shoot_submits (E : Engine) {x : Shot} (hx : x.Registered (w.machine m).events)
    (ho : ∀ y ∈ (w.machine m).events.entries, (w.events.get y.2).machine = m) :
    E.shoot m x w = (E.setting m (w.machine m).label).submit (x.task (w.machine m).events) w := by
  obtain ⟨hargs, hhash, e, he⟩ := hx
  have asked : Act.ask (fun w => w.eventOf? m x.name) w = (.ok (some e), w) := by
    rw [ask_apply]
    simp only [eventOf?, hhash, if_true, he]
    rfl
  have owner : (w.events.get e).machine = m := by
    obtain ⟨k, -, hmem⟩ := Table.mem_of_find? he
    exact ho _ hmem
  have task : x.task (w.machine m).events = .fire e x.model x.args x.named := by
    rw [Shot.task, he]
    rfl
  unfold shoot trigger
  rw [hargs, if_neg (by simp), bind_of_ok asked]
  simp only []
  rw [bind_of_ok (get_apply w), owner, ← task]
  exact bind_of_ok (get_apply w)

/-- A shot that is fired in the midst of a processing on a queued machine is put behind all others, and
its caller is told no more than that. -/
theorem shoot_busy (E : Engine) {x : Shot} {tasks : List Task} {task : Task}
    (hx : x.Registered (w.machine m).events)
    (ho : ∀ y ∈ (w.machine m).events.entries, (w.events.get y.2).machine = m)
    (hline : (w.machine m).line = .queued (task :: tasks)) :
    ∃ message, E.shoot m x w = (.ok (.bool true),
      (w.queueing m (task :: tasks) (x.task (w.machine m).events)).record (.remarked .debug .machine message)) := by
  rw [E.shoot_submits hx ho]
  unfold Line.Setting.submit
  rw [bind_of_ok (get_apply w)]
  have read : (E.setting m (w.machine m).label).slot.read w = .queued (task :: tasks) := hline
  simp only [read]
  exact ⟨_, rfl⟩

/-- Firing a shot and noting it keep in tandem. -/
theorem shoot_tandem (E : Engine) {x : Shot} (verb : String) (hx : x.Registered events)
    (h : Tandem m events start first done head w v) :
    ∃ w', E.shoot m x w = (.ok (.bool true), w') ∧
      Tandem m events start first done head w' (v.record (x.note verb)) ∧ w'.rosters = w.rosters := by
  obtain ⟨entries, more, hhistory, hshots, hmore, hline⟩ := h.shots
  obtain ⟨message, hfired⟩ := E.shoot_busy (h.table ▸ hx) (h.table ▸ h.owned) hline
  refine ⟨_, hfired, ?_, rfl⟩
  have machine : ((w.queueing m (head.task events :: more.map (Shot.task events)) (x.task (w.machine m).events)).record
      (.remarked .debug .machine message)).machine m = { w.machine m with
        line := .queued (head.task events :: more.map (Shot.task events) ++ [x.task (w.machine m).events]) } := by
    show (w.queueing m _ _).machine m = _
    rw [World.queueing, machine_updateMachine, if_pos rfl]
  refine ⟨(h.alike.lined _).record (.inr ⟨rfl, rfl⟩), ?_, h.owned, h.direct,
    entries ++ [x.note verb], more ++ [x], ?_, ?_, fun y hy => ?_, ?_⟩
  · rw [machine]
    exact h.table
  · rw [World.record, Array.toList_push, hhistory, List.append_assoc]
  · have noted : [x.note verb].filterMap Entry.shot? = [x] := rfl
    rw [List.filterMap_append, noted, ← List.cons_append, hshots, List.append_assoc, List.cons_append]
  · rcases List.mem_append.mp hy with hy | hy
    · exact hmore y hy
    · rw [List.mem_singleton.mp hy]
      exact hx
  · rw [machine, h.table]
    simp

/-- Firing a trigger on the models of a roster, which stays as it is, and noting these shots keep in
tandem. -/
theorem triggerEach_tandem (E : Engine) (verb : String) (roster : RosterId) {name : Value} {args : List Value}
    {named : Named} (hx : ∀ model, Shot.Registered events ⟨model, name, args, named⟩) (fuel position : Nat)
    (h : Tandem m events start first done head w v) :
    EchoesAt (Tandem m events start first done head) w v
      (E.triggerEach m roster name args named fuel position true)
      (do
        (((w.rosters.get roster).drop position).map (fun model => ⟨model, name, args, named⟩)).forM
          (fun x : Shot => Act.change (World.record (x.note verb)))
        return .bool true) := by
  induction fuel generalizing position w v with
  | zero => exact .exhausted
  | succ fuel ih =>
    cases hat : (w.rosters.get roster)[position]? with
    | none =>
      have short : (w.rosters.get roster).drop position = [] :=
        List.drop_eq_nil_of_le (List.getElem?_eq_none_iff.mp hat)
      have ended : E.triggerEach m roster name args named (fuel + 1) position true w = (.ok (.bool true), w) := by
        unfold triggerEach
        rw [bind_of_ok (get_apply w)]
        simp only [hat]
        rfl
      rw [short]
      exact fun _ => ⟨.ok (.bool true), w, v, ended, rfl, h, .ok _⟩
    | some model =>
      obtain ⟨hlt, hmodel⟩ := List.getElem?_eq_some_iff.mp hat
      have split : (w.rosters.get roster).drop position =
          model :: (w.rosters.get roster).drop (position + 1) := by
        rw [List.drop_eq_getElem_cons hlt, hmodel]
      obtain ⟨w', hfired, tandem, rosters⟩ := E.shoot_tandem verb (hx model) h
      have going : E.triggerEach m roster name args named (fuel + 1) position true w =
          E.triggerEach m roster name args named fuel (position + 1) true w' := by
        conv => lhs; unfold triggerEach
        rw [bind_of_ok (get_apply w)]
        simp only [hat]
        exact bind_of_ok hfired
      have echo := ih (position + 1) tandem
      rw [split]
      rw [rosters] at echo
      intro hend
      rw [going] at hend ⊢
      exact echo hend

theorem triggerAll_tandem (E : Engine) (verb : String) {name : Value} {args : List Value} {named : Named}
    (hx : ∀ model, Shot.Registered events ⟨model, name, args, named⟩)
    (h : Tandem m events start first done head w v) :
    EchoesAt (Tandem m events start first done head) w v (E.triggerAll m name args named)
      (do
        ((w.boundModels m).map (fun model => ⟨model, name, args, named⟩)).forM
          (fun x : Shot => Act.change (World.record (x.note verb)))
        return .bool true) := by
  have free : clashes ["self", "trigger_name"] named = false := by
    have reserved := (hx .null).1
    unfold clashes reservedNames at reserved
    unfold clashes
    rw [List.any_eq_false] at reserved ⊢
    intro n hn
    have apart := reserved n hn
    simp only [List.contains_cons, List.contains_nil, Bool.or_false, Bool.or_eq_true, not_or] at apart ⊢
    exact ⟨apart.1, apart.2.2⟩
  have echo := E.triggerEach_tandem verb (w.machine m).roster hx E.bound 0 h
  unfold triggerAll
  rw [free, if_neg (by simp)]
  exact echo

variable {E E' : Engine} {R : World → World → Prop}

/-- What callbacks ask for besides triggers they ask for alike. -/
theorem Echoes.perform (hE : E.Echoes E' m R) {op : Operation} (h : op.Feeds m events)
    (ht : op.shots? w = none) :
    Act.Echoes R (E.perform op) (E'.perform op) := by
  have state (s : StateId) : Act.Echoes R (Act.view (fun w => Reply.state (w.states.get s)))
      (Act.view (fun w => Reply.state (w.states.get s))) :=
    .view (fun w v h => by rw [(hE.joint.alike h).states])
  cases op with
  | trigger n model name args named => cases ht
  | triggerAll n name args named => cases ht
  | writeAttribute model name x =>
    exact (hE.joint.advance (fun w v h => h.writeAttribute model name x)).bind (fun _ => .pure _)
  | dropAttribute model name =>
    exact (hE.joint.advance (fun w v h => h.dropAttribute model name)).bind (fun _ => .pure _)
  | findState n x => exact (hE.joint.lookupState n x).bind state
  | currentState n model => exact (hE.currentState n model).bind state
  | isIn n model x =>
    refine (hE.readState n model).bind (fun value => (hE.joint.lookupState n x).bind (fun s =>
      .get_bind (fun w v h => ?_)))
    rw [(hE.joint.alike h).states]
    exact .pure h _
  | hasHook n x stage callback =>
    refine (hE.joint.lookupState n x).bind (fun s => .get_bind (fun w v h => ?_))
    rw [(hE.joint.alike h).states]
    exact .pure h _
  | ignoreFlag n x =>
    refine (hE.joint.lookupState n x).bind (fun s => .get_bind (fun w v h => ?_))
    rw [(hE.joint.alike h).ignoreFlag]
    exact .pure h _
  | _ => exact False.elim h

/-- An operation and its muted form keep in tandem: a trigger that is put in the line is noted. -/
theorem Echoes.mutedPerform (hE : E.Echoes E' m (Tandem m events start first done head)) {verb : String}
    {op : Operation} (feeds : op.Feeds m events) (h : Tandem m events start first done head w v) :
    EchoesAt (Tandem m events start first done head) w v (E.perform op) (E'.mutedPerform verb op) := by
  cases hshots : op.shots? v with
  | none => exact (hE.perform feeds hshots w v h).congr (E'.mutedPerform_none hshots)
  | some xs =>
    refine EchoesAt.congr ?_ (E'.mutedPerform_some hshots)
    cases op with
    | trigger n model name args named =>
      obtain ⟨rfl, registered⟩ := feeds
      cases hshots
      obtain ⟨u, hfired, tandem, -⟩ := E.shoot_tandem verb registered h
      exact fun _ => ⟨.ok (.value (.bool true)), u, _, bind_of_ok hfired, rfl, tandem, .ok _⟩
    | triggerAll n name args named =>
      obtain ⟨rfl, registered⟩ := feeds
      cases hshots
      have models : v.boundModels n = w.boundModels n := by
        unfold boundModels
        rw [h.alike.rosters, h.alike.field Machine.roster (fun _ _ _ => rfl)]
      have noting (xs : List Shot) : (do
          xs.forM (fun x => Act.change (World.record (x.note verb)))
          return .value (.bool true) : Run Reply) = (do
          let a ← (do
            xs.forM (fun x => Act.change (World.record (x.note verb)))
            return .bool true : Run Value)
          return .value a) := by simp only [bind_assoc, pure_bind]
      rw [models, noting]
      exact (E.triggerAll_tandem verb registered h).bind (fun a _ _ _ _ h => .pure h _)
    | _ => cases hshots

/-- A request and its muted form keep in tandem. -/
theorem Echoes.request (hE : E.Echoes E' m (Tandem m events start first done head)) {verb : String}
    {request : World → Except Fault Operation} (hblind : ∀ w v : World, w.Alike m v → request v = request w)
    (hfeeds : ∀ w : World, (w.machine m).events = events →
      NoAbort (request w) ∧ ∀ op, request w = .ok op → op.Feeds m events) :
    Act.Echoes (Tandem m events start first done head) (E.request request) (E'.mutedRequest verb request) := by
  unfold Engine.request mutedRequest
  refine (hE.joint.change (fun w v h => h.requested) (fun _ => .of_same rfl rfl rfl)
    (fun _ => .of_same rfl rfl rfl)).bind (fun _ => ?_)
  have asked : Act.Echoes (Tandem m events start first done head) (Act.ask request) (Act.ask request) :=
    .ask (fun w v h => ⟨hblind w v h.alike, (hfeeds w h.table).1⟩)
  intro w v h
  refine (asked w v h).bind (fun op w' v' hw _ h' => ?_)
  obtain ⟨hop, rfl⟩ := ok_of_ask hw
  exact hE.mutedPerform ((hfeeds w' h.table).2 op hop) h'

/-- A program and its muted form keep in tandem. -/
theorem Echoes.runProgram (hE : E.Echoes E' m (Tandem m events start first done head)) {p : Program}
    (h : p.Feeds m events) :
    Act.Echoes (Tandem m events start first done head) (E.runProgram p) (E'.runMuted p) := by
  induction p with
  | done x => exact .pure x
  | fail f => exact .fail h
  | read owner name next ih =>
    exact (hE.readAttribute owner name).attempt_bind (fun r hr => ih r (h r hr))
  | perform verb request next ih =>
    obtain ⟨hblind, hfeeds, hnext⟩ := h
    refine (hE.request hblind hfeeds).attempt_bind (fun r hr => .change_left (fun w v h => ?_) (ih r (hnext r hr)))
    exact ⟨h.alike.recorded rfl, h.table, h.owned, h.direct, h.shots⟩

theorem enterCallback_apply (label callback : String) (call : Call) (w : World) :
    enterCallback label callback call w =
      (.ok ((w.invocations.find? callback).getD 0), w.entering label callback call) := rfl

theorem tandem_enterCallback (label callback : String) (call : Call) :
    Act.Echoes (Tandem m events start first done head) (enterCallback label callback call)
      (enterCallback label callback call) := by
  intro w v h _
  have same : (v.invocations.find? callback).getD 0 = (w.invocations.find? callback).getD 0 := by
    rw [h.alike.invocations]
  have plain (w : World) : ∀ verb r, callEntry w label call ≠ .performed verb r := by
    cases call <;> exact fun _ _ h => by cases h
  have kept (w : World) : w.Keeps m (w.entering label callback call) :=
    ⟨rfl, fun _ => rfl, [callEntry w label call], Array.toList_push, by simpa using plain w⟩
  refine ⟨.ok ((w.invocations.find? callback).getD 0), _, _, enterCallback_apply label callback call w, ?_,
    Tandem.joint.keep h ?_ (kept w) (kept v), .ok _⟩
  · rw [enterCallback_apply, same]
    rfl
  · have called : (w.record (callEntry w label call)).Alike m (v.record (callEntry v label call)) :=
      h.alike.record (.inl (h.alike.callEntry label call))
    refine { called with invocations := ?_ }
    simp only [World.entering, h.alike.invocations]

/-- The callbacks of a host that does nothing to a machine but fire its triggers keep in tandem with the
muted ones. -/
theorem echoes_ofHost {host : Host} (h : host.Feeds m events) (bound depth : Nat) :
    (ofHost host bound depth).Echoes (ofMuted host bound depth) m
      (Tandem m events start first done head) := by
  have modules (depth : Nat) : (ofMuted host bound depth).modules = (ofHost host bound depth).modules :=
    (ofMuted_fields host bound depth).1.trans (ofHost_fields host bound depth).1.symm
  have bounds (depth : Nat) : (ofMuted host bound depth).bound = (ofHost host bound depth).bound :=
    (ofMuted_fields host bound depth).2.trans (ofHost_fields host bound depth).2.symm
  induction depth with
  | zero => exact ⟨Tandem.joint, modules 0, bounds 0, fun _ _ _ => .exhausted⟩
  | succ depth ih =>
    refine ⟨Tandem.joint, modules (depth + 1), bounds (depth + 1), fun label callback call => ?_⟩
    have run (before : Nat) : Act.Echoes (Tandem m events start first done head)
        (get >>= fun w => (ofHost host bound depth).runProgram (host.behaviour callback call w before))
        (get >>= fun v => (ofMuted host bound depth).runMuted (host.behaviour callback call v before)) := by
      refine .get_bind (fun w v ht => ?_)
      rw [h.blind callback call w v before ht.alike]
      exact ih.runProgram (h.feeds callback call w before ht.table) w v ht
    exact (tandem_enterCallback label callback call).bind run

end Engine

end StateEngine
