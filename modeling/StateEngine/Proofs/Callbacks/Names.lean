import StateEngine.Machine.Engine

/-! What a callback name stands for: an attribute of the model that the callback runs for, or else a callable among
the importable modules. A name that no module can have is not refused like the others. -/
namespace StateEngine

/-- A path with a dot in it has a last one. -/
theorem exists_lastDot {path : String} (h : '.' ∈ path.toList) :
    ∃ front back, path = front ++ "." ++ back ∧ '.' ∉ back.toList := by
  obtain ⟨behind, ahead, split, last⟩ := List.eq_append_cons_of_mem (List.mem_reverse.mpr h)
  refine ⟨String.ofList ahead.reverse, String.ofList behind.reverse, ?_, by simpa using last⟩
  have : path.toList = ahead.reverse ++ '.' :: behind.reverse := by
    rw [← List.reverse_reverse path.toList, split]
    simp
  exact String.toList_injective (by simpa using this)

private theorem dotless_reverse {s : String} (h : '.' ∉ s.toList) :
    ∀ c ∈ s.toList.reverse, (c != '.') = true := by
  intro c hc
  have : c ≠ '.' := fun he => h (he ▸ List.mem_reverse.mp hc)
  simpa using this

theorem splitPath_of_not_mem {path : String} (h : '.' ∉ path.toList) : splitPath path = none := by
  have all : path.toList.reverse.dropWhile (fun c => c != '.') = [] := by
    have := List.dropWhile_append_of_pos (dotless_reverse h) |>.trans (List.dropWhile_nil)
    rwa [List.append_nil] at this
  simp only [splitPath, all]

theorem splitPath_append {front back : String} (h : '.' ∉ back.toList) :
    splitPath (front ++ "." ++ back) = some (front, back) := by
  have reversed : (front ++ "." ++ back).toList.reverse = back.toList.reverse ++ '.' :: front.toList.reverse := by
    simp
  simp only [splitPath, reversed, List.takeWhile_append_of_pos (dotless_reverse h),
    List.dropWhile_append_of_pos (dotless_reverse h)]
  simp

/-- A path is split at its last dot. -/
theorem splitPath_eq_some_iff {path front back : String} :
    splitPath path = some (front, back) ↔ path = front ++ "." ++ back ∧ '.' ∉ back.toList := by
  constructor
  · intro h
    by_cases dot : '.' ∈ path.toList
    · obtain ⟨front', back', rfl, last⟩ := exists_lastDot dot
      rw [splitPath_append last] at h
      cases h
      exact ⟨rfl, last⟩
    · rw [splitPath_of_not_mem dot] at h
      cases h
  · rintro ⟨rfl, last⟩
    exact splitPath_append last

theorem startsWith_dot_iff {s : String} : s.startsWith "." = true ↔ ∃ t, s = "." ++ t := by
  have prefixed : s.startsWith "." = true ↔ ['.'] <+: s.toList := by simp
  rw [prefixed]
  constructor
  · rintro ⟨rest, h⟩
    exact ⟨String.ofList rest, String.toList_injective (by simpa using h.symm)⟩
  · rintro ⟨t, rfl⟩
    exact ⟨t.toList, by simp⟩

/-- A name that begins with a dot and has another one behind it: its module would be relative to nothing. -/
def Relative (path : String) : Prop := ∃ front back, path = "." ++ front ++ "." ++ back

/-- A name is relative if its module begins with a dot. -/
theorem relative_iff (moduleName : String) {name : String} (last : '.' ∉ name.toList) :
    Relative (moduleName ++ "." ++ name) ↔ moduleName.startsWith "." = true := by
  rw [startsWith_dot_iff]
  constructor
  · rintro ⟨front, back, h⟩
    by_cases dot : '.' ∈ back.toList
    · obtain ⟨middle, back', rfl, last'⟩ := exists_lastDot dot
      have : moduleName ++ "." ++ name = ("." ++ front ++ "." ++ middle) ++ "." ++ back' := by
        simpa [String.append_assoc] using h
      have := (splitPath_append last).symm.trans (this ▸ splitPath_append last')
      exact ⟨front ++ "." ++ middle, by simp_all [String.append_assoc]⟩
    · have := (splitPath_append last).symm.trans (h ▸ splitPath_append dot)
      exact ⟨front, by simp_all⟩
  · rintro ⟨t, rfl⟩
    exact ⟨t, name, rfl⟩

namespace Engine

variable {E : Engine}

/-- A module that can be imported by its full name has an attribute. -/
inductive Exports (E : Engine) : String → String → Target → Prop where
  | truth : E.Exports "operator" "truth" .truth
  | listed {moduleName name : String} {attributes : List (String × Value)} {v : Value}
      (other : (moduleName, name) ≠ ("operator", "truth")) (imported : E.modules.lookup moduleName = some attributes)
      (found : attributes.lookup name = some v) : E.Exports moduleName name (Target.ofValue v)

theorem moduleAttribute_eq_some_iff {moduleName name : String} {target : Target} :
    E.moduleAttribute moduleName name = some target ↔ E.Exports moduleName name target := by
  unfold moduleAttribute
  split
  · constructor
    · intro h
      cases h
      exact .truth
    · intro h
      cases h with
      | truth => rfl
      | listed other => exact absurd rfl other
  · next other =>
    rw [Option.bind_eq_some_iff]
    constructor
    · rintro ⟨attributes, imported, h⟩
      obtain ⟨v, found, rfl⟩ := Option.map_eq_some_iff.mp h
      exact .listed (fun h => other (congrArg Prod.fst h) (congrArg Prod.snd h)) imported found
    · intro h
      cases h with
      | truth => exact (other rfl rfl).elim
      | listed _ imported found => exact ⟨_, imported, by rw [found]; rfl⟩

/-- What a name stands for, where the model has an attribute of that name or has none. -/
inductive Denotes (E : Engine) (path : String) : Option Value → Target → Prop where
  | own {v : Value} (callable : (Target.ofValue v).callable = true) : E.Denotes path (some v) (Target.ofValue v)
  | constant {v : Value} (inert : (Target.ofValue v).callable = false) : E.Denotes path (some v) (.constant v)
  | imported {moduleName name : String} {target : Target} (split : path = moduleName ++ "." ++ name)
      (last : '.' ∉ name.toList) (proper : moduleName ≠ "") (absolute : ¬ Relative path)
      (exported : E.Exports moduleName name target) (callable : target.callable = true) :
      E.Denotes path none target

theorem Denotes.callable {path : String} {found : Option Value} {target : Target}
    (h : E.Denotes path found target) : target.callable = true := by
  cases h with
  | own callable | imported _ _ _ _ _ callable => exact callable
  | constant => rfl

/-- With an attribute of its own a model leaves a name one thing to stand for. -/
theorem denotes_own_iff {path : String} {x : Value} {target : Target} :
    E.Denotes path (some x) target ↔
      (if (Target.ofValue x).callable then Target.ofValue x else .constant x) = target := by
  constructor
  · intro h
    cases h with
    | own callable => rw [if_pos callable]
    | constant inert => rw [if_neg (by simp [inert])]
  · rintro rfl
    by_cases callable : (Target.ofValue x).callable = true
    · rw [if_pos callable]
      exact .own callable
    · rw [if_neg callable]
      exact .constant (by simpa using callable)

theorem importCallable_eq_ok_iff (name : Value) {path : String} {target : Target} :
    E.importCallable name path = .ok target ↔ E.Denotes path none target := by
  constructor
  · intro h
    unfold importCallable at h
    split at h
    · cases h
    · next split =>
      obtain ⟨rfl, last⟩ := splitPath_eq_some_iff.mp split
      split at h
      · cases h
      · next proper =>
        split at h
        · cases h
        · next undotted =>
          split at h
          · next found =>
            split at h
            · next callable =>
              cases h
              exact .imported rfl last proper (mt (relative_iff _ last).mp undotted)
                (moduleAttribute_eq_some_iff.mp found) callable
            · cases h
          · cases h
  · intro h
    cases h with
    | imported split last proper absolute exported callable =>
      subst split
      have undotted := mt (relative_iff _ last).mpr absolute
      simp only [importCallable, splitPath_append last, if_neg proper, if_neg undotted,
        moduleAttribute_eq_some_iff.mpr exported, if_pos callable]

/-- The search among the modules fails in two ways, and in the second one just where the name is relative. -/
theorem importCallable_error {name : Value} {path : String} {f : Fault} (h : E.importCallable name path = .error f) :
    f = .unresolved name ∧ ¬ Relative path ∨ f = .wrongType ∧ Relative path := by
  unfold importCallable at h
  split at h
  · next undivided =>
    cases h
    refine .inl ⟨rfl, fun ⟨front, back, split⟩ => ?_⟩
    have dot : '.' ∈ path.toList := by simp [split]
    obtain ⟨_, _, rfl, last⟩ := exists_lastDot dot
    rw [splitPath_append last] at undivided
    cases undivided
  · next split =>
    obtain ⟨rfl, last⟩ := splitPath_eq_some_iff.mp split
    split at h
    · next empty =>
      cases h
      exact .inl ⟨rfl, fun relative => by simpa [empty] using (relative_iff _ last).mp relative⟩
    · split at h
      · next dotted =>
        cases h
        exact .inr ⟨rfl, (relative_iff _ last).mpr dotted⟩
      · next undotted =>
        have absolute := mt (relative_iff _ last).mp undotted
        split at h
        · split at h
          · cases h
          · cases h
            exact .inl ⟨rfl, absolute⟩
        · cases h
          exact .inl ⟨rfl, absolute⟩

theorem importCallable_of_relative {name : Value} {path : String} (relative : Relative path) :
    E.importCallable name path = .error .wrongType := by
  cases h : E.importCallable name path with
  | ok target =>
    cases (importCallable_eq_ok_iff name).mp h with
    | imported _ _ _ absolute => exact absurd relative absolute
  | error f =>
    rcases importCallable_error h with ⟨-, absolute⟩ | ⟨rfl, -⟩
    · exact absurd relative absolute
    · rfl

/-- How looking up an attribute ends that raises nothing but that it is missing: with what is found, in the world
that the look leaves. -/
inductive LooksUp (E : Engine) (owner : Value) (name : String) (w : World) : Option Value → World → Prop where
  | there {x : Value} {v : World} (h : E.readAttribute owner name w = (.ok x, v)) : E.LooksUp owner name w (some x) v
  | missing {f : Fault} {v : World} (h : E.readAttribute owner name w = (.error (.fault f), v))
      (missing : f.isMissingAttribute = true) : E.LooksUp owner name w none v

theorem LooksUp.readAttribute? {owner : Value} {name : String} {w v : World} {found : Option Value}
    (h : E.LooksUp owner name w found v) : E.readAttribute? owner name w = (.ok found, v) := by
  cases h with
  | there h => rw [Engine.readAttribute?, Act.bind_of_ok (Act.attempt_apply (r := .ok _) h)]; rfl
  | missing h missing =>
    rw [Engine.readAttribute?, Act.bind_of_ok (Act.attempt_apply (r := .error _) h)]
    simp only [if_pos missing]
    rfl

/-- An attribute that is found is what the name stands for, and where none is found the modules are searched. -/
theorem resolve_apply {w v : World} {m : MachineId} {i : FiringId} {name : Callback} {path : String}
    {found : Option Value} (standard : (w.machine m).resolver = .standard) (text : name.text? = some path)
    (reads : E.LooksUp (w.firings.get i).model path w found v) :
    E.resolve m name i w =
      (found.elim ((E.importCallable name path).mapError .fault)
        (fun x => .ok (if (Target.ofValue x).callable then Target.ofValue x else .constant x)), v) := by
  have looked := reads.readAttribute?
  simp only [resolve, text, resolveName]
  rw [Act.bind_of_ok (Act.get_apply w), standard]
  simp only
  rw [Act.bind_of_ok (Act.get_apply w), Act.bind_of_ok looked]
  cases found with
  | some x => rfl
  | none => exact Act.ofExcept_apply _ _

/-- Where looking up a name on the model raises nothing but that it is missing, the name is resolved to the callable
that it stands for, and refused by an error that carries it where it stands for none. Only a name that is relative,
and that the model does not have, fails in another way. -/
theorem names_are_resolved_or_refused {w v : World} {m : MachineId} {i : FiringId} {name : Callback}
    {path : String} {found : Option Value} (standard : (w.machine m).resolver = .standard)
    (text : name.text? = some path) (reads : E.LooksUp (w.firings.get i).model path w found v) :
    ∃ result, E.resolve m name i w = (result, v) ∧
      (∀ target, result = .ok target ↔ E.Denotes path found target) ∧
      (∀ target, result = .ok target → target.callable = true) ∧
      (∀ x, found = some x → (Target.ofValue x).callable = false →
        ∃ target, result = .ok target ∧ ∀ call u, target.apply E call u = (.ok x, u)) ∧
      (result = .error (.fault (.unresolved name)) ↔
        (∀ target, ¬ E.Denotes path found target) ∧ ¬ (found = none ∧ Relative path)) ∧
      (found = none ∧ Relative path → result = .error (.fault .wrongType)) := by
  rw [resolve_apply standard text reads]
  refine ⟨_, rfl, ?_⟩
  cases found with
  | some x =>
    have denotes (target : Target) : Except.ok (if (Target.ofValue x).callable then Target.ofValue x else .constant x) =
        (.ok target : Except Stop Target) ↔ E.Denotes path (some x) target := by
      rw [denotes_own_iff, Except.ok.injEq]
    refine ⟨denotes, fun target h => ((denotes target).mp h).callable, ?_, ?_, by simp⟩
    · rintro _ ⟨⟩ inert
      exact ⟨.constant x, by simp [inert], fun _ _ => rfl⟩
    · refine ⟨fun h => (by cases h), fun h => ?_⟩
      exact absurd ((denotes _).mp rfl) (h.1 _)
  | none =>
    cases h : E.importCallable name path with
    | ok target =>
      have denotes := (importCallable_eq_ok_iff name).mp h
      have absolute : ¬ Relative path := by
        cases denotes with
        | imported _ _ _ absolute => exact absolute
      refine ⟨fun other => ?_, fun other same => ?_, by simp, ?_, fun relative => absurd relative.2 absolute⟩
      · rw [← importCallable_eq_ok_iff name, h]
        exact ⟨fun same => by cases same; rfl, fun same => by cases same; rfl⟩
      · cases same
        exact denotes.callable
      · exact ⟨fun same => (by cases same), fun nothing => absurd denotes (nothing.1 _)⟩
    | error f =>
      have nothing (target : Target) : ¬ E.Denotes path none target := fun denotes => by
        rw [(importCallable_eq_ok_iff name).mpr denotes] at h
        cases h
      refine ⟨fun target => ⟨fun same => (by cases same), fun denotes => absurd denotes (nothing target)⟩,
        fun target same => (by cases same), by simp, ?_⟩
      rcases importCallable_error h with ⟨rfl, absolute⟩ | ⟨rfl, relative⟩
      · exact ⟨⟨fun _ => ⟨nothing, fun relative => absolute relative.2⟩, fun _ => rfl⟩,
          fun relative => absurd relative.2 absolute⟩
      · exact ⟨⟨fun same => (by cases same), fun h => absurd ⟨rfl, relative⟩ h.2⟩, fun _ => rfl⟩

end Engine

/-- A host with one module, whose properties all raise that something is missing. -/
def shed : Engine where
  modules := [("tools", [("open", .callback "pry")])]
  call := fun _ _ _ => Act.fail (.raised .attribute "no key")
  bound := 1

/-- A firing for a model with a property that has the name of a callable of that module. -/
def shedWorld : World where
  firings := ({} : Heap Firing).push { (default : Firing) with model := .model "door" }
  models := ({} : Table String Model).insert "door"
    { properties := ({} : Table String String).insert "tools.open" "unlock" }

theorem door_is_pried_open :
    (shedWorld.machine 0).resolver = .standard ∧ (Value.text "tools.open").text? = some "tools.open" ∧
      shed.LooksUp (shedWorld.firings.get 0).model "tools.open" shedWorld none shedWorld ∧
      shed.Denotes "tools.open" none (.host "pry" "pry") ∧
      shed.resolve 0 (.text "tools.open") 0 shedWorld = (.ok (.host "pry" "pry"), shedWorld) := by
  have standard : (shedWorld.machine 0).resolver = .standard := rfl
  have looks : shed.LooksUp (shedWorld.firings.get 0).model "tools.open" shedWorld none shedWorld :=
    .missing (f := .raised .attribute "no key") rfl rfl
  have last : '.' ∉ "open".toList := by decide
  have absolute : ¬ Relative "tools.open" := mt (relative_iff "tools" last).mp (by simp)
  have denotes : shed.Denotes "tools.open" none (.host "pry" "pry") :=
    .imported rfl last (by decide) absolute
      (.listed (by decide) rfl rfl : shed.Exports "tools" "open" (Target.ofValue (.callback "pry"))) rfl
  have text : (Value.text "tools.open").text? = some "tools.open" := rfl
  obtain ⟨result, resolved, denoted, -⟩ := Engine.names_are_resolved_or_refused standard text looks
  exact ⟨standard, text, looks, denotes, resolved.trans (by rw [(denoted _).mpr denotes])⟩

/-- A relative name that the model does not have is not refused by the error for a name: the call fails by the type
of its argument, which no handler of missing attributes takes. -/
theorem relative_name_is_no_type :
    shed.LooksUp (.model "door") ".tools.open" shedWorld none shedWorld ∧
      shed.resolve 0 (.text ".tools.open") 0 shedWorld = (.error (.fault .wrongType), shedWorld) ∧
      Fault.wrongType.isMissingAttribute = false := by
  have looks : shed.LooksUp (shedWorld.firings.get 0).model ".tools.open" shedWorld none shedWorld :=
    .missing (f := .missingAttribute) rfl rfl
  have standard : (shedWorld.machine 0).resolver = .standard := rfl
  have text : (Value.text ".tools.open").text? = some ".tools.open" := rfl
  have resolved := Engine.resolve_apply standard text looks
  have relative : Relative ".tools.open" := ⟨"tools", "open", rfl⟩
  rw [Option.elim_none, Engine.importCallable_of_relative relative] at resolved
  exact ⟨looks, resolved, rfl⟩

end StateEngine
