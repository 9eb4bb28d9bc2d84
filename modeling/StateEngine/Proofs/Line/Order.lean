import StateEngine.Proofs.Line.Turns

/-! A queued line runs every task that is handed in exactly once and in the order in which they came, no
two at a time, and takes a task meanwhile without running anything. -/
namespace StateEngine.Line

variable {η τ : Type}

theorem views_takings (queue handed : List τ) :
    calls (takings queue handed) = handed ∧ starts (takings queue handed) = [] ∧
      edges (takings queue handed) = [] := by
  induction handed generalizing queue with
  | nil => exact ⟨rfl, rfl, rfl⟩
  | cons task handed ih =>
    obtain ⟨hc, hs, he⟩ := ih (queue ++ [task])
    simp [takings, hc, hs, he]

theorem views_turn (queue : List τ) (turn : Turn τ) :
    calls (turnNotes queue turn) = turn.handed ∧ starts (turnNotes queue turn) = [turn.task] ∧
      edges (turnNotes queue turn) = [.start turn.task, .stop turn.task] := by
  obtain ⟨hc, hs, he⟩ := views_takings queue turn.handed
  simp [turnNotes, hc, hs, he]

theorem views_tale (queue : List τ) (turns : List (Turn τ)) :
    calls (tale queue turns) = turns.flatMap Turn.handed ∧
      starts (tale queue turns) = turns.map Turn.task ∧
      edges (tale queue turns) = turns.flatMap (fun t => [.start t.task, .stop t.task]) := by
  induction turns generalizing queue with
  | nil => exact ⟨rfl, rfl, rfl⟩
  | cons turn turns ih =>
    obtain ⟨hc, hs, he⟩ := ih (queue ++ turn.handed).tail
    obtain ⟨hc', hs', he'⟩ := views_turn queue turn
    simp [tale, hc, hs, he, hc', hs', he']

/-- A place in two lists one after the other is a place in one of them. -/
theorem place_in_append {α : Type} {a b before after : List α} {x : α}
    (h : a ++ b = before ++ x :: after) :
    (∃ rest, a = before ++ x :: rest ∧ after = rest ++ b) ∨
      ∃ front, before = a ++ front ∧ b = front ++ x :: after := by
  rcases List.append_eq_append_iff.mp h with ⟨front, hb, hr⟩ | ⟨rest, ha, hr⟩
  · exact .inr ⟨front, hb, hr⟩
  · cases rest with
    | nil => exact .inr ⟨[], by simpa using ha.symm, by simpa using hr.symm⟩
    | cons y rest =>
      obtain ⟨rfl, rfl⟩ := List.cons.inj hr
      exact .inl ⟨rest, ha, rfl⟩

private theorem line_in_takings {queue handed : List τ} {before after : List (Note τ)} {n : Note τ}
    (h : takings queue handed = before ++ n :: after) :
    n.line = .queued (queue ++ calls before) := by
  induction handed generalizing queue before with
  | nil => simp [takings] at h
  | cons task handed ih =>
    cases before with
    | nil =>
      rw [← (List.cons.inj h).1]
      simp
    | cons called before =>
      obtain ⟨h₁, h₂⟩ := List.cons.inj h
      cases before with
      | nil =>
        rw [← h₁, ← (List.cons.inj h₂).1]
        simp
      | cons answered before =>
        obtain ⟨h₃, h₄⟩ := List.cons.inj h₂
        rw [ih h₄, ← h₁, ← h₃]
        simp

/-- All through a turn the queue is the one it found, with the tasks behind that it has handed in. -/
private theorem line_in_turn {queue : List τ} {turn : Turn τ} {before after : List (Note τ)}
    {n : Note τ} (h : turnNotes queue turn = before ++ n :: after) :
    n.line = .queued (queue ++ calls before) ∧ starts (before ++ [n]) = [turn.task] := by
  obtain ⟨hc, hs, -⟩ := views_takings queue turn.handed
  cases before with
  | nil =>
    rw [← (List.cons.inj h).1]
    simp
  | cons first before =>
    obtain ⟨h₁, h₂⟩ := List.cons.inj h
    rw [← h₁]
    rcases place_in_append h₂ with ⟨rest, ht, -⟩ | ⟨front, rfl, ht⟩
    · have hn : starts before ++ (starts [n] ++ starts rest) = [] := by
        rw [← starts_append, ← starts_append, List.singleton_append, ← ht, hs]
      rw [List.append_eq_nil_iff, List.append_eq_nil_iff] at hn
      refine ⟨by simpa using line_in_takings ht, ?_⟩
      rw [List.cons_append, starts_cons, starts_append, hn.1, hn.2.1]
      simp
    · cases front with
      | nil =>
        rw [← (List.cons.inj ht).1]
        simp [hc, hs]
      | cons _ _ => simp at ht

/-- All through a run of turns the head of the queue is the task that started last, and behind it stand
the tasks handed in and not started yet. -/
private theorem line_in_tale (past : List (Note τ)) {queue rest : List τ} {turns : List (Turn τ)}
    (hq : queue = (calls past).drop (starts past).length) (hs : Serves queue turns rest)
    {before after : List (Note τ)} {n : Note τ} (h : tale queue turns = before ++ n :: after) :
    ∃ task, (starts (past ++ before ++ [n])).getLast? = some task ∧
      n.line = .queued (task :: (calls (past ++ before)).drop (starts (past ++ before ++ [n])).length) := by
  induction hs generalizing past before with
  | none => simp [tale] at h
  | @turn queue rest turns turn more ih =>
    obtain ⟨hc, hs, -⟩ := views_turn (turn.task :: queue) turn
    have hlt : (starts past).length < (calls past).length := by
      refine Nat.lt_of_not_le (fun hge => ?_)
      rw [List.drop_eq_nil_of_le hge] at hq
      exact List.cons_ne_nil _ _ hq
    have hq' : queue = (calls past).drop ((starts past).length + 1) := by
      rw [← List.tail_drop, ← hq, List.tail_cons]
    rcases place_in_append h with ⟨rest', ht, -⟩ | ⟨front, rfl, ht⟩
    · obtain ⟨hl, hstart⟩ := line_in_turn ht
      refine ⟨turn.task, by simp [List.append_assoc, hstart], ?_⟩
      rw [hl, List.append_assoc, starts_append, hstart, calls_append, List.length_append,
        List.length_singleton, List.drop_append_of_le_length (by omega), ← hq', List.cons_append]
    · have hnext : queue ++ turn.handed =
          (calls (past ++ turnNotes (turn.task :: queue) turn)).drop
            (starts (past ++ turnNotes (turn.task :: queue) turn)).length := by
        rw [calls_append, starts_append, hc, hs, List.length_append, List.length_singleton,
          List.drop_append_of_le_length (by omega), ← hq']
      simpa [List.append_assoc] using ih (past ++ turnNotes (turn.task :: queue) turn) hnext ht

/-- The answer to a task that a running one hands in. -/
def AnsweredAtOnce (n : Note τ) (after : List (Note τ)) : Prop :=
  ∀ task, n.happening = .called task → ∃ queue rest, n.line = .queued queue ∧
    after = ⟨.answered task (.ok (.bool true)), .queued (queue ++ [task])⟩ :: rest

private theorem answered_in_takings {queue handed : List τ} {before after : List (Note τ)} {n : Note τ}
    (h : takings queue handed = before ++ n :: after) : AnsweredAtOnce n after := by
  intro task hn
  induction handed generalizing queue before with
  | nil => simp [takings] at h
  | cons first handed ih =>
    cases before with
    | nil =>
      obtain ⟨h₁, h₂⟩ := List.cons.inj h
      rw [← h₁] at hn ⊢
      obtain rfl : first = task := by simpa using hn
      exact ⟨queue, _, rfl, h₂.symm⟩
    | cons called before =>
      cases before with
      | nil =>
        rw [← (List.cons.inj (List.cons.inj h).2).1] at hn
        cases hn
      | cons answered before => exact ih (List.cons.inj (List.cons.inj h).2).2

private theorem answered_in_tale {queue : List τ} {turns : List (Turn τ)} {before after : List (Note τ)}
    {n : Note τ} (h : tale queue turns = before ++ n :: after) : AnsweredAtOnce n after := by
  intro task hn
  induction turns generalizing queue before with
  | nil => simp [tale] at h
  | cons turn turns ih =>
    rcases place_in_append h with ⟨rest, ht, rfl⟩ | ⟨front, rfl, ht⟩
    · cases before with
      | nil =>
        rw [← (List.cons.inj ht).1] at hn
        cases hn
      | cons first before =>
        rcases place_in_append (List.cons.inj ht).2 with ⟨rest', ht', rfl⟩ | ⟨front, rfl, ht'⟩
        · obtain ⟨q, more, hl, rfl⟩ := answered_in_takings ht' task hn
          exact ⟨q, _, hl, rfl⟩
        · cases front with
          | nil =>
            rw [← (List.cons.inj ht').1] at hn
            cases hn
          | cons _ _ => simp at ht'
    · exact ih ht

/-- What the notes of a call show that worked off a queue to its end. `order` and `apart` say which
tasks ran, and that no two did at a time; `taken` is about every call but the outermost one, and `head`
about every moment between the beginning and the end of that one. -/
structure Orderly (top : τ) (notes : List (Note τ)) : Prop where
  first : (calls notes).head? = some top
  order : starts notes = calls notes
  apart : edges notes = (calls notes).flatMap (fun task => [.start task, .stop task])
  taken : ∀ before n after, notes = before ++ n :: after → before ≠ [] → AnsweredAtOnce n after
  head : ∀ before n after, notes = before ++ n :: after → before ≠ [] → after ≠ [] →
    ∃ task, (starts (before ++ [n])).getLast? = some task ∧
      n.line = .queued (task :: (calls before).drop (starts (before ++ [n])).length)

private theorem orderly_tale {top : τ} {turns : List (Turn τ)} {v : Except Fault Value} {last : Line τ}
    (h : Serves [top] turns []) :
    Orderly top (⟨.called top, .queued []⟩ :: tale [top] turns ++ [⟨.answered top v, last⟩]) := by
  obtain ⟨hc, hs, he⟩ := views_tale [top] turns
  have hall : top :: turns.flatMap Turn.handed = turns.map Turn.task := by simpa using h.order
  refine ⟨by simp, by simp [hc, hs, hall], ?_, ?_, ?_⟩
  · simp [hc, he, hall, List.flatMap_map]
  · intro before n after hn hb
    obtain ⟨first, before, rfl⟩ := List.exists_cons_of_ne_nil hb
    rcases place_in_append (List.cons.inj hn).2 with ⟨rest, ht, rfl⟩ | ⟨front, rfl, ht⟩
    · intro task htask
      obtain ⟨q, more, hl, rfl⟩ := answered_in_tale ht task htask
      exact ⟨q, _, hl, rfl⟩
    · cases front with
      | nil =>
        intro task htask
        rw [← (List.cons.inj ht).1] at htask
        cases htask
      | cons _ _ => simp at ht
  · intro before n after hn hb ha
    obtain ⟨first, before, rfl⟩ := List.exists_cons_of_ne_nil hb
    obtain ⟨hfirst, hn⟩ := List.cons.inj hn
    rcases place_in_append hn with ⟨rest, ht, -⟩ | ⟨front, -, ht⟩
    · rw [← hfirst]
      exact line_in_tale [⟨.called top, .queued []⟩] (by simp) h ht
    · cases front with
      | nil => exact absurd (List.cons.inj ht).2.symm ha
      | cons _ _ => simp at ht

/-- Handing in a task at a queued line with nothing in flight, whatever tasks do: if the queue comes to
its end without a fault, every task that was handed in has run exactly once, in the order in which they
came and one after the other. The outermost caller is told no more than that the task was taken. -/
theorem queue_runs_in_order (code : τ → Job η τ) (label : String) (bound depth : Nat) (top : τ)
    {d d' : Desk η τ} {v : Value} (hidle : d.line = .queued [])
    (h : Desk.hand code label bound depth top d = (.ok v, d')) :
    (∃ notes, d'.notes = d.notes ++ notes ∧ Orderly top notes) ∧
      v = .bool true ∧ d'.line.inFlight = false ∧ d'.line.pending = 0 := by
  cases depth with
  | zero => cases h
  | succ depth =>
    obtain ⟨turns, rest, answer, ha, hn, hs, hc⟩ := Desk.hand_idle depth hidle h (by simp)
    rcases hc with ⟨hv, rfl, hl⟩ | ⟨f, _, _, hf, -⟩
    · refine ⟨⟨_, hn, orderly_tale hs⟩, by simpa using hv, ?_, ?_⟩
      · rw [hl]; rfl
      · rw [hl]; rfl
    · cases hf

/-- Task 0 hands in itself twice over, each time together with task 1, and returns something false. -/
private def twice : Nat → Job Nat Nat
  | 0 => .look (fun count =>
      if count < 2 then .change (· + 1) (.submit 0 (fun _ => .submit 1 (fun _ => .done (.bool false))))
      else .done .null)
  | _ => .done (.int 5)

theorem queue_runs_in_order_twice :
    ∃ d : Desk Nat Nat, Desk.hand twice "" 9 2 0 ⟨.queued [], 0, []⟩ = (.ok (.bool true), d) ∧
      starts d.notes = [0, 0, 1, 0, 1] ∧ Orderly 0 d.notes ∧ d.line.pending = 0 := by
  have h : Desk.hand twice "" 9 2 0 ⟨.queued [], 0, []⟩ =
    (.ok (.bool true), (Desk.hand twice "" 9 2 0 ⟨.queued [], 0, []⟩).2) := rfl
  obtain ⟨⟨notes, hn, ho⟩, -, -, hp⟩ := queue_runs_in_order twice "" 9 2 0 rfl h
  rw [List.nil_append] at hn
  exact ⟨_, h, by rfl, hn ▸ ho, hp⟩

end StateEngine.Line
