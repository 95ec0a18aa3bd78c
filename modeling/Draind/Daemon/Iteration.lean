import Draind.Daemon.AgentTable

namespace Draind.Daemon

open Json Proto

-- The calls of one descriptor, up to the first exception.
def performAll (env : Env) : List Call → World → Result
  | [], w => .ok w
  | c :: rest, w => do
      let w ← perform env c w
      performAll env rest w

-- The descriptors that accept4 returns are fresh.
def Offered (env : Env) : List Ready → World → Prop
  | [], _ => True
  | r :: rest, w =>
      (r.fd = env.listenFd → ∀ fd ∈ r.accepted, fresh env w fd) ∧
        ∀ w', dispatch env r w = .ok w' → Offered env rest w'

section Calls

variable (env : Env)

theorem performAll_append (first second : List Call) (w : World) :
    performAll env (first ++ second) w = performAll env first w >>= performAll env second := by
  induction first generalizing w with
  | nil => rfl
  | cons c rest ih =>
      simp only [List.cons_append, performAll]
      cases perform env c w with
      | error t => rfl
      | ok w' => exact ih w'

theorem deliver_eq (fd : Fd) (lines : List Bytes) (w : World) :
    deliver env fd lines w = performAll env ((lines.filter (· ≠ [])).map (.line fd)) w := by
  induction lines generalizing w with
  | nil => rfl
  | cons line rest ih =>
      by_cases hl : line = []
      · rw [deliver, if_pos hl, ih]
        simp [hl]
      · rw [deliver, if_neg hl]
        simp only [hl, ne_eq, not_false_eq_true, decide_true, List.filter_cons_of_pos, List.map_cons, performAll,
          perform, ih]

theorem pollHw_eq (events : List InputEvent) (w : World) :
    performAll env ((events.filterMap hwEvent).map .button) w = .ok (pollHw env events w) := by
  unfold pollHw
  induction events.filterMap hwEvent generalizing w with
  | nil => rfl
  | cons e rest ih => exact ih (onEvent env e w)

-- Handling a descriptor is to begin it and to make its calls.
theorem dispatch_eq (r : Ready) (w : World) :
    dispatch env r w = performAll env (begin env r w).pending (begin env r w).world := by
  unfold dispatch begin
  by_cases hl : r.fd = env.listenFd
  · rw [if_pos hl, if_pos hl]
    rfl
  rw [if_neg hl, if_neg hl]
  cases hc : w.conns.lookup r.fd with
  | none =>
      have hn : r.fd ∉ w.conns := AList.lookup_eq_none.mp hc
      rw [if_neg hn]
      split
      · exact (pollHw_eq env r.inputs w).symm
      · rfl
  | some c =>
      have hm : r.fd ∈ w.conns := AList.lookup_isSome.mp (by simp [hc])
      rw [if_pos hm]
      simp only [handleClient, hc, deliver_eq, performAll_append]
      cases performAll env _ _ with
      | error t => rfl
      | ok w' => cases (c.buf.feed r.reads).1 <;> rfl

theorem perform_exited (c : Call) (w w' : World) (h : perform env c w = .ok w') : w'.exited = w.exited := by
  cases c with
  | hangUp fd =>
      cases h
      rfl
  | button e =>
      cases h
      exact (onEvent_emits env e w).keeps.exited
  | line fd line =>
      cases hd : decode line with
      | error e =>
          simp only [perform, onLine, hd] at h
          cases h
          rfl
      | ok msg =>
          have hh := perform_message env fd line msg w hd
          rw [h] at hh
          exact hh.exited

-- Call by call, until the calls are made or an exception has ended the process.
theorem exec_calls (calls : List Call) (w : World) (he : w.exited = false) :
    (Run.exec (step env) ⟨w, calls⟩ (List.replicate calls.length .call)).world =
        (performAll env calls w).settle ∧
      ∀ w', performAll env calls w = .ok w' → w'.exited = false ∧
        Run.exec (step env) ⟨w, calls⟩ (List.replicate calls.length .call) = ⟨w', []⟩ := by
  induction calls generalizing w with
  | nil =>
      refine ⟨rfl, fun w' h => ?_⟩
      cases h
      exact ⟨he, rfl⟩
  | cons c rest ih =>
      have hstep : step env ⟨w, c :: rest⟩ .call = ⟨(perform env c w).settle, rest⟩ := by
        simp [step, he]
      rw [List.length_cons, List.replicate_succ, Run.exec_cons, hstep, performAll]
      cases hp : perform env c w with
      | error t =>
          rw [exec_exited env _ _ rfl]
          refine ⟨rfl, fun w' h => ?_⟩
          cases h
      | ok w₁ => exact ih w₁ ((perform_exited env c w w₁ hp).trans he)

end Calls

section Loop

variable (env : Env)

-- From w, some moves end in the state of the result, ready for the next move.
def Reached (w : World) (r : Result) : Prop :=
  ∃ moves, (run env w moves).world = r.settle ∧
    ∀ w', r = .ok w' → w'.exited = false ∧ run env w moves = ⟨w', []⟩

theorem Reached.bind {w : World} {r : Result} {f : World → Result} (h : Reached env w r)
    (hf : ∀ w', r = .ok w' → w'.exited = false → Reached env w' (f w')) : Reached env w (r >>= f) := by
  obtain ⟨moves, hw, hok⟩ := h
  cases r with
  | error t => exact ⟨moves, hw, fun w' h => by cases h⟩
  | ok w₁ =>
      obtain ⟨he, hrun⟩ := hok w₁ rfl
      obtain ⟨rest, hw', hok'⟩ := hf w₁ rfl he
      have happend : run env w (moves ++ rest) = run env w₁ rest := by
        rw [run, Run.exec_append, ← run, hrun]
      exact ⟨moves ++ rest, by rw [happend]; exact hw', fun w' h => by rw [happend]; exact hok' w' h⟩

theorem begin_exited (r : Ready) (w : World) : (begin env r w).world.exited = w.exited := by
  unfold begin
  split
  · cases r.accepted <;> rfl
  · split
    · rfl
    · split <;> rfl

theorem dispatch_reached (r : Ready) (w : World) (he : w.exited = false)
    (hf : r.fd = env.listenFd → ∀ fd ∈ r.accepted, fresh env w fd) : Reached env w (dispatch env r w) := by
  have hstep : step env ⟨w, []⟩ (.ready r) = begin env r w := by
    have hn : ¬(r.fd = env.listenFd ∧ ∃ fd ∈ r.accepted, ¬fresh env w fd) := by
      rintro ⟨hl, fd, hfd, hnf⟩
      exact hnf (hf hl fd hfd)
    simp only [step, he, Bool.false_eq_true, ne_eq, not_true, or_self, if_false, if_neg hn]
  have hcalls := exec_calls env (begin env r w).pending (begin env r w).world ((begin_exited env r w).trans he)
  rw [← dispatch_eq] at hcalls
  refine ⟨.ready r :: List.replicate (begin env r w).pending.length .call, ?_⟩
  rw [run, Run.exec_cons, hstep]
  exact hcalls

theorem dispatchAll_reached (events : List Ready) (w : World) (he : w.exited = false)
    (ho : Offered env events w) : Reached env w (dispatchAll env events w) := by
  induction events generalizing w with
  | nil =>
      refine ⟨[], rfl, fun w' h => ?_⟩
      cases h
      exact ⟨he, rfl⟩
  | cons r rest ih =>
      exact (dispatch_reached env r w he ho.1).bind env fun w' hw' he' => ih w' he' (ho.2 w' hw')

theorem signals_run (signals : List SeatSignal) (w : World) (he : w.exited = false) :
    run env w (signals.map .signal) = ⟨signals.foldl (fun w m => handleSeatProperties m w) w, []⟩ ∧
      (signals.foldl (fun w m => handleSeatProperties m w) w).exited = false := by
  induction signals generalizing w with
  | nil => exact ⟨rfl, he⟩
  | cons m rest ih =>
      have hstep : step env ⟨w, []⟩ (.signal m) = ⟨handleSeatProperties m w, []⟩ := by simp [step, he]
      rw [List.map_cons, run, Run.exec_cons, hstep]
      exact ih _ ((handleSeatProperties_seated m w).exited.trans he)

-- An iteration of the loop is a run: what holds throughout every run holds behind
-- every iteration.
theorem iterate_reached (signals : List SeatSignal) (events : List Ready) (w : World)
    (he : w.exited = false)
    (ho : Offered env events (signals.foldl (fun w m => handleSeatProperties m w) w)) :
    Reached env w (iterate env signals events w) := by
  obtain ⟨hrun, he'⟩ := signals_run env signals w he
  have hsignals : Reached env w (.ok (signals.foldl (fun w m => handleSeatProperties m w) w)) :=
    ⟨signals.map .signal, by rw [hrun]; rfl, fun w' h => by cases h; exact ⟨he', hrun⟩⟩
  exact hsignals.bind env fun w' hw' _ => by
    cases hw'
    exact dispatchAll_reached env events _ he' ho

end Loop

end Draind.Daemon
