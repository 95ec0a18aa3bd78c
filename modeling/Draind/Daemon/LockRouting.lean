import Draind.Daemon.Steps

namespace Draind.Daemon

open Proto

-- The descriptor a lock was written to, whether or not the write went through.
def Io.lockFd : Io → Option Fd
  | .sent fd msg _ => if msg = encodeLock then some fd else none
  | _ => none

def lockFds (out : List Io) : List Fd :=
  out.filterMap Io.lockFd

-- What send_lock_to_active_agent promises, for whatever it appends to the trace.
structure RightSession (w : World) (out : List Io) : Prop where
  atMostOne : (lockFds out).length ≤ 1
  active : (∃ a ∈ w.agents.entries, w.isActive a.2.sessionId) →
    ∃ a ∈ w.agents.entries, w.isActive a.2.sessionId ∧ lockFds out = [a.1]
  fallback : (∀ a ∈ w.agents.entries, ¬w.isActive a.2.sessionId) → lockFds out ≠ [] →
    ∃ a, w.agents.entries = [a] ∧ a.2.sessionId = []
  background : ∀ a ∈ w.agents.entries, a.2.sessionId ≠ [] → ¬w.isActive a.2.sessionId →
    a.1 ∉ lockFds out

section Routing

variable (env : Env)

-- The two loops of the function, whatever order they see the agents in.
theorem sendLockToActiveAgent_routes (w : World) :
    (∃ a ∈ w.agents.entries, w.isActive a.2.sessionId ∧
        sendLockToActiveAgent env w = send env a.1 encodeLock w) ∨
      (∀ a ∈ w.agents.entries, ¬w.isActive a.2.sessionId) ∧
        ((∃ a, w.agents.entries = [a] ∧
            sendLockToActiveAgent env w = send env a.1 encodeLock w) ∨
          (∀ a, w.agents.entries ≠ [a]) ∧ sendLockToActiveAgent env w = w) := by
  have hperm := env.agentOrder_perm w.trace w.agents.entries
  unfold sendLockToActiveAgent
  generalize env.agentOrder w.trace w.agents.entries = agents at hperm ⊢
  dsimp only
  split
  · rename_i a hfind
    have hactive : w.isActive a.2.sessionId = true := by simpa using List.find?_some hfind
    exact .inl ⟨a, hperm.mem_iff.mp (List.mem_of_find?_eq_some hfind), hactive, rfl⟩
  · rename_i hfind
    refine .inr ⟨fun a ha => ?_, ?_⟩
    · simpa using List.find?_eq_none.mp hfind a (hperm.mem_iff.mpr ha)
    · split
      · rename_i a
        exact .inl ⟨a, (List.singleton_perm.mp hperm).symm, rfl⟩
      · rename_i hsole
        refine .inr ⟨fun a ha => hsole a ?_, rfl⟩
        exact List.perm_singleton.mp (ha ▸ hperm)

theorem send_lock_trace (fd : Fd) (w : World) :
    ∃ out, (send env fd encodeLock w).trace = w.trace ++ out ∧ lockFds out = [fd] :=
  ⟨[_], rfl, by simp [lockFds, Io.lockFd]⟩

-- The entries are those of a map, so a descriptor has one of them.
theorem entry_unique {w : World} {a b : Σ _ : Fd, AgentState} (ha : a ∈ w.agents.entries)
    (hb : b ∈ w.agents.entries) (hfd : a.1 = b.1) : a = b := by
  obtain ⟨fd, agent⟩ := a
  obtain ⟨fd', agent'⟩ := b
  obtain rfl : fd = fd' := hfd
  have hl := AList.mem_lookup_iff.mpr ha
  rw [AList.mem_lookup_iff.mpr hb] at hl
  cases hl
  rfl

theorem RightSession.of_active {w : World} {out : List Io} {a : Σ _ : Fd, AgentState}
    (ha : a ∈ w.agents.entries) (hactive : w.isActive a.2.sessionId) (ho : lockFds out = [a.1]) :
    RightSession w out where
  atMostOne := by simp [ho]
  active _ := ⟨a, ha, hactive, ho⟩
  fallback hnone _ := absurd hactive (hnone a ha)
  background b hb _ hnot hmem := by
    obtain hfd : b.1 = a.1 := by simpa [ho] using hmem
    obtain rfl := entry_unique hb ha hfd
    exact hnot hactive

theorem RightSession.of_sole {w : World} {out : List Io} {a : Σ _ : Fd, AgentState}
    (ha : w.agents.entries = [a]) (hempty : a.2.sessionId = [])
    (hnone : ∀ a ∈ w.agents.entries, ¬w.isActive a.2.sessionId) (ho : lockFds out = [a.1]) :
    RightSession w out where
  atMostOne := by simp [ho]
  active := by
    rintro ⟨b, hb, hactive⟩
    exact absurd hactive (hnone b hb)
  fallback _ _ := ⟨a, ha, hempty⟩
  background b hb hne _ _ := by
    obtain rfl : b = a := by simpa [ha] using hb
    exact hne hempty

theorem RightSession.of_silent {w : World}
    (hnone : ∀ a ∈ w.agents.entries, ¬w.isActive a.2.sessionId) : RightSession w [] where
  atMostOne := by simp [lockFds]
  active := by
    rintro ⟨b, hb, hactive⟩
    exact absurd hactive (hnone b hb)
  fallback _ hsent := absurd rfl hsent
  background := by simp [lockFds]

-- The lock goes where it should exactly when the only agent there is, if there is
-- only one, has no session or the active one.
theorem rightSession_iff (w : World) :
    (∃ out, (sendLockToActiveAgent env w).trace = w.trace ++ out ∧ RightSession w out) ↔
      ∀ a, w.agents.entries = [a] → a.2.sessionId = [] ∨ w.isActive a.2.sessionId := by
  rcases sendLockToActiveAgent_routes env w with ⟨a, ha, hactive, hs⟩ | ⟨hnone, ⟨a, ha, hs⟩ | ⟨hsole, hs⟩⟩
  · obtain ⟨out, ho, hl⟩ := send_lock_trace env a.1 w
    refine iff_of_true ⟨out, by rw [hs, ho], .of_active ha hactive hl⟩ fun b hb => .inr ?_
    obtain rfl : a = b := by simpa [hb] using ha
    exact hactive
  · obtain ⟨out, ho, hl⟩ := send_lock_trace env a.1 w
    constructor
    · rintro ⟨out', ho', h⟩ b hb
      obtain rfl : out = out' := List.append_cancel_left (ho.symm.trans (hs ▸ ho'))
      obtain ⟨c, hc, hempty⟩ := h.fallback hnone (by simp [hl])
      obtain rfl : c = b := by simpa [hc] using hb
      exact .inl hempty
    · intro h
      have hna : ¬w.isActive a.2.sessionId := hnone a (by simp [ha])
      exact ⟨out, by rw [hs, ho], .of_sole ha ((h a ha).resolve_right hna) hnone hl⟩
  · exact iff_of_true ⟨[], by simp [hs], .of_silent hnone⟩ fun a ha => absurd ha (hsole a)

end Routing

-- The only agent is one of session "2", and session "1" is active.
def backgroundAgent : List Move :=
  [accept 7, readable 7 (encodeHello (bytes "2") 1000 ++ [10]), .call]

theorem rightSession_background :
    ∃ w, sampleStart = .ok w ∧
      ¬∃ out, (sendLockToActiveAgent .plain (run .plain w backgroundAgent).world).trace =
        (run .plain w backgroundAgent).world.trace ++ out ∧
        RightSession (run .plain w backgroundAgent).world out := by
  refine ⟨_, rfl, ?_⟩
  rintro ⟨out, ho, h⟩
  obtain rfl : out = [.sent 7 encodeLock true] := List.append_cancel_left (ho.symm.trans rfl)
  exact h.background ⟨7, bytes "2", 1000, []⟩ (by decide) (by decide) (by decide) (by decide)

end Draind.Daemon
