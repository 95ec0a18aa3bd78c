import Draind.Lib.Simulation
import Mathlib.Data.Set.Insert
import Mathlib.Logic.Function.Basic

namespace Draind.Policy

-- What the daemon is for, without connections, files and messages: it looks after one
-- seat, and decides when its screen is dimmed and what is done when its user sleeps
-- or presses a button.
section Policy

variable {κ σ ρ β α : Type}

inductive Decision (α : Type) where
  | dim
  | undim
  | act (a : α)

-- What is done when the user is asleep, and for each button.
structure Plan (β α : Type) where
  sleep : List α
  press : β → List α

-- A client speaks for a session, or for none, and has reasons against dimming.
structure Client (σ ρ : Type) where
  session : Option σ
  reasons : Set ρ

structure State (κ σ ρ β α : Type) where
  plan : Option (Plan β α)
  seat : Option σ
  clients : κ → Option (Client σ ρ)
  dimmed : Bool

inductive Input (κ σ ρ β α : Type) where
  | hello (c : κ) (session : Option σ)
  | inhibit (c : κ) (reason : ρ)
  | uninhibit (c : κ) (reason : ρ)
  | left (c : κ)
  | seat (session : Option σ)
  | plan (p : Option (Plan β α))
  | idle (c : κ)
  | asleep (c : κ)
  | back (c : κ)
  | press (b : β)

-- Buttons and plans come from nobody in particular.
def Input.sender : Input κ σ ρ β α → Option κ
  | .hello c _ | .inhibit c _ | .uninhibit c _ | .left c | .idle c | .asleep c | .back c => some c
  | .seat _ | .plan _ | .press _ => none

namespace State

-- The client speaks for the session at the seat.
def Attends (p : State κ σ ρ β α) (c : κ) : Prop :=
  ∃ client, p.clients c = some client ∧ client.session ≠ none ∧ client.session = p.seat

-- Whoever has a reason inhibits everybody.
def Inhibited (p : State κ σ ρ β α) : Prop :=
  ∃ c client, p.clients c = some client ∧ client.reasons.Nonempty

open Classical in
noncomputable def decisions (p : State κ σ ρ β α) : Input κ σ ρ β α → List (Decision α)
  | .idle c => if p.Attends c ∧ ¬p.Inhibited ∧ p.dimmed = false ∧ p.plan ≠ none then [.dim] else []
  | .asleep c =>
      if p.Attends c ∧ ¬p.Inhibited then (p.plan.toList.flatMap Plan.sleep).map .act else []
  | .back c => if p.Attends c ∧ p.dimmed = true ∧ p.plan ≠ none then [.undim] else []
  | .press b => (p.plan.toList.flatMap fun plan => plan.press b).map .act
  | _ => []

-- A client that is not there has no reasons to change.
def revise [DecidableEq κ] (p : State κ σ ρ β α) (f : Set ρ → Set ρ) (c : κ) : State κ σ ρ β α :=
  let client := (p.clients c).map fun client => { client with reasons := f client.reasons }
  { p with clients := Function.update p.clients c client }

open Classical in
noncomputable def next [DecidableEq κ] (p : State κ σ ρ β α) : Input κ σ ρ β α → State κ σ ρ β α
  | .hello c session => { p with clients := Function.update p.clients c (some ⟨session, ∅⟩) }
  | .inhibit c reason => p.revise (insert reason) c
  | .uninhibit c reason => p.revise (· \ {reason}) c
  | .left c => { p with clients := Function.update p.clients c none }
  | .seat session => { p with seat := session }
  | .plan plan => { p with plan := plan }
  | .idle c => { p with dimmed := p.dimmed || decide (p.decisions (.idle c) ≠ []) }
  | .back c => { p with dimmed := p.dimmed && decide (p.decisions (.back c) = []) }
  | .asleep _ | .press _ => p

end State

-- dim and undim in turn, from a screen that is dimmed or not.
def Alternating (dimmed : Bool) : List (Decision α) → Prop
  | [] => True
  | .dim :: rest => dimmed = false ∧ Alternating true rest
  | .undim :: rest => dimmed = true ∧ Alternating false rest
  | .act _ :: rest => Alternating dimmed rest

theorem alternating_acts (dimmed : Bool) (acts : List α) (rest : List (Decision α)) :
    Alternating dimmed (acts.map .act ++ rest) ↔ Alternating dimmed rest := by
  induction acts with
  | nil => rfl
  | cons a acts ih => exact ih

-- Whatever comes in, and from whom.
theorem alternating_outputs [DecidableEq κ] (inputs : List (Input κ σ ρ β α)) (p : State κ σ ρ β α) :
    Alternating p.dimmed (Simulation.outputs State.next State.decisions p inputs) := by
  induction inputs generalizing p with
  | nil => trivial
  | cons input rest ih =>
      have hrest := ih (p.next input)
      rw [Simulation.outputs]
      cases input with
      | idle c =>
          by_cases h : p.Attends c ∧ ¬p.Inhibited ∧ p.dimmed = false ∧ p.plan ≠ none
          · have hd : p.decisions (.idle c) = [.dim] := if_pos h
            have hn : (p.next (.idle c)).dimmed = true := by simp [State.next, hd]
            rw [hn] at hrest
            rw [hd]
            exact ⟨h.2.2.1, hrest⟩
          · have hd : p.decisions (.idle c) = [] := if_neg h
            have hn : (p.next (.idle c)).dimmed = p.dimmed := by simp [State.next, hd]
            rw [hn] at hrest
            rw [hd]
            exact hrest
      | back c =>
          by_cases h : p.Attends c ∧ p.dimmed = true ∧ p.plan ≠ none
          · have hd : p.decisions (.back c) = [.undim] := if_pos h
            have hn : (p.next (.back c)).dimmed = false := by simp [State.next, hd]
            rw [hn] at hrest
            rw [hd]
            exact ⟨h.2.1, hrest⟩
          · have hd : p.decisions (.back c) = [] := if_neg h
            have hn : (p.next (.back c)).dimmed = p.dimmed := by simp [State.next, hd]
            rw [hn] at hrest
            rw [hd]
            exact hrest
      | asleep c =>
          by_cases h : p.Attends c ∧ ¬p.Inhibited
          · have hd : p.decisions (.asleep c) = (p.plan.toList.flatMap Plan.sleep).map .act := if_pos h
            rw [hd, alternating_acts]
            exact hrest
          · have hd : p.decisions (.asleep c) = [] := if_neg h
            rw [hd]
            exact hrest
      | press b =>
          rw [State.decisions, alternating_acts]
          exact hrest
      | _ => exact hrest

-- Without a hello nothing a client says has an effect.
theorem ignored_of_stranger [DecidableEq κ] {p : State κ σ ρ β α} {c : κ} {input : Input κ σ ρ β α}
    (hp : p.clients c = none) (hs : input.sender = some c) (hno : ∀ session, input ≠ .hello c session) :
    p.decisions input = [] ∧ p.next input = p := by
  have hnot : ¬p.Attends c := by
    rintro ⟨client, hc, -⟩
    rw [hp] at hc
    cases hc
  have hsame : Function.update p.clients c none = p.clients := hp ▸ Function.update_eq_self c p.clients
  have hrevise : ∀ f, p.revise f c = p := by
    intro f
    rw [State.revise, hp, Option.map_none, hsame]
  cases input with
  | hello c' session =>
      obtain rfl : c' = c := Option.some.inj hs
      exact absurd rfl (hno session)
  | inhibit c' reason =>
      obtain rfl : c' = c := Option.some.inj hs
      exact ⟨rfl, hrevise _⟩
  | uninhibit c' reason =>
      obtain rfl : c' = c := Option.some.inj hs
      exact ⟨rfl, hrevise (· \ {reason})⟩
  | left c' =>
      obtain rfl : c' = c := Option.some.inj hs
      refine ⟨rfl, ?_⟩
      rw [State.next, hsame]
  | idle c' =>
      obtain rfl : c' = c := Option.some.inj hs
      have hd : p.decisions (.idle c') = [] := if_neg fun h => hnot h.1
      exact ⟨hd, by simp [State.next, hd]⟩
  | asleep c' =>
      obtain rfl : c' = c := Option.some.inj hs
      exact ⟨if_neg fun h => hnot h.1, rfl⟩
  | back c' =>
      obtain rfl : c' = c := Option.some.inj hs
      have hd : p.decisions (.back c') = [] := if_neg fun h => hnot h.1
      exact ⟨hd, by simp [State.next, hd]⟩
  | seat session => cases hs
  | plan plan => cases hs
  | press b => cases hs

theorem next_clients_of_ne [DecidableEq κ] (p : State κ σ ρ β α) {c : κ} {input : Input κ σ ρ β α}
    (hs : input.sender ≠ some c) : (p.next input).clients c = p.clients c := by
  have hne : ∀ c', input.sender = some c' → c ≠ c' := fun c' h he => hs (he ▸ h)
  cases input with
  | hello c' session => exact Function.update_of_ne (hne c' rfl) _ _
  | inhibit c' reason => exact Function.update_of_ne (hne c' rfl) _ _
  | uninhibit c' reason => exact Function.update_of_ne (hne c' rfl) _ _
  | left c' => exact Function.update_of_ne (hne c' rfl) _ _
  | _ => rfl

-- What it says can be left out.
theorem outputs_without_stranger [DecidableEq κ] (c : κ) (inputs : List (Input κ σ ρ β α))
    (p : State κ σ ρ β α) (hp : p.clients c = none) (hno : ∀ session, .hello c session ∉ inputs) :
    Simulation.outputs State.next State.decisions p inputs =
      Simulation.outputs State.next State.decisions p (inputs.filter fun i => decide (i.sender ≠ some c)) := by
  induction inputs generalizing p with
  | nil => rfl
  | cons input rest ih =>
      have hrest : ∀ session, .hello c session ∉ rest := fun session hm => hno session (.tail _ hm)
      by_cases hs : input.sender = some c
      · have hhello : ∀ session, input ≠ .hello c session := fun session he => hno session (he ▸ .head _)
        obtain ⟨hd, hn⟩ := ignored_of_stranger hp hs hhello
        rw [List.filter_cons_of_neg (by simp [hs]), Simulation.outputs, hd, hn, List.nil_append]
        exact ih p hp hrest
      · have hn := (next_clients_of_ne p hs).trans hp
        rw [List.filter_cons_of_pos (by simp [hs]), Simulation.outputs, Simulation.outputs,
          ih (p.next input) hn hrest]

end Policy

end Draind.Policy
