import Draind.Daemon.Malformed
import Draind.Json.Accepted

namespace Draind.Daemon

open Grammar Json Proto

-- A line that parse rejects closes its connection.
theorem onLine_rejected (env : Env) (fd : Fd) (line : Bytes) (w : World) (h : ¬∃ v, parse line = .ok v) :
    onLine env fd line w = .ok (closeClient fd (w.emit (.line fd line))) := by
  cases hd : decode line with
  | error e => exact onLine_malformed env fd line e w hd
  | ok v => exact absurd ⟨v, hd⟩ h

theorem onMessage_untyped (env : Env) (fd : Fd) (msg : Value) (w : World) (h : msgType msg = []) :
    onMessage env fd msg w = .ok w := by
  have hhello : [] ≠ T_HELLO := by decide
  have hctl : [] ≠ T_CTL := by decide
  have hdim : [] ≠ T_IDLE_DIM := by decide
  have hsleep : [] ≠ T_IDLE_SLEEP := by decide
  have hactive : [] ≠ T_ACTIVE := by decide
  have hinhibit : [] ≠ T_INHIBIT := by decide
  have huninhibit : [] ≠ T_UNINHIBIT := by decide
  rw [onMessage, h]
  simp [hhello, hctl, hdim, hsleep, hactive, hinhibit, huninhibit]

-- Everything between the tokens is checked. What is accepted is JSON, and what is not
-- JSON closes its connection, just when the tokens are spelled right and only blanks
-- stand behind the value.
theorem accepted_json_iff (s : Bytes) :
    ((∀ v, parse s = .ok v → IsJson s) ∧
      ∀ env fd w, ¬IsJson s → onLine env fd s w = .ok (closeClient fd (w.emit (.line fd s)))) ↔
    ∀ ts rest, Parser.taken s = some (ts, rest) →
      (∀ t ∈ ts, Literal t ∨ Number t ∨ StringLiteral t) ∧ Blank rest := by
  have htoken : ∀ t, lexicon.Token t ↔ Literal t ∨ Number t ∨ StringLiteral t := fun t => or_assoc
  simp only [← htoken]
  constructor
  · rintro ⟨haccepted, -⟩ ts rest ht
    obtain ⟨v, hv⟩ := (Parser.parse_taken s).mpr ⟨ts, rest, ht⟩
    exact (Parser.taken_json ht).mp (haccepted v hv)
  · intro hspelled
    have hjson : (∃ v, parse s = .ok v) → IsJson s := by
      intro hv
      obtain ⟨ts, rest, ht⟩ := (Parser.parse_taken s).mp hv
      exact (Parser.taken_json ht).mpr (hspelled ts rest ht)
    exact ⟨fun v hv => hjson ⟨v, hv⟩, fun env fd w hnot => onLine_rejected env fd s w (mt hjson hnot)⟩

-- A word that begins like null is accepted and the connection stays open.
theorem accepted_nope :
    parse (bytes "nope") = .ok .null ∧ ¬IsJson (bytes "nope") ∧
    ∀ env fd w, onLine env fd (bytes "nope") w = .ok (w.emit (.line fd (bytes "nope"))) := by
  have hread : parse (bytes "nope") = .ok .null := rfl
  refine ⟨hread, fun hjson => ?_, fun env fd w => ?_⟩
  · have htaken : Parser.taken (bytes "nope") = some ([bytes "nope"], []) := rfl
    obtain ⟨htoken, -⟩ := (Parser.taken_json htaken).mp hjson
    rcases htoken (bytes "nope") (by simp) with (hliteral | hnumber) | ⟨body, hstring, -⟩
    · rcases hliteral with h | h | h <;> exact absurd h (by decide)
    · obtain ⟨c, q, hc, hstart⟩ := Parser.number_starts hnumber
      cases hc
      exact absurd hstart (by decide)
    · cases hstring
  · exact (onLine_message env fd _ _ w hread).trans (onMessage_untyped env fd _ _ rfl)

end Draind.Daemon
