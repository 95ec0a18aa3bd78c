import Draind.Json.RoundTrip
import Draind.Shared.Protocol

namespace Draind.Proto

open Draind.Json

-- The line stands for the message, and goes over a stream of lines as it is.
structure Readable (line : Bytes) (msg : Value) : Prop where
  decoded : decode line = .ok msg
  whole : 10 ∉ line
  nonempty : line ≠ []

theorem Readable.unique {line : Bytes} {msg msg' : Value} (h : Readable line msg)
    (h' : Readable line msg') : msg = msg' := by
  simpa [h.decoded] using h'.decoded

theorem readables_unique {lines : List Bytes} {messages messages' : List Value}
    (h : List.Forall₂ Readable lines messages) (h' : List.Forall₂ Readable lines messages') :
    messages = messages' :=
  List.right_unique_forall₂' (fun _ _ _ hmsg hmsg' => hmsg.unique hmsg') h h'

-- Lines that decode to messages of different types differ.
theorem Readable.ne {line line' : Bytes} {msg msg' : Value} (h : Readable line msg)
    (h' : Readable line' msg') (ht : msgType msg ≠ msgType msg') : line ≠ line' := by
  rintro rfl
  exact ht (congrArg msgType (h.unique h'))

theorem readable_dump (msg : Value) (h : Plain msg) : Readable (dump msg) msg := by
  obtain ⟨c, text, hc, -⟩ := Parser.dump_head msg h
  exact ⟨parse_dump msg h, dump_notMem_newline msg h, by simp [hc]⟩

theorem plainMembers_iff (members : List (Bytes × Value)) :
    PlainMembers members ↔ ∀ m ∈ members, Plain m.2 := by
  induction members with
  | nil => simp [PlainMembers]
  | cons m rest ih => simp [PlainMembers, ih]

theorem plainElements_iff (elements : List Value) :
    PlainElements elements ↔ ∀ e ∈ elements, Plain e := by
  induction elements with
  | nil => simp [PlainElements]
  | cons e rest ih => simp [PlainElements, ih]

-- An assignment to a field keeps a message free of doubles.
theorem plain_set (v : Value) (key : Bytes) (field : Value) (hv : Plain v) (hf : Plain field) :
    Plain (v.set key field) := by
  have hobject : (v.getObject.map Prod.fst).Pairwise (· < ·) ∧ PlainMembers v.getObject := by
    cases v with
    | object members => exact hv
    | _ => exact ⟨.nil, trivial⟩
  have hmembers := SortedMap.insert_all key hf ((plainMembers_iff _).mp hobject.2)
  exact ⟨SortedMap.insert_sorted key field _ hobject.1, (plainMembers_iff _).mpr hmembers⟩

-- The keys of hello and of the messages with a reason, as the map sorts them.
theorem helloKeys_sorted : [bytes "session_id", bytes "type", bytes "uid"].Pairwise (· < ·) := by
  decide

theorem reasonKeys_sorted : [bytes "reason", bytes "type"].Pairwise (· < ·) := by
  decide

theorem plain_plain (type : Bytes) : Plain (plain type) :=
  ⟨List.pairwise_singleton _ _, trivial, trivial⟩

theorem readable_hello (sessionId : Bytes) (uid : UInt32) :
    ∃ msg, Readable (encodeHello sessionId uid) msg ∧ msgType msg = T_HELLO :=
  ⟨_, readable_dump _ ⟨helloKeys_sorted, trivial, trivial, trivial, trivial⟩, rfl⟩

theorem readable_inhibit (reason : Bytes) :
    ∃ msg, Readable (encodeInhibit reason) msg ∧ msgType msg = T_INHIBIT ∧
      msg.str (bytes "reason") [] = reason :=
  ⟨_, readable_dump _ ⟨reasonKeys_sorted, trivial, trivial, trivial⟩, rfl, rfl⟩

theorem readable_uninhibit (reason : Bytes) :
    ∃ msg, Readable (encodeUninhibit reason) msg ∧ msgType msg = T_UNINHIBIT ∧
      msg.str (bytes "reason") [] = reason :=
  ⟨_, readable_dump _ ⟨reasonKeys_sorted, trivial, trivial, trivial⟩, rfl, rfl⟩

theorem readable_plain (type : Bytes) :
    ∃ msg, Readable (dump (plain type)) msg ∧ msgType msg = type :=
  ⟨_, readable_dump _ (plain_plain type), rfl⟩

-- What config messages say is what the agent reads in them.
theorem decode_config (dimTimeout sleepTimeout : Int32) :
    ∃ msg, decode (encodeConfig dimTimeout sleepTimeout) = .ok msg ∧ msgType msg = T_CONFIG ∧
      msg.num (bytes "dim_timeout") 0 = dimTimeout.toInt64 ∧
      msg.num (bytes "sleep_timeout") 0 = sleepTimeout.toInt64 :=
  ⟨_, parse_dump _ (plain_set _ _ (.int _) (plain_set _ _ (.int _) (plain_plain _) trivial) trivial),
    rfl, rfl, rfl⟩

theorem decode_ctlReply (fields : Value) (h : Plain fields) :
    ∃ msg, decode (encodeCtlReply fields) = .ok msg ∧ msgType msg = T_CTL_REPLY :=
  ⟨_, parse_dump _ (plain_set _ _ _ h trivial), Value.str_set fields _ _ _⟩

end Draind.Proto
