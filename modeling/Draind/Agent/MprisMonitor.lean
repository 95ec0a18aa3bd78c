import Draind.Shared.Bytes
import Mathlib.Data.List.AList
import Mathlib.Data.Finset.Erase
import Mathlib.Data.Finset.Insert

namespace Draind.Agent

-- The unordered maps and the unordered set of the source. None of them is iterated.
structure MprisMonitor where
  wkToUnique : AList fun _ : Bytes => Bytes
  uniqueToWk : AList fun _ : Bytes => Bytes
  playing : Finset Bytes
  inhibiting : Bool

-- The callback that set_player_playing makes, if it is installed.
inductive Edge where
  | inhibit
  | uninhibit
  deriving DecidableEq

-- The value of a property in a PropertiesChanged signal.
inductive Variant where
  | string (s : Bytes)
  | other

inductive Signal where
  | nameOwnerChanged (name oldOwner newOwner : Bytes)
  | propertiesChanged (sender interface : Bytes) (changed : List (Bytes × Variant))

def inhibitReason : Bytes :=
  bytes "mpris-playing"

def playerInterface : Bytes :=
  bytes "org.mpris.MediaPlayer2.Player"

def isMprisName (name : Bytes) : Bool :=
  (bytes "org.mpris.MediaPlayer2.").isPrefixOf name

def MprisMonitor.empty : MprisMonitor :=
  ⟨∅, ∅, ∅, false⟩

def setPlayerPlaying (unique : Bytes) (isPlaying : Bool) (m : MprisMonitor) : MprisMonitor × List Edge :=
  let playing := if isPlaying then insert unique m.playing else m.playing.erase unique
  if playing ≠ ∅ ∧ ¬m.inhibiting then
    ({ m with playing := playing, inhibiting := true }, [.inhibit])
  else if playing = ∅ ∧ m.inhibiting then
    ({ m with playing := playing, inhibiting := false }, [.uninhibit])
  else ({ m with playing := playing }, [])

section SetPlayerPlaying

variable (unique : Bytes) (isPlaying : Bool) (m : MprisMonitor)

theorem setPlayerPlaying_fst :
    (setPlayerPlaying unique isPlaying m).1 =
      { m with
        playing := if isPlaying then insert unique m.playing else m.playing.erase unique
        inhibiting := (setPlayerPlaying unique isPlaying m).1.inhibiting } := by
  simp only [setPlayerPlaying]
  generalize (if isPlaying = true then insert unique m.playing else m.playing.erase unique) = playing
  split
  · rfl
  · split <;> rfl

@[simp] theorem setPlayerPlaying_wkToUnique :
    (setPlayerPlaying unique isPlaying m).1.wkToUnique = m.wkToUnique := by
  rw [setPlayerPlaying_fst]

@[simp] theorem setPlayerPlaying_uniqueToWk :
    (setPlayerPlaying unique isPlaying m).1.uniqueToWk = m.uniqueToWk := by
  rw [setPlayerPlaying_fst]

@[simp] theorem mem_setPlayerPlaying (other : Bytes) :
    other ∈ (setPlayerPlaying unique isPlaying m).1.playing ↔
      if other = unique then isPlaying = true else other ∈ m.playing := by
  rw [setPlayerPlaying_fst]
  by_cases ho : other = unique <;> cases isPlaying <;> simp [ho]

end SetPlayerPlaying

-- query is what sd_bus_get_property returns for a unique name, none on failure.
def queryPlaybackStatus (query : Bytes → Option Bytes) (unique : Bytes) (m : MprisMonitor) :
    MprisMonitor × List Edge :=
  match query unique with
  | none => (m, [])
  | some status => setPlayerPlaying unique (status = bytes "Playing") m

def addPlayer (query : Bytes → Option Bytes) (wellKnown unique : Bytes) (m : MprisMonitor) :
    MprisMonitor × List Edge :=
  queryPlaybackStatus query unique
    { m with
      wkToUnique := m.wkToUnique.insert wellKnown unique
      uniqueToWk := m.uniqueToWk.insert unique wellKnown }

def removePlayer (wellKnown : Bytes) (m : MprisMonitor) : MprisMonitor × List Edge :=
  match m.wkToUnique.lookup wellKnown with
  | none => (m, [])
  | some unique =>
      setPlayerPlaying unique false
        { m with
          wkToUnique := m.wkToUnique.erase wellKnown
          uniqueToWk := m.uniqueToWk.erase unique }

def handleNameOwnerChanged (query : Bytes → Option Bytes) (name newOwner : Bytes) (m : MprisMonitor) :
    MprisMonitor × List Edge :=
  if ¬isMprisName name then (m, [])
  else if newOwner ≠ [] then addPlayer query name newOwner m
  else removePlayer name m

-- The scan of the changed properties. A status of another type stops it.
def scanStatus (unique : Bytes) : List (Bytes × Variant) → MprisMonitor → MprisMonitor × List Edge
  | [], m => (m, [])
  | (key, value) :: rest, m =>
      if key = bytes "PlaybackStatus" then
        match value with
        | .string s =>
            let (m, first) := setPlayerPlaying unique (s = bytes "Playing") m
            let (m, edges) := scanStatus unique rest m
            (m, first ++ edges)
        | .other => (m, [])
      else scanStatus unique rest m

theorem scanStatus_of_notMem (unique : Bytes) (changed : List (Bytes × Variant)) (m : MprisMonitor)
    (h : bytes "PlaybackStatus" ∉ changed.map Prod.fst) : scanStatus unique changed m = (m, []) := by
  induction changed with
  | nil => rfl
  | cons entry rest ih =>
      obtain ⟨key, value⟩ := entry
      obtain ⟨hk, hr⟩ := not_or.mp (mt List.mem_cons.mpr h)
      rw [scanStatus.eq_def]
      simpa [Ne.symm hk] using ih hr

-- In a dictionary with each key once, the scan comes to one status at most.
theorem scanStatus_eq (unique : Bytes) (changed : List (Bytes × Variant)) (m : MprisMonitor)
    (h : (changed.map Prod.fst).Nodup) :
    scanStatus unique changed m =
      match changed.lookup (bytes "PlaybackStatus") with
      | some (.string s) => setPlayerPlaying unique (s = bytes "Playing") m
      | _ => (m, []) := by
  induction changed with
  | nil => rfl
  | cons entry rest ih =>
      obtain ⟨key, value⟩ := entry
      obtain ⟨hk, hr⟩ := List.nodup_cons.mp h
      by_cases he : key = bytes "PlaybackStatus"
      · subst he
        cases value with
        | string s => simp [scanStatus, scanStatus_of_notMem unique rest _ hk]
        | other => simp [scanStatus]
      · rw [scanStatus.eq_def, List.lookup_cons, beq_eq_false_iff_ne.mpr (Ne.symm he)]
        simpa [he] using ih hr

def handlePropertiesChanged (sender interface : Bytes) (changed : List (Bytes × Variant))
    (m : MprisMonitor) : MprisMonitor × List Edge :=
  if sender ∉ m.uniqueToWk then (m, [])
  else if interface ≠ playerInterface then (m, [])
  else scanStatus sender changed m

-- What sd_bus_process does with one message.
def handleSignal (query : Bytes → Option Bytes) (m : MprisMonitor) : Signal → MprisMonitor × List Edge
  | .nameOwnerChanged name _ newOwner => handleNameOwnerChanged query name newOwner m
  | .propertiesChanged sender interface changed => handlePropertiesChanged sender interface changed m

-- names is the answer to ListNames, owner that to GetNameOwner. The callbacks are
-- installed only after the scan, so that its edges are lost.
def scanExistingPlayers (query owner : Bytes → Option Bytes) (names : List Bytes) (m : MprisMonitor) :
    MprisMonitor :=
  names.foldl (fun m name =>
    if isMprisName name then
      match owner name with
      | none => m
      | some unique => (addPlayer query name unique m).1
    else m) m

end Draind.Agent
